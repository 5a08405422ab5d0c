/-
# Texts in parts

A text is a list of symbols, and some of them separate the others.  `terminated p` are the parts of
a text that a separator ends, such as the lines of a file; `tokens p` are the parts that are not
empty, such as the words of a line.  Both are read from the front, one part at a time
(`terminated_append`, `tokens_append`), and parts that have been written are read back
(`terminated_flatMap`, `tokens_intercalate`).

`joined sep f` puts together the pieces that `f` finds in a list: pieces of neighbours with `sep`
between them, others without.
-/
import Mathlib.Data.List.Basic

namespace Fields

variable {α β : Type}

/-- The parts of a text that end with a separator. -/
def terminated (p : α → Bool) (l : List α) : List (List α) := (l.splitOnP p).dropLast

/-- The parts of a text that are not empty. -/
def tokens (p : α → Bool) (l : List α) : List (List α) := (l.splitOnP p).filter fun w => !w.isEmpty

/-- The part holds no separator. -/
def Plain (p : α → Bool) (l : List α) : Prop := ∀ x ∈ l, p x = false

variable {p : α → Bool} {part l : List α} {sep : α}

/-! ## 1. Parts without separators -/

theorem Plain.nil : Plain p [] := fun _ hx => absurd hx List.not_mem_nil

theorem Plain.append {r : List α} (hl : Plain p l) (hr : Plain p r) : Plain p (l ++ r) := by
  intro x hx
  rcases List.mem_append.mp hx with h | h
  · exact hl x h
  · exact hr x h

/-- The parts that separators cut are plain. -/
theorem plain_of_mem_splitOnP (h : part ∈ l.splitOnP p) : Plain p part := by
  induction l generalizing part with
  | nil =>
    obtain rfl : part = [] := by simpa using h
    exact .nil
  | cons x l ih =>
    rw [List.splitOnP_cons_eq_if_modifyHead] at h
    split at h
    · rcases List.mem_cons.mp h with rfl | h
      · exact .nil
      · exact ih h
    · rename_i hx
      obtain ⟨w, ws, hw⟩ := List.exists_cons_of_ne_nil (List.splitOnP_ne_nil p l)
      rw [hw] at h ih
      rcases List.mem_cons.mp h with rfl | h
      · exact List.forall_mem_cons.mpr ⟨by simpa using hx, ih List.mem_cons_self⟩
      · exact ih (List.mem_cons_of_mem _ h)

theorem subset_of_mem_splitOnP (h : part ∈ l.splitOnP p) : part ⊆ l := by
  induction l generalizing part with
  | nil =>
    obtain rfl : part = [] := by simpa using h
    exact List.nil_subset _
  | cons x l ih =>
    rw [List.splitOnP_cons_eq_if_modifyHead] at h
    split at h
    · rcases List.mem_cons.mp h with rfl | h
      · exact List.nil_subset _
      · exact List.subset_cons_of_subset x (ih h)
    · obtain ⟨w, ws, hw⟩ := List.exists_cons_of_ne_nil (List.splitOnP_ne_nil p l)
      rw [hw] at h ih
      rcases List.mem_cons.mp h with rfl | h
      · exact List.cons_subset_cons x (ih List.mem_cons_self)
      · exact List.subset_cons_of_subset x (ih (List.mem_cons_of_mem _ h))

/-! ## 2. Parts with an end -/

theorem terminated_of_plain (h : Plain p l) : terminated p l = [] := by
  unfold terminated
  rw [List.splitOnP_eq_singleton h]
  rfl

/-- **The first part with an end.** -/
theorem terminated_append (hpart : Plain p part) (hsep : p sep = true) (l : List α) :
    terminated p (part ++ sep :: l) = part :: terminated p l := by
  unfold terminated
  rw [List.splitOnP_append_cons_of_forall_mem hpart sep hsep,
    List.dropLast_cons_of_ne_nil (List.splitOnP_ne_nil p l)]

theorem plain_of_mem_terminated (h : part ∈ terminated p l) : Plain p part :=
  plain_of_mem_splitOnP (List.dropLast_subset _ h)

theorem subset_of_mem_terminated (h : part ∈ terminated p l) : part ⊆ l :=
  subset_of_mem_splitOnP (List.dropLast_subset _ h)

/-- A text behind one that ends with a separator. -/
theorem terminated_concat (hsep : p sep = true) (front l : List α) :
    terminated p (front ++ sep :: l) = terminated p (front ++ [sep]) ++ terminated p l := by
  unfold terminated
  rw [List.splitOnP_append_cons front l hsep, List.splitOnP_append_cons front [] hsep,
    List.dropLast_append_of_ne_nil (List.splitOnP_ne_nil p l)]
  simp

/-- **Parts that are written with an end** are read back. -/
theorem terminated_flatMap {parts : List (List α)} (hparts : ∀ part ∈ parts, Plain p part)
    (hsep : p sep = true) (l : List α) :
    terminated p (parts.flatMap (· ++ [sep]) ++ l) = parts ++ terminated p l := by
  induction parts with
  | nil => rfl
  | cons part parts ih =>
    have hfirst := List.forall_mem_cons.mp hparts
    rw [List.flatMap_cons, List.append_assoc, List.append_assoc, List.singleton_append,
      terminated_append hfirst.1 hsep, ih hfirst.2, List.cons_append]

/-! ## 3. Parts that are not empty -/

@[simp] theorem tokens_nil : tokens p [] = [] := rfl

theorem tokens_sep (hsep : p sep = true) (l : List α) : tokens p (sep :: l) = tokens p l := by
  unfold tokens
  rw [List.splitOnP_cons_eq_if_modifyHead, if_pos hsep]
  rfl

/-- Separators in front do not count. -/
theorem tokens_dropWhile {q : α → Bool} (hq : ∀ x, q x = true → p x = true) (l : List α) :
    tokens p (l.dropWhile q) = tokens p l := by
  induction l with
  | nil => rfl
  | cons x l ih =>
    cases hx : q x with
    | true => rw [List.dropWhile_cons_of_pos hx, ih, tokens_sep (hq x hx)]
    | false => rw [List.dropWhile_cons_of_neg (by simp [hx])]

/-- **The first token.** -/
theorem tokens_append (hpart : Plain p part) (hne : part ≠ [])
    (hl : l = [] ∨ ∃ sep r, p sep = true ∧ l = sep :: r) :
    tokens p (part ++ l) = part :: tokens p l := by
  have hkeep : ∀ ws, List.filter (fun w => !w.isEmpty) (part :: ws) =
      part :: List.filter (fun w => !w.isEmpty) ws := fun ws =>
    List.filter_cons_of_pos (by simpa using hne)
  rcases hl with rfl | ⟨sep, r, hsep, rfl⟩
  · unfold tokens
    rw [List.append_nil, List.splitOnP_eq_singleton hpart, hkeep]
    rfl
  · rw [tokens_sep hsep]
    unfold tokens
    rw [List.splitOnP_append_cons_of_forall_mem hpart sep hsep, hkeep]

theorem mem_tokens (h : part ∈ tokens p l) : part ≠ [] ∧ Plain p part := by
  obtain ⟨hmem, hne⟩ := List.mem_filter.mp h
  exact ⟨by simpa using hne, plain_of_mem_splitOnP hmem⟩

/-- **Tokens that are written with a separator between them** are read back. -/
theorem tokens_intercalate {parts : List (List α)}
    (hparts : ∀ part ∈ parts, part ≠ [] ∧ Plain p part)
    (hsep : p sep = true) : tokens p ([sep].intercalate parts) = parts := by
  induction parts with
  | nil => rfl
  | cons part parts ih =>
    obtain ⟨⟨hne, hpart⟩, hrest⟩ := List.forall_mem_cons.mp hparts
    cases parts with
    | nil =>
      have h := tokens_append hpart hne (.inl rfl)
      simpa using h
    | cons next parts =>
      rw [List.intercalate_cons_cons, List.append_assoc, List.singleton_append,
        tokens_append hpart hne (.inr ⟨sep, _, hsep, rfl⟩), tokens_sep hsep, ih hrest]

/-- There are not more tokens than symbols. -/
theorem length_tokens_le (l : List α) : (tokens p l).length ≤ l.length := by
  induction l with
  | nil => exact Nat.le_refl 0
  | cons x l ih =>
    unfold tokens at ih ⊢
    rw [List.splitOnP_cons_eq_if_modifyHead]
    split
    · rw [List.filter_cons_of_neg (by simp)]
      exact Nat.le_succ_of_le ih
    · obtain ⟨w, ws, hw⟩ := List.exists_cons_of_ne_nil (List.splitOnP_ne_nil p l)
      rw [hw] at ih ⊢
      have hws : (ws.filter fun w => !w.isEmpty).length ≤ l.length :=
        Nat.le_trans (((List.sublist_cons_self w ws).filter _).length_le) ih
      rw [List.modifyHead_cons, List.filter_cons_of_pos (by simp)]
      exact Nat.succ_le_succ hws

/-! ## 4. Pieces of neighbours -/

/-- The pieces that `f` finds in a list.  `prev` tells whether there is a piece
just in front of it. -/
def joined (sep : β) (f : α → Option (List β)) : Bool → List α → List β
  | _, [] => []
  | prev, a :: as =>
    match f a with
    | none => joined sep f false as
    | some t => (if prev then sep :: t else t) ++ joined sep f true as

/-- The last of a list has a piece. -/
def endsIn (f : α → Option (List β)) : Bool → List α → Bool
  | prev, [] => prev
  | _, a :: as => endsIn f (f a).isSome as

section

variable {sep : β} {f : α → Option (List β)}

theorem joined_append (prev : Bool) (as bs : List α) :
    joined sep f prev (as ++ bs) = joined sep f prev as ++ joined sep f (endsIn f prev as) bs := by
  induction as generalizing prev with
  | nil => rfl
  | cons a as ih =>
    rw [List.cons_append, joined, joined, endsIn]
    cases f a with
    | none => exact ih false
    | some t =>
      dsimp only
      rw [ih true, List.append_assoc]
      rfl

theorem endsIn_append (prev : Bool) (as bs : List α) :
    endsIn f prev (as ++ bs) = endsIn f (endsIn f prev as) bs := by
  induction as generalizing prev with
  | nil => rfl
  | cons a as ih => exact ih _

/-- Where there are no pieces. -/
theorem joined_of_none {as : List α} (has : ∀ a ∈ as, f a = none) (prev : Bool) :
    joined sep f prev as = [] := by
  induction as generalizing prev with
  | nil => rfl
  | cons a as ih =>
    obtain ⟨ha, has⟩ := List.forall_mem_cons.mp has
    rw [joined, ha]
    exact ih has false

theorem endsIn_of_none {as : List α} (has : ∀ a ∈ as, f a = none) : endsIn f false as = false := by
  induction as with
  | nil => rfl
  | cons a as ih =>
    obtain ⟨ha, has⟩ := List.forall_mem_cons.mp has
    rw [endsIn, ha]
    exact ih has

/-- **Neighbours with a piece each**, up to one without. -/
theorem joined_map {g : List β → α} (hg : ∀ t, f (g t) = some t) {ts : List (List β)}
    (hts : ts ≠ [])
    {as : List α} (has : ∀ a ∈ as, f a = none) :
    joined sep f false (ts.map g ++ as) = [sep].intercalate ts := by
  -- behind another piece there is one separator more
  have hmore : ∀ prev, joined sep f prev (ts.map g ++ as) =
      (if prev then [sep] else []) ++ [sep].intercalate ts := by
    induction ts with
    | nil => exact absurd rfl hts
    | cons t ts ih =>
      intro prev
      rw [List.map_cons, List.cons_append, joined, hg]
      dsimp only
      cases ts with
      | nil =>
        rw [List.map_nil, List.nil_append, joined_of_none has true]
        cases prev with
        | true => simp
        | false => simp
      | cons u ts =>
        rw [ih (List.cons_ne_nil _ _) true, List.intercalate_cons_cons]
        cases prev with
        | true => simp
        | false => simp
  exact hmore false

variable [DecidableEq β] {good : β → Prop}

/-- Every part of the text begins with a good symbol, if it is not empty. -/
def Begins (good : β → Prop) (sep : β) (t : List β) : Prop :=
  ∀ part ∈ t.splitOn sep, ∀ x ∈ part.head?, good x

theorem Begins.nil : Begins good sep [] := by
  intro part hpart x hx
  obtain rfl : part = [] := by simpa using hpart
  cases hx

/-- A piece in front of a text, in the first part of it. -/
theorem Begins.append {part t : List β} (hsep : sep ∉ part) (hpart : ∀ x ∈ part.head?, good x)
    (ht : Begins good sep t) : Begins good sep (part ++ t) := by
  have hsplit : (part ++ t).splitOn sep = (t.splitOn sep).modifyHead (part ++ ·) := by
    clear hpart
    induction part with
    | nil =>
      obtain ⟨w, ws, hw⟩ := List.exists_cons_of_ne_nil (List.splitOn_ne_nil sep t)
      rw [List.nil_append, hw]
      rfl
    | cons y part ih =>
      have hy : sep ≠ y := List.ne_of_not_mem_cons hsep
      have hrest : sep ∉ part := List.not_mem_of_not_mem_cons hsep
      obtain ⟨w, ws, hw⟩ := List.exists_cons_of_ne_nil (List.splitOn_ne_nil sep t)
      rw [List.cons_append, List.splitOn_cons_eq_if_modifyHead, if_neg (by simpa using Ne.symm hy),
        ih hrest, hw]
      rfl
  obtain ⟨w, ws, hw⟩ := List.exists_cons_of_ne_nil (List.splitOn_ne_nil sep t)
  unfold Begins at ht ⊢
  rw [hsplit, hw]
  rw [hw] at ht
  intro part' hmem x hx
  rcases List.mem_cons.mp hmem with rfl | hmem
  · cases part with
    | nil => exact ht w List.mem_cons_self x hx
    | cons y part => exact hpart x hx
  · exact ht part' (List.mem_cons_of_mem _ hmem) x hx

theorem Begins.cons {t : List β} (ht : Begins good sep t) : Begins good sep (sep :: t) := by
  unfold Begins
  rw [List.splitOn_cons_eq_if_modifyHead, if_pos (beq_self_eq_true sep)]
  intro part hmem x hx
  rcases List.mem_cons.mp hmem with rfl | hmem
  · cases hx
  · exact ht part hmem x hx

/-- **Pieces that begin well**, and hold no separator, are a text that does. -/
theorem Begins.joined {as : List α}
    (hf : ∀ a ∈ as, ∀ t, f a = some t → sep ∉ t ∧ ∀ x ∈ t.head?, good x) (prev : Bool) :
    Begins good sep (joined sep f prev as) := by
  induction as generalizing prev with
  | nil => exact .nil
  | cons a as ih =>
    obtain ⟨hfirst, hrest⟩ := List.forall_mem_cons.mp hf
    rw [Fields.joined]
    cases ha : f a with
    | none => exact ih hrest false
    | some t =>
      obtain ⟨hsep, ht⟩ := hfirst t ha
      have hall := (ih hrest true).append hsep ht
      cases prev with
      | false => exact hall
      | true => exact hall.cons

end

end Fields
