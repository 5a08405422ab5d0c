/-
# Null-terminated chains of links

`Links next p l` says that following `next` from the (possibly null) link `p` visits exactly
the cells of `l`, in order, and then reaches null.  It is what the loop
`for (n = p; n; n = n->next)` walks.

The successor function is total on cells and its value `none` is the null link.  A cell's link
is overwritten by `Function.update`; section 2 says what each of the usual pointer assignments
does to a chain: a write outside the chain (`Links.update`), a push at its head
(`Links.push`) or behind its last cell (`Links.concat`), and the two ways to unlink a cell
(`Links.tail`, `Links.unlink`).
-/
import Mathlib.Data.List.Nodup
import Mathlib.Logic.Function.Basic

variable {α : Type}

/-- Following `next` from `p` visits the cells of `l` and stops at null. -/
inductive Links (next : α → Option α) : Option α → List α → Prop
  | nil : Links next none []
  | cons {p : α} {l : List α} : Links next (next p) l → Links next (some p) (p :: l)

namespace Links

variable {next next' : α → Option α} {p : Option α} {l r : List α} {x y : α}

/-! ## 1. A chain is determined by its first link -/

theorem head (h : Links next p l) : p = l.head? := by
  cases h with
  | nil => rfl
  | cons _ => rfl

theorem tail (h : Links next (some x) (x :: l)) : Links next (next x) l := by
  cases h with
  | cons h => exact h

theorem nil_iff : Links next none l ↔ l = [] := by
  constructor
  · intro h
    cases h with
    | nil => rfl
  · rintro rfl
    exact .nil

/-- The chain from a link is unique: the walk is deterministic. -/
theorem unique (h : Links next p l) : ∀ {r}, Links next p r → l = r := by
  induction h with
  | nil => exact fun h => (nil_iff.mp h).symm
  | cons _ ih =>
    intro r hr
    cases hr with
    | cons hr => rw [ih hr]

/-- From any cell of a chain the walk goes on through the rest of it. -/
theorem suffix : ∀ {l : List α} {p : Option α}, Links next p (l ++ x :: r) →
    Links next (some x) (x :: r)
  | [], _, h => by
    obtain rfl := h.head
    exact h
  | _ :: l, _, h => by
    cases h with
    | cons h => exact suffix (l := l) h

/-- The cell after a cell of a chain is one of the chain. -/
theorem mem_of_next (h : Links next p l) (hx : x ∈ l) (hy : next x = some y) : y ∈ l := by
  obtain ⟨a, b, rfl⟩ := List.append_of_mem hx
  have hb := h.suffix.tail.head
  rw [hy] at hb
  exact List.mem_append_right _ (List.mem_cons_of_mem _ (List.mem_of_head? hb.symm))

/-- **A chain that ends visits no cell twice.**  A second visit would start the same walk over
again, and it would never reach null. -/
theorem nodup (h : Links next p l) : l.Nodup := by
  induction h with
  | nil => exact List.nodup_nil
  | @cons p l h ih =>
    refine List.nodup_cons.mpr ⟨fun hp => ?_, ih⟩
    obtain ⟨a, b, hab⟩ := List.append_of_mem hp
    have hb : Links next (some p) (p :: b) := suffix (hab ▸ h)
    have hl : l = b := List.tail_eq_of_cons_eq (unique (.cons h) hb)
    have hlen := congrArg List.length hab
    rw [← hl] at hlen
    simp at hlen
    omega

/-! ## 2. What pointer assignments do to a chain -/

/-- A chain only reads the links of its own cells. -/
theorem congr (h : Links next p l) : (∀ c ∈ l, next c = next' c) → Links next' p l := by
  induction h with
  | nil => exact fun _ => .nil
  | @cons c l _ ih =>
    intro hc
    have hl := ih fun d hd => hc d (List.mem_cons_of_mem _ hd)
    rw [hc c List.mem_cons_self] at hl
    exact .cons hl

variable [DecidableEq α]

/-- Writing the link of a cell outside the chain leaves the chain alone. -/
theorem update {v : Option α} (h : Links next p l) (hx : x ∉ l) :
    Links (Function.update next x v) p l := by
  refine h.congr fun c hc => ?_
  have hcx : c ≠ x := by
    rintro rfl
    exact hx hc
  rw [Function.update_of_ne hcx]

/-- Pushing a cell at the head: its link is set to the old head. -/
theorem push (h : Links next p l) (hx : x ∉ l) :
    Links (Function.update next x p) (some x) (x :: l) := by
  refine .cons ?_
  rw [Function.update_self]
  exact h.update hx

/-- Linking the last cell to one that is not in the chain, and has no link. -/
theorem concat : ∀ {l : List α} {p : Option α}, Links next p (l ++ [y]) → x ∉ l ++ [y] →
    next x = none → Links (Function.update next y (some x)) p (l ++ [y, x])
  | [], p, h, hx, hnext => by
    obtain rfl := h.head
    have hxy : x ≠ y := by simpa using hx
    refine .cons ?_
    rw [Function.update_self]
    refine .cons ?_
    rw [Function.update_of_ne hxy, hnext]
    exact .nil
  | c :: l, p, h, hx, hnext => by
    have hnd := h.nodup
    cases h with
    | cons h =>
      have hcy : c ≠ y := by
        rintro rfl
        simp at hnd
      refine .cons ?_
      rw [Function.update_of_ne hcy]
      exact concat h (fun hmem => hx (List.mem_cons_of_mem _ hmem)) hnext

/-- Unlinking the successor of `y`: its link is set past the unlinked cell. -/
theorem unlink : ∀ {l : List α} {p : Option α}, Links next p (l ++ y :: x :: r) →
    Links (Function.update next y (next x)) p (l ++ y :: r)
  | [], p, h => by
    have hnd := h.nodup
    obtain rfl := h.head
    have hr : Links next (next x) r := by
      have h1 := h.tail
      obtain h2 := h1.head
      rw [h2] at h1
      exact h1.tail
    refine .cons ?_
    rw [Function.update_self]
    refine hr.update fun hy => ?_
    simp at hnd
    exact hnd.1.2 hy
  | c :: l, p, h => by
    have hnd := h.nodup
    cases h with
    | cons h =>
      refine .cons ?_
      have hcy : c ≠ y := by
        rintro rfl
        simp at hnd
      rw [Function.update_of_ne hcy]
      exact unlink h

end Links
