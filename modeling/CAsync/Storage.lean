/-
# The ring queue of `storage.h`

`queue_push_back`, `queue_push_front`, `queue_pop_back`, `queue_pop_front` and
`queue_peek_front` are macros over any struct with the fields `elems`, `start`, `end`, `cap`;
here they are functions on `RingQueue α`.  The graph scheduler uses them at `Node *`, the queue
scheduler at `Handle`.

Section 1 is the source.  Section 2 says what a ring queue holds: `q.Holds l` reads the
elements of `l` at `start`, `start + 1`, ... modulo `cap`, with one cell always left empty, so
that `start = end` means empty.  Section 3 is one lemma per macro: each of them acts on the
list `l` as the plain list operation does, and none of its assertions or accesses can fail,
except `Underflow` on the empty list.
-/
import CAsync.Fault
import Mathlib.Data.List.Basic

namespace CAsync

open Faulting

variable {α : Type}

/-! ## 1. The macros -/

/-- The fields the queue macros use.  `end` is a keyword of Lean. -/
structure RingQueue (α : Type) where
  elems : List α
  start : Nat
  end_ : Nat
  cap : Nat

namespace RingQueue

/-- The zeroed struct a queue starts as. -/
def zero : RingQueue α := { elems := [], start := 0, end_ := 0, cap := 0 }

/-- `__queue_next`. -/
def queueNext (x cap : Nat) : Nat := (x + 1) % cap

/-- `__queue_prev`. -/
def queuePrev (x cap : Nat) : Nat := if x = 0 then cap - 1 else x - 1

/-- `memmove(mem + dst, mem, n)` in elements, for a destination behind the source. -/
def memmove (mem : List α) (dst n : Nat) : List α :=
  mem.take dst ++ mem.take n ++ mem.drop (dst + n)

/-- `__queue_expand`.  The cells that `realloc` adds are indeterminate; they read as the
default element here. -/
def queueExpand [Inhabited α] (q : RingQueue α) : Except Fault (RingQueue α) := do
  let newCap := q.cap * 2 + 10
  let elems := q.elems ++ List.replicate (newCap - q.cap) default
  require (q.cap + q.end_ ≤ newCap) .queueExpand
  if q.end_ < q.start then
    .ok { elems := memmove elems q.cap q.end_, start := q.start,
          end_ := (q.cap + q.end_) % newCap, cap := newCap }
  else
    .ok { q with elems := elems, cap := newCap }

/-- The statement `if (cond) { __queue_expand(q); }`. -/
def queueExpandIf [Inhabited α] (cond : Prop) [Decidable cond] (q : RingQueue α) :
    Except Fault (RingQueue α) :=
  if cond then queueExpand q else .ok q

/-- `queue_push_back`. -/
def queuePushBack [Inhabited α] (q : RingQueue α) (elem : α) : Except Fault (RingQueue α) := do
  let q ← queueExpandIf (q.cap = 0) q
  let q ← queueExpandIf ((q.end_ + 1) % q.cap = q.start) q
  let elems ← store q.elems q.end_ elem
  .ok { q with elems := elems, end_ := queueNext q.end_ q.cap }

/-- `queue_push_front`. -/
def queuePushFront [Inhabited α] (q : RingQueue α) (elem : α) : Except Fault (RingQueue α) := do
  let q ← queueExpandIf (q.cap = 0) q
  let nextStart := queuePrev q.start q.cap
  let q ← queueExpandIf (nextStart = q.end_) q
  let start := queuePrev q.start q.cap
  let elems ← store q.elems start elem
  .ok { q with elems := elems, start := start }

/-- `queue_pop_back`. -/
def queuePopBack (q : RingQueue α) : Except Fault (RingQueue α × α) := do
  require (q.end_ ≠ q.start) .queueUnderflow
  let end_ := queuePrev q.end_ q.cap
  let elem ← load q.elems end_
  .ok ({ q with end_ := end_ }, elem)

/-- `queue_pop_front`. -/
def queuePopFront (q : RingQueue α) : Except Fault (RingQueue α × α) := do
  require (q.start ≠ q.end_) .queueUnderflow
  let elem ← load q.elems q.start
  .ok ({ q with start := queueNext q.start q.cap }, elem)

/-- `queue_peek_front`. -/
def queuePeekFront (q : RingQueue α) : Except Fault α := do
  require (q.start ≠ q.end_) .queueUnderflow
  load q.elems q.start

/-! ## 2. What a ring queue holds -/

/-- The contents from `start` to `end`, modulo `cap`. -/
def toList (q : RingQueue α) : List α :=
  (List.range ((q.end_ + q.cap - q.start) % q.cap)).filterMap
    fun i => q.elems[(q.start + i) % q.cap]?

/-- `q` holds the list `l`: its elements stand at `start`, `start + 1`, ... modulo `cap`, and
at least one cell of a queue that has any is empty. -/
structure Holds (q : RingQueue α) (l : List α) : Prop where
  length_eq : q.elems.length = q.cap
  room : l.length < q.cap ∨ q.cap = 0 ∧ l = []
  start_lt : q.start < q.cap ∨ q.cap = 0 ∧ q.start = 0
  end_eq : q.end_ = (q.start + l.length) % q.cap
  elem : ∀ i, i < l.length → q.elems[(q.start + i) % q.cap]? = l[i]?

/-- Stepping forward from inside the ring crosses its end at most once. -/
theorem add_mod_eq {a b c : Nat} (ha : a < c) (hb : b ≤ c) :
    (a + b) % c = if a + b < c then a + b else a + b - c := by
  split
  · rename_i h
    exact Nat.mod_eq_of_lt h
  · rename_i h
    rw [Nat.mod_eq_sub_mod (by omega), Nat.mod_eq_of_lt (by omega)]

theorem zero_holds : (zero : RingQueue α).Holds [] where
  length_eq := rfl
  room := Or.inr ⟨rfl, rfl⟩
  start_lt := Or.inr ⟨rfl, rfl⟩
  end_eq := rfl
  elem := fun i hi => absurd hi (Nat.not_lt_zero i)

namespace Holds

variable {q : RingQueue α} {l : List α}

theorem end_lt (h : q.Holds l) (hc : q.cap ≠ 0) : q.end_ < q.cap := by
  rw [h.end_eq]
  exact Nat.mod_lt _ (Nat.pos_of_ne_zero hc)

/-- `start == end` exactly when the list is empty. -/
theorem start_eq_end_iff (h : q.Holds l) : q.start = q.end_ ↔ l = [] := by
  rcases h.room with hr | ⟨hc, hl⟩
  · have hs : q.start < q.cap := by rcases h.start_lt with hs | hs <;> omega
    have he := h.end_eq
    rw [add_mod_eq hs (Nat.le_of_lt hr)] at he
    rw [← List.length_eq_zero_iff]
    split at he <;> omega
  · have he := h.end_eq
    rcases h.start_lt with hs | hs
    · omega
    · simp [hl, hc, hs.2] at he ⊢
      exact he.symm

/-- The contents read from `start` to `end` are the list held. -/
theorem toList_eq (h : q.Holds l) : q.toList = l := by
  have hlen : (q.end_ + q.cap - q.start) % q.cap = l.length := by
    rcases h.room with hr | ⟨hc, hl⟩
    · have hs : q.start < q.cap := by rcases h.start_lt with hs | hs <;> omega
      have he := h.end_eq
      rw [add_mod_eq hs (Nat.le_of_lt hr)] at he
      split at he
      · rw [show q.end_ + q.cap - q.start = l.length + q.cap by omega, Nat.add_mod_right,
          Nat.mod_eq_of_lt hr]
      · rw [show q.end_ + q.cap - q.start = l.length by omega, Nat.mod_eq_of_lt hr]
    · have he := h.end_eq
      rcases h.start_lt with hs | hs
      · omega
      · simp [hc, hl, hs.2] at he ⊢
        exact he
  have hread : (List.range l.length).map (fun i => q.elems[(q.start + i) % q.cap]?)
      = l.map some := by
    refine List.ext_getElem? fun j => ?_
    by_cases hj : j < l.length
    · simp [hj, h.elem j hj]
    · simp [hj]
  have hmap : q.toList = ((List.range l.length).map
      (fun i => q.elems[(q.start + i) % q.cap]?)).filterMap id := by
    rw [List.filterMap_map, toList, hlen]
    rfl
  rw [hmap, hread, List.filterMap_map]
  exact List.filterMap_some

end Holds

/-! ## 3. Each macro acts on the list held -/

/-- What a cell reads after `memmove` of the first `n` cells to `dst`. -/
theorem getElem?_memmove {mem : List α} {dst n : Nat} (hn : n ≤ dst) (hlen : dst + n ≤ mem.length)
    (j : Nat) : (memmove mem dst n)[j]? =
      if dst ≤ j ∧ j < dst + n then mem[j - dst]? else mem[j]? := by
  unfold memmove
  rcases Nat.lt_or_ge j dst with hj | hj
  · rw [if_neg (by omega), List.append_assoc, List.getElem?_append_left (by simp; omega)]
    simp [hj]
  · rw [List.append_assoc, List.getElem?_append_right (by simp; omega)]
    rcases Nat.lt_or_ge j (dst + n) with hj' | hj'
    · rw [if_pos ⟨hj, hj'⟩, List.getElem?_append_left (by simp; omega),
        List.getElem?_take_of_lt (by simp; omega)]
      simp [Nat.min_eq_left (show dst ≤ mem.length by omega)]
    · rw [if_neg (by omega), List.getElem?_append_right (by simp; omega), List.getElem?_drop]
      congr 1
      simp
      omega

theorem length_memmove {mem : List α} {dst n : Nat} (hlen : dst + n ≤ mem.length) :
    (memmove mem dst n).length = mem.length := by
  unfold memmove
  simp
  omega

variable {q : RingQueue α} {l : List α}

/-- Inside a ring that is not full, the test of the push macros is false, and a full ring is
what it detects. -/
theorem Holds.full_iff (h : q.Holds l) (hc : q.cap ≠ 0) :
    (q.end_ + 1) % q.cap = q.start ↔ l.length + 1 = q.cap := by
  have hs : q.start < q.cap := by rcases h.start_lt with hs | hs <;> omega
  have hr : l.length < q.cap := by rcases h.room with hr | hr <;> omega
  have he := h.end_eq
  rw [add_mod_eq hs (Nat.le_of_lt hr)] at he
  rw [add_mod_eq (h.end_lt hc) (by omega)]
  split at he <;> split <;> omega

/-- The same test as `queue_push_front` makes it. -/
theorem Holds.full_front_iff (h : q.Holds l) (hc : q.cap ≠ 0) :
    queuePrev q.start q.cap = q.end_ ↔ l.length + 1 = q.cap := by
  have hs : q.start < q.cap := by rcases h.start_lt with hs | hs <;> omega
  have hr : l.length < q.cap := by rcases h.room with hr | hr <;> omega
  have he := h.end_eq
  rw [add_mod_eq hs (Nat.le_of_lt hr)] at he
  unfold queuePrev
  split <;> split at he <;> omega

/-- The element at the front of a nonempty ring. -/
theorem Holds.front {x : α} (h : q.Holds (x :: l)) : q.elems[q.start]? = some x := by
  have h0 := h.elem 0 (by simp)
  have hs : q.start < q.cap := by
    rcases h.start_lt with hs | hs
    · exact hs
    · rcases h.room with hr | hr
      · simp at hr
        omega
      · exact absurd hr.2 (by simp)
  rw [Nat.add_zero, Nat.mod_eq_of_lt hs] at h0
  exact h0

/-- **`queue_pop_front` removes the head**, and underflows exactly on the empty list. -/
theorem Holds.popFront {x : α} (h : q.Holds (x :: l)) :
    ∃ q', queuePopFront q = .ok (q', x) ∧ q'.Holds l := by
  have hne : q.start ≠ q.end_ := fun e => absurd (h.start_eq_end_iff.mp e) (by simp)
  have hr : l.length + 1 < q.cap := by
    rcases h.room with hr | hr
    · exact hr
    · exact absurd hr.2 (by simp)
  have hs : q.start < q.cap := by rcases h.start_lt with hs | hs <;> omega
  unfold queuePopFront
  rw [require_of hne, ok_bind, load_eq h.front, ok_bind]
  have hnext := add_mod_eq hs (show 1 ≤ q.cap by omega)
  refine ⟨_, rfl, ⟨h.length_eq, Or.inl (by simp; omega), Or.inl ?_, ?_, ?_⟩⟩
  · exact Nat.mod_lt _ (by omega)
  · have he := h.end_eq
    simp only [queueNext, List.length_cons] at he ⊢
    rw [he, Nat.mod_add_mod]
    congr 1
    omega
  · intro i hi
    have hi' := h.elem (i + 1) (by simp; omega)
    simp only [queueNext, List.getElem?_cons_succ] at hi' ⊢
    rw [← hi', Nat.mod_add_mod]
    congr 2
    omega

theorem Holds.popFront_nil (h : q.Holds []) : queuePopFront q = .error .queueUnderflow := by
  unfold queuePopFront
  rw [require_of_not (fun hne => hne (h.start_eq_end_iff.mpr rfl)), error_bind]

/-- **`queue_pop_back` removes the last element**, and underflows exactly on the empty list. -/
theorem Holds.popBack {x : α} (h : q.Holds (l ++ [x])) :
    ∃ q', queuePopBack q = .ok (q', x) ∧ q'.Holds l := by
  have hne : q.end_ ≠ q.start := fun e => absurd (h.start_eq_end_iff.mp e.symm) (by simp)
  have hr : l.length + 1 < q.cap := by
    rcases h.room with hr | hr
    · simpa using hr
    · exact absurd hr.2 (by simp)
  have hs : q.start < q.cap := by rcases h.start_lt with hs | hs <;> omega
  -- the cell before `end` is the one of the last element
  have hprev : queuePrev q.end_ q.cap = (q.start + l.length) % q.cap := by
    have he := h.end_eq
    rw [List.length_append, List.length_singleton, add_mod_eq hs (by omega)] at he
    rw [add_mod_eq hs (by omega)]
    unfold queuePrev
    split <;> split at he <;> split <;> omega
  have hlast := h.elem l.length (by simp)
  rw [List.getElem?_concat_length] at hlast
  unfold queuePopBack
  rw [require_of hne, ok_bind]
  dsimp only
  rw [hprev, load_eq hlast, ok_bind]
  refine ⟨_, rfl, ⟨h.length_eq, .inl (by simp only; omega), .inl hs, rfl, fun i hi => ?_⟩⟩
  have hi' := h.elem i (by rw [List.length_append]; omega)
  rwa [List.getElem?_append_left hi] at hi'

theorem Holds.popBack_nil (h : q.Holds []) : queuePopBack q = .error .queueUnderflow := by
  unfold queuePopBack
  rw [require_of_not (fun hne => hne (h.start_eq_end_iff.mpr rfl).symm), error_bind]

/-- **`queue_peek_front` reads the head**, and underflows exactly on the empty list. -/
theorem Holds.peekFront {x : α} (h : q.Holds (x :: l)) : queuePeekFront q = .ok x := by
  have hne : q.start ≠ q.end_ := fun e => absurd (h.start_eq_end_iff.mp e) (by simp)
  unfold queuePeekFront
  rw [require_of hne, ok_bind, load_eq h.front]

theorem Holds.peekFront_nil (h : q.Holds []) : queuePeekFront q = .error .queueUnderflow := by
  unfold queuePeekFront
  rw [require_of_not (fun hne => hne (h.start_eq_end_iff.mpr rfl)), error_bind]

variable [Inhabited α]

/-- **`__queue_expand` keeps the contents**, whether or not they wrap around the old end, and
its assertion holds. -/
theorem Holds.expand (h : q.Holds l) : ∃ q', queueExpand q = .ok q' ∧ q'.Holds l ∧
    q'.cap = q.cap * 2 + 10 := by
  have hlen := h.length_eq
  have hend : q.end_ ≤ q.cap := by
    rw [h.end_eq]
    rcases h.start_lt with hs | ⟨hc, hs⟩
    · exact Nat.le_of_lt (Nat.mod_lt _ (by omega))
    · rcases h.room with hr | ⟨-, hl⟩
      · omega
      · simp [hs, hl]
  have hlt : l.length ≤ q.cap := by
    rcases h.room with hr | ⟨-, hl⟩
    · exact Nat.le_of_lt hr
    · simp [hl]
  have hcell : ∀ j, j < q.cap → (q.elems ++ List.replicate (q.cap * 2 + 10 - q.cap) default)[j]?
      = q.elems[j]? := fun j hj => List.getElem?_append_left (by omega)
  unfold queueExpand
  dsimp only
  rw [require_of (by omega : q.cap + q.end_ ≤ q.cap * 2 + 10), ok_bind]
  have hpos : ∀ i, i < l.length → q.start < q.cap ∧
      (q.start + i) % q.cap = if q.start + i < q.cap then q.start + i else q.start + i - q.cap := by
    intro i hi
    have hs : q.start < q.cap := by rcases h.start_lt with hs | hs <;> omega
    exact ⟨hs, add_mod_eq hs (by omega)⟩
  have hendv : l.length = 0 ∨ q.end_ = if q.start + l.length < q.cap then q.start + l.length
      else q.start + l.length - q.cap := by
    rcases Nat.eq_zero_or_pos l.length with hl | hl
    · exact Or.inl hl
    · exact Or.inr (h.end_eq.trans (add_mod_eq (hpos 0 hl).1 hlt))
  have hroom : l.length < q.cap ∨ q.cap = 0 ∧ l.length = 0 := by
    rcases h.room with hr | ⟨hc, hl⟩
    · exact Or.inl hr
    · exact Or.inr ⟨hc, by simp [hl]⟩
  have hzero : l.length = 0 → q.start = q.end_ := fun hl =>
    h.start_eq_end_iff.mpr (List.length_eq_zero_iff.mp hl)
  split
  · rename_i hwrap
    have hwrapped : q.cap ≤ q.start + l.length ∧ q.end_ = q.start + l.length - q.cap := by
      rcases hendv with hl | he
      · have := hzero hl
        omega
      · split at he <;> omega
    refine ⟨_, rfl, ⟨?_, Or.inl (by simp; omega), Or.inl ?_, ?_, ?_⟩, rfl⟩
    · rw [length_memmove (by simp; omega)]
      simp
      omega
    · rcases h.start_lt with hs | hs <;> simp <;> omega
    · simp only
      rcases h.start_lt with hs | hs
      · congr 1
        omega
      · omega
    · intro i hi
      obtain ⟨hs, hmod⟩ := hpos i hi
      simp only
      rw [Nat.mod_eq_of_lt (by omega), getElem?_memmove hend (by simp; omega), ← h.elem i hi, hmod]
      rcases Nat.lt_or_ge (q.start + i) q.cap with hb | hb
      · rw [if_neg (by omega), if_pos hb, hcell _ hb]
      · rw [if_pos ⟨hb, by omega⟩, if_neg (by omega), hcell _ (by omega)]
  · rename_i hwrap
    have hflat : q.end_ = q.start + l.length ∧ (l.length = 0 ∨ q.start + l.length < q.cap) := by
      rcases hendv with hl | he
      · have := hzero hl
        exact ⟨by omega, Or.inl hl⟩
      · split at he <;> rcases h.start_lt with hs | hs <;> omega
    refine ⟨_, rfl, ⟨?_, Or.inl (by simp; omega), Or.inl ?_, ?_, ?_⟩, rfl⟩
    · simp
      omega
    · rcases h.start_lt with hs | hs <;> simp <;> omega
    · simp only
      rw [Nat.mod_eq_of_lt (by rcases h.start_lt with hs | hs <;> omega)]
      exact hflat.1
    · intro i hi
      obtain ⟨hs, hmod⟩ := hpos i hi
      simp only
      rw [Nat.mod_eq_of_lt (by omega), ← h.elem i hi, hmod, if_pos (by omega),
        hcell _ (by omega)]

/-- The two growth tests at the start of a push: afterwards the ring holds the same list and
has room for one more element. -/
theorem Holds.grow (h : q.Holds l) (full : RingQueue α → Prop) [DecidablePred full]
    (hfull : ∀ {q : RingQueue α}, q.Holds l → q.cap ≠ 0 → (full q ↔ l.length + 1 = q.cap)) :
    ∃ q₁ q₂, queueExpandIf (q.cap = 0) q = .ok q₁ ∧ queueExpandIf (full q₁) q₁ = .ok q₂ ∧
      q₂.Holds l ∧ l.length + 1 < q₂.cap := by
  have hone : ∃ q₁, queueExpandIf (q.cap = 0) q = .ok q₁ ∧ q₁.Holds l ∧ q₁.cap ≠ 0 := by
    unfold queueExpandIf
    split
    · obtain ⟨q₁, hok, h₁, hcap⟩ := h.expand
      exact ⟨q₁, hok, h₁, by omega⟩
    · rename_i hc
      exact ⟨q, rfl, h, hc⟩
  obtain ⟨q₁, hok, h₁, hc⟩ := hone
  have hr : l.length < q₁.cap := by rcases h₁.room with hr | hr <;> omega
  by_cases hf : full q₁
  · obtain ⟨q₂, hok₂, h₂, hcap⟩ := h₁.expand
    refine ⟨q₁, q₂, hok, ?_, h₂, by omega⟩
    unfold queueExpandIf
    rw [if_pos hf, hok₂]
  · refine ⟨q₁, q₁, hok, if_neg hf, h₁, ?_⟩
    have := mt (hfull h₁ hc).mpr hf
    omega

/-- **`queue_push_back` appends.** -/
theorem Holds.pushBack (h : q.Holds l) (x : α) :
    ∃ q', queuePushBack q x = .ok q' ∧ q'.Holds (l ++ [x]) := by
  obtain ⟨q₁, q₂, hok₁, hok₂, h₂, hroom⟩ :=
    h.grow (fun q => (q.end_ + 1) % q.cap = q.start) fun h hc => h.full_iff hc
  have hs : q₂.start < q₂.cap := by rcases h₂.start_lt with hs | hs <;> omega
  have hlt := h₂.end_lt (by omega)
  have he := h₂.end_eq
  rw [add_mod_eq hs (by omega)] at he
  unfold queuePushBack
  rw [hok₁, ok_bind, hok₂, ok_bind, store_eq (by rw [h₂.length_eq]; exact hlt), ok_bind]
  refine ⟨_, rfl, ⟨by simp [h₂.length_eq], Or.inl (by simp; exact hroom), Or.inl hs, ?_, ?_⟩⟩
  · simp only [queueNext, List.length_append, List.length_singleton]
    rw [add_mod_eq hlt (by omega), add_mod_eq hs (by omega)]
    split at he <;> split <;> split <;> omega
  · intro i hi
    simp only [List.length_append, List.length_singleton] at hi
    have hmod := add_mod_eq hs (show i ≤ q₂.cap by omega)
    rw [List.getElem?_set]
    rcases Nat.lt_or_ge i l.length with hil | hil
    · rw [List.getElem?_append_left hil, ← h₂.elem i hil, if_neg]
      rw [hmod]
      split at he <;> split <;> omega
    · obtain rfl : i = l.length := by omega
      rw [if_pos (by rw [hmod, he]), if_pos (by rw [h₂.length_eq]; exact hlt)]
      simp

/-- **`queue_push_front` prepends.** -/
theorem Holds.pushFront (h : q.Holds l) (x : α) :
    ∃ q', queuePushFront q x = .ok q' ∧ q'.Holds (x :: l) := by
  obtain ⟨q₁, q₂, hok₁, hok₂, h₂, hroom⟩ :=
    h.grow (fun q => queuePrev q.start q.cap = q.end_) fun h hc => h.full_front_iff hc
  have hs : q₂.start < q₂.cap := by rcases h₂.start_lt with hs | hs <;> omega
  have he := h₂.end_eq
  rw [add_mod_eq hs (by omega)] at he
  have hprev : queuePrev q₂.start q₂.cap = if q₂.start = 0 then q₂.cap - 1 else q₂.start - 1 := rfl
  have hplt : queuePrev q₂.start q₂.cap < q₂.cap := by
    rw [hprev]
    split <;> omega
  unfold queuePushFront
  dsimp only
  rw [hok₁, ok_bind, hok₂, ok_bind, store_eq (by rw [h₂.length_eq]; exact hplt), ok_bind]
  refine ⟨_, rfl, ⟨by simp [h₂.length_eq], Or.inl (by simp; exact hroom), Or.inl hplt, ?_, ?_⟩⟩
  · simp only [List.length_cons]
    rw [add_mod_eq hplt (by omega), hprev]
    split at he <;> split <;> split <;> omega
  · intro i hi
    simp only [List.length_cons] at hi
    have hmod := add_mod_eq hplt (show i ≤ q₂.cap by omega)
    rw [List.getElem?_set]
    cases i with
    | zero =>
      rw [if_pos (by rw [hmod, if_pos (by omega)]; rfl), if_pos (by rw [h₂.length_eq]; exact hplt)]
      simp
    | succ i =>
      have hil : i < l.length := by omega
      have hmod' := add_mod_eq hs (show i ≤ q₂.cap by omega)
      rw [List.getElem?_cons_succ, ← h₂.elem i hil, if_neg]
      · congr 1
        rw [hmod, hmod', hprev]
        split <;> split <;> split <;> omega
      · rw [hmod, hprev]
        split <;> split <;> omega

end RingQueue
end CAsync
