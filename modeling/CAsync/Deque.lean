/-
# The ring queue is a deque

Any sequence of the five queue macros, from the zeroed struct, acts on the contents of the ring
as the same pushes and pops act on a list (`queue_is_deque`): a macro on the ring and its list
operation are in lockstep, so they answer the same elements, and they stop at the same place.  The
only fault of a list operation is an underflow, so no access of the ring is out of bounds and the
assertion of `__queue_expand` holds at every growth.
-/
import CAsync.Storage

namespace CAsync

open Faulting RingQueue

variable {α : Type}

/-! ## 1. Sequences of macros -/

/-- One use of a queue macro. -/
inductive QueueOp (α : Type) where
  | pushBack (elem : α)
  | pushFront (elem : α)
  | popBack
  | popFront
  | peekFront

/-- The macro takes an element out, or reads one. -/
def QueueOp.takes : QueueOp α → Bool
  | .pushBack _ => false
  | .pushFront _ => false
  | .popBack => true
  | .popFront => true
  | .peekFront => true

/-- The macro on a ring, and what it stores in `*elem`. -/
def queueOp [Inhabited α] (q : RingQueue α) : QueueOp α → Except Fault (RingQueue α × Option α)
  | .pushBack elem => do
    let q ← queuePushBack q elem
    .ok (q, none)
  | .pushFront elem => do
    let q ← queuePushFront q elem
    .ok (q, none)
  | .popBack => do
    let (q, elem) ← queuePopBack q
    .ok (q, some elem)
  | .popFront => do
    let (q, elem) ← queuePopFront q
    .ok (q, some elem)
  | .peekFront => do
    let elem ← queuePeekFront q
    .ok (q, some elem)

/-- The same operation on a plain list. -/
def listOp (l : List α) : QueueOp α → Except Fault (List α × Option α)
  | .pushBack elem => .ok (l ++ [elem], none)
  | .pushFront elem => .ok (elem :: l, none)
  | .popBack => do
    require (l ≠ []) .queueUnderflow
    .ok (l.dropLast, l.getLast?)
  | .popFront => do
    require (l ≠ []) .queueUnderflow
    .ok (l.tail, l.head?)
  | .peekFront => do
    require (l ≠ []) .queueUnderflow
    .ok (l, l.head?)

/-! ## 2. One macro -/

/-- **One macro and its list operation are in lockstep.** -/
theorem RingQueue.Holds.op [Inhabited α] {q : RingQueue α} {l : List α} (h : q.Holds l)
    (op : QueueOp α) :
    Lockstep (fun x y => x.1.Holds y.1 ∧ x.2 = y.2) (queueOp q op) (listOp l op) := by
  unfold queueOp listOp
  cases op with
  | pushBack elem =>
    obtain ⟨q', hok, h'⟩ := h.pushBack elem
    dsimp only
    rw [hok, ok_bind]
    exact .ok ⟨h', rfl⟩
  | pushFront elem =>
    obtain ⟨q', hok, h'⟩ := h.pushFront elem
    dsimp only
    rw [hok, ok_bind]
    exact .ok ⟨h', rfl⟩
  | popBack =>
    dsimp only
    rcases List.eq_nil_or_concat l with rfl | ⟨l, x, rfl⟩
    · rw [h.popBack_nil, require_of_not (fun hne => hne rfl), error_bind, error_bind]
      exact .error _
    · rw [List.concat_eq_append] at h ⊢
      obtain ⟨q', hok, h'⟩ := h.popBack
      rw [hok, require_of (by simp), ok_bind, ok_bind, List.dropLast_concat, List.getLast?_concat]
      exact .ok ⟨h', rfl⟩
  | popFront =>
    dsimp only
    cases l with
    | nil =>
      rw [h.popFront_nil, require_of_not (fun hne => hne rfl), error_bind, error_bind]
      exact .error _
    | cons x l =>
      obtain ⟨q', hok, h'⟩ := h.popFront
      rw [hok, require_of (List.cons_ne_nil x l), ok_bind, ok_bind]
      exact .ok ⟨h', rfl⟩
  | peekFront =>
    dsimp only
    cases l with
    | nil =>
      rw [h.peekFront_nil, require_of_not (fun hne => hne rfl), error_bind, error_bind]
      exact .error _
    | cons x l =>
      rw [h.peekFront, require_of (List.cons_ne_nil x l), ok_bind, ok_bind]
      exact .ok ⟨h, rfl⟩

/-- A list operation fails exactly where it would take something out of an empty list. -/
theorem listOp_eq_error {l : List α} {op : QueueOp α} {e : Fault} :
    listOp l op = .error e ↔ e = .queueUnderflow ∧ l = [] ∧ op.takes = true := by
  have htakes : ∀ x : List α × Option α, ((do
      require (l ≠ []) .queueUnderflow
      .ok x : Except Fault _) = .error e ↔ e = .queueUnderflow ∧ l = []) := by
    intro x
    by_cases hl : l = []
    · rw [require_of_not (fun hne => hne hl), error_bind]
      simp [hl, eq_comm]
    · rw [require_of hl, ok_bind]
      simp [hl]
  cases op with
  | pushBack elem => simp [listOp, QueueOp.takes]
  | pushFront elem => simp [listOp, QueueOp.takes]
  | popBack =>
    rw [QueueOp.takes, eq_self, and_true]
    exact htakes _
  | popFront =>
    rw [QueueOp.takes, eq_self, and_true]
    exact htakes _
  | peekFront =>
    rw [QueueOp.takes, eq_self, and_true]
    exact htakes _

/-! ## 3. Every sequence -/

/-- A sequence of list operations fails at the first that finds the list empty. -/
theorem runList_eq_error {l : List α} {ops : List (QueueOp α)} {e : Fault} :
    runOps listOp l ops = .error e ↔ e = .queueUnderflow ∧ ∃ front op back out,
      ops = front ++ op :: back ∧ runOps listOp l front = .ok ([], out) ∧ op.takes = true := by
  induction ops generalizing l with
  | nil =>
    constructor
    · intro h
      cases h
    · rintro ⟨-, front, op, back, out, hsplit, -⟩
      simp at hsplit
  | cons op ops ih =>
    rw [runOps]
    constructor
    · intro h
      cases hop : listOp l op with
      | error e' =>
        rw [hop] at h
        cases h
        obtain ⟨he, rfl, htakes⟩ := listOp_eq_error.mp hop
        exact ⟨he, [], op, ops, [], rfl, rfl, htakes⟩
      | ok x =>
        rw [hop, ok_bind] at h
        cases hrun : runOps listOp x.1 ops with
        | error e' =>
          rw [hrun] at h
          cases h
          obtain ⟨he, front, op', back, out, rfl, hfront, htakes⟩ := ih.mp hrun
          exact ⟨he, op :: front, op', back, x.2 :: out, rfl,
            runOps_cons_ok.mpr ⟨x.1, x.2, out, hop, hfront, rfl⟩, htakes⟩
        | ok y =>
          rw [hrun] at h
          cases h
    · rintro ⟨rfl, front, op', back, out, hsplit, hfront, htakes⟩
      cases front with
      | nil =>
        obtain ⟨rfl, rfl⟩ := List.cons_eq_cons.mp hsplit
        cases hfront
        rw [listOp_eq_error.mpr ⟨rfl, rfl, htakes⟩, error_bind]
      | cons op₁ front =>
        obtain ⟨rfl, rfl⟩ := List.cons_eq_cons.mp hsplit
        obtain ⟨u, o, out', hop, hfront, -⟩ := runOps_cons_ok.mp hfront
        rw [hop, ok_bind, ih.mpr ⟨rfl, front, op', back, out', rfl, hfront, htakes⟩, error_bind]

/-- What a ring is to its contents: they are what is read from `start` to `end` modulo `cap`, the
memory of the ring is the `cap` cells that this reads, and `start == end` means empty. -/
structure RingQueue.Contains (q : RingQueue α) (l : List α) : Prop where
  toList_eq : q.toList = l
  length_eq : q.elems.length = q.cap
  start_eq_end_iff : q.start = q.end_ ↔ l = []

/-- **The ring queue is a deque.**  From the zeroed struct, every sequence of macros does on the
contents of the ring what the list operations do on a list, and answers the same elements; it
fails exactly where a pop or a peek finds the list empty, and then with `Underflow`. -/
theorem queue_is_deque [Inhabited α] (ops : List (QueueOp α)) :
    Lockstep (fun x y => x.1.Contains y.1 ∧ x.2 = y.2) (runOps queueOp (zero : RingQueue α) ops)
        (runOps listOp [] ops) ∧
      ∀ e, runOps queueOp (zero : RingQueue α) ops = .error e ↔ e = .queueUnderflow ∧
        ∃ front op back q out, ops = front ++ op :: back ∧
          runOps queueOp (zero : RingQueue α) front = .ok (q, out) ∧ q.toList = [] ∧
          op.takes = true := by
  have hrun : ∀ l : List (QueueOp α), Lockstep (fun x y => x.1.Holds y.1 ∧ x.2 = y.2)
      (runOps queueOp (zero : RingQueue α) l) (runOps listOp [] l) :=
    Lockstep.runOps (fun _ _ op h => h.op op) zero_holds
  refine ⟨(hrun ops).mono fun x y h =>
    ⟨⟨h.1.toList_eq, h.1.length_eq, h.1.start_eq_end_iff⟩, h.2⟩, fun e => ?_⟩
  rw [(hrun ops).error_iff, runList_eq_error]
  refine and_congr_right fun _ => ?_
  constructor
  · rintro ⟨front, op, back, out, hsplit, hfront, htakes⟩
    have hlock := hrun front
    rw [hfront] at hlock
    obtain ⟨⟨q, out'⟩, hok, hq, rfl⟩ := hlock.ok_right
    exact ⟨front, op, back, q, out', hsplit, hok, hq.toList_eq, htakes⟩
  · rintro ⟨front, op, back, q, out, hsplit, hfront, hempty, htakes⟩
    have hlock := hrun front
    rw [hfront] at hlock
    obtain ⟨⟨l, out'⟩, hok, hq, rfl⟩ := hlock.ok_left
    obtain rfl : l = [] := hq.toList_eq.symm.trans hempty
    exact ⟨front, op, back, out, hsplit, hok, htakes⟩

/-- Growth of a wrapped ring, seen through the deque. -/
example : (runOps queueOp (zero : RingQueue Nat)
    [.pushFront 1, .pushBack 2, .pushFront 0, .popBack, .peekFront]).toOption.map Prod.snd =
      some [none, none, none, some 2, some 0] := by decide

end CAsync
