/-
# A ring queue that has not wrapped (`storage.h`)

As long as `start <= end`, the elements of a ring queue are one block of its memory (`Holds.flat`).
Such a ring stays flat under the macros of the graph scheduler with one exception: an element
pushed into the last cell sends `end` back to 0.  The memory grows instead exactly if `start` is
still 0 then (`Holds.pushBack_flat`).
-/
import CAsync.Storage

namespace CAsync.RingQueue

open Faulting

variable {α : Type}

/-- The number of elements, from `start` to `end` modulo `cap`. -/
def stored (q : RingQueue α) : Nat :=
  if q.start ≤ q.end_ then q.end_ - q.start else q.end_ + q.cap - q.start

/-- `queue_push_back` would use the last cell of a memory whose front cells are free. -/
def Wraps (q : RingQueue α) : Prop := q.end_ + 1 = q.cap ∧ q.start ≠ 0

/-- The size of the memory after `queue_push_back` on a ring that does not wrap. -/
def capAfter (cap end_ : Nat) : Nat := if end_ + 1 < cap then cap else cap * 2 + 10

namespace Holds

variable {q q' : RingQueue α} {l : List α}

/-- A flat ring, cell by cell. -/
theorem flat (h : q.Holds l) (hflat : q.start ≤ q.end_) : q.end_ = q.start + l.length ∧
    (q.end_ < q.cap ∨ q.cap = 0 ∧ q.end_ = 0) ∧
    ∀ i, i < l.length → q.elems[q.start + i]? = l[i]? := by
  rcases h.room with hroom | ⟨hcap, rfl⟩
  · have hs : q.start < q.cap := by rcases h.start_lt with hs | hs <;> omega
    have hend := h.end_eq
    rw [add_mod_eq hs (Nat.le_of_lt hroom)] at hend
    -- a ring that crosses the end of its memory has its end before its start
    have hlt : q.start + l.length < q.cap := by
      split at hend <;> omega
    rw [if_pos hlt] at hend
    refine ⟨hend, .inl (by omega), fun i hi => ?_⟩
    rw [← h.elem i hi, Nat.mod_eq_of_lt (by omega)]
  · have hs : q.start = 0 := by rcases h.start_lt with hs | hs <;> omega
    have hend := h.end_eq
    rw [hcap, hs] at hend
    have hzero : q.end_ = 0 := by simpa using hend
    exact ⟨by simp [hzero, hs], .inr ⟨hcap, hzero⟩, fun i hi => absurd hi (Nat.not_lt_zero i)⟩

theorem stored_eq (h : q.Holds l) : q.stored = l.length := by
  unfold stored
  rcases h.room with hroom | ⟨hcap, rfl⟩
  · have hs : q.start < q.cap := by rcases h.start_lt with hs | hs <;> omega
    have hend := h.end_eq
    rw [add_mod_eq hs (Nat.le_of_lt hroom)] at hend
    split at hend <;> split <;> omega
  · rw [h.start_eq_end_iff.mpr rfl, if_pos (Nat.le_refl _), Nat.sub_self]
    rfl

/-- `queue_pop_front` moves `start` on, and a flat ring stays flat. -/
theorem popFront_flat {x : α} (h : q.Holds (x :: l)) (hflat : q.start ≤ q.end_)
    (hok : queuePopFront q = .ok (q', x)) :
    q'.start = q.start + 1 ∧ q'.start ≤ q'.end_ ∧ q'.end_ = q.end_ ∧ q'.cap = q.cap := by
  obtain ⟨hend, hcap, -⟩ := h.flat hflat
  rw [List.length_cons] at hend
  have hlt : q.start + 1 < q.cap := by omega
  unfold queuePopFront at hok
  obtain ⟨_, -, hok⟩ := bind_eq_ok.mp hok
  obtain ⟨_, -, hok⟩ := bind_eq_ok.mp hok
  cases hok
  have hnext : queueNext q.start q.cap = q.start + 1 := Nat.mod_eq_of_lt hlt
  exact ⟨hnext, by simp only [hnext]; omega, rfl, rfl⟩

variable [Inhabited α]

/-- `queue_push_front` behind a pop moves `start` back. -/
theorem pushFront_flat {x : α} (h : q.Holds l) (hflat : q.start ≤ q.end_) (hs : q.start ≠ 0)
    (hok : queuePushFront q x = .ok q') :
    q'.start ≤ q'.end_ ∧ q'.end_ = q.end_ ∧ q'.cap = q.cap := by
  obtain ⟨hend, hcap, -⟩ := h.flat hflat
  have hprev : queuePrev q.start q.cap = q.start - 1 := if_neg hs
  unfold queuePushFront queueExpandIf at hok
  rw [if_neg (by omega), ok_bind] at hok
  dsimp only at hok
  rw [if_neg (by rw [hprev]; omega), ok_bind, hprev] at hok
  obtain ⟨_, -, hok⟩ := bind_eq_ok.mp hok
  cases hok
  exact ⟨by simp only; omega, rfl, rfl⟩

/-- `__queue_expand` of a flat ring moves nothing. -/
theorem expand_flat (hflat : q.start ≤ q.end_) (hcap : q.end_ ≤ q.cap) :
    ∃ elems, queueExpand q = .ok { q with elems := elems, cap := q.cap * 2 + 10 } := by
  unfold queueExpand
  dsimp only
  rw [require_of (by omega), ok_bind, if_neg (Nat.not_lt.mpr hflat)]
  exact ⟨_, rfl⟩

/-- **`queue_push_back` of a flat ring** moves `end` on, growing the memory if it has to, unless it
wraps. -/
theorem pushBack_flat {x : α} (h : q.Holds l) (hflat : q.start ≤ q.end_)
    (hok : queuePushBack q x = .ok q') :
    (q.Wraps → q'.end_ < q'.start) ∧
      (¬ q.Wraps → q'.start ≤ q'.end_ ∧ q'.end_ = q.end_ + 1 ∧ q'.cap = capAfter q.cap q.end_) := by
  obtain ⟨hend, hcap, -⟩ := h.flat hflat
  unfold queuePushBack queueExpandIf at hok
  unfold Wraps capAfter
  by_cases hzero : q.cap = 0
  · obtain ⟨elems, hexpand⟩ := expand_flat hflat (by omega)
    have hend0 : q.end_ = 0 := by omega
    have hstart : q.start = 0 := by omega
    rw [if_pos hzero, hexpand, ok_bind] at hok
    simp only [hzero, hend0, hstart] at hok
    rw [if_neg (by decide), ok_bind] at hok
    obtain ⟨_, -, hok⟩ := bind_eq_ok.mp hok
    cases hok
    simp [hzero, hend0, hstart, queueNext]
  rw [if_neg hzero, ok_bind] at hok
  by_cases hlast : q.end_ + 1 = q.cap
  swap
  · have hmod : (q.end_ + 1) % q.cap = q.end_ + 1 := Nat.mod_eq_of_lt (by omega)
    rw [if_neg (by rw [hmod]; omega), ok_bind] at hok
    obtain ⟨_, -, hok⟩ := bind_eq_ok.mp hok
    cases hok
    have hnext : queueNext q.end_ q.cap = q.end_ + 1 := hmod
    refine ⟨fun hw => absurd hw.1 hlast, fun _ => ⟨?_, hnext, (if_pos (by omega)).symm⟩⟩
    simp only [hnext]
    omega
  have hmod : (q.end_ + 1) % q.cap = 0 := by rw [hlast, Nat.mod_self]
  by_cases hs : q.start = 0
  · obtain ⟨elems, hexpand⟩ := expand_flat hflat (by omega)
    rw [if_pos (by rw [hmod, hs]), hexpand, ok_bind] at hok
    obtain ⟨_, -, hok⟩ := bind_eq_ok.mp hok
    cases hok
    have hnext : queueNext q.end_ (q.cap * 2 + 10) = q.end_ + 1 := Nat.mod_eq_of_lt (by omega)
    refine ⟨fun hw => absurd hs hw.2, fun _ => ⟨?_, hnext, (if_neg (by omega)).symm⟩⟩
    simp only [hnext]
    omega
  · rw [if_neg (by rw [hmod]; exact Ne.symm hs), ok_bind] at hok
    obtain ⟨_, -, hok⟩ := bind_eq_ok.mp hok
    cases hok
    refine ⟨fun _ => ?_, fun hw => absurd ⟨hlast, hs⟩ hw⟩
    simp only [queueNext, hmod]
    omega

end Holds
end CAsync.RingQueue
