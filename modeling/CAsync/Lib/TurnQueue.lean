/-
# Queues that take turns

A queue whose front gives up its place from time to time, and goes to the back or leaves; new
members come in at the back.  Then nobody ever gets ahead of anybody, and each member is at the
front after as many turns as there are members ahead of it (`exists_front`).
-/
import CAsync.Lib.Runs
import CAsync.Lib.WaitQueue
import Mathlib.Data.List.TakeWhile

namespace CAsync
namespace TurnQueue

variable {α σ ι : Type} {q q' : List α} {x : α} {b : Bool}

/-- A move of the queue, and whether it is a turn. -/
inductive Moves : Bool → List α → List α → Prop
  | stays {q : List α} (new : List α) : Moves false q (q ++ new)
  | turns {front : α} {rest back : List α} : back ⊆ [front] →
    Moves true (front :: rest) (rest ++ back)

namespace Moves

/-- Only the front can leave. -/
theorem mem (h : Moves b q q') (hx : x ∈ q) (hfront : q.head? ≠ some x) : x ∈ q' := by
  cases h with
  | stays new => exact List.mem_append_left _ hx
  | @turns front rest back _ =>
    have hne : x ≠ front := by
      rintro rfl
      exact hfront rfl
    exact List.mem_append_left _ ((List.mem_cons.mp hx).resolve_left hne)

end Moves

variable [DecidableEq α]

/-- The members ahead of `x`. -/
def ahead (q : List α) (x : α) : List α := q.takeWhile (· ≠ x)

theorem ahead_append (l : List α) (hx : x ∈ q) : ahead (q ++ l) x = ahead q x :=
  WaitQueue.takeWhile_append_of_mem l hx

theorem ahead_cons {c : α} (hc : c ≠ x) : ahead (c :: q) x = c :: ahead q x :=
  List.takeWhile_cons_of_pos (by simpa using hc)

/-- A member has fewer ahead of it than there are. -/
theorem length_ahead_lt (hx : x ∈ q) : (ahead q x).length < q.length := by
  have hsub : (ahead q x).Sublist q := List.takeWhile_sublist _
  refine Nat.lt_of_le_of_ne hsub.length_le fun heq => ?_
  simpa using List.takeWhile_eq_self_iff.mp (hsub.eq_of_length heq) x hx

theorem head_of_ahead (hx : x ∈ q) (hzero : (ahead q x).length = 0) : q.head? = some x := by
  cases q with
  | nil => simp at hx
  | cons c q =>
    by_cases hc : c = x
    · rw [hc]
      rfl
    · rw [ahead_cons hc] at hzero
      cases hzero

namespace Moves

/-- **Nobody gets ahead**, and with each turn there is one less. -/
theorem length_ahead (h : Moves b q q') (hx : x ∈ q) (hfront : q.head? ≠ some x) :
    (ahead q' x).length + (if b then 1 else 0) = (ahead q x).length := by
  cases h with
  | stays new =>
    rw [ahead_append new hx]
    rfl
  | @turns front rest back _ =>
    have hne : front ≠ x := by
      rintro rfl
      exact hfront rfl
    have hrest : x ∈ rest := (List.mem_cons.mp hx).resolve_left (Ne.symm hne)
    rw [ahead_append back hrest, ahead_cons hne, List.length_cons]
    rfl

end Moves

/-- **Everyone gets a turn.**  In a run whose steps move the queue, and that has as many turns as
there are members ahead of `x`, there is a state with `x` at the front. -/
theorem exists_front {step : σ → ι → σ → Prop} {I : σ → Prop} {turn : ι → Bool} (queue : σ → List α)
    (hstep : ∀ s i t, I s → step s i t →
      I t ∧ ∃ b, Moves b (queue s) (queue t) ∧ (turn i = true → b = true))
    {s t : σ} {l : List ι} (hrun : Steps step s l t) (hs : I s) (hx : x ∈ queue s)
    (hmany : (ahead (queue s) x).length ≤ l.countP turn) :
    ∃ l₁ l₂ u, l = l₁ ++ l₂ ∧ Steps step s l₁ u ∧ Steps step u l₂ t ∧
      (queue u).head? = some x := by
  refine hrun.exists_visit (I := fun s => I s ∧ x ∈ queue s)
    (G := fun s => (queue s).head? = some x) (m := fun s => (ahead (queue s) x).length)
    ?_ ?_ ?_ ?_ ⟨hs, hx⟩ hmany
  · rintro s i t ⟨hs, hx⟩ hfront hst
    obtain ⟨ht, b, hmove, -⟩ := hstep s i t hs hst
    exact ⟨ht, hmove.mem hx hfront⟩
  · rintro s i t ⟨hs, hx⟩ hfront hst hturn
    obtain ⟨-, b, hmove, hb⟩ := hstep s i t hs hst
    have hlen := hmove.length_ahead hx hfront
    rw [hb hturn, if_pos rfl] at hlen
    exact Nat.lt_of_succ_le (Nat.le_of_eq hlen)
  · rintro s i t ⟨hs, hx⟩ hfront hst
    obtain ⟨-, b, hmove, -⟩ := hstep s i t hs hst
    have hlen := hmove.length_ahead hx hfront
    omega
  · rintro s ⟨-, hx⟩ hzero
    exact head_of_ahead hx hzero

end TurnQueue
end CAsync
