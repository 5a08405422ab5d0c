/-
# No task is starved

`graph_finish_task` puts the parent it wakes at the front of the queue, so tasks overtake each
other, and the number of tasks ahead of `x` says nothing about how long `x` has to wait.  Together
with those that wait for them it does.

**The measure** is a pair, in the lexicographic order (`distance`): the number of the unfinished
tasks that are ahead of `x` or wait, through whatever chain, for one that is (`tasksBefore`), and
the number of those ahead of it in the queue (`tasksAhead`).  No call brings a task before `x`:
what arrives, arrives at the end, and what is woken was counted already.  When the front task
gives up its place,

* it goes to the back, or begins to wait, or ends with nobody to wake, and fewer tasks are ahead;
* or it ends and its parent takes its place: as many are ahead, but the task that has ended is not
  before `x` any more, so the first number is smaller.

The law is one of queues with waiting (`WaitQueue.measure_step`), and a tame run is a run of such
a queue.  `x` stays in the queue while it is not at the front, because only the front task leaves,
and a call that does not schedule leaves both sets as they are (`distance_step`).  The set of the
first number is finite, as there are no more unfinished tasks than slots.
-/
import CAsync.Consistency
import CAsync.WaitGraph
import Mathlib.Data.Set.Finite.Range

namespace CAsync

open Faulting TaskPool Relation

variable {F V : Type}

/-- The tasks ahead of `x` in the run queue. -/
def tasksAhead (s : Runtime Graph F V) (x : Handle) : List Handle :=
  s.sched.tasks.takeWhile (· ≠ x)

/-- The unfinished tasks that are ahead of `x`, or wait, through whatever chain, for one that
is. -/
def tasksBefore (s : Runtime Graph F V) (x : Handle) : Set Handle :=
  {y | s.pool.Unfinished y ∧ ∃ z ∈ tasksAhead s x, ReflTransGen (Waits s) y z}

/-- How far `x` is from the front. -/
noncomputable def distance (s : Runtime Graph F V) (x : Handle) : Nat × Nat :=
  ((tasksBefore s x).ncard, (tasksAhead s x).length)

/-! ## 1. The queue of the model -/

section

variable {s : Runtime Graph F V} {a : Runtime TaskGraph F V} {x : Handle}

theorem tasksAhead_eq (hsa : SameRuntime TaskGraph.Represents s a) :
    tasksAhead s x = (waitQueue a).ahead x := by
  unfold tasksAhead
  rw [hsa.sched.tasks_eq]
  rfl

/-- The tasks before `x` have not finished anyway. -/
theorem tasksBefore_eq (ha : Tame a) (hsa : SameRuntime TaskGraph.Represents s a) :
    tasksBefore s x = (waitQueue a).before x := by
  unfold tasksBefore
  rw [tasksAhead_eq hsa, hsa.waits, hsa.pool]
  ext y
  constructor
  · exact And.right
  · rintro ⟨z, hz, hyz⟩
    refine ⟨?_, z, hz, hyz⟩
    rcases hyz.cases_head with rfl | ⟨k, ⟨c, -, u, hu, hrun, -⟩, -⟩
    · exact ha.inv.unfinished (List.takeWhile_subset _ hz)
    · exact .inr ((stateOf_eq hu).trans (congrArg some hrun))

/-- There are no more unfinished tasks than slots. -/
theorem tasksBefore_finite (s : Runtime Graph F V) (x : Handle) : (tasksBefore s x).Finite := by
  refine Set.Finite.subset (Set.finite_range fun i : Fin (s.pool.len + 1) => (⟨i⟩ : Handle)) ?_
  rintro y ⟨hy, -⟩
  have hlen : y.idx ≤ s.pool.len := by
    rcases hy with hy | hy <;> obtain ⟨u, hu, -⟩ := stateOf_eq_some.mp hy <;>
      exact (slot_bounds hu).2
  exact ⟨⟨y.idx, Nat.lt_succ_of_le hlen⟩, rfl⟩

end

/-! ## 2. Every event -/

/-- One call. -/
theorem distance_step {s t : Runtime Graph F V} {l : List (Op F V × Reply F V)} {op : Op F V}
    {r : Reply F V} {x : Handle} (hs : ReachedBy FreesFinished l s) (hx : x ∈ s.sched.tasks)
    (hfront : s.sched.tasks.head? ≠ some x) (hst : Guarded FreesFinished s (op, r) t) :
    x ∈ t.sched.tasks ∧
      (op.schedules = true → Prod.Lex (· < ·) (· < ·) (distance t x) (distance s x) ∧
        (tasksBefore t x).ncard ≤ (tasksBefore s x).ncard ∧
        (tasksAhead t x).length ≤ (tasksAhead s x).length) ∧
      (op.schedules = false → tasksBefore t x = tasksBefore s x ∧
        tasksAhead t x = tasksAhead s x) := by
  obtain ⟨a, ha, hsa⟩ := hs.tame
  obtain ⟨b, hab, htb⟩ := graphRefines.next hsa hst.1
  have hg := FreesFinished.same hsa hst.2
  have hb : Tame b := ha.next ⟨hab, hg⟩
  have hevent := ha.event (ha.inv.effect hab).1 hg
  have hfin := tasksBefore_finite s x
  unfold distance
  rw [tasksBefore_eq ha hsa, tasksBefore_eq hb htb, tasksAhead_eq hsa, tasksAhead_eq htb,
    htb.sched.tasks_eq]
  rw [tasksBefore_eq ha hsa] at hfin
  rw [hsa.sched.tasks_eq] at hx hfront
  cases hop : op.schedules with
  | true =>
    rw [hop] at hevent
    obtain ⟨hx', hsub, hmeasure⟩ := ha.forest.measure_step hx hfront hevent
    have hle := Set.ncard_le_ncard hsub hfin
    refine ⟨hx', fun _ => ?_, fun h => absurd h (by decide)⟩
    rcases hmeasure with hlt | ⟨heq, hss⟩
    · refine ⟨?_, hle, Nat.le_of_lt hlt⟩
      rcases Nat.lt_or_eq_of_le hle with h | h
      · exact .left _ _ h
      · rw [h]
        exact .right _ hlt
    · exact ⟨.left _ _ (Set.ncard_lt_ncard hss hfin), hle, Nat.le_of_eq heq⟩
  | false =>
    rw [hop] at hevent
    obtain ⟨hx', hbefore, hahead⟩ := WaitQueue.WellFormed.measure_idle hx hevent
    exact ⟨hx', fun h => absurd h (by decide), fun _ => ⟨hbefore, hahead⟩⟩

/-- **No queued task is starved.**  While `x` is in the queue and not at its front, each call by
which the front task gives up its place brings `(|R|, a)` down in the lexicographic order, where
`R` are the tasks before `x` and `a` is the number of those ahead of it, and each other call
leaves both as they are.  So `x` is at the front after at most `|R| + a` such calls. -/
theorem bounded_waiting {s : Runtime Graph F V} {l : List (Op F V × Reply F V)} {x : Handle}
    (hs : ReachedBy FreesFinished l s) (hx : x ∈ s.sched.tasks) :
    (tasksBefore s x).Finite ∧
      (s.sched.tasks.head? ≠ some x → ∀ op r t, Guarded FreesFinished s (op, r) t →
        x ∈ t.sched.tasks ∧
          (op.schedules = true → Prod.Lex (· < ·) (· < ·) (distance t x) (distance s x)) ∧
          (op.schedules = false → tasksBefore t x = tasksBefore s x ∧
            tasksAhead t x = tasksAhead s x)) ∧
      ∀ l' t, Steps (Guarded FreesFinished) s l' t →
        (distance s x).1 + (distance s x).2 ≤ l'.countP (fun i => i.1.schedules) →
        ∃ l₁ l₂ u, l' = l₁ ++ l₂ ∧ Steps (Guarded FreesFinished) s l₁ u ∧
          Steps (Guarded FreesFinished) u l₂ t ∧ u.sched.tasks.head? = some x := by
  refine ⟨tasksBefore_finite s x, fun hfront op r t hst => ?_, fun l' t hrun hmany => ?_⟩
  · obtain ⟨h₁, h₂, h₃⟩ := distance_step hs hx hfront hst
    exact ⟨h₁, fun h => (h₂ h).1, h₃⟩
  · refine hrun.exists_visit
      (I := fun s => (∃ l, ReachedBy FreesFinished l s) ∧ x ∈ s.sched.tasks)
      (G := fun s => s.sched.tasks.head? = some x)
      (m := fun s => (distance s x).1 + (distance s x).2) ?_ ?_ ?_ ?_ ⟨⟨l, hs⟩, hx⟩ hmany
    · rintro s ⟨op, r⟩ t ⟨⟨l, hs⟩, hx⟩ hfront hst
      exact ⟨⟨_, hs.append (.single hst)⟩, (distance_step hs hx hfront hst).1⟩
    · rintro s ⟨op, r⟩ t ⟨⟨l, hs⟩, hx⟩ hfront hst hop
      obtain ⟨-, hdown, -⟩ := distance_step hs hx hfront hst
      obtain ⟨hlex, hle₁, hle₂⟩ := hdown hop
      rcases Prod.lex_def.mp hlex with h | ⟨h, h'⟩
      · exact Nat.add_lt_add_of_lt_of_le h hle₂
      · exact Nat.add_lt_add_of_le_of_lt hle₁ h'
    · rintro s ⟨op, r⟩ t ⟨⟨l, hs⟩, hx⟩ hfront hst
      obtain ⟨-, hdown, hflat⟩ := distance_step hs hx hfront hst
      cases hop : op.schedules with
      | true => exact Nat.add_le_add (hdown hop).2.1 (hdown hop).2.2
      | false =>
        obtain ⟨h₁, h₂⟩ := hflat hop
        unfold distance
        rw [h₁, h₂]
    · rintro s ⟨-, hx⟩ hzero
      have hnil : tasksAhead s x = [] :=
        List.length_eq_zero_iff.mp (Nat.eq_zero_of_add_eq_zero_left hzero)
      unfold tasksAhead at hnil
      cases hq : s.sched.tasks with
      | nil => simp [hq] at hx
      | cons c rest =>
        rw [hq, List.takeWhile_cons] at hnil
        split at hnil
        · cases hnil
        · rename_i h
          simpa using h

/-- `main` calls a task and skips. -/
theorem bounded_waiting_call : ∃ s : Runtime Graph Nat Nat, ∀ r t,
    Guarded FreesFinished s (.skip, r) t → ⟨2⟩ ∈ t.sched.tasks ∧
      Prod.Lex (· < ·) (· < ·) (distance t ⟨2⟩) (distance s ⟨2⟩) :=
  ⟨_, fun r t hst =>
    have hall := (bounded_waiting (l := [(.call 7 0, .handle ⟨2⟩)]) (x := ⟨2⟩)
      ⟨_, ⟨0, 0, rfl⟩, .cons ⟨rfl, fun _ h => by cases h⟩ (.refl _)⟩ (by decide)).2.1 (by decide)
      .skip r t hst
    ⟨hall.1, hall.2.1 rfl⟩⟩

end CAsync
