/-
# No task is lost

In a run that frees finished tasks only, every unfinished task is in the run queue once, or it
waits for one unfinished child, and chains of waiting tasks end in the queue (`no_task_lost`).  So
the queue is not empty while `main` is unfinished, and its underflow assertions never fire: the
last queued task to end is awaited, and its parent takes its place.

The work is in `Tame`, the invariant of such runs, and in the forest of waiting tasks that is part
of it: the queued tasks are its roots, and each call moves it by one of the few events of a wait
queue (`WaitGraph`).  Here the parts are put together.  That the queue does not underflow is an
argument about `main`: it is unfinished in every state of a run (`main_running`).  If the task that
returns is alone in the queue and is not `main`, then `main` waits; its chain ends in the queue,
hence at this task, so somebody waits for it (`Tame.last_awaited`).
-/
import CAsync.Consistency
import CAsync.QueueFaults
import CAsync.WaitGraph

namespace CAsync

open Faulting TaskPool Relation

variable {F V : Type}

namespace Tame

variable {s : Runtime TaskGraph F V} {h i k : Handle}

/-- A task waits for one child only. -/
theorem waits_unique (hs : Tame s) (hk : Waits s h k) (hi : Waits s h i) : i = k :=
  hs.forest.functional hi hk

/-- An unfinished task is queued or waits. -/
theorem queued_or_waits (hs : Tame s) (hh : s.pool.Unfinished h) :
    h ∈ s.sched.tasks ∨ ∃ k, Waits s h k := by
  have hslot : ∃ u, s.pool.slot h = some u ∧ (u.state = .init ∨ u.state = .running) := by
    rcases hh with hh | hh <;> obtain ⟨u, hu, hst⟩ := stateOf_eq_some.mp hh
    · exact ⟨u, hu, .inl hst⟩
    · exact ⟨u, hu, .inr hst⟩
  obtain ⟨u, hu, hst⟩ := hslot
  cases hs.inv.phase hu with
  | free h1 => simp [h1] at hst
  | init _ h2 => exact .inl h2
  | current _ h2 =>
    rw [h2]
    exact .inl hs.inv.running_mem
  | skipped _ h2 => exact .inl h2
  | suspended h1 _ h3 h4 => exact .inr ⟨_, _, h3, u, hu, h1, h4⟩
  | ready h1 => simp [h1] at hst

/-- **The last queued task is awaited**, unless it is `main`: otherwise the chain from `main`
would not end in the queue. -/
theorem last_awaited (hs : Tame s) (hmain : s.pool.stateOf ⟨1⟩ = some .running)
    (hrun : s.running.idx ≠ 1) (hq : s.sched.tasks = [s.running]) {c : Nat}
    (hc : s.sched.nodeOf s.running.idx = some c) : s.sched.parent c ≠ none := by
  intro hnone
  have hne : (⟨1⟩ : Handle) ≠ s.running := fun h => hrun (congrArg Handle.idx h.symm)
  have hwaits : ∃ k, Waits s ⟨1⟩ k := by
    refine (hs.queued_or_waits (.inr hmain)).resolve_left fun hmem => ?_
    rw [hq, List.mem_singleton] at hmem
    exact hne hmem
  obtain ⟨k, hk⟩ := hwaits
  obtain ⟨z, hz, hkz⟩ := hs.forest.ends (x := ⟨1⟩) (y := k) hk
  have hz : z ∈ s.sched.tasks := hz
  rw [hq, List.mem_singleton] at hz
  subst hz
  obtain ⟨i, -, hi⟩ := TransGen.tail'_iff.mp (TransGen.head' hk hkz)
  exact hs.unawaited hc hnone i hi

end Tame

/-- The slot of `main` in a run that frees finished tasks only. -/
theorem main_running {l : List (Op F V × Reply F V)} {s : Runtime Graph F V}
    (hs : ReachedBy FreesFinished l s) :
    ∃ a : Runtime TaskGraph F V, (Tame a ∧ a.pool.stateOf ⟨1⟩ = some .running) ∧
      SameRuntime TaskGraph.Represents s a := by
  refine hs.model (P := FreesFinished) (Q := FreesFinished) (fun _ => FreesFinished.same)
    (fun mainFn arg => ⟨started_tame mainFn arg, rfl⟩) ?_
  rintro a ⟨op, r⟩ b ⟨ha, hmain⟩ hst
  refine ⟨ha.next hst, ?_⟩
  obtain ⟨u, hu, hrun⟩ := stateOf_eq_some.mp hmain
  obtain ⟨heff, -⟩ := ha.inv.effect hst.1
  obtain ⟨w, hw, hwr, -⟩ := heff.main ha.inv hst.2.freesNoWaiter hu hrun
  rw [stateOf_eq hw, hwr]

/-- **No task is lost.**  In every state of a run that frees finished tasks only: the running
task is at the front of the queue; every unfinished task is in the queue once, or waits for one
unfinished child whose parent is its node, and not both; the flag `in_queue` says whether a node
is in the queue; waiting has no cycles and every chain of it ends in the queue; and no call
makes the queue underflow. -/
theorem no_task_lost {l : List (Op F V × Reply F V)} {s : Runtime Graph F V}
    (hs : ReachedBy FreesFinished l s) :
    s.sched.tasks.head? = some s.running ∧
      (∀ h, s.pool.Unfinished h →
        s.sched.tasks.count h = 1 ∧ (∀ k, ¬ Waits s h k) ∨
        h ∉ s.sched.tasks ∧ ∃ k, Waits s h k ∧ (∀ i, Waits s h i → i = k) ∧
          s.pool.Unfinished k ∧ ∃ n c node, s.sched.Stores h.idx n ∧ s.sched.Stores k.idx c ∧
            s.sched.nodes[c]? = some node ∧ node.parent = some n) ∧
      (∀ n node, s.sched.nodes[n]? = some node →
        (node.inQueue = true ↔ some n ∈ s.sched.queue.toList)) ∧
      (∀ h, ¬ TransGen (Waits s) h h) ∧
      (∀ h k, Waits s h k → ∃ z ∈ s.sched.tasks, ReflTransGen (Waits s) k z) ∧
      ∀ op, step s op ≠ .error .queueUnderflow := by
  obtain ⟨a, ⟨ha, hmain⟩, hsa⟩ := main_running hs
  have hr := hsa.sched
  rw [hr.tasks_eq, hsa.pool, hsa.running, hsa.waits]
  refine ⟨ha.inv.front, fun h hh => ?_, fun n node => hr.inQueue_iff, ha.forest.acyclic,
    fun h k => ha.forest.ends, fun op hop => ?_⟩
  · by_cases hmem : h ∈ a.sched.tasks
    · exact .inl ⟨List.count_eq_one_of_mem ha.inv.graph.tasks_nodup hmem, fun k =>
        ha.forest.root hmem⟩
    · obtain ⟨k, c, hk⟩ := (ha.queued_or_waits hh).resolve_left hmem
      obtain ⟨hc, hu⟩ := ha.child hk
      obtain ⟨-, n, hn, hp⟩ := ha.inv.of_suspended hk
      exact .inr ⟨hmem, k, ⟨c, hk⟩, fun i hi => ha.waits_unique ⟨c, hk⟩ hi, hu, n, c, _,
        hr.stores.mpr hn, hr.stores.mpr hc, hr.node_of ha.inv.graph hc, hp⟩
  · exact ha.inv.step_avoids .underflow op (fun h₁ h₂ h₃ => ha.last_awaited hmain h₁ h₂ h₃)
      ((graphRefines.step hsa op).error_iff.mp hop)

/-- `main` calls a task that calls another, and both wait. -/
theorem no_task_lost_nested : ∃ s : Runtime Graph Nat Nat,
    (∀ op, step s op ≠ .error .queueUnderflow) ∧ s.sched.tasks = [⟨3⟩] :=
  ⟨_, (no_task_lost
    (l := [(.call 7 0, .handle ⟨2⟩), (.await ⟨2⟩, .start 7 0), (.call 8 0, .handle ⟨3⟩),
      (.await ⟨3⟩, .start 8 0)])
    ⟨_, ⟨0, 0, rfl⟩, .cons ⟨rfl, fun _ h => by cases h⟩ (.cons ⟨rfl, fun _ h => by cases h⟩
      (.cons ⟨rfl, fun _ h => by cases h⟩ (.cons ⟨rfl, fun _ h => by cases h⟩
        (.refl _))))⟩).2.2.2.2.2, by decide⟩

end CAsync
