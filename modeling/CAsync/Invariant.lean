/-
# The invariant of the graph scheduler

What holds between two calls of any program, also of one that frees tasks it should not: the
pool, the map, the run queue, the parent pointers and the saved stacks agree.  `Phase` says it
task by task, one constructor for each stage of a task's life; `Inv` adds what relates the
tasks to each other.

The state of a task does not say which stage it is in.  `RUNNING` is the state of the task that has
the processor, of one that has left it in `async_skip`, and of one that has left it in `await`, and
what tells them apart is the queue and the frame on top of the saved stack.  So each constructor of
`Phase` names all three, and a lemma about a queued task begins with the cases of its phase
(`Inv.queued`).

Two clauses are weaker than they would be for programs that free finished tasks only.  A task that
waits may have been freed: then its node is gone from the map, and the parent pointer of its child
leads to a node with the handle 0 (`Inv.parent`).  And the child that a task waits for may have
been freed: then nobody wakes the task, ever, but it stays where it is (`Phase.suspended`).
Neither breaks the other clauses, which is why this invariant holds of every run; the stronger
one, of tame runs, is `Tame` in `WaitGraph`.

Everything here is about `Runtime TaskGraph`.  `Refines` carries it to the code.
-/
import CAsync.Pool
import CAsync.TaskGraph

namespace CAsync

open Faulting

variable {F V : Type}

/-! ## 1. The graph by itself -/

namespace TaskGraph

/-- The run queue, as handles. -/
def tasks (a : TaskGraph) : List Handle := a.queue.map fun r => ⟨a.handle r⟩

/-- The map and the queue only have live nodes, and each node is stored under its handle. -/
structure WellFormed (a : TaskGraph) : Prop where
  nodup : a.queue.Nodup
  node : ∀ {i r}, a.nodeOf i = some r → a.handle r = i ∧ i ≠ 0 ∧ r < a.fresh
  queued : ∀ {r}, r ∈ a.queue → a.nodeOf (a.handle r) = some r
  parent_lt : ∀ {c p}, a.parent c = some p → c < a.fresh ∧ p < a.fresh

namespace WellFormed

variable {a : TaskGraph} {h i : Handle} {r : Nat}

theorem zero : WellFormed TaskGraph.zero where
  nodup := List.nodup_nil
  node := fun h => by simp [TaskGraph.zero] at h
  queued := fun h => by simp [TaskGraph.zero] at h
  parent_lt := fun h => by simp [TaskGraph.zero] at h

theorem mem_tasks (ha : a.WellFormed) :
    h ∈ a.tasks ↔ ∃ r, a.nodeOf h.idx = some r ∧ r ∈ a.queue := by
  unfold tasks
  rw [List.mem_map]
  constructor
  · rintro ⟨r, hr, rfl⟩
    exact ⟨r, ha.queued hr, hr⟩
  · rintro ⟨r, hr, hmem⟩
    refine ⟨r, hmem, ?_⟩
    rw [(ha.node hr).1]

/-- A registered task is queued exactly if its node is. -/
theorem mem_tasks_iff (ha : a.WellFormed) (hr : a.nodeOf h.idx = some r) :
    h ∈ a.tasks ↔ r ∈ a.queue := by
  rw [ha.mem_tasks]
  constructor
  · rintro ⟨s, hs, hmem⟩
    rw [hr] at hs
    cases hs
    exact hmem
  · exact fun hmem => ⟨r, hr, hmem⟩

theorem node_inj (ha : a.WellFormed) (hh : a.nodeOf h.idx = some r) (hi : a.nodeOf i.idx = some r) :
    h = i :=
  Handle.eq_of_idx ((ha.node hh).1.symm.trans (ha.node hi).1)

theorem tasks_nodup (ha : a.WellFormed) : a.tasks.Nodup := by
  unfold tasks
  refine List.Nodup.map_on ?_ ha.nodup
  intro r hr s hs heq
  have hrs : a.handle r = a.handle s := congrArg Handle.idx heq
  have h1 := ha.queued hr
  rw [hrs, ha.queued hs] at h1
  cases h1
  rfl

theorem handle_ne (ha : a.WellFormed) (hr : r ∈ a.queue) : a.handle r ≠ 0 :=
  (ha.node (ha.queued hr)).2.1

/-- The tasks of a queue are read off the handles of its nodes. -/
theorem tasks_congr {b : TaskGraph} (hq : b.queue = a.queue)
    (hh : ∀ r ∈ a.queue, b.handle r = a.handle r) : b.tasks = a.tasks := by
  unfold tasks
  rw [hq]
  exact List.map_congr_left fun r hr => congrArg Handle.mk (hh r hr)

/-- Any queue of registered nodes will do. -/
theorem withQueue (ha : a.WellFormed) {q : List Nat} (hnd : q.Nodup)
    (hq : ∀ r ∈ q, a.nodeOf (a.handle r) = some r) : WellFormed { a with queue := q } :=
  ⟨hnd, ha.node, fun hr => hq _ hr, ha.parent_lt⟩

/-- A new node at the end of the queue. -/
theorem registered (ha : a.WellFormed) (hpos : h.idx ≠ 0) (hnew : a.nodeOf h.idx = none) :
    WellFormed {
      queue := a.queue ++ [a.fresh], nodeOf := Function.update a.nodeOf h.idx (some a.fresh),
      parent := Function.update a.parent a.fresh none,
      handle := Function.update a.handle a.fresh h.idx, fresh := a.fresh + 1 } := by
  have hne : ∀ {r}, r ∈ a.queue → r ≠ a.fresh := fun hr =>
    Nat.ne_of_lt (ha.node (ha.queued hr)).2.2
  refine ⟨?_, fun {i r} hi => ?_, fun {r} hr => ?_, fun {c p} hp => ?_⟩
  · refine List.nodup_append.mpr ⟨ha.nodup, List.nodup_singleton _, fun r hr s hs => ?_⟩
    rw [List.mem_singleton.mp hs]
    exact hne hr
  · dsimp only at hi ⊢
    by_cases hih : i = h.idx
    · subst hih
      obtain rfl : a.fresh = r := by simpa using hi
      exact ⟨Function.update_self _ _ _, hpos, Nat.lt_succ_self _⟩
    · rw [Function.update_of_ne hih] at hi
      obtain ⟨h1, h2, h3⟩ := ha.node hi
      rw [Function.update_of_ne (Nat.ne_of_lt h3)]
      exact ⟨h1, h2, Nat.lt_succ_of_lt h3⟩
  · dsimp only
    rcases List.mem_append.mp hr with hr | hr
    · rw [Function.update_of_ne (hne hr)]
      have hold := ha.queued hr
      rw [Function.update_of_ne, hold]
      intro heq
      rw [heq, hnew] at hold
      cases hold
    · rw [List.mem_singleton.mp hr, Function.update_self, Function.update_self]
  · dsimp only at hp ⊢
    by_cases hcf : c = a.fresh
    · subst hcf
      simp at hp
    · rw [Function.update_of_ne hcf] at hp
      obtain ⟨h1, h2⟩ := ha.parent_lt hp
      exact ⟨Nat.lt_succ_of_lt h1, Nat.lt_succ_of_lt h2⟩

/-- A node that is not queued leaves the map. -/
theorem freed (ha : a.WellFormed) (hr : a.nodeOf h.idx = some r) (hq : r ∉ a.queue) :
    WellFormed { a with
      nodeOf := Function.update a.nodeOf h.idx none,
      handle := Function.update a.handle r 0 } := by
  refine ⟨ha.nodup, fun {i s} hi => ?_, fun {s} hs => ?_, ha.parent_lt⟩
  · dsimp only at hi ⊢
    by_cases hih : i = h.idx
    · subst hih
      simp at hi
    · rw [Function.update_of_ne hih] at hi
      rw [Function.update_of_ne]
      · exact ha.node hi
      · rintro rfl
        exact hih ((ha.node hi).1.symm.trans (ha.node hr).1)
  · dsimp only at hs ⊢
    have hsr : s ≠ r := by
      rintro rfl
      exact hq hs
    have hold := ha.queued hs
    rw [Function.update_of_ne hsr, Function.update_of_ne, hold]
    intro heq
    rw [heq, hr] at hold
    cases hold
    exact hq hs

/-- A node gets a parent. -/
theorem withParent (ha : a.WellFormed) {c p : Nat} (hc : c < a.fresh) (hp : p < a.fresh) :
    WellFormed { a with parent := Function.update a.parent c (some p) } := by
  refine ⟨ha.nodup, ha.node, ha.queued, fun {d s} hs => ?_⟩
  dsimp only at hs ⊢
  by_cases hdc : d = c
  · subst hdc
    obtain rfl : p = s := by simpa using hs
    exact ⟨hc, hp⟩
  · rw [Function.update_of_ne hdc] at hs
    exact ha.parent_lt hs

end WellFormed
end TaskGraph

/-! ## 2. The stages of a task -/

/-- The task is in progress or has not started. -/
def TaskPool.Unfinished (p : TaskPool F V) (h : Handle) : Prop :=
  p.stateOf h = some .init ∨ p.stateOf h = some .running

/-- The task `i` left the processor in `graph_wait_ready`, waiting for `h`, and is still there;
`c` is the node of `h`. -/
structure Suspended {S : Type} (s : Runtime S F V) (i : Handle) (c : Nat) (h : Handle) : Prop where
  away : i ≠ s.running
  frame : ∃ t, s.pool.slot i = some t ∧ t.state = .running ∧
    t.stackPtr = some (.graphWaitReady i c h)

/-- What the scheduler and the saved stack say about the task `t` in slot `h`. -/
inductive Phase (s : Runtime TaskGraph F V) (h : Handle) (t : Task F V) : Prop
  | free : t.state = .free → s.sched.nodeOf h.idx = none → Phase s h t
  | init : t.state = .init → h ∈ s.sched.tasks → h ≠ s.running →
      t.stackPtr = some .entry → Phase s h t
  | current : t.state = .running → h = s.running → Phase s h t
  | skipped : t.state = .running → h ∈ s.sched.tasks → h ≠ s.running →
      t.stackPtr = some .asyncSkip → Phase s h t
  /-- The child is freed, which wakes nobody, or it is unfinished. -/
  | suspended {r c : Nat} {k : Handle} : t.state = .running → h ∉ s.sched.tasks →
      h ≠ s.running → t.stackPtr = some (.graphWaitReady h c k) →
      s.sched.nodeOf h.idx = some r → s.sched.parent c = some r →
      s.sched.handle c = 0 ∨ s.sched.nodeOf k.idx = some c ∧ s.pool.Unfinished k → Phase s h t
  | ready : t.state = .ready → (s.sched.nodeOf h.idx).isSome → h ∉ s.sched.tasks → Phase s h t

/-- **The invariant between two calls.** -/
structure Inv (s : Runtime TaskGraph F V) : Prop where
  pool : s.pool.WellFormed
  graph : s.sched.WellFormed
  front : s.sched.tasks.head? = some s.running
  running : s.pool.stateOf s.running = some .running
  mapped : ∀ {h : Handle}, (s.sched.nodeOf h.idx).isSome → (s.pool.slot h).isSome
  phase : ∀ {h t}, s.pool.slot h = some t → Phase s h t
  /-- A node's parent is dead, or waits for it. -/
  parent : ∀ {c p h}, s.sched.nodeOf h.idx = some c → s.pool.Unfinished h →
    s.sched.parent c = some p → s.sched.handle p = 0 ∨
      ∃ i, s.sched.nodeOf i.idx = some p ∧ i ∉ s.sched.tasks ∧ Suspended s i c h

namespace Inv

variable {s t : Runtime TaskGraph F V} {h i : Handle}

theorem exists_rest (hs : Inv s) : ∃ rest, s.sched.tasks = s.running :: rest := by
  have hf := hs.front
  cases hq : s.sched.tasks with
  | nil =>
    rw [hq] at hf
    cases hf
  | cons x rest =>
    rw [hq] at hf
    obtain rfl : x = s.running := by simpa using hf
    exact ⟨rest, rfl⟩

/-- A slot is `FREE`, or not there, exactly if its handle is not in the map. -/
theorem nodeOf_isSome (hs : Inv s) : (s.sched.nodeOf h.idx).isSome ↔
    ∃ u, s.pool.slot h = some u ∧ u.state ≠ .free := by
  constructor
  · intro hn
    obtain ⟨u, hu⟩ := Option.isSome_iff_exists.mp (hs.mapped hn)
    refine ⟨u, hu, fun hfree => ?_⟩
    cases hs.phase hu with
    | free _ hnone =>
      rw [hnone] at hn
      cases hn
    | init h1 => simp [h1] at hfree
    | current h1 => simp [h1] at hfree
    | skipped h1 => simp [h1] at hfree
    | suspended h1 => simp [h1] at hfree
    | ready h1 => simp [h1] at hfree
  · rintro ⟨u, hu, hlive⟩
    cases hs.phase hu with
    | free h1 _ => exact absurd h1 hlive
    | init _ h2 =>
      obtain ⟨r, hr, -⟩ := hs.graph.mem_tasks.mp h2
      rw [hr]
      rfl
    | current _ h2 =>
      obtain ⟨rest, hq⟩ := hs.exists_rest
      obtain ⟨r, hr, -⟩ := hs.graph.mem_tasks.mp
        (show h ∈ s.sched.tasks by rw [h2, hq]; exact List.mem_cons_self)
      rw [hr]
      rfl
    | skipped _ h2 =>
      obtain ⟨r, hr, -⟩ := hs.graph.mem_tasks.mp h2
      rw [hr]
      rfl
    | suspended _ _ _ _ h5 =>
      rw [h5]
      rfl
    | ready _ h2 => exact h2

/-- A queued task that is not running can be switched to: it has not started, or it left the
processor in `async_skip`. -/
theorem queued (hs : Inv s) (hh : h ∈ s.sched.tasks) (hne : h ≠ s.running) :
    ∃ u, s.pool.slot h = some u ∧ (u.state = .init ∧ u.stackPtr = some .entry ∨
      u.state = .running ∧ u.stackPtr = some .asyncSkip) := by
  obtain ⟨r, hr, -⟩ := hs.graph.mem_tasks.mp hh
  have hsome : (s.sched.nodeOf h.idx).isSome := by
    rw [hr]
    rfl
  obtain ⟨u, hu⟩ := Option.isSome_iff_exists.mp (hs.mapped hsome)
  refine ⟨u, hu, ?_⟩
  cases hs.phase hu with
  | free _ hnone =>
    rw [hr] at hnone
    cases hnone
  | init h1 _ _ h4 => exact .inl ⟨h1, h4⟩
  | current _ h2 => exact absurd h2 hne
  | skipped h1 _ _ h4 => exact .inr ⟨h1, h4⟩
  | suspended _ h2 => exact absurd hh h2
  | ready _ _ h3 => exact absurd hh h3

/-- A queued task has not finished. -/
theorem unfinished (hs : Inv s) (hh : h ∈ s.sched.tasks) : s.pool.Unfinished h := by
  by_cases hrun : h = s.running
  · rw [hrun]
    exact .inr hs.running
  · obtain ⟨u, hu, hstage⟩ := hs.queued hh hrun
    unfold TaskPool.Unfinished
    rw [TaskPool.stateOf_eq hu]
    exact hstage.imp (fun h => congrArg some h.1) fun h => congrArg some h.1

end Inv

/-- The stage of a task that a call does not touch. -/
theorem Phase.mono {s s' : Runtime TaskGraph F V} {h : Handle} {t : Task F V}
    (hnode : s'.sched.nodeOf h.idx = s.sched.nodeOf h.idx)
    (hqueue : h ∈ s'.sched.tasks ↔ h ∈ s.sched.tasks)
    (hrun : h = s'.running ↔ h = s.running)
    (hchild : ∀ {r c k}, s.sched.nodeOf h.idx = some r → s.sched.parent c = some r →
      t.stackPtr = some (.graphWaitReady h c k) → t.state = .running → h ∉ s.sched.tasks →
      s.sched.handle c = 0 ∨ s.sched.nodeOf k.idx = some c ∧ s.pool.Unfinished k →
      s'.sched.parent c = some r ∧ (s'.sched.handle c = 0 ∨
        s'.sched.nodeOf k.idx = some c ∧ s'.pool.Unfinished k))
    (hp : Phase s h t) : Phase s' h t := by
  cases hp with
  | free h1 h2 => exact .free h1 (hnode.trans h2)
  | init h1 h2 h3 h4 => exact .init h1 (hqueue.mpr h2) (fun e => h3 (hrun.mp e)) h4
  | current h1 h2 => exact .current h1 (hrun.mpr h2)
  | skipped h1 h2 h3 h4 => exact .skipped h1 (hqueue.mpr h2) (fun e => h3 (hrun.mp e)) h4
  | suspended h1 h2 h3 h4 h5 h6 h7 =>
    obtain ⟨hparent, hc⟩ := hchild h5 h6 h4 h1 h2 h7
    exact .suspended h1 (fun e => h2 (hqueue.mp e)) (fun e => h3 (hrun.mp e)) h4
      (hnode.trans h5) hparent hc
  | ready h1 h2 h3 =>
    rw [← hnode] at h2
    exact .ready h1 h2 fun e => h3 (hqueue.mp e)

end CAsync
