/-
# The two schedulers agree on programs that do not wait in `await`

A program whose tasks only poll (`await_any` and `await_all` are made of `poll_state` and
`async_skip`) runs over the graph scheduler as it does over the queue scheduler, call for call,
with the same replies, the same task pool and the same run queue (`schedulers_agree`).  So the
nodes, the map and the parents of the graph scheduler make no difference until a task calls
`await`.

The proof compares the two models, `TaskGraph` and `TaskList`, by the relation `SameQueue`: the
tasks of the queued nodes are the handles of the list.  Each call of the library keeps it in
lockstep, down to the fault (`Inv.same_step`), because no task has a parent: `graph_finish_task`
then wakes nobody, and drops the front of the queue as `finish_task` does.  That no task has a
parent is kept by every call but `await` (`Effect.unawaited`), so it is part of the invariant of a
run (`Agree`).  The two schedulers differ in one more place, `poll_state` of the handle 0, where
the one has an assertion and the other reads in front of the array; no call of it passes
(`poll_null`).

Section 3 composes this with the two refinements, on either side: a step of `Graph` is one of
`TaskGraph`, hence one of `TaskList`, hence one of `HandleQueue`, and back the same way.
-/
import CAsync.Consistency
import CAsync.FinishedChild
import CAsync.QueueRuns

namespace CAsync

open Faulting TaskPool

variable {S A F V : Type}

/-! ## 1. After a switch -/

/-- A switch to a runnable task does not go into `graph_wait_ready`. -/
theorem Task.Runnable.not_waiting {u : Task F V} {top : Frame} (h : u.Runnable top) {p i : Handle}
    {c : Nat} : (if u.state = .init then Control.entered u.fn u.data else .resumed top) ≠
      .resumed (.graphWaitReady p c i) := by
  obtain ⟨-, hinit | ⟨hrun, rfl | ⟨k, rfl⟩⟩⟩ := h
  · rw [if_pos hinit]
    exact nofun
  · rw [if_neg (by rw [hrun]; decide)]
    exact nofun
  · rw [if_neg (by rw [hrun]; decide)]
    exact nofun

/-- What follows a switch, if it does not go into `graph_wait_ready`. -/
theorem SameRuntime.replied [SchedulerVTable S] [SchedulerVTable A] {Rep : S → A → Prop}
    {x : Except Fault (Runtime S F V × Control F V)}
    {y : Except Fault (Runtime A F V × Control F V)}
    (r : Reply F V) (h : Lockstep (fun x y => SameRuntime Rep x.1 y.1 ∧ x.2 = y.2) x y)
    (hnot : ∀ t p c i, x ≠ .ok (t, .resumed (.graphWaitReady p c i))) :
    Lockstep (SameOutcome Rep)
      (do
        let (s, control) ← x
        let reply ← replyOf s r control
        .ok (.next s reply))
      (do
        let (a, control) ← y
        let reply ← replyOf a r control
        .ok (.next a reply)) := by
  cases h with
  | error e => exact .error e
  | @ok x y hxy =>
    obtain ⟨s, c⟩ := x
    obtain ⟨a, c'⟩ := y
    obtain ⟨hs, rfl⟩ := hxy
    rw [ok_bind, ok_bind]
    cases c with
    | returned => exact .ok (.next _ hs)
    | entered fn data => exact .ok (.next _ hs)
    | resumed frame =>
      cases frame with
      | entry => exact .error _
      | asyncSkip => exact .ok (.next _ hs)
      | busyWaitReady h => exact .ok (.next _ hs)
      | graphWaitReady p c i => exact absurd rfl (hnot s p c i)

/-! ## 2. One call -/

/-- The same run queue. -/
def SameQueue (g : TaskGraph) (l : TaskList) : Prop := g.tasks = l.queue

namespace Inv

variable {s : Runtime TaskGraph F V} {a : Runtime TaskList F V} {h : Handle}

theorem same_current (hs : Inv s) (hsa : SameRuntime SameQueue s a) :
    SchedulerOps.currentTask s.sched = SchedulerOps.currentTask a.sched := by
  obtain ⟨rest, hq⟩ := hs.exists_rest
  have hcur : SchedulerOps.currentTask s.sched = .ok s.running := hs.currentTask
  have hqueue : s.sched.tasks = a.sched.queue := hsa.sched
  rw [hcur]
  change _ = TaskList.front a.sched.queue
  rw [← hqueue, hq]
  rfl

theorem same_next (hs : Inv s) (hsa : SameRuntime SameQueue s a) :
    Lockstep (fun x y => SameQueue x.1 y.1 ∧ x.2 = y.2)
      (SchedulerOps.nextTask s.sched) (SchedulerOps.nextTask a.sched) := by
  obtain ⟨p, q, hq, hp, -, h0, -, htasks⟩ := hs.exists_queue
  have hqueue : s.sched.tasks = a.sched.queue := hsa.sched
  change Lockstep _ s.sched.nextTask a.sched.nextTask
  unfold TaskGraph.nextTask TaskList.nextTask
  rw [hq, ← hqueue, htasks]
  dsimp only
  rw [require_of h0, ok_bind]
  refine .ok ⟨?_, ?_⟩
  · unfold SameQueue TaskGraph.tasks
    rw [List.map_append, List.map_singleton, hp]
  · cases q with
    | nil => exact hp.symm
    | cons n q => rfl

theorem same_skip (hs : Inv s) (hsa : SameRuntime SameQueue s a) :
    Lockstep (SameOutcome SameQueue) (step s .skip) (step a .skip) := by
  refine SameRuntime.replied .skip
    (hsa.asyncSkip (hs.same_current hsa) (hs.same_next hsa) .asyncSkip)
    fun t p c i hwait => ?_
  -- it would be told a result
  obtain ⟨r, t', hok, heff, -⟩ := hs.step_skip
  have hreply : ∀ v, r ≠ .await v := by
    cases heff with
    | alone => exact nofun
    | skip => exact fun v => Task.resumed_ne_await _ v
  unfold step CAsync.skip at hok
  dsimp only at hok
  rw [hwait, ok_bind] at hok
  obtain ⟨reply, hresume, hok⟩ := bind_eq_ok.mp hok
  obtain ⟨-, -, hresume⟩ := bind_eq_ok.mp hresume
  obtain ⟨u, -, hresume⟩ := bind_eq_ok.mp hresume
  cases hresume
  cases hok
  exact hreply _ rfl

theorem same_call (hs : Inv s) (hsa : SameRuntime SameQueue s a) (fn : F) (arg : V) :
    Lockstep (SameOutcome SameQueue) (step s (.call fn arg)) (step a (.call fn arg)) := by
  have hcall : Lockstep (fun x y => SameRuntime SameQueue x.1 y.1 ∧ x.2 = y.2)
      (asyncCall s fn arg) (asyncCall a fn arg) := by
    refine hsa.asyncCall fun pool i halloc => ?_
    -- the graph scheduler has no node for the handle of the new task
    obtain ⟨h, t, hok, heff, -⟩ := hs.step_call fn arg
    cases heff with
    | @call _ _ h u t new slot room fresh tasks running nodeOf parent =>
      unfold step asyncCall startNewTask at hok
      dsimp only at hok
      rw [hsa.pool, halloc, ok_bind] at hok
      obtain ⟨⟨t', i'⟩, hreg, hok⟩ := bind_eq_ok.mp hok
      obtain ⟨g, hg, hreg⟩ := bind_eq_ok.mp hreg
      cases hreg
      cases hok
      rw [hg]
      refine .ok ?_
      have hqueue : s.sched.tasks = a.sched.queue := hsa.sched
      exact tasks.trans (congrArg (· ++ [i]) hqueue)
  refine hcall.bind fun x y hxy => ?_
  obtain ⟨t, i⟩ := x
  obtain ⟨b, i'⟩ := y
  obtain ⟨hs, rfl⟩ := hxy
  exact .ok (.next _ hs)

/-- `graph_free_task` of a task that is not queued. -/
theorem same_freeTask (hs : Inv s) {g : TaskGraph} {l : TaskList} {p : Nat}
    (hnodeOf : g.nodeOf = s.sched.nodeOf) (hhandle : g.handle = s.sched.handle)
    (hnode : s.sched.nodeOf h.idx = some p) (haway : p ∉ g.queue) (hgl : SameQueue g l) :
    Lockstep SameQueue (SchedulerOps.freeTask g h) (SchedulerOps.freeTask l h) := by
  obtain ⟨h1, h0, -⟩ := hs.graph.node hnode
  have hfree : g.freeTask h = .ok { g with
      nodeOf := Function.update g.nodeOf h.idx none, handle := Function.update g.handle p 0 } := by
    unfold TaskGraph.freeTask
    rw [hnodeOf, hnode]
    dsimp only
    rw [require_of haway, ok_bind, hhandle, require_of (by rw [h1]; exact h0), ok_bind]
  change Lockstep SameQueue (g.freeTask h) (.ok l)
  rw [hfree]
  refine .ok ?_
  have hkeep : TaskGraph.tasks { g with
      nodeOf := Function.update g.nodeOf h.idx none, handle := Function.update g.handle p 0 } =
      g.tasks := by
    refine TaskGraph.WellFormed.tasks_congr rfl fun r hr => Function.update_of_ne ?_ _ _
    rintro rfl
    exact haway hr
  exact hkeep.trans hgl

theorem same_free (hs : Inv s) (hsa : SameRuntime SameQueue s a)
    (hready : s.pool.stateOf h = some .ready) :
    Lockstep (SameOutcome SameQueue) (step s (.free h)) (step a (.free h)) := by
  obtain ⟨u, hu, hur⟩ := stateOf_eq_some.mp hready
  obtain ⟨p, hp⟩ := Option.isSome_iff_exists.mp
    (hs.nodeOf_isSome.mpr ⟨u, hu, by rw [hur]; exact nofun⟩)
  have haway : h ∉ s.sched.tasks := by
    intro hmem
    rcases hs.unfinished hmem with hst | hst
    · rw [hready] at hst
      cases hst
    · rw [hready] at hst
      cases hst
  have hpq : p ∉ s.sched.queue := fun hmem => haway ((hs.graph.mem_tasks_iff hp).mpr hmem)
  exact (hsa.freeTask (hs.same_freeTask rfl rfl hp hpq hsa.sched)).bind fun x y hxy =>
    .ok (.next _ hxy)

theorem same_poll (hs : Inv s) (hsa : SameRuntime SameQueue s a) (h0 : h.idx ≠ 0) :
    Lockstep (SameOutcome SameQueue) (step s (.poll h)) (step a (.poll h)) := by
  have hpoll : pollState s h = pollState a h := by
    unfold pollState
    rw [hs.same_current hsa, hsa.pool]
    have htask :
        SchedulerOps.pollTask s.sched a.pool h = SchedulerOps.pollTask a.sched a.pool h := by
      change TaskGraph.pollTask _ _ _ = TaskList.pollTask _ _ _
      unfold TaskGraph.pollTask TaskList.pollTask
      rw [require_of h0, require_of h0]
    rw [htask]
  unfold step
  dsimp only
  rw [hpoll]
  cases pollState a h with
  | error e => exact .error e
  | ok st => exact .ok (.next _ hsa)

theorem same_orphan (hsa : SameRuntime SameQueue s a) :
    Lockstep (SameOutcome SameQueue) (step s (.orphan h)) (step a (.orphan h)) := by
  unfold step asyncOrphan
  dsimp only
  rw [hsa.pool]
  cases getTask a.pool h with
  | error e => exact .error e
  | ok t => exact .ok (.next _ ⟨rfl, hsa.running, hsa.sched⟩)

/-- `graph_finish_task` when nobody awaits the running task. -/
theorem finishTask_eq (hs : Inv s) {p : Nat} {q : List Nat} (hq : s.sched.queue = p :: q)
    (hidle : s.sched.parent p = none) : s.sched.finishTask = (do
      let next ← s.sched.front q
      .ok ({ s.sched with queue := q }, s.running, next)) := by
  obtain ⟨p', q', hq', hp, -, h0, -⟩ := hs.exists_queue
  rw [hq] at hq'
  cases hq'
  unfold TaskGraph.finishTask
  rw [hq]
  dsimp only
  rw [require_of h0, ok_bind, hidle, hp]

theorem same_finish (hs : Inv s) (hsa : SameRuntime SameQueue s a) {p : Nat} {q : List Nat}
    (hq : s.sched.queue = p :: q) (hidle : s.sched.parent p = none) :
    Lockstep (fun x y => SameQueue x.1 y.1 ∧ x.2 = y.2)
      (SchedulerOps.finishTask s.sched) (SchedulerOps.finishTask a.sched) := by
  obtain ⟨p', q', hq', hp, -, -, -, htasks⟩ := hs.exists_queue
  rw [hq] at hq'
  cases hq'
  have hqueue : s.sched.tasks = a.sched.queue := hsa.sched
  change Lockstep _ s.sched.finishTask a.sched.finishTask
  rw [hs.finishTask_eq hq hidle]
  unfold TaskList.finishTask
  rw [← hqueue, htasks]
  cases q with
  | nil => exact .error _
  | cons n q =>
    have hn : s.sched.handle n ≠ 0 := hs.graph.handle_ne (by rw [hq]; simp)
    unfold TaskGraph.front
    dsimp only
    rw [require_of hn]
    exact .ok ⟨rfl, rfl⟩

/-- Where `async_return` is after `t->state = READY`: there is a next task, which is runnable. -/
theorem ready_eq (hs : Inv s) {data : V} {mid : Runtime TaskGraph F V} {f next : Handle}
    (hidle : ∀ p, s.sched.nodeOf s.running.idx = some p → s.sched.parent p = none)
    (hready : asyncReturnReady s data = .ok (.ready mid f next)) :
    ∃ p q t u top, s.sched.nodeOf s.running.idx = some p ∧ p ∉ q ∧ f = s.running ∧
      mid.sched = { s.sched with queue := q } ∧ freeOrphan mid s.running = .ok t ∧
      t.pool.slot next = some u ∧ u.Runnable top := by
  obtain ⟨p, q, hq, hp, hnode, h0, hpq, htasks⟩ := hs.exists_queue
  obtain ⟨v, hv, -⟩ := hs.running_task
  have hcur : SchedulerOps.currentTask s.sched = .ok s.running := hs.currentTask
  have hfin := hs.finishTask_eq hq (hidle p hnode)
  have hready' := hready
  unfold asyncReturnReady at hready
  rw [hcur, ok_bind] at hready
  split at hready
  · cases hready
  rename_i hmain
  change s.sched.finishTask >>= _ = _ at hready
  rw [hfin] at hready
  obtain ⟨⟨g, f', next'⟩, hok, hready⟩ := bind_eq_ok.mp hready
  obtain ⟨n, hfront, hok⟩ := bind_eq_ok.mp hok
  cases hok
  dsimp only at hready
  rw [if_neg hmain] at hready
  obtain ⟨w, -, hready⟩ := bind_eq_ok.mp hready
  cases hready
  rw [hfront, ok_bind] at hfin
  obtain ⟨mid', pool, hmid, -, hfree, hslot, -, -⟩ := hs.finish_eq hmain hnode hpq hv data hfin
  rw [hready'] at hmid
  cases hmid
  -- the task that is next
  cases q with
  | nil => cases hfront
  | cons n q =>
    obtain ⟨-, -, hfront⟩ := bind_eq_ok.mp hfront
    cases hfront
    have hmem : (⟨s.sched.handle n⟩ : Handle) ∈ s.sched.tasks := by
      rw [htasks]
      simp
    have hne : (⟨s.sched.handle n⟩ : Handle) ≠ s.running := by
      have hnd := hs.graph.tasks_nodup
      rw [htasks, List.map_cons] at hnd
      rintro heq
      rw [heq] at hnd
      simp at hnd
    obtain ⟨u, top, hu, htop⟩ := hs.runnable hmem hne
    exact ⟨p, n :: q, _, u, top, hnode, hpq, rfl, rfl, hfree,
      by rw [hslot, Function.update_of_ne hne, hu], htop⟩

/-- **`async_return`** of a task that nobody awaits. -/
theorem same_ret (hs : Inv s) (hsa : SameRuntime SameQueue s a)
    (hidle : ∀ p, s.sched.nodeOf s.running.idx = some p → s.sched.parent p = none) (data : V) :
    Lockstep (SameOutcome SameQueue) (step s (.ret data)) (step a (.ret data)) := by
  obtain ⟨p, q, hq, -, hnode, -⟩ := hs.exists_queue
  have hlock :=
    hsa.asyncReturnReady (hs.same_current hsa) (hs.same_finish hsa hq (hidle p hnode)) data
  unfold step asyncReturn
  dsimp only
  generalize hx : asyncReturnReady s data = x at hlock ⊢
  generalize asyncReturnReady a data = y at hlock ⊢
  cases hlock with
  | error e => exact .error e
  | ok hxy =>
    cases hxy with
    | exit data => exact .ok (.exit data)
    | @ready mid mid' f next hmid =>
      obtain ⟨p, q, t, u, top, hnode, hpq, rfl, hsched, hfree, hu, htop⟩ := hs.ready_eq hidle hx
      have horphan : Lockstep (SameRuntime SameQueue) (freeOrphan mid s.running)
          (freeOrphan mid' s.running) := by
        refine hmid.freeOrphan (hs.same_freeTask ?_ ?_ hnode ?_ hmid.sched)
        · rw [hsched]
        · rw [hsched]
        · rwa [hsched]
      rw [ok_bind, ok_bind]
      dsimp only
      rw [hfree] at horphan ⊢
      obtain ⟨b, hb, htb⟩ := horphan.ok_left
      rw [hb, ok_bind, ok_bind]
      refine SameRuntime.replied .skip (htb.asyncSwitch ⟨0⟩ next .entry) fun t' p c i hwait => ?_
      obtain ⟨pool, hok, -⟩ := asyncSwitch_null .entry hu htop.state htop.1
      rw [hok] at hwait
      exact htop.not_waiting (Prod.mk.inj (Except.ok.inj hwait)).2

/-- **One call** that is not `await`. -/
theorem same_step (hs : Inv s) (hsa : SameRuntime SameQueue s a) (hidle : ∀ h, Unawaited s h)
    {op : Op F V} (hop : ∀ h, op ≠ .await h) (hg : FreesFinished s op) (hpoll : op ≠ .poll ⟨0⟩) :
    Lockstep (SameOutcome SameQueue) (step s op) (step a op) := by
  cases op with
  | call fn arg => exact hs.same_call hsa fn arg
  | skip => exact hs.same_skip hsa
  | await h => exact absurd rfl (hop h)
  | ret data => exact hs.same_ret hsa (fun p hp => hidle s.running p hp) data
  | orphan h => exact same_orphan hsa
  | free h => exact hs.same_free hsa (hg h rfl)
  | poll h => exact hs.same_poll hsa fun h0 => hpoll (congrArg Op.poll (Handle.eq_of_idx h0))

end Inv

/-! ## 3. Runs -/

/-- A call of a program that polls: it is not `await`, and it frees a task only
if it has finished. -/
def Polls (s : Runtime S F V) (op : Op F V) : Prop := (∀ h, op ≠ .await h) ∧ FreesFinished s op

/-- The same tasks, in the same states, and in the same order in the run queue. -/
structure SameState (g : Runtime Graph F V) (q : Runtime HandleQueue F V) : Prop where
  pool : g.pool = q.pool
  running : g.running = q.running
  tasks : g.sched.tasks = q.sched.toList

/-- The two libraries, through their models. -/
def Agree (g : Runtime Graph F V) (q : Runtime HandleQueue F V) : Prop :=
  ∃ (s : Runtime TaskGraph F V) (a : Runtime TaskList F V), Inv s ∧ (∀ h, Unawaited s h) ∧
    SameRuntime TaskGraph.Represents g s ∧ SameRuntime SameQueue s a ∧
    SameRuntime TaskList.Represents q a

/-- Related outcomes are exits alike. -/
theorem SameOutcome.exit_iff {Rep : S → A → Prop} {x : Except Fault (Outcome S F V)}
    {y : Except Fault (Outcome A F V)} (h : Lockstep (SameOutcome Rep) x y) (data : V) :
    x = .ok (.exit data) ↔ y = .ok (.exit data) := by
  cases h with
  | error e => exact ⟨nofun, nofun⟩
  | ok hxy =>
    cases hxy with
    | exit d => exact ⟨fun hd => by cases hd; rfl, fun hd => by cases hd; rfl⟩
    | next r hs => exact ⟨nofun, nofun⟩

/-- `poll_state` of no task fails. -/
theorem poll_null [SchedulerVTable S] (s : Runtime S F V) (o : Outcome S F V) :
    step s (.poll ⟨0⟩) ≠ .ok o := by
  intro hok
  obtain ⟨st, hpoll, -⟩ := bind_eq_ok.mp hok
  obtain ⟨-, -, hpoll⟩ := bind_eq_ok.mp hpoll
  obtain ⟨-, -, hpoll⟩ := bind_eq_ok.mp hpoll
  obtain ⟨t, hget, -⟩ := bind_eq_ok.mp hpoll
  exact absurd (slot_bounds (getTask_eq_ok.mp hget)).1 (Nat.lt_irrefl 0)

namespace Agree

variable {g g' : Runtime Graph F V} {q q' : Runtime HandleQueue F V} {op : Op F V} {r : Reply F V}

theorem sameState (h : Agree g q) : SameState g q := by
  obtain ⟨s, a, hs, -, hgs, hsa, hqa⟩ := h
  refine ⟨hgs.pool.trans (hsa.pool.trans hqa.pool.symm),
    hgs.running.trans (hsa.running.trans hqa.running.symm), ?_⟩
  rw [hgs.sched.tasks_eq, hqa.sched.toList_eq]
  exact hsa.sched

/-- **A call over the graph scheduler** is one over the queue scheduler. -/
theorem next (h : Agree g q) (hop : Polls g op) (hst : Next g (op, r) g') :
    ∃ q', Next q (op, r) q' ∧ Agree g' q' := by
  obtain ⟨s, a, hs, hidle, hgs, hsa, hqa⟩ := h
  have hpoll : op ≠ .poll ⟨0⟩ := by
    rintro rfl
    exact poll_null g _ hst
  obtain ⟨t, hnext, hgt⟩ := graphRefines.next hgs hst
  have hok : step s op = .ok (.next t r) := hnext
  have hlock := hs.same_step hsa hidle hop.1 (hop.2.same hgs) hpoll
  rw [hok] at hlock
  obtain ⟨o, hb, hrel⟩ := hlock.ok_left
  cases hrel with
  | @next _ b _ htb =>
    have hqueue := TaskList.queueRefines.step hqa op
    rw [hb] at hqueue
    obtain ⟨o, hq', hrel⟩ := hqueue.ok_right
    cases hrel with
    | @next q' _ _ hqb =>
      obtain ⟨heff, ht⟩ := hs.effect hnext
      exact ⟨q', hq', t, b, ht, fun i => heff.unawaited hs (hop.1 i) (hidle i), hgt, htb, hqb⟩

/-- ... and back. -/
theorem back (h : Agree g q) (hop : Polls q op) (hst : Next q (op, r) q') :
    ∃ g', Next g (op, r) g' ∧ Agree g' q' := by
  obtain ⟨s, a, hs, hidle, hgs, hsa, hqa⟩ := h
  have hpoll : op ≠ .poll ⟨0⟩ := by
    rintro rfl
    exact poll_null q _ hst
  obtain ⟨b, hnext, hqb⟩ := TaskList.queueRefines.next hqa hst
  have hok : step a op = .ok (.next b r) := hnext
  have hfree : FreesFinished s op := by
    intro i hi
    rw [hsa.pool]
    exact hop.2.same hqa i hi
  have hlock := hs.same_step hsa hidle hop.1 hfree hpoll
  rw [hok] at hlock
  obtain ⟨o, ht, hrel⟩ := hlock.ok_right
  cases hrel with
  | @next t _ _ htb =>
    have hgraph := graphRefines.step hgs op
    rw [ht] at hgraph
    obtain ⟨o, hg', hrel⟩ := hgraph.ok_right
    cases hrel with
    | @next g' _ _ hgt =>
      obtain ⟨heff, ht'⟩ := hs.effect (show Next s (op, r) t from ht)
      exact ⟨g', hg', t, b, ht', fun i => heff.unawaited hs (hop.1 i) (hidle i), hgt, htb, hqb⟩

/-- The process exits over both, with the same value, or over neither. -/
theorem exit_iff (h : Agree g q) (hop : Polls g op) {data : V} :
    step g op = .ok (.exit data) ↔ step q op = .ok (.exit data) := by
  obtain ⟨s, a, hs, hidle, hgs, hsa, hqa⟩ := h
  by_cases hpoll : op = .poll ⟨0⟩
  · subst hpoll
    exact ⟨fun hok => absurd hok (poll_null g _), fun hok => absurd hok (poll_null q _)⟩
  · calc step g op = .ok (.exit data)
        ↔ step s op = .ok (.exit data) := SameOutcome.exit_iff (graphRefines.step hgs op) data
      _ ↔ step a op = .ok (.exit data) :=
        SameOutcome.exit_iff (hs.same_step hsa hidle hop.1 (hop.2.same hgs) hpoll) data
      _ ↔ step q op = .ok (.exit data) :=
        (SameOutcome.exit_iff (TaskList.queueRefines.step hqa op) data).symm

/-- The two libraries when `main` starts. -/
theorem start (mainFn : F) (arg : V) : ∃ (g : Runtime Graph F V) (q : Runtime HandleQueue F V),
    runAsyncMain mainFn arg = .ok (.next g (.start mainFn arg)) ∧
      runAsyncMain mainFn arg = .ok (.next q (.start mainFn arg)) ∧ Agree g q := by
  let a : Runtime TaskList F V := { started mainFn arg with sched := { queue := [⟨1⟩] } }
  have ha : runAsyncMain mainFn arg = .ok (.next a (.start mainFn arg)) := rfl
  have hgraph := graphRefines.runAsyncMain (F := F) mainFn arg
  have hqueue := TaskList.queueRefines.runAsyncMain (F := F) mainFn arg
  rw [runAsyncMain_eq] at hgraph
  rw [ha] at hqueue
  obtain ⟨o, hg, hrel⟩ := hgraph.ok_right
  cases hrel with
  | @next g _ _ hgs =>
    obtain ⟨o, hq, hrel⟩ := hqueue.ok_right
    cases hrel with
    | @next q _ _ hqa =>
      have hs := started_inv (F := F) mainFn arg
      refine ⟨g, q, hg, hq, started mainFn arg, a, hs, fun h c hc => ?_, hgs, ⟨rfl, rfl, rfl⟩, hqa⟩
      have hnone : (started mainFn arg).sched.parent = fun _ => none :=
        Function.update_eq_self_iff.mpr rfl
      exact congrFun hnone c

end Agree

/-- **The two schedulers agree** on every program that does not call `await`, whatever it calls,
and in whatever order: the calls that it can make, with their replies, are the same, after them
the task pool, the running task and the order of the run queue are the same, and the process
exits with the same value. -/
theorem schedulers_agree (mainFn : F) (arg : V) :
    ∃ (g₀ : Runtime Graph F V) (q₀ : Runtime HandleQueue F V),
      runAsyncMain mainFn arg = .ok (.next g₀ (.start mainFn arg)) ∧
      runAsyncMain mainFn arg = .ok (.next q₀ (.start mainFn arg)) ∧
      (∀ l g, Steps (Guarded Polls) g₀ l g → ∃ q, Steps (Guarded Polls) q₀ l q ∧ SameState g q) ∧
      (∀ l q, Steps (Guarded Polls) q₀ l q → ∃ g, Steps (Guarded Polls) g₀ l g ∧ SameState g q) ∧
      ∀ l g q, Steps (Guarded Polls) g₀ l g → Steps (Guarded Polls) q₀ l q → ∀ op data,
        Polls g op → (step g op = .ok (.exit data) ↔ step q op = .ok (.exit data)) := by
  obtain ⟨g₀, q₀, hg₀, hq₀, hstart⟩ := Agree.start mainFn arg
  have hpolls : ∀ {g : Runtime Graph F V} {q : Runtime HandleQueue F V} {op}, Agree g q →
      (Polls g op ↔ Polls q op) := by
    intro g q op h
    unfold Polls FreesFinished
    rw [h.sameState.pool]
  have hforth : ∀ {l g}, Steps (Guarded Polls) g₀ l g →
      ∃ q, Steps (Guarded Polls) q₀ l q ∧ Agree g q := fun hrun =>
    hrun.simulate (fun g q i g' h hst => by
      obtain ⟨q', hq', h'⟩ := h.next hst.2 hst.1
      exact ⟨q', ⟨hq', (hpolls h).mp hst.2⟩, h'⟩) hstart
  have hback : ∀ {l q}, Steps (Guarded Polls) q₀ l q →
      ∃ g, Steps (Guarded Polls) g₀ l g ∧ Agree g q := fun hrun =>
    hrun.simulate (R := fun q g => Agree g q) (fun q g i q' h hst => by
      obtain ⟨g', hg', h'⟩ := h.back hst.2 hst.1
      exact ⟨g', ⟨hg', (hpolls h).mpr hst.2⟩, h'⟩) hstart
  refine ⟨g₀, q₀, hg₀, hq₀, fun l g hrun => ?_, fun l q hrun => ?_,
    fun l g q hg hq op data hop => ?_⟩
  · obtain ⟨q, hq, h⟩ := hforth hrun
    exact ⟨q, hq, h.sameState⟩
  · obtain ⟨g, hg, h⟩ := hback hrun
    exact ⟨g, hg, h.sameState⟩
  · obtain ⟨q', hq', h⟩ := hforth hg
    have heq : q' = q := hq'.unique (fun _ _ _ _ h₁ h₂ => h₁.1.unique h₂.1) hq
    exact (heq ▸ h).exit_iff hop

end CAsync
