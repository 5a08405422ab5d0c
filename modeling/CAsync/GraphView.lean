/-
# The graph scheduler is cooperative

`await` of the graph scheduler is the blocking one: the caller leaves the queue, and the end of
the awaited task puts it back in front.  Each call has its effect (`Effect`), which is read off on
the view of the runtime; what is asked of the call is what `Inv.effect` asks for, by the forest of
the waiting tasks (`Tame`).
-/
import CAsync.Orphans
import CAsync.View
import CAsync.WaitGraph

namespace CAsync

open Faulting TaskPool

variable {F V : Type}

/-- The view of a runtime in which finished tasks only have been freed, and nobody orphaned. -/
structure GraphModels (s : Runtime TaskGraph F V) (w : View F V) : Prop where
  tame : Tame s
  kept : ∀ h, s.pool.flag h ≠ some true
  view : w = viewOf s.sched.tasks s

namespace GraphModels

variable {s t : Runtime TaskGraph F V} {w : View F V} {h i : Handle} {u v : Task F V}

/-! ## 1. What the view says -/

theorem queue (hs : GraphModels s w) : w.queue = s.sched.tasks := by
  rw [hs.view]
  rfl

theorem running (hs : GraphModels s w) : w.queue.head? = some s.running := by
  rw [hs.queue]
  exact hs.tame.inv.front

theorem blocked (hs : GraphModels s w) :
    w.slot i = .paused (.blocked h) ↔ Waits s i h := by
  rw [hs.view, viewOf_blocked]
  constructor
  · rintro ⟨haway, u, p, c, hu, hrun, hframe⟩
    cases hs.tame.inv.phase hu with
    | free h1 => simp [h1] at hrun
    | init h1 => simp [h1] at hrun
    | current _ h2 => exact absurd h2 haway
    | skipped _ _ _ h4 => simp [h4] at hframe
    | suspended h1 h2 h3 h4 =>
      rw [h4] at hframe
      cases hframe
      exact ⟨_, haway, u, hu, hrun, h4⟩
    | ready h1 => simp [h1] at hrun
  · rintro ⟨c, haway, u, hu, hrun, hframe⟩
    exact ⟨haway, u, i, c, hu, hrun, hframe⟩

/-- A task that nobody waits for has a node without a parent. -/
theorem unawaited (hs : GraphModels s w) {c : Nat} (hc : s.sched.nodeOf h.idx = some c)
    (hu : s.pool.Unfinished h) (hno : ∀ i, w.slot i ≠ .paused (.blocked h)) :
    s.sched.parent c = none := by
  cases hp : s.sched.parent c with
  | none => rfl
  | some p =>
    obtain ⟨i, -, hwait⟩ := hs.tame.parent hc hu hp
    exact absurd (hs.blocked.mpr ⟨c, hwait⟩) (hno i)

theorem orphaned (hs : GraphModels s w) (hu : s.pool.slot h = some u) : u.orphaned = false := by
  have hflag := hs.kept h
  unfold TaskPool.flag at hflag
  rw [hu] at hflag
  simpa using hflag

/-- **A call that frees finished tasks only and orphans nobody** leads to a state with a view. -/
theorem next (hs : GraphModels s w) {op : Op F V} {r : Reply F V}
    (hst : step s op = .ok (.next t r)) (hfree : FreesFinished s op)
    (horphan : ∀ h, op ≠ .orphan h) : GraphModels t (viewOf t.sched.tasks t) := by
  have hnext : Next s (op, r) t := hst
  exact ⟨hs.tame.next ⟨hnext, hfree⟩, hnext.unflagged horphan hs.kept, rfl⟩

/-- The same, with the view given. -/
theorem reaches (hs : GraphModels s w) {op : Op F V} {r : Reply F V}
    (hst : step s op = .ok (.next t r)) (hfree : FreesFinished s op)
    (horphan : ∀ h, op ≠ .orphan h) {w' : View F V} (hqueue : w'.queue = t.sched.tasks)
    (hslot : w'.slot = (viewOf t.sched.tasks t).slot) : GraphModels t w' := by
  have ht := hs.next hst hfree horphan
  refine ⟨ht.tame, ht.kept, ?_⟩
  cases w'
  cases hqueue
  cases hslot
  rfl

/-! ## 2. Calls that do not switch -/

theorem call (hs : GraphModels s w) (fn : F) (arg : V) : ∃ h t,
    step s (.call fn arg) = .ok (.next t (.handle h)) ∧ w.slot h = .free ∧
      GraphModels t (w.call h fn arg) := by
  obtain ⟨h, t, hok, heff, -⟩ := hs.tame.inv.step_call fn arg
  cases heff with
  | @call _ _ _ u _ new slot room fresh tasks running =>
    have hne : h ≠ s.running := by
      rintro rfl
      obtain ⟨p, q, -, -, hnode, -⟩ := hs.tame.inv.exists_queue
      rw [fresh] at hnode
      cases hnode
    have hfree : w.slot h = .free := by
      rw [hs.view, viewOf_free]
      refine ⟨hne, fun v hv => ?_⟩
      rcases room with ⟨hst, -⟩ | ⟨hnew, -⟩
      · rw [stateOf_eq hv] at hst
        simpa using hst
      · have hlen := (slot_bounds hv).2
        omega
    have hview : u.view = .init fn arg := by
      unfold Task.view
      rw [new.state, new.fn, new.data]
    refine ⟨h, t, hok, hfree, hs.reaches hok (fun _ h => by cases h) (fun _ h => by cases h) ?_ ?_⟩
    · unfold View.call
      rw [tasks, hs.queue]
    · rw [viewOf_update (q := s.sched.tasks) slot running hne, hview, ← hs.view]
      rfl

theorem free (hs : GraphModels s w) {data : V} (hready : w.slot h = .ready data) :
    ∃ t, step s (.free h) = .ok (.next t .done) ∧ GraphModels t (w.free h) := by
  rw [hs.view, viewOf_ready] at hready
  obtain ⟨hne, u, hu, hst, -⟩ := hready
  have hnode : ∃ r, s.sched.nodeOf h.idx = some r ∧ h ∉ s.sched.tasks := by
    cases hs.tame.inv.phase hu with
    | free h1 => simp [h1] at hst
    | init h1 => simp [h1] at hst
    | current h1 => simp [h1] at hst
    | skipped h1 => simp [h1] at hst
    | suspended h1 => simp [h1] at hst
    | ready _ h2 h3 =>
      obtain ⟨r, hr⟩ := Option.isSome_iff_exists.mp h2
      exact ⟨r, hr, h3⟩
  obtain ⟨r, hr, haway⟩ := hnode
  obtain ⟨t, hok, heff, -⟩ := hs.tame.inv.step_free hr haway
  have hfree : FreesFinished s (.free h) := by
    intro i hi
    cases hi
    rw [stateOf_eq hu, hst]
  cases heff with
  | @free _ u' _ task _ _ slot _ running tasks =>
    refine ⟨t, hok, hs.reaches hok hfree (fun _ h => by cases h) ?_ ?_⟩
    · rw [tasks, ← hs.queue]
      rfl
    · rw [viewOf_update (q := s.sched.tasks) slot running hne, ← hs.view]
      rfl

theorem poll (hs : GraphModels s w) (hfree : w.slot h ≠ .free) :
    h.idx ≠ 0 ∧ ∃ st u, pollState s h = .ok st ∧ getTask s.pool h = .ok u ∧
      ((w.slot h).Live → st ≠ .ready) ∧
      ∀ data, w.slot h = .ready data → st = .ready ∧ u.data = data := by
  rw [hs.view] at hfree ⊢
  refine viewOf_poll hs.tame.inv.currentTask (fun u hu => ?_) hs.tame.inv.running hfree
  refine ⟨u.state, ?_⟩
  change TaskGraph.pollTask _ _ _ = _
  unfold TaskGraph.pollTask
  rw [require_of (Nat.ne_of_gt (slot_bounds hu).1), ok_bind, load_slot hu, ok_bind]

/-! ## 3. Calls that switch -/

/-- The task at the front of the rest of the queue is told to go on. -/
theorem resumes (hs : GraphModels s w) {next : Handle} {rest : List Handle}
    (hqueue : s.sched.tasks = s.running :: next :: rest)
    (hsw : SwitchedTo t (Function.update s.pool.slot s.running (some v)) next u)
    {w' : View F V} (hw' : ∃ l, w'.queue = next :: l) (hslot : w'.slot next = w.slot next) :
    w'.Resumes u.resumed (w'.run next) := by
  have hne := hs.tame.inv.next_ne hqueue
  have hu : s.pool.slot next = some u := by
    have htask := hsw.task
    rwa [Function.update_of_ne hne] at htask
  obtain ⟨u', top, hu', htop⟩ := hs.tame.inv.runnable (h := next)
    (by rw [hqueue]; simp) hne
  rw [hu] at hu'
  cases hu'
  obtain ⟨l, hl⟩ := hw'
  refine htop.resumes hl ?_
  rw [hslot, hs.view, viewOf_slot hne hu]

/-- **A switch from the running task**, left as `v`, to the next task of the queue. -/
theorem switched (hs : GraphModels s w) {op : Op F V} {next : Handle} {rest l : List Handle}
    (hqueue : s.sched.tasks = s.running :: next :: rest)
    (hsw : SwitchedTo t (Function.update s.pool.slot s.running (some v)) next u)
    (hst : step s op = .ok (.next t u.resumed)) (hfree : FreesFinished s op)
    (horphan : ∀ h, op ≠ .orphan h) (htasks : t.sched.tasks = next :: l) :
    ∃ w', View.Resumes { queue := next :: l, slot := Function.update w.slot s.running v.view }
      u.resumed w' ∧ GraphModels t w' := by
  have hne := hs.tame.inv.next_ne hqueue
  refine ⟨_, hs.resumes hqueue hsw ⟨l, rfl⟩ (Function.update_of_ne hne _ _),
    hs.reaches hst hfree horphan htasks.symm ?_⟩
  rw [hsw.view (q := s.sched.tasks), ← hs.view]
  rfl

theorem skip (hs : GraphModels s w) : ∃ t r w', step s .skip = .ok (.next t r) ∧
    (w.rotate s.running .skip).Resumes r w' ∧ GraphModels t w' := by
  obtain ⟨r, t, hok, heff, -⟩ := hs.tame.inv.step_skip
  have hqueue' := hs.queue
  cases heff with
  | alone alone same =>
    subst same
    rw [alone] at hqueue'
    have hrot : (w.rotate t.running .skip).queue = [t.running] := by
      unfold View.rotate
      rw [hqueue']
      rfl
    refine ⟨t, .skip, (w.rotate t.running .skip).run t.running, hok,
      .skip hrot (Function.update_self _ _ _),
      hs.reaches hok (fun _ h => by cases h) (fun _ h => by cases h) ?_ ?_⟩
    · unfold View.run View.rotate
      rw [hqueue', alone]
      rfl
    · unfold View.run View.rotate
      dsimp only
      rw [Function.update_idem, ← hs.view, hs.view]
      exact Function.update_eq_self_iff.mpr viewOf_running.symm
  | @skip next rest u _ queue tasks switched =>
    obtain ⟨x, hx, hxr⟩ := hs.tame.inv.running_task
    rw [leave_eq hx] at switched
    obtain ⟨w', hres, ht⟩ := hs.switched queue switched hok (fun _ h => by cases h)
      (fun _ h => by cases h) tasks
    refine ⟨t, _, w', hok, ?_, ht⟩
    rw [(Task.view_suspend hxr).1] at hres
    unfold View.rotate
    rw [hqueue', queue]
    exact hres

theorem await (hs : GraphModels s w) (hmem : h ∈ w.queue.tail)
    (hno : ∀ i, w.slot i ≠ .paused (.blocked h)) : ∃ t r w',
      step s (.await h) = .ok (.next t r) ∧ (w.block s.running h).Resumes r w' ∧
        GraphModels t w' := by
  have hqueue' := hs.queue
  obtain ⟨rest, hrest⟩ := hs.tame.inv.exists_rest
  rw [hqueue', hrest, List.tail_cons] at hmem
  have hin : h ∈ s.sched.tasks := by
    rw [hrest]
    exact List.mem_cons_of_mem _ hmem
  have hself : h ≠ s.running := by
    have hnd := hs.tame.inv.graph.tasks_nodup
    rw [hrest] at hnd
    rintro rfl
    exact (List.nodup_cons.mp hnd).1 hmem
  obtain ⟨c, hc, -⟩ := hs.tame.inv.graph.mem_tasks.mp hin
  have hpar := hs.unawaited hc (hs.tame.inv.unfinished hin) hno
  obtain ⟨r, t, hok, heff, -⟩ := hs.tame.inv.step_await hc hpar hin hself
  cases heff with
  | @await _ next rest' p c' u _ queue child node unawaited waiter tasks switched =>
    obtain ⟨x, hx, hxr⟩ := hs.tame.inv.running_task
    rw [leave_eq hx] at switched
    obtain ⟨w', hres, ht⟩ := hs.switched queue switched hok (fun _ h => by cases h)
      (fun _ h => by cases h) tasks
    refine ⟨t, _, w', hok, ?_, ht⟩
    rw [(Task.view_suspend hxr).2.2] at hres
    unfold View.block
    rw [hqueue', queue]
    exact hres

theorem retNext (hs : GraphModels s w) (hmain : s.running ≠ ⟨1⟩) (hmore : w.queue.tail ≠ [])
    (hno : ∀ i, w.slot i ≠ .paused (.blocked s.running)) (data : V) : ∃ t r w',
      step s (.ret data) = .ok (.next t r) ∧ (w.finish s.running data).Resumes r w' ∧
        GraphModels t w' := by
  have hqueue' := hs.queue
  obtain ⟨p, q, -, -, hnode, -, -, htasks⟩ := hs.tame.inv.exists_queue
  have hpar := hs.unawaited hnode (.inr hs.tame.inv.running) hno
  have hmore' : s.sched.tasks ≠ [s.running] := by
    intro hone
    rw [hqueue', hone] at hmore
    exact hmore rfl
  obtain ⟨r, t, hok, heff, -⟩ := hs.tame.inv.step_ret (fun h => hmain (Handle.eq_of_idx h)) hnode
    hpar hmore' data
  cases heff with
  | @ret _ next rest p' v u _ notMain queue task node unawaited tasks switched =>
    obtain ⟨w', hres, ht⟩ := hs.switched queue switched hok (fun _ h => by cases h)
      (fun _ h => by cases h) tasks
    refine ⟨t, _, w', hok, ?_, ht⟩
    have hview : (v.finish data s.pool.freeTask).view = .ready data := by
      unfold Task.finish
      rw [if_neg (by rw [hs.orphaned task]; decide)]
      rfl
    rw [hview] at hres
    unfold View.finish
    rw [hqueue', queue]
    exact hres
  | @wake _ j rest c v _ _ _ _ node _ waiting =>
    exact absurd (hs.blocked.mpr ⟨c, waiting⟩) (hno j)

theorem retWake (hs : GraphModels s w) (hmain : s.running ≠ ⟨1⟩)
    (hwait : w.slot i = .paused (.blocked s.running)) (data : V) : ∃ t,
      step s (.ret data) = .ok (.next t (.await data)) ∧
        GraphModels t (w.wake s.running data i) := by
  have hqueue' := hs.queue
  obtain ⟨c, hsus⟩ := hs.blocked.mp hwait
  obtain ⟨-, r, hr, hpar⟩ := hs.tame.inv.of_suspended hsus
  obtain ⟨hc, -⟩ := hs.tame.child hsus
  obtain ⟨v, hv, -⟩ := hs.tame.inv.running_task
  have hlive : s.sched.handle r ≠ 0 := by
    obtain ⟨h1, h2, -⟩ := hs.tame.inv.graph.node hr
    rwa [h1]
  obtain ⟨t, hok, heff, -⟩ := hs.tame.inv.step_wake (fun h => hmain (Handle.eq_of_idx h)) hc hpar
    hlive hv (hs.orphaned hv) data
  have heff' : ∀ {r}, Effect s (.ret data) r t → r = .await data →
      GraphModels t (w.wake s.running data i) := by
    intro r heff hr
    cases heff with
    | @ret _ next rest p v u _ _ _ _ node unawaited =>
      rw [hc] at node
      cases node
      rw [hpar] at unawaited
      cases unawaited
    | @wake _ j rest d v _ _ queue task _ _ waiting _ tasks slot running =>
      obtain rfl : i = j := hs.tame.forest.injective (z := s.running) ⟨c, hsus⟩ ⟨d, waiting⟩
      obtain ⟨x, hsw⟩ := waiting.switchedTo slot running
      refine hs.reaches hok (fun _ h => by cases h) (fun _ h => by cases h) ?_ ?_
      · unfold View.wake
        rw [hqueue', tasks, queue]
        rfl
      · rw [hsw.view (q := s.sched.tasks), ← hs.view]
        rfl
  exact ⟨t, hok, heff' heff rfl⟩

end GraphModels

/-- **The graph scheduler is cooperative**, and `await` blocks. -/
def graphCooperative : Cooperative TaskGraph where
  blocking := True
  Models := GraphModels
  running := GraphModels.running
  start := fun mainFn arg =>
    ⟨started mainFn arg, runAsyncMain_eq mainFn arg, started_tame mainFn arg,
      started_unflagged mainFn arg, started_view mainFn arg⟩
  call := GraphModels.call
  free := fun hs _ _ hready => hs.free hready
  poll := fun hs _ hfree => hs.poll hfree
  skip := GraphModels.skip
  awaitBlocks := fun _ _ _ _ _ hs _ hmem hno => hs.await hmem hno
  awaitReady := fun h => absurd trivial h
  awaitPolls := fun h => absurd trivial h
  exit := fun hs hmain data => hs.tame.inv.step_ret_main (congrArg Handle.idx hmain) data
  retNext := fun hs => hs.retNext
  retWake := fun _ _ _ _ _ hs hmain _ hwait => hs.retWake hmain hwait

end CAsync
