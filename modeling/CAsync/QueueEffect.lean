/-
# What a call does over the queue scheduler

The tasks of the run queue are those that have not finished, waiting ones included, with the
running one at the front (`Queued`).  Every call on a handle of the library passes, and is one of
the cases of `QueueEffect` (`Queued.step`).  An `await` is a call for each round of
`busy_wait_ready`: one that finds its task unfinished ends in the switch, and the next round is a
call of its own.  All this is so as long as only finished tasks are freed: unlike the graph
scheduler, this one does not check.

The model is the library over `TaskList`, whose run queue is a list; `Refinement` carries what is
proved here over to the ring buffer.  The invariant is what makes the calls pass.  A switch goes
to the handle behind the running one in the queue, and `runnable` says that its task can be
switched to.  The queue cannot underflow, since the running task is in it; and when `async_return`
takes that one away, `main` is still there, because only a task other than `main` is taken away.

So section 2 first proves that `Queued` is kept by the two ways in which a call changes the queue,
`switched` where the processor changes hands and `kept` where it does not, and reads
`Queued.effect` off the cases.  Section 3 runs the code of each call from a state of the invariant:
`async_skip` and a round of `busy_wait_ready` share one lemma, with the frame as its parameter.
-/
import CAsync.Effect
import CAsync.Lib.TurnQueue
import CAsync.Reachable
import CAsync.TaskList
import CAsync.WaitGraph

namespace CAsync

open Faulting TaskPool

variable {F V : Type}

/-! ## 1. The invariant -/

/-- What holds between two calls, when only finished tasks are freed. -/
structure Queued (s : Runtime TaskList F V) : Prop where
  pool : s.pool.WellFormed
  queue : ∃ rest, s.sched.queue = s.running :: rest
  nodup : s.sched.queue.Nodup
  running : s.pool.stateOf s.running = some .running
  runnable : ∀ {h}, h ∈ s.sched.queue → h ≠ s.running →
    ∃ u top, s.pool.slot h = some u ∧ u.Runnable top
  unfinished : ∀ {h}, s.pool.Unfinished h → h ∈ s.sched.queue
  main : ⟨1⟩ ∈ s.sched.queue

/-- The handle that the call is about. -/
def Op.handle : Op F V → Option Handle
  | .await h | .orphan h | .free h | .poll h => some h
  | .call _ _ | .skip | .ret _ => none

/-- `async_skip` called by the task itself, or by `busy_wait_ready`: the frame in which the task
leaves the processor, and what it is told when it is back. -/
inductive Rounds : Op F V → Frame → Reply F V → Prop
  | skip : Rounds .skip .asyncSkip .skip
  | wait (h : Handle) : Rounds (.await h) (.busyWaitReady h) (.waiting h)

/-- The call gives up the front of the queue: any that schedules, but an `await` that finds its task
finished. -/
def givesUp : Op F V × Reply F V → Bool
  | (_, .await _) => false
  | (op, _) => op.schedules

/-- **What a call does** if it passes its assertions. -/
inductive QueueEffect (s : Runtime TaskList F V) :
    Op F V → Reply F V → Runtime TaskList F V → Prop
  | call {fn : F} {arg : V} {h : Handle} {u : Task F V} {t : Runtime TaskList F V}
      (new : NewTask s.pool h fn arg u)
      (slot : t.pool.slot = Function.update s.pool.slot h (some u))
      (room : ∀ v, s.pool.slot h = some v → v.state = .free)
      (queue : t.sched.queue = s.sched.queue ++ [h]) (running : t.running = s.running) :
      QueueEffect s (.call fn arg) (.handle h) t
  /-- A round with no other task in the queue. -/
  | alone {op : Op F V} {frame : Frame} {r : Reply F V} (round : Rounds op frame r)
      (queue : s.sched.queue = [s.running]) : QueueEffect s op r s
  | round {op : Op F V} {frame : Frame} {r : Reply F V} {next : Handle} {rest : List Handle}
      {u : Task F V} {t : Runtime TaskList F V} (round : Rounds op frame r)
      (queue : s.sched.queue = s.running :: next :: rest)
      (queue' : t.sched.queue = next :: rest ++ [s.running])
      (switched : SwitchedTo t (leave s frame) next u) :
      QueueEffect s op u.resumed t
  /-- `await` of a finished task. -/
  | answer {h : Handle} {u : Task F V} (task : s.pool.slot h = some u) (ready : u.state = .ready) :
      QueueEffect s (.await h) (.await u.data) s
  | ret {data : V} {next : Handle} {rest : List Handle} {v u : Task F V} {t : Runtime TaskList F V}
      (notMain : s.running ≠ ⟨1⟩) (task : s.pool.slot s.running = some v)
      (queue : s.sched.queue = s.running :: next :: rest) (queue' : t.sched.queue = next :: rest)
      (switched : SwitchedTo t (Function.update s.pool.slot s.running
        (some (v.finish data s.pool.freeTask))) next u) :
      QueueEffect s (.ret data) u.resumed t
  | orphan {h : Handle} {u : Task F V} {t : Runtime TaskList F V} (task : s.pool.slot h = some u)
      (slot : t.pool.slot = Function.update s.pool.slot h (some { u with orphaned := true }))
      (sched : t.sched = s.sched) (running : t.running = s.running) :
      QueueEffect s (.orphan h) .done t
  | free {h : Handle} {u : Task F V} {t : Runtime TaskList F V} (task : s.pool.slot h = some u)
      (ready : u.state = .ready)
      (slot : t.pool.slot = Function.update s.pool.slot h
        (some { u with state := .free, handle := s.pool.freeTask }))
      (sched : t.sched = s.sched) (running : t.running = s.running) :
      QueueEffect s (.free h) .done t
  | poll {h : Handle} {u : Task F V} (task : s.pool.slot h = some u) :
      QueueEffect s (.poll h) (.state u.state) s

namespace Queued

variable {s t : Runtime TaskList F V} {h next : Handle} {u v : Task F V}

theorem running_task (hs : Queued s) : ∃ w, s.pool.slot s.running = some w ∧ w.state = .running :=
  stateOf_eq_some.mp hs.running

theorem currentTask (hs : Queued s) : SchedulerOps.currentTask s.sched = .ok s.running := by
  obtain ⟨rest, hq⟩ := hs.queue
  change TaskList.front s.sched.queue = _
  rw [hq]
  rfl

theorem running_mem (hs : Queued s) : s.running ∈ s.sched.queue := by
  obtain ⟨rest, hq⟩ := hs.queue
  rw [hq]
  exact List.mem_cons_self

/-- The task behind the running one. -/
theorem behind (hs : Queued s) {rest : List Handle}
    (hq : s.sched.queue = s.running :: next :: rest) :
    next ≠ s.running ∧ ∃ u top, s.pool.slot next = some u ∧ u.Runnable top := by
  have hne : next ≠ s.running := by
    have hnd := hs.nodup
    rw [hq] at hnd
    rintro rfl
    simp at hnd
  refine ⟨hne, hs.runnable ?_ hne⟩
  rw [hq]
  simp

/-- **The queue** has the tasks that have not finished. -/
theorem mem_queue (hs : Queued s) : h ∈ s.sched.queue ↔ s.pool.Unfinished h := by
  refine ⟨fun hh => ?_, hs.unfinished⟩
  by_cases hrun : h = s.running
  · rw [hrun]
    exact .inr hs.running
  · obtain ⟨u, top, hu, htop⟩ := hs.runnable hh hrun
    unfold Unfinished
    rw [stateOf_eq hu]
    exact htop.state.imp (congrArg some) (congrArg some)

/-- A finished task, or none, is not in the queue. -/
theorem not_mem (hs : Queued s)
    (hh : ∀ v, s.pool.slot h = some v → v.state ≠ .init ∧ v.state ≠ .running) :
    h ∉ s.sched.queue := by
  intro hmem
  rcases hs.mem_queue.mp hmem with hst | hst
  · obtain ⟨v, hv, hvs⟩ := stateOf_eq_some.mp hst
    exact (hh v hv).1 hvs
  · obtain ⟨v, hv, hvs⟩ := stateOf_eq_some.mp hst
    exact (hh v hv).2 hvs

/-! ## 2. The invariant after a call -/

/-- **After a switch** from the running task, left as `v`, to the next one.  The task goes to the
back of the queue, or it has finished and leaves. -/
theorem switched (hs : Queued s) {rest back : List Handle} (pool : t.pool.WellFormed)
    (hq : s.sched.queue = s.running :: next :: rest) (hq' : t.sched.queue = next :: rest ++ back)
    (hsw : SwitchedTo t (Function.update s.pool.slot s.running (some v)) next u)
    (hback : back = [s.running] ∧ (∃ top, v.Runnable top) ∨
      back = [] ∧ s.running ≠ ⟨1⟩ ∧ v.state ≠ .init ∧ v.state ≠ .running) : Queued t := by
  obtain ⟨hne, x, top, hx, htop⟩ := hs.behind hq
  have hnd := hs.nodup
  rw [hq] at hnd
  have hother : ∀ {i}, i ≠ s.running → i ≠ next → t.pool.slot i = s.pool.slot i := by
    intro i h1 h2
    rw [hsw.slot, Function.update_of_ne h2, Function.update_of_ne h1]
  have hold : t.pool.slot s.running = some v := by
    rw [hsw.slot, Function.update_of_ne (Ne.symm hne), Function.update_self]
  have hrest : ∀ {i}, i ∈ s.sched.queue → i ≠ s.running → i ∈ t.sched.queue := by
    intro i hi h1
    rw [hq] at hi
    rw [hq']
    exact List.mem_append_left _ ((List.mem_cons.mp hi).resolve_left h1)
  refine ⟨pool, ⟨rest ++ back, by rw [hq', hsw.running]; rfl⟩, ?_, ?_, fun {h} hh hrun => ?_,
    fun {h} hh => ?_, ?_⟩
  · rw [hq']
    rcases hback with ⟨rfl, -⟩ | ⟨rfl, -⟩
    · exact (List.perm_append_singleton _ _).nodup_iff.mpr hnd
    · rw [List.append_nil]
      exact (List.nodup_cons.mp hnd).2
  · rw [hsw.running]
    unfold stateOf
    rw [hsw.slot, Function.update_self]
    rfl
  · rw [hsw.running] at hrun
    rw [hq'] at hh
    rcases List.mem_append.mp hh with hh | hh
    · have h1 : h ≠ s.running := by
        rintro rfl
        exact (List.nodup_cons.mp hnd).1 hh
      rw [hother h1 hrun]
      exact hs.runnable (by rw [hq]; exact List.mem_cons_of_mem _ hh) h1
    · rcases hback with ⟨rfl, top, hv⟩ | ⟨rfl, -⟩
      · rw [List.mem_singleton.mp hh]
        exact ⟨v, top, hold, hv⟩
      · cases hh
  · by_cases h1 : h = s.running
    · subst h1
      rcases hback with ⟨rfl, -⟩ | ⟨-, -, hinit, hrunning⟩
      · rw [hq']
        simp
      · unfold Unfinished at hh
        rw [stateOf_eq hold] at hh
        rcases hh with hh | hh
        · exact absurd (Option.some.inj hh) hinit
        · exact absurd (Option.some.inj hh) hrunning
    by_cases h2 : h = next
    · rw [hq', h2]
      simp
    · unfold Unfinished stateOf at hh
      rw [hother h1 h2] at hh
      exact hrest (hs.unfinished hh) h1
  · by_cases h1 : s.running = ⟨1⟩
    · rcases hback with ⟨rfl, -⟩ | ⟨-, hmain, -⟩
      · rw [hq', h1]
        simp
      · exact absurd h1 hmain
    · exact hrest hs.main (Ne.symm h1)

/-- **After a call that switches to nobody**: the tasks of the queue keep their states and stacks,
and new ones come in behind them. -/
theorem kept (hs : Queued s) (back : List Handle) (pool : t.pool.WellFormed)
    (hq' : t.sched.queue = s.sched.queue ++ back) (hrunning : t.running = s.running)
    (hkeep : ∀ {i x}, i ∈ s.sched.queue → s.pool.slot i = some x →
      ∃ y, t.pool.slot i = some y ∧ y.state = x.state ∧ y.stackPtr = x.stackPtr)
    (hnd : back.Nodup)
    (hback : ∀ {i}, i ∈ back → i ∉ s.sched.queue ∧ ∃ u top, t.pool.slot i = some u ∧ u.Runnable top)
    (hnew : ∀ {i}, t.pool.Unfinished i → i ∈ s.sched.queue ∨ i ∈ back) : Queued t := by
  obtain ⟨rest, hq⟩ := hs.queue
  refine ⟨pool, ⟨rest ++ back, by rw [hq', hq, hrunning]; rfl⟩, ?_, ?_, fun {h} hh hrun => ?_,
    fun hh => ?_, ?_⟩
  · rw [hq']
    exact List.nodup_append.mpr ⟨hs.nodup, hnd, fun i hi j hj hij =>
      (hback hj).1 (hij ▸ hi)⟩
  · obtain ⟨w, hw, hwr⟩ := hs.running_task
    obtain ⟨y, hy, hstate, -⟩ := hkeep hs.running_mem hw
    rw [hrunning, stateOf_eq hy, hstate, hwr]
  · rw [hrunning] at hrun
    rw [hq'] at hh
    rcases List.mem_append.mp hh with hh | hh
    · obtain ⟨u, top, hu, htop, hstate⟩ := hs.runnable hh hrun
      obtain ⟨y, hy, hys, hyp⟩ := hkeep hh hu
      refine ⟨y, top, hy, hyp.trans htop, ?_⟩
      rwa [hys]
    · exact (hback hh).2
  · rw [hq']
    exact List.mem_append.mpr (hnew hh)
  · rw [hq']
    exact List.mem_append_left _ hs.main

/-- **The invariant after a call.** -/
theorem effect (hs : Queued s) {op : Op F V} {r : Reply F V} (heff : QueueEffect s op r t)
    (pool : t.pool.WellFormed) : Queued t := by
  cases heff with
  | @call fn arg h u t new slot room queue running =>
    have hnot : h ∉ s.sched.queue := hs.not_mem fun v hv => by
      rw [room v hv]
      exact ⟨nofun, nofun⟩
    refine hs.kept [h] pool queue running (fun {i x} hi hx => ?_) (List.nodup_singleton h)
      (fun {i} hi => ?_) (fun {i} hi => ?_)
    · have hne : i ≠ h := by
        rintro rfl
        exact hnot hi
      exact ⟨x, by rw [slot, Function.update_of_ne hne, hx], rfl, rfl⟩
    · rw [List.mem_singleton.mp hi]
      exact ⟨hnot, u, .entry, by rw [slot, Function.update_self], new.stackPtr, .inl new.state⟩
    · by_cases hih : i = h
      · exact .inr (List.mem_singleton.mpr hih)
      · unfold Unfinished stateOf at hi
        rw [slot, Function.update_of_ne hih] at hi
        exact .inl (hs.unfinished hi)
  | alone => exact hs
  | answer => exact hs
  | poll => exact hs
  | @round op frame r next rest u t round queue queue' switched =>
    obtain ⟨w, hw, hwr⟩ := hs.running_task
    rw [leave_eq hw] at switched
    refine hs.switched pool queue queue' switched (.inl ⟨rfl, frame, rfl, .inr ⟨hwr, ?_⟩⟩)
    cases round with
    | skip => exact .inl rfl
    | wait h => exact .inr ⟨h, rfl⟩
  | @ret data next rest v u t notMain task queue queue' switched =>
    rw [← List.append_nil rest, ← List.cons_append] at queue'
    refine hs.switched pool queue queue' switched (.inr ⟨rfl, notMain, ?_⟩)
    rcases v.finish_state data s.pool.freeTask with ⟨hst, -⟩ | hst
    · rw [hst]
      exact ⟨nofun, nofun⟩
    · rw [hst]
      exact ⟨nofun, nofun⟩
  | @orphan h u t task slot sched running =>
    refine hs.kept [] pool (by rw [sched, List.append_nil]) running
      (fun {i x} _ hx => ?_) List.nodup_nil (fun hi => by cases hi) (fun {i} hi => .inl ?_)
    · rw [slot]
      by_cases hih : i = h
      · subst hih
        rw [task] at hx
        cases hx
        exact ⟨_, Function.update_self _ _ _, rfl, rfl⟩
      · exact ⟨x, by rw [Function.update_of_ne hih, hx], rfl, rfl⟩
    · refine hs.unfinished ?_
      unfold Unfinished at hi ⊢
      rwa [stateOf_update slot, ← stateOf_eq (t := u) task, Function.update_eq_self] at hi
  | @free h u t task ready slot sched running =>
    have hnot : h ∉ s.sched.queue := hs.not_mem fun v hv => by
      rw [task] at hv
      cases hv
      rw [ready]
      exact ⟨nofun, nofun⟩
    refine hs.kept [] pool (by rw [sched, List.append_nil]) running
      (fun {i x} hi hx => ?_) List.nodup_nil (fun hi => by cases hi) (fun {i} hi => .inl ?_)
    · have hne : i ≠ h := by
        rintro rfl
        exact hnot hi
      exact ⟨x, by rw [slot, Function.update_of_ne hne, hx], rfl, rfl⟩
    · by_cases hih : i = h
      · subst hih
        unfold Unfinished at hi
        rw [stateOf_update slot, Function.update_self] at hi
        rcases hi with hi | hi
        · cases hi
        · cases hi
      · unfold Unfinished stateOf at hi
        rw [slot, Function.update_of_ne hih] at hi
        exact hs.unfinished hi

/-! ## 3. Every call passes -/

/-- **`async_skip`** from the frame `frame`. -/
theorem asyncSkip_eq (hs : Queued s) (frame : Frame) :
    s.sched.queue = [s.running] ∧ asyncSkip s frame = .ok (s, .returned) ∨
      ∃ next rest u top t, s.sched.queue = s.running :: next :: rest ∧ u.Runnable top ∧
        asyncSkip s frame =
          .ok (t, if u.state = .init then .entered u.fn u.data else .resumed top) ∧
        t.sched.queue = next :: rest ++ [s.running] ∧
        SwitchedTo t (leave s frame) next u ∧ t.pool.WellFormed := by
  obtain ⟨q, hq⟩ := hs.queue
  obtain ⟨w, hw, -⟩ := hs.running_task
  have hrotate : ∀ {c : Handle} {rest : List Handle}, ({ queue := c :: rest } : TaskList).nextTask =
      .ok ({ queue := rest ++ [c] }, (rest ++ [c]).headD c) := rfl
  have hsame : ({ queue := s.running :: q } : TaskList) = s.sched := by rw [← hq]
  have hnext : SchedulerOps.nextTask s.sched =
      .ok (({ queue := q ++ [s.running] } : TaskList), (q ++ [s.running]).headD s.running) := by
    rw [← hsame]
    exact hrotate
  unfold asyncSkip
  rw [hs.currentTask, ok_bind, hnext, ok_bind]
  dsimp only
  rw [getTask_eq hw, ok_bind]
  cases q with
  | nil =>
    have hlast : s.running.idx = (([] ++ [s.running]).headD s.running).idx := rfl
    refine .inl ⟨hq, ?_⟩
    rw [if_neg (not_not.mpr hlast)]
    exact congrArg (fun a => Except.ok (({ s with sched := a } : Runtime TaskList F V),
      Control.returned)) hsame
  | cons next rest =>
    obtain ⟨hne, u, top, hu, htop⟩ := hs.behind hq
    obtain ⟨pool, hok, hslot, hwf, -⟩ := asyncSwitch_eq
      (s := { s with sched := ({ queue := next :: rest ++ [s.running] } : TaskList) }) frame
      (.inr (by rw [hw]; rfl)) hu (Ne.symm hne) htop.state htop.1
    have hidx : s.running.idx ≠ next.idx := fun heq => hne (Handle.eq_of_idx heq.symm)
    refine .inr ⟨next, rest, u, top, { s with
        pool := pool, sched := { queue := next :: rest ++ [s.running] }, running := next },
      hq, htop, ?_, rfl, ⟨(Function.update_of_ne hne _ _).trans hu, hslot, rfl⟩, hwf hs.pool⟩
    exact (if_pos hidx).trans hok

/-- **A round** of the running task, by whichever call. -/
theorem step_round (hs : Queued s) {op : Op F V} {frame : Frame} {r : Reply F V}
    (hround : Rounds op frame r)
    (hreturned : asyncSkip s frame = .ok (s, .returned) → step s op = .ok (.next s r))
    (hswitched : ∀ {t} {u : Task F V} {top : Frame}, u.Runnable top → asyncSkip s frame =
        .ok (t, if u.state = .init then .entered u.fn u.data else .resumed top) →
      step s op = .ok (.next t u.resumed)) :
    ∃ r t, step s op = .ok (.next t r) ∧ QueueEffect s op r t ∧ t.pool.WellFormed := by
  rcases hs.asyncSkip_eq frame with ⟨hone, hok⟩ |
    ⟨next, rest, u, top, t, hq, htop, hok, hq', hsw, hwf⟩
  · exact ⟨r, s, hreturned hok, .alone hround hone, hs.pool⟩
  · exact ⟨_, t, hswitched htop hok, .round hround hq hq' hsw, hwf⟩

theorem step_skip (hs : Queued s) : ∃ r t, step s .skip = .ok (.next t r) ∧
    QueueEffect s .skip r t ∧ t.pool.WellFormed := by
  refine hs.step_round .skip (fun hok => ?_) fun htop hok => ?_
  · unfold step CAsync.skip
    dsimp only
    rw [hok, ok_bind]
    rfl
  · unfold step CAsync.skip
    dsimp only
    rw [hok, ok_bind]
    dsimp only
    rw [replyOf_runnable htop, ok_bind]

theorem step_call (hs : Queued s) (fn : F) (arg : V) :
    ∃ r t, step s (.call fn arg) = .ok (.next t r) ∧ QueueEffect s (.call fn arg) r t ∧
      t.pool.WellFormed := by
  obtain ⟨q, h, u, halloc, hnew, hslot, hwf, hroom⟩ := hs.pool.allocTask fn arg
  have hempty : ∀ v, s.pool.slot h = some v → v.state = .free := by
    intro v hv
    rcases hroom with ⟨hst, -⟩ | ⟨hlen, -⟩
    · rw [stateOf_eq hv] at hst
      exact Option.some.inj hst
    · have hle := (slot_bounds hv).2
      omega
  let t : Runtime TaskList F V := { s with
    pool := q, sched := { queue := s.sched.queue ++ [h] } }
  refine ⟨.handle h, t, ?_, .call hnew hslot hempty rfl rfl, hwf⟩
  unfold step asyncCall startNewTask
  dsimp only
  rw [halloc, ok_bind]
  rfl

theorem pollState_eq (hs : Queued s) (hu : s.pool.slot h = some u) :
    pollState s h = .ok u.state := by
  unfold pollState
  rw [hs.currentTask, ok_bind]
  change (TaskList.pollTask _ _ _ >>= _) = _
  unfold TaskList.pollTask
  rw [require_of (Nat.ne_of_gt (slot_bounds hu).1), ok_bind, load_slot hu, ok_bind, ok_bind,
    getTask_eq hu, ok_bind]

theorem step_await (hs : Queued s) (hu : s.pool.slot h = some u) :
    ∃ r t, step s (.await h) = .ok (.next t r) ∧ QueueEffect s (.await h) r t ∧
      t.pool.WellFormed := by
  have hpoll := hs.pollState_eq hu
  by_cases hready : u.state = .ready
  · refine ⟨_, s, ?_, .answer hu hready, hs.pool⟩
    unfold step CAsync.await
    change HandleQueue.busyWaitReady s h >>= _ = _
    unfold HandleQueue.busyWaitReady
    rw [hpoll, ok_bind, if_pos hready, ok_bind]
    dsimp only
    rw [getTask_eq hu, ok_bind]
  · refine hs.step_round (.wait h) (fun hok => ?_) fun {t v top} htop hok => ?_
    · unfold step CAsync.await
      change HandleQueue.busyWaitReady s h >>= _ = _
      unfold HandleQueue.busyWaitReady
      rw [hpoll, ok_bind, if_neg hready, hok]
      rfl
    · have hreply := replyOf_runnable (s := t) htop .skip
      unfold step CAsync.await
      change HandleQueue.busyWaitReady s h >>= _ = _
      unfold HandleQueue.busyWaitReady
      rw [hpoll, ok_bind, if_neg hready, hok, ok_bind]
      by_cases hinit : v.state = .init
      · rw [if_pos hinit] at hreply ⊢
        dsimp only [ok_bind]
        rw [hreply, ok_bind]
      · rw [if_neg hinit] at hreply ⊢
        dsimp only [ok_bind]
        rw [hreply, ok_bind]

/-- `async_return` up to its switch, when there is a next task. -/
theorem finish_eq (hs : Queued s) {rest : List Handle} (hmain : s.running ≠ ⟨1⟩)
    (hq : s.sched.queue = s.running :: next :: rest) (hv : s.pool.slot s.running = some v)
    (data : V) : ∃ mid pool, asyncReturnReady s data = .ok (.ready mid s.running next) ∧
      freeOrphan mid s.running =
        .ok { s with pool := pool, sched := ({ queue := next :: rest } : TaskList) } ∧
      pool.slot = Function.update s.pool.slot s.running (some (v.finish data s.pool.freeTask)) ∧
      pool.WellFormed := by
  have hidx : s.running.idx ≠ 1 := fun h => hmain (Handle.eq_of_idx h)
  have hfin : SchedulerOps.finishTask s.sched =
      .ok (({ queue := next :: rest } : TaskList), s.running, next) := by
    change s.sched.finishTask = _
    unfold TaskList.finishTask
    rw [hq]
    rfl
  have hvr : v.state = .running := by
    have hrun := hs.running
    rwa [stateOf_eq hv, Option.some.injEq] at hrun
  let x : Task F V := { v with data := data, state := .ready }
  have hslot := slot_setTask hv x
  have hwf : (s.pool.setTask s.running x).WellFormed :=
    hs.pool.setTask hv (by simp [x, hvr]) rfl rfl
  have hx : (s.pool.setTask s.running x).slot s.running = some x := by
    rw [hslot, Function.update_self]
  let mid : Runtime TaskList F V := { s with
    pool := s.pool.setTask s.running x, sched := { queue := next :: rest } }
  have hmid : asyncReturnReady s data = .ok (.ready mid s.running next) := by
    unfold asyncReturnReady
    rw [hs.currentTask, ok_bind, if_neg hidx, hfin, ok_bind]
    dsimp only
    rw [if_neg hidx, getTask_eq hv, ok_bind]
  by_cases horph : v.orphaned = true
  · have hslot' := slot_setTask hx { x with state := .free, handle := s.pool.freeTask }
    refine ⟨mid, _, hmid, ?_, ?_, hwf.freeTask hx (by simp [x])⟩
    · unfold freeOrphan
      rw [getTask_eq hx, ok_bind, if_pos horph]
      unfold asyncFree CAsync.freeTask
      rw [require_of (Nat.ne_of_gt (slot_bounds hv).1), ok_bind,
        show SchedulerOps.freeTask mid.sched s.running = .ok mid.sched from rfl, ok_bind,
        getTask_eq hx]
      rfl
    · refine hslot'.trans ?_
      rw [hslot, Function.update_idem]
      unfold Task.finish
      rw [if_pos horph]
  · refine ⟨mid, _, hmid, ?_, ?_, hwf⟩
    · unfold freeOrphan
      rw [getTask_eq hx, ok_bind, if_neg horph]
    · unfold Task.finish
      rw [if_neg horph]
      exact hslot

theorem step_ret (hs : Queued s) (data : V) :
    s.running = ⟨1⟩ ∧ step s (.ret data) = .ok (.exit data) ∨
      ∃ r t, step s (.ret data) = .ok (.next t r) ∧ QueueEffect s (.ret data) r t ∧
        t.pool.WellFormed := by
  by_cases hmain : s.running = ⟨1⟩
  · refine .inl ⟨hmain, ?_⟩
    unfold step asyncReturn asyncReturnReady
    dsimp only
    rw [hs.currentTask, ok_bind, if_pos (congrArg Handle.idx hmain), ok_bind]
  -- `main` is behind it
  obtain ⟨next, rest, hq⟩ : ∃ next rest, s.sched.queue = s.running :: next :: rest := by
    obtain ⟨q, hq⟩ := hs.queue
    have hmem := hs.main
    rw [hq] at hmem
    cases q with
    | nil => exact absurd (List.mem_singleton.mp hmem).symm hmain
    | cons next rest => exact ⟨next, rest, hq⟩
  obtain ⟨v, hv, -⟩ := hs.running_task
  obtain ⟨hne, u, top, hu, htop⟩ := hs.behind hq
  obtain ⟨mid, pool, hmid, hfree, hslot, hwf⟩ := hs.finish_eq hmain hq hv data
  have hu' : pool.slot next = some u := by rw [hslot, Function.update_of_ne hne, hu]
  obtain ⟨pool', hok, hslot', hwf', -⟩ := asyncSwitch_null
    (s := { s with pool := pool, sched := ({ queue := next :: rest } : TaskList) })
    .entry hu' htop.state htop.1
  dsimp only at hslot'
  rw [hslot] at hslot'
  refine .inr ⟨_, { s with
      pool := pool', sched := ({ queue := next :: rest } : TaskList), running := next }, ?_,
    .ret hmain hv hq rfl ⟨(Function.update_of_ne hne _ _).trans hu, hslot', rfl⟩, hwf' hwf⟩
  unfold step asyncReturn
  dsimp only
  rw [hmid, ok_bind]
  dsimp only
  rw [hfree, ok_bind, hok, ok_bind]
  dsimp only
  rw [replyOf_runnable htop, ok_bind]

/-- **Every call on a handle of the library passes**, if only finished tasks are freed;
`async_return` of `main` ends the program. -/
theorem step (hs : Queued s) (op : Op F V) (hg : FreesFinished s op)
    (hh : ∀ h, op.handle = some h → ∃ u, s.pool.slot h = some u) :
    (∃ data, op = .ret data ∧ s.running = ⟨1⟩ ∧ CAsync.step s op = .ok (.exit data)) ∨
      ∃ r t, CAsync.step s op = .ok (.next t r) ∧ QueueEffect s op r t ∧ Queued t := by
  have hnext : (∃ r t, CAsync.step s op = .ok (.next t r) ∧ QueueEffect s op r t ∧
      t.pool.WellFormed) → ∃ r t, CAsync.step s op = .ok (.next t r) ∧ QueueEffect s op r t ∧
      Queued t := by
    rintro ⟨r, t, hok, heff, hwf⟩
    exact ⟨r, t, hok, heff, hs.effect heff hwf⟩
  cases op with
  | call fn arg => exact .inr (hnext (hs.step_call fn arg))
  | skip => exact .inr (hnext hs.step_skip)
  | await h =>
    obtain ⟨u, hu⟩ := hh h rfl
    exact .inr (hnext (hs.step_await hu))
  | ret data =>
    rcases hs.step_ret data with ⟨hmain, hok⟩ | hok
    · exact .inl ⟨data, rfl, hmain, hok⟩
    · exact .inr (hnext hok)
  | orphan h =>
    obtain ⟨u, hu⟩ := hh h rfl
    refine .inr (hnext ⟨.done, { s with pool := s.pool.setTask h { u with orphaned := true } }, ?_,
      .orphan hu (slot_setTask hu _) rfl rfl, hs.pool.setTask hu Iff.rfl rfl rfl⟩)
    unfold CAsync.step asyncOrphan
    dsimp only
    rw [getTask_eq hu]
    rfl
  | free h =>
    obtain ⟨u, hu, hready⟩ := stateOf_eq_some.mp (hg h rfl)
    have hlive : u.state ≠ .free := by
      rw [hready]
      exact nofun
    let v : Task F V := { u with state := .free, handle := s.pool.freeTask }
    refine .inr (hnext ⟨.done, { s with pool := { s.pool.setTask h v with freeTask := h } }, ?_,
      .free hu hready (slot_setTask hu v) rfl rfl, hs.pool.freeTask hu hlive⟩)
    unfold CAsync.step asyncFree CAsync.freeTask
    dsimp only
    rw [require_of (Nat.ne_of_gt (slot_bounds hu).1), ok_bind,
      show SchedulerOps.freeTask s.sched h = .ok s.sched from rfl, ok_bind, getTask_eq hu]
    rfl
  | poll h =>
    obtain ⟨u, hu⟩ := hh h rfl
    refine .inr (hnext ⟨.state u.state, s, ?_, .poll hu, hs.pool⟩)
    unfold CAsync.step
    dsimp only
    rw [hs.pollState_eq hu]
    rfl

end Queued
end CAsync
