/-
# The queue scheduler is cooperative

`await` of the queue scheduler is the polling one: the caller stays in the queue, inside
`busy_wait_ready`.  So every task of the queue but the running one has not started, or left the
processor in `async_skip`, called by itself or by `busy_wait_ready` (`ListInv`).
-/
import CAsync.Orphans
import CAsync.TaskList
import CAsync.View

namespace CAsync

open Faulting TaskPool

variable {F V : Type}

/-! ## 1. The invariant -/

/-- The invariant between two calls that orphan nobody. -/
structure ListInv (s : Runtime TaskList F V) : Prop where
  pool : s.pool.WellFormed
  queue : ∃ rest, s.sched.queue = s.running :: rest
  nodup : s.sched.queue.Nodup
  running : s.pool.stateOf s.running = some .running
  runnable : ∀ {h}, h ∈ s.sched.queue → h ≠ s.running →
    ∃ u top, s.pool.slot h = some u ∧ u.Runnable top
  kept : ∀ h, s.pool.flag h ≠ some true

namespace ListInv

variable {s t : Runtime TaskList F V} {w : View F V} {h next : Handle} {u v : Task F V}

theorem running_task (hs : ListInv s) :
    ∃ w, s.pool.slot s.running = some w ∧ w.state = .running :=
  stateOf_eq_some.mp hs.running

theorem currentTask (hs : ListInv s) : SchedulerOps.currentTask s.sched = .ok s.running := by
  obtain ⟨rest, hq⟩ := hs.queue
  change TaskList.front s.sched.queue = _
  rw [hq]
  rfl

theorem next_ne (hs : ListInv s) {rest : List Handle}
    (hq : s.sched.queue = s.running :: next :: rest) : next ≠ s.running := by
  have hnd := hs.nodup
  rw [hq] at hnd
  rintro rfl
  simp at hnd

/-- A queued task has not finished. -/
theorem live (hs : ListInv s) (hh : h ∈ s.sched.queue) :
    ∃ u, s.pool.slot h = some u ∧ (u.state = .init ∨ u.state = .running) := by
  by_cases hrun : h = s.running
  · subst hrun
    obtain ⟨w, hw, hwr⟩ := hs.running_task
    exact ⟨w, hw, .inr hwr⟩
  · obtain ⟨u, top, hu, htop⟩ := hs.runnable hh hrun
    exact ⟨u, hu, htop.state⟩

/-- **The invariant after a switch** from the running task, left as `v`, to `next`. -/
theorem switched (hs : ListInv s)
    (hsw : SwitchedTo t (Function.update s.pool.slot s.running (some v)) next u)
    (pool : t.pool.WellFormed) {l : List Handle}
    (hqueue : t.sched.queue = next :: l) (hnd : (next :: l).Nodup)
    (hsub : ∀ h ∈ l, h ∈ s.sched.queue) (hv : s.running ∈ l → ∃ top, v.Runnable top)
    (hkept : ∀ h, t.pool.flag h ≠ some true) : ListInv t := by
  refine ⟨pool, ⟨l, by rw [hqueue, hsw.running]⟩, by rwa [hqueue], ?_, fun {h} hh hhr => ?_,
    hkept⟩
  · unfold stateOf
    rw [hsw.running, hsw.slot, Function.update_self]
    rfl
  · rw [hsw.running] at hhr
    rw [hqueue] at hh
    have hl : h ∈ l := (List.mem_cons.mp hh).resolve_left hhr
    rw [hsw.slot, Function.update_of_ne hhr]
    by_cases hrun : h = s.running
    · subst hrun
      obtain ⟨top, htop⟩ := hv hl
      exact ⟨v, top, Function.update_self _ _ _, htop⟩
    · rw [Function.update_of_ne hrun]
      exact hs.runnable (hsub h hl) hrun

/-! ## 2. `async_skip` -/

/-- **`async_skip`** from the frame `frame`: the running task goes to the back of the queue, and
the processor goes on with the next one, or with itself if it is alone. -/
theorem asyncSkip_eq (hs : ListInv s) (frame : Frame) :
    s.sched.queue = [s.running] ∧ asyncSkip s frame = .ok (s, .returned) ∨
      ∃ next rest u top t, s.sched.queue = s.running :: next :: rest ∧ u.Runnable top ∧
        asyncSkip s frame =
          .ok (t, if u.state = .init then .entered u.fn u.data else .resumed top) ∧
        t.sched.queue = next :: rest ++ [s.running] ∧
        SwitchedTo t (leave s frame) next u ∧ t.pool.WellFormed := by
  obtain ⟨q, hq⟩ := hs.queue
  obtain ⟨w, hw, hwr⟩ := hs.running_task
  have hcur := hs.currentTask
  cases q with
  | nil =>
    have hnext : SchedulerOps.nextTask s.sched = .ok (s.sched, s.running) := by
      change s.sched.nextTask = _
      have hsame : ({ queue := [s.running] } : TaskList) = s.sched := by rw [← hq]
      unfold TaskList.nextTask
      rw [hq]
      exact congrArg (fun a => Except.ok (a, s.running)) hsame
    refine .inl ⟨hq, ?_⟩
    unfold asyncSkip
    rw [hcur, ok_bind, hnext, ok_bind]
    dsimp only
    rw [getTask_eq hw, ok_bind, if_neg (not_not.mpr rfl)]
  | cons next rest =>
    have hne := hs.next_ne hq
    obtain ⟨u, top, hu, htop⟩ := hs.runnable (h := next) (by rw [hq]; simp) hne
    have hnext : SchedulerOps.nextTask s.sched =
        .ok (({ queue := next :: rest ++ [s.running] } : TaskList), next) := by
      change s.sched.nextTask = _
      unfold TaskList.nextTask
      rw [hq]
      rfl
    obtain ⟨pool, hok, hslot, hwf, -⟩ := asyncSwitch_eq
      (s := { s with sched := ({ queue := next :: rest ++ [s.running] } : TaskList) }) frame
      (.inr (by rw [hw]; rfl)) hu (Ne.symm hne) htop.state htop.1
    have hidx : s.running.idx ≠ next.idx := fun heq => hne (Handle.eq_of_idx heq.symm)
    refine .inr ⟨next, rest, u, top, { s with
        pool := pool, sched := { queue := next :: rest ++ [s.running] }, running := next },
      hq, htop, ?_, rfl, ⟨(Function.update_of_ne hne _ _).trans hu, hslot, rfl⟩, hwf hs.pool⟩
    unfold asyncSkip
    rw [hcur, ok_bind, hnext, ok_bind]
    dsimp only
    rw [getTask_eq hw, ok_bind, if_pos hidx, hok]

end ListInv

/-! ## 3. The view -/

/-- The view of a runtime over the queue scheduler. -/
structure ListModels (s : Runtime TaskList F V) (w : View F V) : Prop where
  inv : ListInv s
  view : w = viewOf s.sched.queue s

namespace ListModels

variable {s t : Runtime TaskList F V} {w : View F V} {h next : Handle} {u v : Task F V}

theorem queue (hs : ListModels s w) : w.queue = s.sched.queue := by
  rw [hs.view]
  rfl

/-- **A switch from the running task**, left as `v`, to the next task of the queue. -/
theorem switched (hs : ListModels s w) {op : Op F V} {rest l : List Handle} {top : Frame}
    (hqueue : s.sched.queue = s.running :: next :: rest)
    (hsw : SwitchedTo t (Function.update s.pool.slot s.running (some v)) next u)
    (htop : u.Runnable top) (hst : step s op = .ok (.next t u.resumed))
    (horphan : ∀ h, op ≠ .orphan h) (pool : t.pool.WellFormed)
    (htasks : t.sched.queue = next :: l) (hnd : (next :: l).Nodup)
    (hsub : ∀ h ∈ l, h ∈ s.sched.queue) (hv : s.running ∈ l → ∃ top, v.Runnable top) :
    ∃ w', View.Resumes { queue := next :: l, slot := Function.update w.slot s.running v.view }
      u.resumed w' ∧ ListModels t w' := by
  have hnext : Next s (op, u.resumed) t := hst
  have hne := hs.inv.next_ne hqueue
  have hu : s.pool.slot next = some u := by
    have htask := hsw.task
    rwa [Function.update_of_ne hne] at htask
  have ht := hs.inv.switched hsw pool htasks hnd hsub hv (hnext.unflagged horphan hs.inv.kept)
  refine ⟨_, htop.resumes rfl ?_, ht, ?_⟩
  · exact (Function.update_of_ne hne _ _).trans (by rw [hs.view, viewOf_slot hne hu])
  · have hslot : (viewOf t.sched.queue t).slot =
        Function.update (Function.update w.slot s.running v.view) next .running := by
      rw [hsw.view (q := s.sched.queue), ← hs.view]
    unfold View.run viewOf at *
    dsimp only at hslot ⊢
    rw [hslot, htasks]

/-- A round of `async_skip` of the running task, called from `frame`. -/
theorem rotated (hs : ListModels s w) {op : Op F V} (frame : Frame) {why : Pause} {r : Reply F V}
    (horphan : ∀ h, op ≠ .orphan h)
    (hframe : frame = .asyncSkip ∨ ∃ k, frame = .busyWaitReady k)
    (hview : ∀ x : Task F V, x.state = .running → (x.suspend frame).view = .paused why)
    (halone : ∀ w' : View F V, w'.queue = [s.running] → w'.slot s.running = .paused why →
      w'.Resumes r (w'.run s.running))
    (hreturned : asyncSkip s frame = .ok (s, .returned) → step s op = .ok (.next s r))
    (hswitched : ∀ {t} {u : Task F V} {top : Frame}, u.Runnable top →
      asyncSkip s frame =
        .ok (t, if u.state = .init then .entered u.fn u.data else .resumed top) →
      step s op = .ok (.next t u.resumed)) :
    ∃ t r w', step s op = .ok (.next t r) ∧ (w.rotate s.running why).Resumes r w' ∧
      ListModels t w' := by
  have hqueue := hs.queue
  rcases hs.inv.asyncSkip_eq frame with ⟨hone, hok⟩ | ⟨next, rest, u, top, t, hq, htop, hok, htasks,
    hsw, hwf⟩
  · rw [hone] at hqueue
    refine ⟨s, r, _, hreturned hok, halone _ ?_ (Function.update_self _ _ _), ?_⟩
    · unfold View.rotate
      rw [hqueue]
      rfl
    · have hsame : (w.rotate s.running why).run s.running = w := by
        have hrun : w.slot s.running = .running := by
          rw [hs.view]
          exact viewOf_running
        unfold View.run View.rotate
        dsimp only
        rw [Function.update_idem, Function.update_eq_self_iff.mpr hrun.symm, hqueue,
          List.tail_cons, List.nil_append, ← hqueue]
      rw [hsame]
      exact hs
  · obtain ⟨x, hx, hxr⟩ := hs.inv.running_task
    rw [leave_eq hx] at hsw
    have hperm : (next :: (rest ++ [s.running])).Perm s.sched.queue := by
      rw [hq]
      exact List.perm_append_singleton s.running (next :: rest)
    obtain ⟨w', hres, ht⟩ := hs.switched hq hsw htop (hswitched htop hok) horphan hwf htasks
      (hperm.nodup_iff.mpr hs.inv.nodup)
      (fun h hh => hperm.mem_iff.mp (List.mem_cons_of_mem _ hh))
      (fun _ => ⟨frame, rfl, .inr ⟨hxr, hframe⟩⟩)
    refine ⟨t, _, w', hswitched htop hok, ?_, ht⟩
    rw [hview x hxr] at hres
    unfold View.rotate
    rw [hqueue, hq]
    exact hres

theorem skip (hs : ListModels s w) : ∃ t r w', step s .skip = .ok (.next t r) ∧
    (w.rotate s.running .skip).Resumes r w' ∧ ListModels t w' := by
  refine hs.rotated .asyncSkip (r := .skip) (fun _ h => by cases h) (.inl rfl)
    (fun x hx => (Task.view_suspend hx).1) (fun w' hq hslot => .skip hq hslot) (fun hok => ?_)
    fun htop hok => ?_
  · unfold step CAsync.skip
    dsimp only
    rw [hok, ok_bind]
    rfl
  · unfold step CAsync.skip
    dsimp only
    rw [hok, ok_bind]
    dsimp only
    rw [replyOf_runnable htop, ok_bind]

/-! ## 4. The other calls -/

theorem poll (hs : ListModels s w) (hfree : w.slot h ≠ .free) :
    h.idx ≠ 0 ∧ ∃ st u, pollState s h = .ok st ∧ getTask s.pool h = .ok u ∧
      ((w.slot h).Live → st ≠ .ready) ∧
      ∀ data, w.slot h = .ready data → st = .ready ∧ u.data = data := by
  rw [hs.view] at hfree ⊢
  refine viewOf_poll hs.inv.currentTask (fun u hu => ?_) hs.inv.running hfree
  refine ⟨u.state, ?_⟩
  change TaskList.pollTask _ _ _ = _
  unfold TaskList.pollTask
  rw [require_of (Nat.ne_of_gt (slot_bounds hu).1), ok_bind, load_slot hu, ok_bind]

/-- `await` of a finished task returns at once. -/
theorem awaitReady (hs : ListModels s w) {data : V} (hready : w.slot h = .ready data) :
    ∃ t, step s (.await h) = .ok (.next t (.await data)) ∧ ListModels t w := by
  obtain ⟨-, st, u, hpoll, hget, -, hdata⟩ := hs.poll (h := h) (by rw [hready]; simp)
  obtain ⟨rfl, rfl⟩ := hdata data hready
  refine ⟨s, ?_, hs⟩
  unfold step CAsync.await
  change HandleQueue.busyWaitReady s h >>= _ = _
  unfold HandleQueue.busyWaitReady
  rw [hpoll, ok_bind, if_pos rfl, ok_bind]
  dsimp only
  rw [hget, ok_bind]

/-- `await` of an unfinished task skips. -/
theorem awaitPolls (hs : ListModels s w) (hlive : (w.slot h).Live) : ∃ t r w',
    step s (.await h) = .ok (.next t r) ∧ (w.rotate s.running (.busy h)).Resumes r w' ∧
      ListModels t w' := by
  have hfree : w.slot h ≠ .free := fun hfree => by
    rw [hfree] at hlive
    exact hlive
  obtain ⟨-, st, u, hpoll, -, hst, -⟩ := hs.poll hfree
  refine hs.rotated (.busyWaitReady h) (r := .waiting h) (fun _ h => by cases h)
    (.inr ⟨h, rfl⟩) (fun x hx => (Task.view_suspend hx).2.1 h)
    (fun w' hq hslot => .waiting hq hslot) (fun hok => ?_) fun {t u top} htop hok => ?_
  · unfold step CAsync.await
    change HandleQueue.busyWaitReady s h >>= _ = _
    unfold HandleQueue.busyWaitReady
    rw [hpoll, ok_bind, if_neg (hst hlive), hok]
    rfl
  · have hreply := replyOf_runnable (s := t) htop .skip
    unfold step CAsync.await
    change HandleQueue.busyWaitReady s h >>= _ = _
    unfold HandleQueue.busyWaitReady
    rw [hpoll, ok_bind, if_neg (hst hlive), hok, ok_bind]
    by_cases hinit : u.state = .init
    · rw [if_pos hinit] at hreply ⊢
      dsimp only [ok_bind]
      rw [hreply, ok_bind]
    · rw [if_neg hinit] at hreply ⊢
      dsimp only [ok_bind]
      rw [hreply, ok_bind]

theorem call (hs : ListModels s w) (fn : F) (arg : V) : ∃ h t,
    step s (.call fn arg) = .ok (.next t (.handle h)) ∧ w.slot h = .free ∧
      ListModels t (w.call h fn arg) := by
  obtain ⟨q, h, u, halloc, hnew, hslot, hwf, hroom⟩ := hs.inv.pool.allocTask fn arg
  -- the slot of the new task has no task
  have hempty : ∀ v, s.pool.slot h = some v → v.state = .free := by
    intro v hv
    rcases hroom with ⟨hst, -⟩ | ⟨hlen, -⟩
    · rw [stateOf_eq hv] at hst
      simpa using hst
    · have hle := (slot_bounds hv).2
      omega
  have hnot : h ∉ s.sched.queue := by
    intro hmem
    obtain ⟨v, hv, hst⟩ := hs.inv.live hmem
    rw [hempty v hv] at hst
    rcases hst with h | h <;> cases h
  obtain ⟨rest, hq⟩ := hs.inv.queue
  have hne : h ≠ s.running := by
    rintro rfl
    rw [hq] at hnot
    exact hnot List.mem_cons_self
  let t : Runtime TaskList F V := { s with
    pool := q, sched := { queue := s.sched.queue ++ [h] } }
  have hok : step s (.call fn arg) = .ok (.next t (.handle h)) := by
    unfold step asyncCall startNewTask
    dsimp only
    rw [halloc, ok_bind]
    rfl
  have hnext : Next s (.call fn arg, .handle h) t := hok
  have hother : ∀ i, i ≠ h → q.slot i = s.pool.slot i := fun i hi => by
    rw [hslot, Function.update_of_ne hi]
  refine ⟨h, t, hok, ?_, ⟨hwf, ⟨rest ++ [h], ?_⟩, ?_, ?_, fun {i} hi hir => ?_,
    hnext.unflagged (fun _ h => by cases h) hs.inv.kept⟩, ?_⟩
  · rw [hs.view]
    exact viewOf_free.mpr ⟨hne, hempty⟩
  · change s.sched.queue ++ [h] = _
    rw [hq]
    rfl
  · refine List.nodup_append.mpr ⟨hs.inv.nodup, List.nodup_singleton _, fun a ha b hb => ?_⟩
    rw [List.mem_singleton.mp hb]
    rintro rfl
    exact hnot ha
  · unfold stateOf
    change (q.slot s.running).map Task.state = _
    rw [hother _ (Ne.symm hne)]
    exact hs.inv.running
  · change ∃ u top, q.slot i = some u ∧ _
    rcases List.mem_append.mp hi with hold | hnew'
    · have hih : i ≠ h := by
        rintro rfl
        exact hnot hold
      rw [hother _ hih]
      exact hs.inv.runnable hold hir
    · rw [List.mem_singleton.mp hnew', hslot, Function.update_self]
      exact ⟨u, .entry, rfl, hnew.stackPtr, .inl hnew.state⟩
  · have hview : u.view = .init fn arg := by
      unfold Task.view
      rw [hnew.state, hnew.fn, hnew.data]
    have hupd : (viewOf t.sched.queue t).slot = Function.update w.slot h (.init fn arg) := by
      rw [viewOf_update (q := s.sched.queue) (t := t) hslot rfl hne, hview, ← hs.view]
    unfold View.call
    rw [← hupd, hs.queue]
    rfl

theorem free (hs : ListModels s w) {data : V} (hready : w.slot h = .ready data) :
    ∃ t, step s (.free h) = .ok (.next t .done) ∧ ListModels t (w.free h) := by
  rw [hs.view, viewOf_ready] at hready
  obtain ⟨hne, u, hu, hst, -⟩ := hready
  have hlive : u.state ≠ .free := by
    rw [hst]
    decide
  have hnot : h ∉ s.sched.queue := by
    intro hmem
    obtain ⟨v, hv, hvst⟩ := hs.inv.live hmem
    rw [hu] at hv
    cases hv
    rw [hst] at hvst
    rcases hvst with h | h <;> cases h
  let v : Task F V := { u with state := .free, handle := s.pool.freeTask }
  let t : Runtime TaskList F V := { s with pool := { s.pool.setTask h v with freeTask := h } }
  have hslot : t.pool.slot = Function.update s.pool.slot h (some v) := slot_setTask hu v
  have hok : step s (.free h) = .ok (.next t .done) := by
    unfold step asyncFree CAsync.freeTask
    dsimp only
    rw [require_of (Nat.ne_of_gt (slot_bounds hu).1), ok_bind,
      show SchedulerOps.freeTask s.sched h = .ok s.sched from rfl, ok_bind, getTask_eq hu]
    rfl
  have hnext : Next s (.free h, .done) t := hok
  have hother : ∀ i, i ≠ h → t.pool.slot i = s.pool.slot i := fun i hi => by
    rw [hslot, Function.update_of_ne hi]
  refine ⟨t, hok, ⟨hs.inv.pool.freeTask hu hlive, hs.inv.queue, hs.inv.nodup, ?_,
    fun {i} hi hir => ?_, hnext.unflagged (fun _ h => by cases h) hs.inv.kept⟩, ?_⟩
  · unfold stateOf
    change (t.pool.slot s.running).map Task.state = _
    rw [hother _ (Ne.symm hne)]
    exact hs.inv.running
  · have hih : i ≠ h := by
      rintro rfl
      exact hnot hi
    rw [hother _ hih]
    exact hs.inv.runnable hi hir
  · have hupd : (viewOf t.sched.queue t).slot = Function.update w.slot h .free := by
      rw [viewOf_update (q := s.sched.queue) (t := t) hslot rfl hne, ← hs.view]
      rfl
    unfold View.free
    rw [hs.queue]
    exact congrArg (View.mk s.sched.queue) hupd.symm

theorem exit (hs : ListModels s w) (hmain : s.running = ⟨1⟩) (data : V) :
    step s (.ret data) = .ok (.exit data) := by
  unfold step asyncReturn asyncReturnReady
  dsimp only
  rw [hs.inv.currentTask, ok_bind, if_pos (congrArg Handle.idx hmain), ok_bind]

theorem retNext (hs : ListModels s w) (hmain : s.running ≠ ⟨1⟩) (hmore : w.queue.tail ≠ [])
    (data : V) : ∃ t r w', step s (.ret data) = .ok (.next t r) ∧
      (w.finish s.running data).Resumes r w' ∧ ListModels t w' := by
  have hqueue := hs.queue
  obtain ⟨q, hq⟩ := hs.inv.queue
  obtain ⟨v, hv, hvr⟩ := hs.inv.running_task
  have hidx : s.running.idx ≠ 1 := fun h => hmain (Handle.eq_of_idx h)
  cases q with
  | nil =>
    rw [hqueue, hq] at hmore
    exact absurd rfl hmore
  | cons next rest =>
    have hne := hs.inv.next_ne hq
    obtain ⟨u, top, hu, htop⟩ := hs.inv.runnable (h := next) (by rw [hq]; simp) hne
    have hfin : SchedulerOps.finishTask s.sched =
        .ok (({ queue := next :: rest } : TaskList), s.running, next) := by
      change s.sched.finishTask = _
      unfold TaskList.finishTask
      rw [hq]
      rfl
    let x : Task F V := { v with data := data, state := .ready }
    have hx := slot_setTask hv x
    have hwf : (s.pool.setTask s.running x).WellFormed :=
      hs.inv.pool.setTask hv (by simp [x, hvr]) rfl rfl
    have hkept : v.orphaned = false := by
      have hflag := hs.inv.kept s.running
      unfold TaskPool.flag at hflag
      rw [hv] at hflag
      simpa using hflag
    obtain ⟨pool, hok, hslot, hpwf, -⟩ := asyncSwitch_null
      (s := { s with
        pool := s.pool.setTask s.running x, sched := ({ queue := next :: rest } : TaskList) })
      .entry (t := u) (by rw [hx, Function.update_of_ne hne, hu]) htop.state htop.1
    dsimp only at hslot
    rw [hx] at hslot
    let t : Runtime TaskList F V :=
      { pool := pool, sched := { queue := next :: rest }, running := next }
    have hst : step s (.ret data) = .ok (.next t u.resumed) := by
      unfold step asyncReturn asyncReturnReady freeOrphan
      dsimp only
      rw [hs.inv.currentTask, ok_bind, if_neg hidx, hfin, ok_bind]
      dsimp only
      rw [if_neg hidx, getTask_eq hv, ok_bind, ok_bind]
      dsimp only
      rw [getTask_eq (t := x) (by rw [hx, Function.update_self]), ok_bind,
        if_neg (by rw [hkept]; decide), ok_bind, hok, ok_bind]
      dsimp only
      rw [replyOf_runnable htop, ok_bind]
    have hnd := hs.inv.nodup
    rw [hq] at hnd
    have hsw : SwitchedTo t (Function.update s.pool.slot s.running (some x)) next u :=
      ⟨(Function.update_of_ne hne _ _).trans hu, hslot, rfl⟩
    obtain ⟨w', hres, ht⟩ := hs.switched hq hsw htop hst (fun _ h => by cases h) (hpwf hwf) rfl
      (List.nodup_cons.mp hnd).2
      (fun h hh => by rw [hq]; exact List.mem_cons_of_mem _ (List.mem_cons_of_mem _ hh))
      fun hmem => absurd (List.mem_cons_of_mem _ hmem) (List.nodup_cons.mp hnd).1
    refine ⟨t, _, w', hst, ?_, ht⟩
    unfold View.finish
    rw [hqueue, hq]
    exact hres

end ListModels

/-- The state in which `main` starts. -/
def listStarted (mainFn : F) (arg : V) : Runtime TaskList F V where
  pool := (started mainFn arg).pool
  sched := { queue := [⟨1⟩] }
  running := ⟨1⟩

theorem listStarted_models (mainFn : F) (arg : V) :
    ListModels (listStarted mainFn arg) View.start := by
  refine ⟨⟨(started_inv mainFn arg).pool, ⟨[], rfl⟩, List.nodup_singleton _, rfl,
    fun hh hne => absurd (List.mem_singleton.mp hh) hne, ?_⟩, ?_⟩
  · exact started_unflagged mainFn arg
  · exact started_view mainFn arg

/-- **The queue scheduler is cooperative**, and `await` polls. -/
def listCooperative : Cooperative TaskList where
  blocking := False
  Models := ListModels
  running := fun hs => by
    obtain ⟨rest, hq⟩ := hs.inv.queue
    rw [hs.queue, hq]
    rfl
  start := fun mainFn arg => ⟨listStarted mainFn arg, rfl, listStarted_models mainFn arg⟩
  call := ListModels.call
  free := fun hs _ _ hready => hs.free hready
  poll := fun hs _ hfree => hs.poll hfree
  skip := ListModels.skip
  awaitBlocks := fun h => absurd h not_false
  awaitReady := fun _ _ _ _ _ hs _ _ hready => hs.awaitReady hready
  awaitPolls := fun _ _ _ _ _ hs _ hlive => hs.awaitPolls hlive
  exit := fun hs hmain data => hs.exit hmain data
  retNext := fun hs hmain hmore _ data => hs.retNext hmain hmore data
  retWake := fun h => absurd h not_false

end CAsync
