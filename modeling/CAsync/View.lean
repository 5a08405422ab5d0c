/-
# Cooperative schedulers

What a program can tell about its scheduler: a queue of tasks whose front runs, and for each slot
the stage of its task and, at the end, its value (`View`).  `Cooperative` says what the calls do
to it, as far as structured programs go: `await` is called on an unfinished task and by one task
only, a task is freed after it has finished, and nobody is orphaned.

Schedulers differ in `await`.  Either it takes the caller out of the queue until the awaited task
ends and puts it back in front (`blocking`), or it keeps the caller in the queue and polls.
-/
import CAsync.Orphans

namespace CAsync

open Faulting TaskPool

variable {F V S : Type}

/-! ## 1. Views -/

/-- Why a task has left the processor. -/
inductive Pause where
  | skip
  /-- It polls `h`, and is still queued. -/
  | busy (h : Handle)
  /-- It waits for `h`, and is not. -/
  | blocked (h : Handle)
  deriving DecidableEq, Repr

/-- A slot. -/
inductive Slot (F V : Type) where
  | free
  | init (fn : F) (arg : V)
  | running
  | paused (why : Pause)
  | ready (data : V)

/-- The slot has a task that has not finished. -/
def Slot.Live : Slot F V → Prop
  | .free => False
  | .ready _ => False
  | .init _ _ => True
  | .running => True
  | .paused _ => True

instance : (x : Slot F V) → Decidable x.Live
  | .free => .isFalse id
  | .ready _ => .isFalse id
  | .init _ _ => .isTrue trivial
  | .running => .isTrue trivial
  | .paused _ => .isTrue trivial

structure View (F V : Type) where
  queue : List Handle
  slot : Handle → Slot F V

namespace View

/-- `main` has started. -/
def start : View F V := { queue := [⟨1⟩], slot := Function.update (fun _ => .free) ⟨1⟩ .running }

def call (w : View F V) (h : Handle) (fn : F) (arg : V) : View F V :=
  { queue := w.queue ++ [h], slot := Function.update w.slot h (.init fn arg) }

def free (w : View F V) (h : Handle) : View F V :=
  { w with slot := Function.update w.slot h .free }

/-- The running task `c` goes to the back of the queue. -/
def rotate (w : View F V) (c : Handle) (why : Pause) : View F V :=
  { queue := w.queue.tail ++ [c], slot := Function.update w.slot c (.paused why) }

/-- The running task `c` leaves the queue to wait for `h`. -/
def block (w : View F V) (c h : Handle) : View F V :=
  { queue := w.queue.tail, slot := Function.update w.slot c (.paused (.blocked h)) }

/-- The running task `c` ends. -/
def finish (w : View F V) (c : Handle) (data : V) : View F V :=
  { queue := w.queue.tail, slot := Function.update w.slot c (.ready data) }

/-- The running task `c` ends, and `i` goes on in its place. -/
def wake (w : View F V) (c : Handle) (data : V) (i : Handle) : View F V :=
  { queue := i :: w.queue.tail
    slot := Function.update (Function.update w.slot c (.ready data)) i .running }

/-- The processor goes on with `n`. -/
def run (w : View F V) (n : Handle) : View F V :=
  { w with slot := Function.update w.slot n .running }

/-- The processor goes on with the task at the front, which gets the reply. -/
inductive Resumes (w : View F V) : Reply F V → View F V → Prop
  | start {n : Handle} {rest : List Handle} {fn : F} {arg : V} (queue : w.queue = n :: rest)
    (slot : w.slot n = .init fn arg) : Resumes w (.start fn arg) (w.run n)
  | skip {n : Handle} {rest : List Handle} (queue : w.queue = n :: rest)
    (slot : w.slot n = .paused .skip) : Resumes w .skip (w.run n)
  | waiting {n h : Handle} {rest : List Handle} (queue : w.queue = n :: rest)
    (slot : w.slot n = .paused (.busy h)) : Resumes w (.waiting h) (w.run n)

end View

/-! ## 2. The interface -/

/-- **A cooperative scheduler**: in every state that has a view, each call of a structured program
passes its assertions and does to the view what it should. -/
structure Cooperative (A : Type) [SchedulerVTable A] where
  blocking : Prop
  Models : ∀ {F V : Type}, Runtime A F V → View F V → Prop
  running : ∀ {F V : Type} {s : Runtime A F V} {w : View F V}, Models s w →
    w.queue.head? = some s.running
  start : ∀ {F V : Type} (mainFn : F) (arg : V), ∃ s : Runtime A F V,
    runAsyncMain mainFn arg = .ok (.next s (.start mainFn arg)) ∧ Models s View.start
  call : ∀ {F V : Type} {s : Runtime A F V} {w : View F V}, Models s w → ∀ fn arg, ∃ h t,
    step s (.call fn arg) = .ok (.next t (.handle h)) ∧ w.slot h = .free ∧
      Models t (w.call h fn arg)
  free : ∀ {F V : Type} {s : Runtime A F V} {w : View F V}, Models s w → ∀ {h data},
    w.slot h = .ready data → ∃ t, step s (.free h) = .ok (.next t .done) ∧ Models t (w.free h)
  poll : ∀ {F V : Type} {s : Runtime A F V} {w : View F V}, Models s w → ∀ {h},
    w.slot h ≠ .free → h.idx ≠ 0 ∧ ∃ st u, pollState s h = .ok st ∧ getTask s.pool h = .ok u ∧
      ((w.slot h).Live → st ≠ .ready) ∧
      ∀ data, w.slot h = .ready data → st = .ready ∧ u.data = data
  skip : ∀ {F V : Type} {s : Runtime A F V} {w : View F V}, Models s w → ∃ t r w',
    step s .skip = .ok (.next t r) ∧ (w.rotate s.running .skip).Resumes r w' ∧ Models t w'
  awaitBlocks : blocking → ∀ {F V : Type} {s : Runtime A F V} {w : View F V}, Models s w →
    ∀ {h}, h ∈ w.queue.tail → (∀ i, w.slot i ≠ .paused (.blocked h)) → ∃ t r w',
      step s (.await h) = .ok (.next t r) ∧ (w.block s.running h).Resumes r w' ∧ Models t w'
  awaitReady : ¬ blocking → ∀ {F V : Type} {s : Runtime A F V} {w : View F V}, Models s w →
    ∀ {h data}, w.slot h = .ready data → ∃ t,
      step s (.await h) = .ok (.next t (.await data)) ∧ Models t w
  awaitPolls : ¬ blocking → ∀ {F V : Type} {s : Runtime A F V} {w : View F V}, Models s w →
    ∀ {h}, (w.slot h).Live → ∃ t r w', step s (.await h) = .ok (.next t r) ∧
      (w.rotate s.running (.busy h)).Resumes r w' ∧ Models t w'
  exit : ∀ {F V : Type} {s : Runtime A F V} {w : View F V}, Models s w → s.running = ⟨1⟩ →
    ∀ data, step s (.ret data) = .ok (.exit data)
  retNext : ∀ {F V : Type} {s : Runtime A F V} {w : View F V}, Models s w → s.running ≠ ⟨1⟩ →
    w.queue.tail ≠ [] → (∀ i, w.slot i ≠ .paused (.blocked s.running)) → ∀ data, ∃ t r w',
      step s (.ret data) = .ok (.next t r) ∧ (w.finish s.running data).Resumes r w' ∧ Models t w'
  retWake : blocking → ∀ {F V : Type} {s : Runtime A F V} {w : View F V}, Models s w →
    s.running ≠ ⟨1⟩ → ∀ {i}, w.slot i = .paused (.blocked s.running) → ∀ data, ∃ t,
      step s (.ret data) = .ok (.next t (.await data)) ∧ Models t (w.wake s.running data i)

/-! ## 3. The view of a runtime -/

/-- The view of a task that is not running. -/
def Task.view (t : Task F V) : Slot F V :=
  match t.state with
  | .free => .free
  | .init => .init t.fn t.data
  | .ready => .ready t.data
  | .running =>
    match t.stackPtr with
    | some (.graphWaitReady _ _ k) => .paused (.blocked k)
    | some (.busyWaitReady k) => .paused (.busy k)
    | _ => .paused .skip

/-- The view of a runtime with the given run queue. -/
def viewOf (queue : List Handle) (s : Runtime S F V) : View F V where
  queue := queue
  slot := Function.update (fun h => ((s.pool.slot h).map Task.view).getD .free) s.running .running

section

variable {s t : Runtime S F V} {q q' : List Handle} {h next : Handle} {u v : Task F V}

theorem viewOf_running : (viewOf q s).slot s.running = .running := by
  unfold viewOf
  dsimp only
  rw [Function.update_self]

theorem viewOf_slot (hne : h ≠ s.running) (hu : s.pool.slot h = some u) :
    (viewOf q s).slot h = u.view := by
  unfold viewOf
  dsimp only
  rw [Function.update_of_ne hne, hu]
  rfl

theorem viewOf_none (hne : h ≠ s.running) (hu : s.pool.slot h = none) :
    (viewOf q s).slot h = .free := by
  unfold viewOf
  dsimp only
  rw [Function.update_of_ne hne, hu]
  rfl

theorem Task.view_eq_ready {data : V} :
    u.view = .ready data ↔ u.state = .ready ∧ u.data = data := by
  unfold Task.view
  cases u.state with
  | ready => simp
  | free => simp
  | init => simp
  | running =>
    simp only [reduceCtorEq, false_and, iff_false]
    split <;> simp

theorem Task.view_eq_free : u.view = .free ↔ u.state = .free := by
  unfold Task.view
  cases u.state with
  | ready => simp
  | free => simp
  | init => simp
  | running =>
    simp only [reduceCtorEq, iff_false]
    split <;> simp

theorem Task.view_live : u.view.Live ↔ u.state = .init ∨ u.state = .running := by
  unfold Task.view
  cases u.state with
  | ready => simp [Slot.Live]
  | free => simp [Slot.Live]
  | init => simp [Slot.Live]
  | running =>
    simp only [reduceCtorEq, or_true, iff_true]
    split <;> trivial

theorem Task.view_eq_blocked {k : Handle} : u.view = .paused (.blocked k) ↔
    u.state = .running ∧ ∃ p c, u.stackPtr = some (.graphWaitReady p c k) := by
  unfold Task.view
  cases u.state with
  | ready => simp
  | free => simp
  | init => simp
  | running =>
    simp only [true_and]
    split
    · simp_all
    · simp_all
    · rename_i hnot _
      simp only [Slot.paused.injEq, reduceCtorEq, false_iff, not_exists]
      exact fun p c h => hnot p c k h

theorem viewOf_ready {data : V} : (viewOf q s).slot h = .ready data ↔
    h ≠ s.running ∧ ∃ u, s.pool.slot h = some u ∧ u.state = .ready ∧ u.data = data := by
  by_cases hne : h = s.running
  · subst hne
    simp [viewOf_running]
  cases hu : s.pool.slot h with
  | none => simp [viewOf_none hne hu]
  | some u => simp [viewOf_slot hne hu, hne, Task.view_eq_ready]

theorem viewOf_free : (viewOf q s).slot h = .free ↔
    h ≠ s.running ∧ ∀ u, s.pool.slot h = some u → u.state = .free := by
  by_cases hne : h = s.running
  · subst hne
    simp [viewOf_running]
  cases hu : s.pool.slot h with
  | none => simp [viewOf_none hne hu, hne]
  | some u => simp [viewOf_slot hne hu, hne, Task.view_eq_free]

theorem viewOf_live : ((viewOf q s).slot h).Live ↔
    h = s.running ∨ ∃ u, s.pool.slot h = some u ∧ (u.state = .init ∨ u.state = .running) := by
  by_cases hne : h = s.running
  · subst hne
    simp [viewOf_running, Slot.Live]
  cases hu : s.pool.slot h with
  | none => simp [viewOf_none hne hu, hne, Slot.Live]
  | some u => simp [viewOf_slot hne hu, hne, Task.view_live]

theorem viewOf_blocked {k : Handle} : (viewOf q s).slot h = .paused (.blocked k) ↔
    h ≠ s.running ∧ ∃ u p c, s.pool.slot h = some u ∧ u.state = .running ∧
      u.stackPtr = some (.graphWaitReady p c k) := by
  by_cases hne : h = s.running
  · subst hne
    simp [viewOf_running]
  cases hu : s.pool.slot h with
  | none => simp [viewOf_none hne hu]
  | some u => simp [viewOf_slot hne hu, hne, Task.view_eq_blocked]

/-- `poll_state` of a task that is there. -/
theorem pollState_eq [SchedulerOps S] {cur : Handle} {st : State}
    (hcur : SchedulerOps.currentTask s.sched = .ok cur)
    (hpoll : SchedulerOps.pollTask s.sched s.pool h = .ok st) (hu : s.pool.slot h = some u) :
    pollState s h = .ok u.state := by
  unfold pollState
  rw [hcur, ok_bind, hpoll, ok_bind, getTask_eq hu, ok_bind]

/-- What `poll_state` and `get_task` say about a slot that is not free. -/
theorem viewOf_poll [SchedulerOps S] {cur : Handle}
    (hcur : SchedulerOps.currentTask s.sched = .ok cur)
    (hpoll : ∀ u, s.pool.slot h = some u → ∃ st, SchedulerOps.pollTask s.sched s.pool h = .ok st)
    (hrun : s.pool.stateOf s.running = some .running) (hfree : (viewOf q s).slot h ≠ .free) :
    h.idx ≠ 0 ∧ ∃ st u, pollState s h = .ok st ∧ getTask s.pool h = .ok u ∧
      (((viewOf q s).slot h).Live → st ≠ .ready) ∧
      ∀ data, (viewOf q s).slot h = .ready data → st = .ready ∧ u.data = data := by
  have hsome : ∃ u, s.pool.slot h = some u := by
    by_contra hnone
    rw [not_exists] at hnone
    refine hfree (viewOf_free.mpr ⟨?_, fun u hu => absurd hu (hnone u)⟩)
    rintro rfl
    obtain ⟨u, hu, -⟩ := stateOf_eq_some.mp hrun
    exact hnone u hu
  obtain ⟨u, hu⟩ := hsome
  obtain ⟨st, hst⟩ := hpoll u hu
  refine ⟨Nat.ne_of_gt (slot_bounds hu).1, u.state, u, pollState_eq hcur hst hu, getTask_eq hu,
    fun hlive hready => ?_, fun data hdata => ?_⟩
  · rcases viewOf_live.mp hlive with rfl | ⟨v, hv, hst⟩
    · rw [stateOf_eq hu, hready] at hrun
      cases hrun
    · rw [hu] at hv
      cases hv
      rw [hready] at hst
      rcases hst with h | h <;> cases h
  · obtain ⟨-, v, hv, hst, hd⟩ := viewOf_ready.mp hdata
    rw [hu] at hv
    cases hv
    exact ⟨hst, hd⟩

/-- The view after a call that does not switch. -/
theorem viewOf_update (hslot : t.pool.slot = Function.update s.pool.slot h (some u))
    (hrun : t.running = s.running) (hne : h ≠ s.running) :
    (viewOf q' t).slot = Function.update (viewOf q s).slot h u.view := by
  funext i
  unfold viewOf
  dsimp only
  rw [hrun, hslot]
  by_cases hi : i = s.running
  · subst hi
    rw [Function.update_self, Function.update_of_ne (Ne.symm hne), Function.update_self]
  rw [Function.update_of_ne hi]
  by_cases hih : i = h
  · subst hih
    rw [Function.update_self, Function.update_self]
    rfl
  · rw [Function.update_of_ne hih, Function.update_of_ne hih, Function.update_of_ne hi]

/-- The view after a switch from the running task, left as `v`. -/
theorem SwitchedTo.view
    (hsw : SwitchedTo t (Function.update s.pool.slot s.running (some v)) next u) :
    (viewOf q' t).slot =
      Function.update (Function.update (viewOf q s).slot s.running v.view) next .running := by
  funext i
  unfold viewOf
  dsimp only
  rw [hsw.running, hsw.slot]
  by_cases hi : i = next
  · subst hi
    rw [Function.update_self, Function.update_self]
  rw [Function.update_of_ne hi, Function.update_of_ne hi, Function.update_of_ne hi]
  by_cases hir : i = s.running
  · subst hir
    rw [Function.update_self, Function.update_self]
    rfl
  · rw [Function.update_of_ne hir, Function.update_of_ne hir, Function.update_of_ne hir]

theorem Task.view_suspend (hrun : u.state = .running) :
    (u.suspend .asyncSkip).view = .paused .skip ∧
      (∀ k, (u.suspend (.busyWaitReady k)).view = .paused (.busy k)) ∧
      ∀ p c k, (u.suspend (.graphWaitReady p c k)).view = .paused (.blocked k) := by
  unfold Task.view Task.suspend
  dsimp only
  rw [hrun]
  exact ⟨rfl, fun _ => rfl, fun _ _ _ => rfl⟩

/-- The reply to a task that can be switched to. -/
theorem Task.Runnable.resumes {top : Frame} (hu : u.Runnable top) {w : View F V}
    {rest : List Handle} (hq : w.queue = next :: rest) (hslot : w.slot next = u.view) :
    w.Resumes u.resumed (w.run next) := by
  obtain ⟨htop, hinit | ⟨hrun, rfl | ⟨k, rfl⟩⟩⟩ := hu
  · have hview : u.view = .init u.fn u.data := by
      unfold Task.view
      rw [hinit]
    have hres : u.resumed = .start u.fn u.data := if_pos hinit
    rw [hres]
    exact .start hq (hslot.trans hview)
  · have hview : u.view = .paused .skip := by
      unfold Task.view
      rw [hrun, htop]
    have hres : (u.resumed : Reply F V) = .skip := by
      unfold Task.resumed
      rw [if_neg (by rw [hrun]; decide), htop]
    rw [hres]
    exact .skip hq (hslot.trans hview)
  · have hview : u.view = .paused (.busy k) := by
      unfold Task.view
      rw [hrun, htop]
    have hres : (u.resumed : Reply F V) = .waiting k := by
      unfold Task.resumed
      rw [if_neg (by rw [hrun]; decide), htop]
    rw [hres]
    exact .waiting hq (hslot.trans hview)

end

/-- The view of the state in which `main` starts. -/
theorem started_view (mainFn : F) (arg : V) :
    View.start = viewOf [⟨1⟩] (started mainFn arg) := by
  have hslot : ∀ h, (View.start : View F V).slot h =
      (viewOf [⟨1⟩] (started mainFn arg)).slot h := by
    intro h
    unfold View.start
    dsimp only
    by_cases hh : h = ⟨1⟩
    · subst hh
      rw [Function.update_self]
      exact viewOf_running.symm
    · have hnone : (started mainFn arg).pool.slot h = none := by
        rw [← Option.not_isSome_iff_eq_none]
        intro hsome
        obtain ⟨u, hu⟩ := Option.isSome_iff_exists.mp hsome
        exact hh (started_slot mainFn arg hu).1
      rw [viewOf_none hh hnone, Function.update_of_ne hh]
  exact congrArg (View.mk [⟨1⟩]) (funext hslot)

/-- No flag is set when `main` starts. -/
theorem started_unflagged (mainFn : F) (arg : V) (h : Handle) :
    (started mainFn arg).pool.flag h ≠ some true := by
  intro hflag
  unfold TaskPool.flag at hflag
  obtain ⟨u, hu, hor⟩ := Option.map_eq_some_iff.mp hflag
  rw [(started_slot mainFn arg hu).2.2] at hor
  cases hor

end CAsync
