/-
# Replacing a scheduler by a model of it

`Refines Rep` says that the scheduler `S` behaves as the scheduler `A` does: `Rep` relates their
data, and every entry of the two vtables keeps it in lockstep.  Then the whole library over `S`
behaves as the library over `A` (`Refines.step`), fault for fault and reply for reply, so a run
of one is a run of the other (`Refines.steps`) and what is proved about the model holds of the
code.

The instances are the two schedulers of the library: the graph scheduler refines `TaskGraph`,
and the ring buffer of the queue scheduler refines a list.
-/
import CAsync.Async
import CAsync.Lib.Runs
import CAsync.QueueScheduler
import CAsync.TaskGraph

namespace CAsync

open Faulting RingQueue

variable {S A F V : Type}

/-! ## 1. Related runtimes -/

/-- The same pool and the same running task, over related schedulers. -/
structure SameRuntime (Rep : S → A → Prop) (s : Runtime S F V) (a : Runtime A F V) : Prop where
  pool : s.pool = a.pool
  running : s.running = a.running
  sched : Rep s.sched a.sched

/-- Both processes exit with the same value, or go on from related runtimes with one reply. -/
inductive SameOutcome (Rep : S → A → Prop) : Outcome S F V → Outcome A F V → Prop
  | exit (data : V) : SameOutcome Rep (.exit data) (.exit data)
  | next {s : Runtime S F V} {a : Runtime A F V} (r : Reply F V) :
    SameRuntime Rep s a → SameOutcome Rep (.next s r) (.next a r)

/-- The entries of the vtables that act on the scheduler's data are in lockstep. -/
structure RefinesOps [SchedulerOps S] [SchedulerOps A] (Rep : S → A → Prop) : Prop where
  zeroed : Rep SchedulerOps.zeroed SchedulerOps.zeroed
  registerTask : ∀ {s a}, Rep s a → ∀ h,
    Lockstep Rep (SchedulerOps.registerTask s h) (SchedulerOps.registerTask a h)
  finishTask : ∀ {s a}, Rep s a →
    Lockstep (fun x y => Rep x.1 y.1 ∧ x.2 = y.2)
      (SchedulerOps.finishTask s) (SchedulerOps.finishTask a)
  freeTask : ∀ {s a}, Rep s a → ∀ h,
    Lockstep Rep (SchedulerOps.freeTask s h) (SchedulerOps.freeTask a h)
  pollTask : ∀ {s a}, Rep s a → ∀ {F V : Type} (p : TaskPool F V) h,
    SchedulerOps.pollTask s p h = SchedulerOps.pollTask a p h
  currentTask : ∀ {s a}, Rep s a → SchedulerOps.currentTask s = SchedulerOps.currentTask a
  nextTask : ∀ {s a}, Rep s a →
    Lockstep (fun x y => Rep x.1 y.1 ∧ x.2 = y.2)
      (SchedulerOps.nextTask s) (SchedulerOps.nextTask a)

/-- **Refinement of schedulers**: every entry of the vtables is in lockstep. -/
structure Refines [SchedulerVTable S] [SchedulerVTable A] (Rep : S → A → Prop) : Prop
    extends RefinesOps Rep where
  waitReady : ∀ {F V : Type} {s : Runtime S F V} {a : Runtime A F V}, SameRuntime Rep s a → ∀ h,
    Lockstep (fun x y => SameRuntime Rep x.1 y.1 ∧ x.2 = y.2)
      (SchedulerVTable.waitReady s h) (SchedulerVTable.waitReady a h)
  waitResume : ∀ {F V : Type} {s : Runtime S F V} {a : Runtime A F V}, SameRuntime Rep s a →
    ∀ parent child,
      SchedulerVTable.waitResume s parent child = SchedulerVTable.waitResume a parent child

/-- `async_switch` does not look at the scheduler. -/
theorem SameRuntime.asyncSwitch {Rep : S → A → Prop} {s : Runtime S F V} {a : Runtime A F V}
    (h : SameRuntime Rep s a) (src dst : Handle) (frame : Frame) :
    Lockstep (fun x y => SameRuntime Rep x.1 y.1 ∧ x.2 = y.2)
      (asyncSwitch s src dst frame) (asyncSwitch a src dst frame) := by
  unfold CAsync.asyncSwitch
  rw [h.pool]
  refine Lockstep.require_bind Iff.rfl fun _ => Lockstep.require_bind Iff.rfl fun _ => ?_
  cases getTaskOrNull a.pool src with
  | error e => exact .error e
  | ok f1 =>
    rw [ok_bind, ok_bind]
    cases getTask a.pool dst with
    | error e => exact .error e
    | ok f2 =>
      rw [ok_bind, ok_bind]
      refine Lockstep.require_bind Iff.rfl fun _ => Lockstep.require_bind Iff.rfl fun _ => ?_
      cases f2.stackPtr with
      | none => exact .error _
      | some top =>
        dsimp only
        split
        · exact .ok ⟨⟨rfl, rfl, h.sched⟩, rfl⟩
        · exact .ok ⟨⟨rfl, rfl, h.sched⟩, rfl⟩

/-! ## 2. The library over related schedulers -/

/-- Related stages of `async_return`. -/
inductive Refines.SameReturning (Rep : S → A → Prop) : Returning S F V → Returning A F V → Prop
  | exit (data : V) : SameReturning Rep (.exit data) (.exit data)
  | ready {s : Runtime S F V} {a : Runtime A F V} (finished next : Handle) :
    SameRuntime Rep s a → SameReturning Rep (.ready s finished next) (.ready a finished next)

namespace SameRuntime

variable {Rep : S → A → Prop} {s : Runtime S F V} {a : Runtime A F V}

section

variable [SchedulerOps S] [SchedulerOps A]

/-! The functions of the library, over two schedulers of which the entries that a function calls are
in lockstep there. -/

theorem freeTask (h : SameRuntime Rep s a) {i : Handle}
    (hfree : Lockstep Rep (SchedulerOps.freeTask s.sched i) (SchedulerOps.freeTask a.sched i)) :
    Lockstep (SameRuntime Rep) (CAsync.freeTask s i) (CAsync.freeTask a i) := by
  unfold CAsync.freeTask
  refine Lockstep.require_bind Iff.rfl fun _ => ?_
  refine hfree.bind fun x y hxy => ?_
  rw [h.pool]
  cases getTask a.pool i with
  | error e => exact .error e
  | ok t => exact .ok ⟨rfl, h.running, hxy⟩

theorem asyncSkip (h : SameRuntime Rep s a)
    (hcur : SchedulerOps.currentTask s.sched = SchedulerOps.currentTask a.sched)
    (hnext : Lockstep (fun x y => Rep x.1 y.1 ∧ x.2 = y.2)
      (SchedulerOps.nextTask s.sched) (SchedulerOps.nextTask a.sched)) (frame : Frame) :
    Lockstep (fun x y => SameRuntime Rep x.1 y.1 ∧ x.2 = y.2)
      (CAsync.asyncSkip s frame) (CAsync.asyncSkip a frame) := by
  unfold CAsync.asyncSkip
  rw [hcur]
  cases SchedulerOps.currentTask a.sched with
  | error e => exact .error e
  | ok current =>
    rw [ok_bind, ok_bind]
    refine hnext.bind fun x y hxy => ?_
    obtain ⟨sched, next⟩ := x
    obtain ⟨sched', next'⟩ := y
    obtain ⟨hsched, rfl⟩ := hxy
    have hs : SameRuntime Rep { s with sched := sched } { a with sched := sched' } :=
      ⟨h.pool, h.running, hsched⟩
    have hget : getTask s.pool current = getTask a.pool current := by rw [h.pool]
    dsimp only
    rw [hget]
    cases getTask a.pool current with
    | error e => exact .error e
    | ok t1 =>
      rw [ok_bind, ok_bind]
      split
      · exact hs.asyncSwitch current next frame
      · exact .ok ⟨hs, rfl⟩

end

section

variable [SchedulerVTable S] [SchedulerVTable A]

theorem asyncCall (h : SameRuntime Rep s a) {fn : F} {arg : V}
    (hreg : ∀ pool i, allocTask a.pool fn arg = .ok (pool, i) →
      Lockstep Rep (SchedulerOps.registerTask s.sched i) (SchedulerOps.registerTask a.sched i)) :
    Lockstep (fun x y => SameRuntime Rep x.1 y.1 ∧ x.2 = y.2)
      (asyncCall s fn arg) (asyncCall a fn arg) := by
  unfold CAsync.asyncCall startNewTask
  rw [h.pool]
  cases halloc : allocTask a.pool fn arg with
  | error e => exact .error e
  | ok p =>
    obtain ⟨pool, i⟩ := p
    rw [ok_bind, ok_bind]
    refine (hreg pool i halloc).bind fun x y hxy => ?_
    exact .ok ⟨⟨rfl, h.running, hxy⟩, rfl⟩

theorem asyncReturnReady (h : SameRuntime Rep s a)
    (hcur : SchedulerOps.currentTask s.sched = SchedulerOps.currentTask a.sched)
    (hfin : Lockstep (fun x y => Rep x.1 y.1 ∧ x.2 = y.2)
      (SchedulerOps.finishTask s.sched) (SchedulerOps.finishTask a.sched)) (data : V) :
    Lockstep (Refines.SameReturning Rep) (asyncReturnReady s data) (asyncReturnReady a data) := by
  unfold CAsync.asyncReturnReady
  rw [hcur]
  cases SchedulerOps.currentTask a.sched with
  | error e => exact .error e
  | ok current =>
    rw [ok_bind, ok_bind]
    split
    · exact .ok (.exit data)
    refine hfin.bind fun x y hxy => ?_
    obtain ⟨sched, finished, next⟩ := x
    obtain ⟨sched', finished', next'⟩ := y
    obtain ⟨hsched, hpair⟩ := hxy
    cases hpair
    dsimp only
    split
    · exact .ok (.exit data)
    rw [h.pool]
    cases getTask a.pool finished with
    | error e => exact .error e
    | ok t => exact .ok (.ready finished next ⟨rfl, h.running, hsched⟩)

theorem freeOrphan (h : SameRuntime Rep s a) {i : Handle}
    (hfree : Lockstep Rep (SchedulerOps.freeTask s.sched i) (SchedulerOps.freeTask a.sched i)) :
    Lockstep (SameRuntime Rep) (freeOrphan s i) (freeOrphan a i) := by
  unfold CAsync.freeOrphan
  rw [h.pool]
  cases getTask a.pool i with
  | error e => exact .error e
  | ok t =>
    rw [ok_bind, ok_bind]
    split
    · exact h.freeTask hfree
    · exact .ok h

end

end SameRuntime

namespace RefinesOps

variable [SchedulerOps S] [SchedulerOps A] {Rep : S → A → Prop}
  {s : Runtime S F V} {a : Runtime A F V}

theorem pollState (hr : RefinesOps Rep) (h : SameRuntime Rep s a) (i : Handle) :
    pollState s i = pollState a i := by
  unfold CAsync.pollState
  rw [hr.currentTask h.sched, h.pool, hr.pollTask h.sched]

theorem freeTaskRuntime (hr : RefinesOps Rep) (h : SameRuntime Rep s a) (i : Handle) :
    Lockstep (SameRuntime Rep) (CAsync.freeTask s i) (CAsync.freeTask a i) :=
  h.freeTask (hr.freeTask h.sched i)

theorem asyncSkip (hr : RefinesOps Rep) (h : SameRuntime Rep s a) (frame : Frame) :
    Lockstep (fun x y => SameRuntime Rep x.1 y.1 ∧ x.2 = y.2)
      (CAsync.asyncSkip s frame) (CAsync.asyncSkip a frame) :=
  h.asyncSkip (hr.currentTask h.sched) (hr.nextTask h.sched) frame

end RefinesOps

namespace Refines

variable [SchedulerVTable S] [SchedulerVTable A] {Rep : S → A → Prop}
  {s : Runtime S F V} {a : Runtime A F V}

theorem resume (hr : Refines Rep) (h : SameRuntime Rep s a) (frame : Frame) :
    resume s frame = resume a frame := by
  cases frame with
  | entry => rfl
  | asyncSkip => rfl
  | graphWaitReady parent child i =>
    unfold CAsync.resume
    dsimp only
    rw [hr.waitResume h, h.pool]
  | busyWaitReady i => rfl

theorem replyOf (hr : Refines Rep) (h : SameRuntime Rep s a) (r : Reply F V)
    (c : Control F V) : replyOf s r c = replyOf a r c := by
  cases c with
  | returned => rfl
  | entered fn data => rfl
  | resumed frame => exact hr.resume h frame

/-- What follows every switch. -/
theorem replied (hr : Refines Rep) {x : Except Fault (Runtime S F V × Control F V)}
    {y : Except Fault (Runtime A F V × Control F V)} (r : Reply F V)
    (h : Lockstep (fun x y => SameRuntime Rep x.1 y.1 ∧ x.2 = y.2) x y) :
    Lockstep (SameOutcome Rep)
      (do
        let (s, control) ← x
        let reply ← CAsync.replyOf s r control
        .ok (.next s reply))
      (do
        let (a, control) ← y
        let reply ← CAsync.replyOf a r control
        .ok (.next a reply)) := by
  refine h.bind fun x y hxy => ?_
  obtain ⟨s, c⟩ := x
  obtain ⟨a, c'⟩ := y
  obtain ⟨hs, rfl⟩ := hxy
  dsimp only
  rw [hr.replyOf hs]
  cases CAsync.replyOf a r c with
  | error e => exact .error e
  | ok reply => exact .ok (.next reply hs)

theorem await (hr : Refines Rep) (h : SameRuntime Rep s a) (i : Handle) :
    Lockstep (SameOutcome Rep) (await s i) (await a i) := by
  unfold CAsync.await
  refine (hr.waitReady h i).bind fun x y hxy => ?_
  obtain ⟨s, c⟩ := x
  obtain ⟨a, c'⟩ := y
  obtain ⟨hs, rfl⟩ := hxy
  cases c with
  | returned =>
    dsimp only
    rw [hs.pool]
    cases getTask a.pool i with
    | error e => exact .error e
    | ok t => exact .ok (.next _ hs)
  | entered fn data => exact .ok (.next _ hs)
  | resumed frame =>
    dsimp only
    rw [hr.replyOf hs]
    cases CAsync.replyOf a .skip (.resumed frame) with
    | error e => exact .error e
    | ok reply => exact .ok (.next reply hs)

theorem asyncCall (hr : Refines Rep) (h : SameRuntime Rep s a) (fn : F) (arg : V) :
    Lockstep (fun x y => SameRuntime Rep x.1 y.1 ∧ x.2 = y.2)
      (asyncCall s fn arg) (asyncCall a fn arg) :=
  h.asyncCall fun _ i _ => hr.registerTask h.sched i

theorem asyncReturnReady (hr : Refines Rep) (h : SameRuntime Rep s a) (data : V) :
    Lockstep (SameReturning Rep) (asyncReturnReady s data) (asyncReturnReady a data) :=
  h.asyncReturnReady (hr.currentTask h.sched) (hr.finishTask h.sched) data

theorem freeOrphan (hr : Refines Rep) (h : SameRuntime Rep s a) (i : Handle) :
    Lockstep (SameRuntime Rep) (freeOrphan s i) (freeOrphan a i) :=
  h.freeOrphan (hr.freeTask h.sched i)

theorem asyncReturn (hr : Refines Rep) (h : SameRuntime Rep s a) (data : V) :
    Lockstep (SameOutcome Rep) (asyncReturn s data) (asyncReturn a data) := by
  unfold CAsync.asyncReturn
  refine (hr.asyncReturnReady h data).bind fun x y hxy => ?_
  cases hxy with
  | exit d => exact .ok (.exit d)
  | ready finished next hs =>
    refine (hr.freeOrphan hs finished).bind fun x y hxy => ?_
    exact hr.replied .skip (hxy.asyncSwitch ⟨0⟩ next .entry)

/-- **One call of the running task, over the code and over the model.** -/
theorem step (hr : Refines Rep) (h : SameRuntime Rep s a) (op : Op F V) :
    Lockstep (SameOutcome Rep) (step s op) (step a op) := by
  cases op with
  | call fn arg =>
    refine (hr.asyncCall h fn arg).bind fun x y hxy => ?_
    obtain ⟨hs, hi⟩ := hxy
    dsimp only
    rw [hi]
    exact .ok (.next _ hs)
  | skip => exact hr.replied .skip (hr.asyncSkip h .asyncSkip)
  | await i => exact hr.await h i
  | ret data => exact hr.asyncReturn h data
  | orphan i =>
    unfold CAsync.step asyncOrphan
    dsimp only
    rw [h.pool]
    cases getTask a.pool i with
    | error e => exact .error e
    | ok t => exact .ok (.next _ ⟨rfl, h.running, h.sched⟩)
  | free i => exact (hr.freeTaskRuntime h i).bind fun x y hxy => .ok (.next _ hxy)
  | poll i =>
    unfold CAsync.step
    dsimp only
    rw [hr.pollState h]
    cases CAsync.pollState a i with
    | error e => exact .error e
    | ok st => exact .ok (.next _ h)

theorem runAsyncMain (hr : Refines Rep) (mainFn : F) (arg : V) :
    Lockstep (SameOutcome Rep) (runAsyncMain mainFn arg) (runAsyncMain mainFn arg) := by
  unfold CAsync.runAsyncMain
  have hboot : SameRuntime Rep (boot : Runtime S F V) (boot : Runtime A F V) :=
    ⟨rfl, rfl, hr.zeroed⟩
  refine (hr.asyncCall hboot mainFn arg).bind fun x y hxy => ?_
  obtain ⟨s, i⟩ := x
  obtain ⟨a, i'⟩ := y
  obtain ⟨hs, rfl⟩ := hxy
  refine Lockstep.require_bind Iff.rfl fun _ => ?_
  exact hr.replied .skip (hs.asyncSwitch ⟨0⟩ i .entry)

/-! ## 3. Runs -/

theorem next (hr : Refines Rep) (h : SameRuntime Rep s a) {l : Op F V × Reply F V}
    {t : Runtime S F V} (hst : Next s l t) : ∃ b, Next a l b ∧ SameRuntime Rep t b := by
  have hstep := hr.step h l.1
  unfold Next at hst ⊢
  rw [hst] at hstep
  obtain ⟨o, ho, hrel⟩ := hstep.ok_left
  cases hrel with
  | next r hb => exact ⟨_, ho, hb⟩

theorem start (hr : Refines Rep) (hs : Start s) :
    ∃ a : Runtime A F V, Start a ∧ SameRuntime Rep s a := by
  obtain ⟨mainFn, arg, hmain⟩ := hs
  have hrun := hr.runAsyncMain (F := F) mainFn arg
  rw [hmain] at hrun
  obtain ⟨o, ho, hrel⟩ := hrun.ok_left
  cases hrel with
  | next r hb => exact ⟨_, ⟨mainFn, arg, ho⟩, hb⟩

/-- **A run over the code is a run over the model**, with the same calls and replies. -/
theorem steps (hr : Refines Rep) {l : List (Op F V × Reply F V)} {t : Runtime S F V}
    (h : SameRuntime Rep s a) (hst : Steps Next s l t) :
    ∃ b, Steps Next a l b ∧ SameRuntime Rep t b :=
  hst.simulate (fun _ _ _ _ hsa hst => hr.next hsa hst) h

/-- The same for calls under a guard that the two sides understand alike. -/
theorem guarded (hr : Refines Rep) {P : Runtime S F V → Op F V → Prop}
    {Q : Runtime A F V → Op F V → Prop}
    (hPQ : ∀ {s a} op, SameRuntime Rep s a → P s op → Q a op)
    {l : List (Op F V × Reply F V)} {t : Runtime S F V}
    (h : SameRuntime Rep s a) (hst : Steps (Guarded P) s l t) :
    ∃ b, Steps (Guarded Q) a l b ∧ SameRuntime Rep t b := by
  refine hst.simulate (fun s a i t hsa hst => ?_) h
  obtain ⟨b, hb, hsame⟩ := hr.next hsa hst.1
  exact ⟨b, ⟨hb, hPQ _ hsa hst.2⟩, hsame⟩

end Refines

/-! ## 4. The graph scheduler refines `TaskGraph` -/

/-- `graph_wait_ready` and `poll_state` look at the scheduler only through the entries of the
vtable and through the node of the child. -/
theorem graphRefines : Refines TaskGraph.Represents where
  zeroed := TaskGraph.Represents.zero
  registerTask := TaskGraph.Represents.registerTask
  finishTask := TaskGraph.Represents.finishTask
  freeTask := TaskGraph.Represents.freeTask
  pollTask := fun _ _ _ _ _ => rfl
  currentTask := TaskGraph.Represents.currentTask
  nextTask := TaskGraph.Represents.nextTask
  waitReady := by
    intro F V s a h i
    refine (h.sched.block i).bind fun x y hxy => ?_
    obtain ⟨g, rest⟩ := x
    obtain ⟨b, rest'⟩ := y
    obtain ⟨hg, rfl⟩ := hxy
    obtain ⟨parent, child, next⟩ := rest
    have hs : SameRuntime TaskGraph.Represents { s with sched := g } { a with sched := b } :=
      ⟨h.pool, h.running, hg⟩
    exact hs.asyncSwitch parent next _
  waitResume := by
    intro F V s a h parent child
    change Graph.graphWaitResume s parent child = TaskGraph.waitResume a parent child
    have hpoll : ∀ i : Handle, pollState s i = pollState a i := fun i => by
      unfold pollState
      rw [show SchedulerOps.currentTask s.sched = SchedulerOps.currentTask a.sched from
        h.sched.currentTask, h.pool]
      rfl
    unfold Graph.graphWaitResume TaskGraph.waitResume
    rw [h.sched.currentTask]
    by_cases hlt : child < a.sched.fresh
    · rw [if_pos hlt, load_eq (h.sched.marks.node hlt)]
      simp only [ok_bind, hpoll]
    · have hload : load s.sched.nodes child = .error .outOfBounds := by
        unfold load
        rw [List.getElem?_eq_none]
        rw [h.sched.marks.length_eq]
        exact Nat.le_of_not_lt hlt
      rw [if_neg hlt, hload]
      simp only [error_bind]

end CAsync
