/-
# One call in the `DEBUG` build

`step_checked` lifts the checks of the vtable to the calls of a program.  From a flat queue, a call
does in the two builds the same and leaves a flat queue, with two exceptions (`Op.Overruns`):
`async_call` when its push wraps around, and `async_skip` when its push does.
-/
import CAsync.DebugChecks

namespace CAsync

open Faulting RingQueue

variable {F V : Type}

/-- The push of the call would send `end` back to 0.  `async_skip` pops first, so that `start` is
positive whatever it was. -/
def Op.Overruns {α : Type} (q : RingQueue α) : Op F V → Prop
  | .call _ _ => q.Wraps
  | .skip => q.end_ + 1 = q.cap
  | _ => False

/-- Where the queue ends after a call, if it stays flat. -/
def Op.endAfter (n : Nat) : Op F V → Nat
  | .call _ _ | .skip => n + 1
  | _ => n

/-- The size of its memory. -/
def Op.capAfter (n cap : Nat) : Op F V → Nat
  | .call _ _ => RingQueue.capAfter cap n
  | _ => cap

/-- If some task runs on, its queue is flat and ends at `n` in a memory of `cap` cells. -/
def Outcome.FlatAt (n cap : Nat) : Outcome Graph F V → Prop
  | .exit _ => True
  | .next t _ => t.sched.FlatAt n cap

namespace Debug

variable {s : Runtime Graph F V} {n cap : Nat}

/-! ## 1. The library over the two vtables -/

theorem pollState_eq (hg : s.sched.FlatAt n cap) (h : Handle) :
    @pollState F V Graph ops s h = pollState s h := by
  have hcur : graphCurrentTask s.sched = s.sched.graphCurrentTask := graphCurrentTask_eq hg
  change (graphCurrentTask s.sched >>= _) = (s.sched.graphCurrentTask >>= _)
  rw [hcur]
  rfl

theorem replyOf_eq (hg : s.sched.FlatAt n cap) (r : Reply F V) (c : Control F V) :
    @replyOf Graph F V vtable s r c = replyOf s r c := by
  cases c with
  | returned => rfl
  | entered fn data => rfl
  | resumed frame =>
    cases frame with
    | entry => rfl
    | asyncSkip => rfl
    | busyWaitReady h => rfl
    | graphWaitReady parent child h =>
      have hresume : graphWaitResume s parent child = Graph.graphWaitResume s parent child := by
        unfold graphWaitResume Graph.graphWaitResume
        rw [graphCurrentTask_eq hg]
        simp only [pollState_eq hg]
      change (graphWaitResume s parent child >>= _) = (Graph.graphWaitResume s parent child >>= _)
      rw [hresume]

/-- A switch, and what follows it. -/
theorem asyncSwitch_checked (hg : s.sched.FlatAt n cap) (src dst : Handle) (frame : Frame) :
    Instrumented .verifyQueue False
      (fun x : Runtime Graph F V × Control F V => x.1.sched.FlatAt n cap)
      (asyncSwitch s src dst frame) (asyncSwitch s src dst frame) := by
  refine .same ?_
  rintro ⟨t, c⟩ hok
  rwa [asyncSwitch_sched hok]

theorem replied_checked (hg : s.sched.FlatAt n cap) (r : Reply F V) (c : Control F V) :
    Instrumented .verifyQueue False (Outcome.FlatAt n cap)
      (do
        let reply ← @replyOf Graph F V vtable s r c
        .ok (.next s reply))
      (do
        let reply ← replyOf s r c
        .ok (.next s reply)) := by
  rw [replyOf_eq hg]
  exact .after fun _ _ => .ok hg

/-! ## 2. The calls -/

theorem asyncCall_checked (hg : s.sched.FlatAt n cap) (fn : F) (arg : V) :
    Instrumented .verifyQueue s.sched.queue.Wraps
      (fun x => x.1.sched.FlatAt (n + 1) (RingQueue.capAfter cap n))
      (@asyncCall Graph F V vtable s fn arg) (asyncCall s fn arg) := by
  unfold asyncCall startNewTask
  refine .after fun new _ => ?_
  exact .first (graphRegisterTask_checked hg new.2) fun g hg' => .ok hg'

theorem skip_checked (hg : s.sched.FlatAt n cap) :
    Instrumented .verifyQueue (n + 1 = cap) (Outcome.FlatAt (n + 1) cap)
      (@skip Graph F V vtable s) (skip s) := by
  unfold skip
  refine .first (R := fun x => x.1.sched.FlatAt (n + 1) cap) ?_ fun x hx =>
    replied_checked hx .skip x.2
  unfold asyncSkip
  refine .second (R := fun _ => True) (.of_eq (graphCurrentTask_eq hg) fun _ _ => trivial)
    fun current _ => ?_
  refine .first (graphNextTask_checked hg) fun x hx => .after fun t1 _ => ?_
  split
  · exact asyncSwitch_checked (s := { s with sched := x.1 }) hx current x.2 .asyncSkip
  · exact .ok hx

theorem await_checked (hg : s.sched.FlatAt n cap) (h : Handle) :
    Instrumented .verifyQueue False (Outcome.FlatAt n cap) (@await Graph F V vtable s h)
      (await s h) := by
  unfold await
  have hwait : Instrumented .verifyQueue False
      (fun x : Runtime Graph F V × Control F V => x.1.sched.FlatAt n cap)
      (graphWaitReady s h) (Graph.graphWaitReady s h) := by
    unfold graphWaitReady Graph.graphWaitReady
    exact .first (graphBlock_checked hg h) fun x hx =>
      asyncSwitch_checked (s := { s with sched := x.1 }) hx x.2.1 x.2.2.2 _
  refine .first hwait ?_
  rintro ⟨t, c⟩ ht
  cases c with
  | returned => exact .after fun _ _ => .ok ht
  | entered fn data => exact replied_checked ht .skip (.entered fn data)
  | resumed frame => exact replied_checked ht .skip (.resumed frame)

theorem asyncFree_checked (hg : s.sched.FlatAt n cap) (h : Handle) :
    Instrumented .verifyQueue False (fun t : Runtime Graph F V => t.sched.FlatAt n cap)
      (@asyncFree Graph F V vtable s h) (asyncFree s h) := by
  refine .same fun t ht => ?_
  unfold asyncFree freeTask at ht
  obtain ⟨_, -, ht⟩ := bind_eq_ok.mp ht
  obtain ⟨g, hg', ht⟩ := bind_eq_ok.mp ht
  obtain ⟨w, -, ht⟩ := bind_eq_ok.mp ht
  cases ht
  exact graphFreeTask_flatAt hg hg'

/-- Where `async_return` is after `t->state = READY`. -/
def ReturningFlat (n cap : Nat) : Returning Graph F V → Prop
  | .exit _ => True
  | .ready t _ _ => t.sched.FlatAt n cap

theorem asyncReturn_checked (hg : s.sched.FlatAt n cap) (hlive : s.sched.WaiterLive) (data : V) :
    Instrumented .verifyQueue False (Outcome.FlatAt n cap) (@asyncReturn Graph F V vtable s data)
      (asyncReturn s data) := by
  unfold asyncReturn
  refine .first (R := ReturningFlat n cap) ?_ fun x hx => ?_
  · unfold asyncReturnReady
    refine .second (R := fun _ => True) (.of_eq (graphCurrentTask_eq hg) fun _ _ => trivial)
      fun current _ => ?_
    by_cases hmain : current.idx = 1
    · rw [if_pos hmain, if_pos hmain]
      exact .ok trivial
    rw [if_neg hmain, if_neg hmain]
    refine .first (graphFinishTask_checked hg hlive) ?_
    rintro ⟨g, finished, next⟩ hx
    dsimp only
    split
    · exact .ok trivial
    · exact .after fun t _ => .ok hx
  cases x with
  | exit data => exact .ok trivial
  | ready t finished next =>
    have hfree : Instrumented .verifyQueue False (fun u : Runtime Graph F V => u.sched.FlatAt n cap)
        (@freeOrphan Graph F V vtable t finished) (freeOrphan t finished) := by
      unfold freeOrphan
      refine .after fun task _ => ?_
      by_cases horphaned : task.orphaned = true
      · rw [if_pos horphaned, if_pos horphaned]
        exact asyncFree_checked hx finished
      · rw [if_neg horphaned, if_neg horphaned]
        exact .ok hx
    refine .first hfree fun u hu => ?_
    exact .first (asyncSwitch_checked hu ⟨0⟩ next .entry) fun x hx => replied_checked hx .skip x.2

/-- **One call in the two builds.** -/
theorem step_checked (hg : s.sched.FlatAt n cap) (hlive : s.sched.WaiterLive) (op : Op F V) :
    Instrumented .verifyQueue (op.Overruns s.sched.queue)
      (Outcome.FlatAt (op.endAfter n) (op.capAfter n cap)) (step s op) (CAsync.step s op) := by
  unfold step CAsync.step
  cases op with
  | call fn arg => exact .first (asyncCall_checked hg fn arg) fun _ ht => .ok ht
  | skip =>
    refine (skip_checked hg).congr ?_
    unfold Op.Overruns
    rw [hg.2.1, hg.2.2]
  | await h => exact await_checked hg h
  | ret data => exact asyncReturn_checked hg hlive data
  | orphan h =>
    refine .after fun t ht => .ok ?_
    unfold asyncOrphan at ht
    obtain ⟨_, -, ht⟩ := bind_eq_ok.mp ht
    cases ht
    exact hg
  | free h => exact .first (asyncFree_checked hg h) fun _ ht => .ok ht
  | poll h =>
    dsimp only
    rw [pollState_eq hg]
    exact .after fun _ _ => .ok hg

/-- **`run_async_main` in the two builds.** -/
theorem runAsyncMain_checked (mainFn : F) (arg : V) :
    Instrumented .verifyQueue False (Outcome.FlatAt 1 10)
      (@runAsyncMain Graph F V vtable mainFn arg) (runAsyncMain mainFn arg) := by
  have hboot : (boot : Runtime Graph F V).sched.FlatAt 0 0 :=
    ⟨⟨[], zero_holds, List.nodup_nil, Nat.le_refl 0, nofun⟩, rfl, rfl⟩
  have hfits : (boot : Runtime Graph F V).sched.queue.Wraps ↔ False :=
    ⟨fun h => Nat.succ_ne_zero _ h.1, False.elim⟩
  unfold runAsyncMain
  refine .first ((asyncCall_checked hboot mainFn arg).congr hfits) fun x hx =>
    .require_bind fun _ => ?_
  exact .first (asyncSwitch_checked hx ⟨0⟩ x.2 .entry) fun y hy => replied_checked hy .skip y.2

end Debug
end CAsync
