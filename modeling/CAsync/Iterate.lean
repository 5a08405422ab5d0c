/-
# A program whose tasks take turns

`async_main` calls a task for each member of a list, and waits for them with `await_all`.  Each task
runs `iterate`: it emits its items, with `async_skip` after each, and returns.

`IterMachine.step` runs the code of the running task up to its next call of the library, like
`Machine.step`; what is different here is that the order of what the tasks emit is part of the
state.
-/
import CAsync.AwaitMany
import Mathlib.Data.Option.Basic

namespace CAsync

open Faulting TaskPool

variable {F V S A α : Type}

/-! ## 1. The program -/

/-- Where a task is in its own code. -/
inductive IterCode (F V α : Type) where
  /-- In `iterate`, before a round of its loop, with these items still to emit. -/
  | iterate (rest : List α)
  /-- In `async_main`, between two calls: the handles so far, and the calls still to make. -/
  | calling (handles : List Handle) (todo : List (F × V))
  /-- In `await_all(handles, k, NULL)`, before a pass. -/
  | awaitAll (handles : List Handle)
  /-- `await_all` has returned. -/
  | awaited (handles : List Handle)

/-- What can be seen of the program. -/
inductive IterEvent (α : Type) where
  | emit (item : α)
  /-- The task calls `async_return`. -/
  | ret (h : Handle)
  /-- `await_all` returns. -/
  | awaited

/-- The item that is emitted, if the event is that. -/
def IterEvent.item : IterEvent α → Option α
  | .emit item => some item
  | .ret _ => none
  | .awaited => none

/-- The library, the code of the tasks, and what has been seen. -/
structure IterMachine (S F V α : Type) where
  lib : Runtime S F V
  code : Handle → IterCode F V α
  trace : List (IterEvent α)

namespace IterMachine

/-- The running task goes on at `code`. -/
def goto (m : IterMachine S F V α) (code : IterCode F V α) : IterMachine S F V α :=
  { m with code := Function.update m.code m.lib.running code }

def log (m : IterMachine S F V α) (e : IterEvent α) : IterMachine S F V α :=
  { m with trace := m.trace ++ [e] }

section

variable [SchedulerVTable S] (items : F → V → List α) (null : V)

/-- The code that runs next gets the reply of the library.  `iterate` and `async_main` only leave
the processor in `async_skip`. -/
def deliver (m : IterMachine S F V α) : Reply F V → Except Fault (IterMachine S F V α)
  | .start fn data => .ok (m.goto (.iterate (items fn data)))
  | .skip => .ok m
  | _ => .error .nullDeref

/-- A call that may switch, after which the running task goes on at `code`; `none` if the process
exits. -/
def switch (m : IterMachine S F V α) (op : Op F V) (code : IterCode F V α) :
    Except Fault (Option (IterMachine S F V α)) := do
  let outcome ← CAsync.step m.lib op
  match outcome with
  | .exit _ => .ok none
  | .next s reply => do
    let m ← deliver items { m.goto code with lib := s } reply
    .ok (some m)

/-- `handles[i] = async_call(fn, arg)`. -/
def create (m : IterMachine S F V α) (handles : List Handle) (fn : F) (arg : V)
    (todo : List (F × V)) : Except Fault (Option (IterMachine S F V α)) := do
  let outcome ← CAsync.step m.lib (.call fn arg)
  match outcome with
  | .next s (.handle h) =>
    .ok (some { m.goto (.calling (handles ++ [h]) todo) with lib := s })
  | _ => .error .nullDeref

/-- One step of the running task.  What `async_main` does after `await_all` is left open: the
machine stops there. -/
def step (m : IterMachine S F V α) : Except Fault (Option (IterMachine S F V α)) :=
  match m.code m.lib.running with
  | .iterate (item :: rest) => (m.log (.emit item)).switch items .skip (.iterate rest)
  | .iterate [] => (m.log (.ret m.lib.running)).switch items (.ret null) (.iterate [])
  | .calling handles ((fn, arg) :: todo) => m.create handles fn arg todo
  | .calling handles [] => .ok (some (m.goto (.awaitAll handles)))
  | .awaitAll handles => do
    let (_, succCnt) ← awaitAllPass m.lib 0 handles none 0
    if succCnt = handles.length then
      .ok (some ((m.log .awaited).goto (.awaited handles)))
    else m.switch items .skip (.awaitAll handles)
  | .awaited _ => .ok (some m)

/-- `n` steps, or fewer if the process exits before. -/
def run (m : IterMachine S F V α) : Nat → Except Fault (Option (IterMachine S F V α))
  | 0 => .ok (some m)
  | n + 1 => do
    let next ← m.step items null
    match next with
    | none => .ok none
    | some m => run m n

/-- `run_async_main(async_main, arg)`, and `n` steps of the program: task `i` is
`async_call(fn, arg)` for the member `i` of `calls`, and emits `items fn arg`. -/
def runMain (mainFn : F) (arg : V) (calls : List (F × V)) (n : Nat) :
    Except Fault (Option (IterMachine S F V α)) := do
  let outcome ← runAsyncMain mainFn arg
  match outcome with
  | .exit _ => .ok none
  | .next s _ => run items null { lib := s, code := fun _ => .calling [] calls, trace := [] } n

end

end IterMachine

/-! ## 2. The program over related schedulers -/

/-- The same code and the same trace over related libraries. -/
structure SameIter (Rep : S → A → Prop) (m : IterMachine S F V α) (n : IterMachine A F V α) :
    Prop where
  lib : SameRuntime Rep m.lib n.lib
  code : m.code = n.code
  trace : m.trace = n.trace

namespace SameIter

variable {Rep : S → A → Prop} {m : IterMachine S F V α} {n : IterMachine A F V α}

theorem goto (h : SameIter Rep m n) (code : IterCode F V α) :
    SameIter Rep (m.goto code) (n.goto code) := by
  refine ⟨h.lib, ?_, h.trace⟩
  unfold IterMachine.goto
  rw [h.code, h.lib.running]

theorem log (h : SameIter Rep m n) (e : IterEvent α) : SameIter Rep (m.log e) (n.log e) := by
  refine ⟨h.lib, h.code, ?_⟩
  unfold IterMachine.log
  rw [h.trace]

theorem withLib (h : SameIter Rep m n) {s : Runtime S F V} {a : Runtime A F V}
    (hs : SameRuntime Rep s a) : SameIter Rep { m with lib := s } { n with lib := a } :=
  ⟨hs, h.code, h.trace⟩

theorem deliver (h : SameIter Rep m n) (items : F → V → List α) (r : Reply F V) :
    Lockstep (SameIter Rep) (m.deliver items r) (n.deliver items r) := by
  cases r with
  | start fn data => exact .ok (h.goto _)
  | skip => exact .ok h
  | handle k => exact .error _
  | done => exact .error _
  | state st => exact .error _
  | await v => exact .error _
  | waiting k => exact .error _

end SameIter

namespace Refines

variable [SchedulerVTable S] [SchedulerVTable A] {Rep : S → A → Prop}
  {m : IterMachine S F V α} {n : IterMachine A F V α}

theorem iterSwitch (hr : Refines Rep) (h : SameIter Rep m n) (items : F → V → List α)
    (op : Op F V) (code : IterCode F V α) :
    Lockstep (Option.Rel (SameIter Rep)) (m.switch items op code) (n.switch items op code) := by
  refine (hr.step h.lib op).bind fun x y hxy => ?_
  cases hxy with
  | exit data => exact .ok .none
  | next r hs =>
    exact (((h.goto code).withLib hs).deliver items r).bind fun _ _ h => .ok (.some h)

theorem iterCreate (hr : Refines Rep) (h : SameIter Rep m n) (handles : List Handle) (fn : F)
    (arg : V) (todo : List (F × V)) :
    Lockstep (Option.Rel (SameIter Rep)) (m.create handles fn arg todo)
      (n.create handles fn arg todo) := by
  refine (hr.step h.lib (.call fn arg)).bind fun x y hxy => ?_
  cases hxy with
  | exit data => exact .error _
  | next r hs =>
    cases r with
    | handle k => exact .ok (.some ((h.goto _).withLib hs))
    | _ => exact .error _

theorem awaitAllPass (hr : Refines Rep) {s : Runtime S F V} {a : Runtime A F V}
    (h : SameRuntime Rep s a) (i n : Nat) (handles : List Handle) :
    awaitAllPass s i handles none n = awaitAllPass a i handles none n := by
  rw [awaitAllPass_none, awaitAllPass_none, hr.awaitAllRound h]

/-- **One step of the program.** -/
theorem iterStep (hr : Refines Rep) (h : SameIter Rep m n) (items : F → V → List α) (null : V) :
    Lockstep (Option.Rel (SameIter Rep)) (m.step items null) (n.step items null) := by
  have hcode : m.code m.lib.running = n.code n.lib.running := by rw [h.code, h.lib.running]
  unfold IterMachine.step
  rw [hcode, h.lib.running]
  split
  · exact hr.iterSwitch (h.log _) items _ _
  · exact hr.iterSwitch (h.log _) items _ _
  · exact hr.iterCreate h _ _ _ _
  · exact .ok (.some (h.goto _))
  · rename_i handles _
    rw [hr.awaitAllPass h.lib]
    cases CAsync.awaitAllPass n.lib 0 handles none 0 with
    | error e => exact .error e
    | ok pass =>
      dsimp only [ok_bind]
      split
      · exact .ok (.some ((h.log _).goto _))
      · exact hr.iterSwitch h items _ _
  · exact .ok (.some h)

theorem iterRun (hr : Refines Rep) (items : F → V → List α) (null : V) (k : Nat)
    (h : SameIter Rep m n) :
    Lockstep (Option.Rel (SameIter Rep)) (m.run items null k) (n.run items null k) := by
  induction k generalizing m n with
  | zero => exact .ok (.some h)
  | succ k ih =>
    refine (hr.iterStep h items null).bind fun x y hxy => ?_
    cases hxy with
    | none => exact .ok .none
    | some h => exact ih h

/-- **The program runs alike over related schedulers.** -/
theorem iterRunMain (hr : Refines Rep) (items : F → V → List α) (null : V) (mainFn : F) (arg : V)
    (calls : List (F × V)) (k : Nat) :
    Lockstep (Option.Rel (SameIter Rep))
      (IterMachine.runMain items null mainFn arg calls k :
        Except Fault (Option (IterMachine S F V α)))
      (IterMachine.runMain items null mainFn arg calls k :
        Except Fault (Option (IterMachine A F V α))) := by
  refine (hr.runAsyncMain mainFn arg).bind fun x y hxy => ?_
  cases hxy with
  | exit data => exact .ok .none
  | next r hs => exact hr.iterRun items null k ⟨hs, rfl, rfl⟩

end Refines

end CAsync
