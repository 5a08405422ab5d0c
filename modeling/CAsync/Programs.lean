/-
# Structured programs

A program gives each task function a body (`Body`), a tree of the calls that the task makes, whose
branches are chosen by the values that it is given: `async_skip`; `async_call` followed by `await`
of its handle; any number of `async_call`s followed by `await_all` of their handles, and each
followed by `async_free` of handles that were just awaited; and `async_return`.

`Body.eval` is the sequential meaning, where a call is a function call.  `Machine.step` is the
concurrent one: it runs the code of the running task over the library, with the stack of each
task's own code in `code`.  `await_all` is in the library, but only calls it, so it is run by the
machine too (`awaitAllRound`).
-/
import CAsync.Refinement

namespace CAsync

open Faulting

variable {F V S A : Type}

/-- The body of a task function, from some point on. -/
inductive Body (F V : Type) where
  /-- `async_return(data)`. -/
  | ret (data : V)
  /-- `async_skip()`. -/
  | skip (next : Body F V)
  /-- `h = async_call(fn, arg); v = await(h);`, and `async_free(h)` if `freed`. -/
  | call (fn : F) (arg : V) (freed : Bool) (next : V → Body F V)
  /-- `handles[i] = async_call(...)` for each call, then `await_all(handles, n, results)`, and
  `async_free(handles[i])` for the members of `freed`, in that order. -/
  | fanOut (calls : List (F × V))
    (freed : { l : List Nat // l.Nodup ∧ ∀ i ∈ l, i < calls.length }) (next : List V → Body F V)

/-! ## 1. The sequential meaning -/

/-- The value that a body returns, where `async_call` and `await` is a function call and
`await_all` maps it over a list; `none` if `fuel` is too little. -/
def Body.eval (prog : F → V → Body F V) : Nat → Body F V → Option V
  | 0, _ => none
  | _ + 1, .ret data => some data
  | fuel + 1, .skip next => eval prog fuel next
  | fuel + 1, .call fn arg _ next => do
    let v ← eval prog fuel (prog fn arg)
    eval prog fuel (next v)
  | fuel + 1, .fanOut calls _ next => do
    let vs ← calls.mapM fun c => eval prog fuel (prog c.1 c.2)
    eval prog fuel (next vs)

/-! ## 2. The machine -/

/-- Where a task is in its own code. -/
inductive Code (F V : Type) where
  | body (b : Body F V)
  /-- `async_call` has returned `h`, which is to be awaited. -/
  | called (h : Handle) (freed : Bool) (next : V → Body F V)
  /-- In `await(h)`. -/
  | awaiting (h : Handle) (freed : Bool) (next : V → Body F V)
  /-- The calls before `await_all`: the handles so far, and the calls still to make. -/
  | calling (handles : List Handle) (todo : List (F × V)) (freed : List Nat)
    (next : List V → Body F V)
  /-- In `await_all(handles)`, before a round of its loop. -/
  | awaitAll (handles : List Handle) (freed : List Nat) (next : List V → Body F V)
  /-- The calls of `async_free`. -/
  | freeing (handles : List Handle) (b : Body F V)

/-- The library and the code of the tasks. -/
structure Machine (S F V : Type) where
  lib : Runtime S F V
  code : Handle → Code F V

/-- The process has exited, or goes on. -/
inductive Result (S F V : Type) where
  | exit (data : V)
  | next (m : Machine S F V)

/-- A round of the loop of `await_all`: the values of the tasks that are `READY`, of which there
are `succ_cnt`. -/
def awaitAllRound [SchedulerOps S] (s : Runtime S F V) : List Handle → Except Fault (List V)
  | [] => .ok []
  | h :: handles => do
    require (h.idx ≠ 0) .awaitNull
    let state ← pollState s h
    if state = .ready then do
      let t ← getTask s.pool h
      let results ← awaitAllRound s handles
      .ok (t.data :: results)
    else awaitAllRound s handles

namespace Machine

section

variable [SchedulerVTable S] (prog : F → V → Body F V)

/-- The running task goes on at `code`. -/
def goto (m : Machine S F V) (code : Code F V) : Machine S F V :=
  { m with code := Function.update m.code m.lib.running code }

/-- The code that the processor is in gets the reply of the library.  No other replies come after
a switch, and only code in `await` gets the reply of `await`. -/
def deliver (m : Machine S F V) : Reply F V → Except Fault (Machine S F V)
  | .start fn data => .ok (m.goto (.body (prog fn data)))
  | .skip => .ok m
  | .waiting _ => .ok m
  | .await v =>
    match m.code m.lib.running with
    | .awaiting h freed next => .ok (m.goto (.freeing (if freed then [h] else []) (next v)))
    | _ => .error .nullDeref
  | .handle _ => .error .nullDeref
  | .done => .error .nullDeref
  | .state _ => .error .nullDeref

/-- A call that may switch, after which the running task goes on at `code`. -/
def switch (m : Machine S F V) (op : Op F V) (code : Code F V) :
    Except Fault (Result S F V) := do
  let outcome ← CAsync.step m.lib op
  match outcome with
  | .exit data => .ok (.exit data)
  | .next s reply => do
    let m ← deliver prog { m.goto code with lib := s } reply
    .ok (.next m)

/-- `async_call`, after which the running task goes on at `code h`. -/
def create (m : Machine S F V) (fn : F) (arg : V) (code : Handle → Code F V) :
    Except Fault (Result S F V) := do
  let outcome ← CAsync.step m.lib (.call fn arg)
  match outcome with
  | .next s (.handle h) => .ok (.next { m.goto (code h) with lib := s })
  | _ => .error .nullDeref

/-- `async_free`, after which the running task goes on at `code`. -/
def release (m : Machine S F V) (h : Handle) (code : Code F V) :
    Except Fault (Result S F V) := do
  let outcome ← CAsync.step m.lib (.free h)
  match outcome with
  | .next s .done => .ok (.next { m.goto code with lib := s })
  | _ => .error .nullDeref

/-- One step of the running task. -/
def step (m : Machine S F V) : Except Fault (Result S F V) :=
  match m.code m.lib.running with
  | .body (.ret data) => m.switch prog (.ret data) (.body (.ret data))
  | .body (.skip next) => m.switch prog .skip (.body next)
  | .body (.call fn arg freed next) => m.create fn arg fun h => .called h freed next
  | .body (.fanOut calls freed next) =>
    .ok (.next (m.goto (.calling [] calls freed.1 next)))
  | .called h freed next => m.switch prog (.await h) (.awaiting h freed next)
  | .awaiting h freed next => m.switch prog (.await h) (.awaiting h freed next)
  | .calling handles ((fn, arg) :: todo) freed next =>
    m.create fn arg fun h => .calling (handles ++ [h]) todo freed next
  | .calling handles [] freed next => .ok (.next (m.goto (.awaitAll handles freed next)))
  | .awaitAll handles freed next => do
    let results ← awaitAllRound m.lib handles
    if results.length = handles.length then
      .ok (.next (m.goto (.freeing (freed.filterMap (handles[·]?)) (next results))))
    else m.switch prog .skip (.awaitAll handles freed next)
  | .freeing (h :: handles) b => m.release h (.freeing handles b)
  | .freeing [] b => .ok (.next (m.goto (.body b)))

/-- `n` steps, or fewer if the process exits before. -/
def run : Nat → Machine S F V → Except Fault (Result S F V)
  | 0, m => .ok (.next m)
  | n + 1, m => do
    let result ← m.step prog
    match result with
    | .exit data => .ok (.exit data)
    | .next m => run n m

/-- `run_async_main`, and `n` steps of the program. -/
def runMain (mainFn : F) (arg : V) (n : Nat) : Except Fault (Result S F V) := do
  let outcome ← runAsyncMain mainFn arg
  match outcome with
  | .exit data => .ok (.exit data)
  | .next s reply => do
    let m ← deliver prog { lib := s, code := fun _ => .body (prog mainFn arg) } reply
    run prog n m

end

end Machine

/-! ## 3. Programs over related schedulers -/

/-- The same code over related libraries. -/
structure SameMachine (Rep : S → A → Prop) (m : Machine S F V) (n : Machine A F V) : Prop where
  lib : SameRuntime Rep m.lib n.lib
  code : m.code = n.code

inductive SameResult (Rep : S → A → Prop) : Result S F V → Result A F V → Prop
  | exit (data : V) : SameResult Rep (.exit data) (.exit data)
  | next {m : Machine S F V} {n : Machine A F V} :
    SameMachine Rep m n → SameResult Rep (.next m) (.next n)

namespace SameMachine

variable {Rep : S → A → Prop} {m : Machine S F V} {n : Machine A F V}

theorem goto (h : SameMachine Rep m n) (code : Code F V) :
    SameMachine Rep (m.goto code) (n.goto code) := by
  refine ⟨h.lib, ?_⟩
  unfold Machine.goto
  rw [h.code, h.lib.running]

theorem withLib (h : SameMachine Rep m n) {s : Runtime S F V} {a : Runtime A F V}
    (hs : SameRuntime Rep s a) : SameMachine Rep { m with lib := s } { n with lib := a } :=
  ⟨hs, h.code⟩

theorem deliver (h : SameMachine Rep m n) (prog : F → V → Body F V) (r : Reply F V) :
    Lockstep (SameMachine Rep) (m.deliver prog r) (n.deliver prog r) := by
  cases r with
  | start fn data => exact .ok (h.goto _)
  | skip => exact .ok h
  | waiting k => exact .ok h
  | await v =>
    have hcode : m.code m.lib.running = n.code n.lib.running := by rw [h.code, h.lib.running]
    unfold Machine.deliver
    dsimp only
    rw [hcode]
    cases n.code n.lib.running with
    | awaiting k freed next => exact .ok (h.goto _)
    | body b => exact .error _
    | called k freed next => exact .error _
    | calling hs todo freed next => exact .error _
    | awaitAll hs freed next => exact .error _
    | freeing hs b => exact .error _
  | handle k => exact .error _
  | done => exact .error _
  | state st => exact .error _

end SameMachine

namespace Refines

variable [SchedulerVTable S] [SchedulerVTable A] {Rep : S → A → Prop} {m : Machine S F V}
  {n : Machine A F V}

theorem switch (hr : Refines Rep) (h : SameMachine Rep m n) (prog : F → V → Body F V)
    (op : Op F V) (code : Code F V) :
    Lockstep (SameResult Rep) (m.switch prog op code) (n.switch prog op code) := by
  refine (hr.step h.lib op).bind fun x y hxy => ?_
  cases hxy with
  | exit data => exact .ok (.exit data)
  | next r hs =>
    exact (((h.goto code).withLib hs).deliver prog r).bind fun _ _ h => .ok (.next h)

theorem create (hr : Refines Rep) (h : SameMachine Rep m n) (fn : F) (arg : V)
    (code : Handle → Code F V) :
    Lockstep (SameResult Rep) (m.create fn arg code) (n.create fn arg code) := by
  refine (hr.step h.lib (.call fn arg)).bind fun x y hxy => ?_
  cases hxy with
  | exit data => exact .error _
  | next r hs =>
    cases r with
    | handle k => exact .ok (.next ((h.goto _).withLib hs))
    | _ => exact .error _

theorem release (hr : Refines Rep) (h : SameMachine Rep m n) (k : Handle) (code : Code F V) :
    Lockstep (SameResult Rep) (m.release k code) (n.release k code) := by
  refine (hr.step h.lib (.free k)).bind fun x y hxy => ?_
  cases hxy with
  | exit data => exact .error _
  | next r hs =>
    cases r with
    | done => exact .ok (.next ((h.goto _).withLib hs))
    | _ => exact .error _

theorem awaitAllRound (hr : Refines Rep) {s : Runtime S F V} {a : Runtime A F V}
    (h : SameRuntime Rep s a) (handles : List Handle) :
    awaitAllRound s handles = awaitAllRound a handles := by
  induction handles with
  | nil => rfl
  | cons k handles ih =>
    unfold CAsync.awaitAllRound
    rw [hr.pollState h, ih, h.pool]

/-- **One step of a program.** -/
theorem machineStep (hr : Refines Rep) (h : SameMachine Rep m n) (prog : F → V → Body F V) :
    Lockstep (SameResult Rep) (m.step prog) (n.step prog) := by
  have hcode : m.code m.lib.running = n.code n.lib.running := by rw [h.code, h.lib.running]
  unfold Machine.step
  rw [hcode]
  split
  · exact hr.switch h prog _ _
  · exact hr.switch h prog _ _
  · exact hr.create h _ _ _
  · exact .ok (.next (h.goto _))
  · exact hr.switch h prog _ _
  · exact hr.switch h prog _ _
  · exact hr.create h _ _ _
  · exact .ok (.next (h.goto _))
  · rename_i handles freed next _
    rw [hr.awaitAllRound h.lib]
    cases CAsync.awaitAllRound n.lib handles with
    | error e => exact .error e
    | ok results =>
      dsimp only [ok_bind]
      split
      · exact .ok (.next (h.goto _))
      · exact hr.switch h prog _ _
  · exact hr.release h _ _
  · exact .ok (.next (h.goto _))

theorem run (hr : Refines Rep) (prog : F → V → Body F V) (k : Nat) (h : SameMachine Rep m n) :
    Lockstep (SameResult Rep) (Machine.run prog k m) (Machine.run prog k n) := by
  induction k generalizing m n with
  | zero => exact .ok (.next h)
  | succ k ih =>
    refine (hr.machineStep h prog).bind fun x y hxy => ?_
    cases hxy with
    | exit data => exact .ok (.exit data)
    | next h => exact ih h

/-- **A program runs alike over related schedulers.** -/
theorem runMain (hr : Refines Rep) (prog : F → V → Body F V) (mainFn : F) (arg : V) (k : Nat) :
    Lockstep (SameResult Rep) (Machine.runMain prog mainFn arg k : Except Fault (Result S F V))
      (Machine.runMain prog mainFn arg k : Except Fault (Result A F V)) := by
  refine (hr.runAsyncMain mainFn arg).bind fun x y hxy => ?_
  cases hxy with
  | exit data => exact .ok (.exit data)
  | next r hs =>
    refine (SameMachine.deliver (m := { lib := _, code := fun _ => .body (prog mainFn arg) })
      (n := { lib := _, code := fun _ => .body (prog mainFn arg) }) ⟨hs, rfl⟩ prog r).bind ?_
    exact fun _ _ h => hr.run prog k h

end Refines
end CAsync
