/-
# Tasks, the task pool and the scheduler interface (`scheduler.h`, `scheduler.c`, `switch.c`)

The globals of the library are one record, `Runtime`: the task pool, the scheduler's data, and
the handle of the task whose stack the processor is on.  A function of the source takes the
runtime and returns the new one, or the assertion that failed.

`void *` is a type `V` of values and a pointer to a task function is a type `F`.  `idx` of a handle
and `len` and `cap` of the pool are `int` in the source and natural numbers here: a handle is made
by `async_call` only, so none is negative, and the number of tasks in the pool at once is assumed to
stay below `2 ^ 29`, so that neither they nor `cap * 2 + 10` reach `2 ^ 31`.  `mmap`, `realloc` and
`calloc` are assumed to succeed.

Stacks are not memory here.  What a suspended stack determines is where its task goes on when
it is switched to, so `stackPtr` holds the topmost library frame (`Frame`): which function of
the library called `async_switch`, with the locals it still needs.  What the task's own code
does after that function returns is up to the program.

A scheduler is an instance of `SchedulerOps`, the entries of `SchedulerVTable` that act on the
scheduler's data, and of `SchedulerVTable`, which adds `wait_ready`: it may switch, so it is
split at its `async_switch` into `waitReady` and `waitResume`.
-/
import CAsync.Fault

namespace CAsync

open Faulting

/-! ## 1. Data types -/

/-- `Handle`; index 0 is no task. -/
structure Handle where
  idx : Nat
  deriving DecidableEq, Repr

/-- `State`: `init` was created, `ready` has finished, `running` is in progress, `free` is the
slot of no task. -/
inductive State where
  | init
  | ready
  | running
  | free
  deriving DecidableEq, Repr

/-- The topmost frame of a stack that is not running. -/
inductive Frame where
  /-- A fresh stack. -/
  | entry
  /-- In `async_skip`, which returns to the task. -/
  | asyncSkip
  /-- In `graph_wait_ready`, called by `await(h)`; `child` is the address of the node it
  waits for. -/
  | graphWaitReady (parent : Handle) (child : Nat) (h : Handle)
  /-- In `async_skip` called by `busy_wait_ready`, called by `await(h)`. -/
  | busyWaitReady (h : Handle)
  deriving DecidableEq, Repr

variable {F V S : Type}

/-- `Task`.  `handle` is the task's own handle, or the next free task if the state is `free`. -/
structure Task (F V : Type) where
  stackBase : Option Nat
  stackPtr : Option Frame
  fn : F
  data : V
  state : State
  orphaned : Bool
  handle : Handle

/-- `TaskPool`; `len` is the length of `tasks`, the slots behind it are not initialised. -/
structure TaskPool (F V : Type) where
  tasks : List (Task F V)
  cap : Nat
  freeTask : Handle

/-- The globals of the library, and whose stack the processor is on. -/
structure Runtime (S F V : Type) where
  pool : TaskPool F V
  sched : S
  running : Handle

/-- The entries of a scheduler's vtable that only read and write the scheduler's data, and the
zeroed data it starts with.  `poll_task` reads the pool. -/
class SchedulerOps (S : Type) where
  zeroed : S
  registerTask : S → Handle → Except Fault S
  finishTask : S → Except Fault (S × Handle × Handle)
  freeTask : S → Handle → Except Fault S
  pollTask : S → {F V : Type} → TaskPool F V → Handle → Except Fault State
  currentTask : S → Except Fault Handle
  nextTask : S → Except Fault (S × Handle)

namespace TaskPool

def len (p : TaskPool F V) : Nat := p.tasks.length

/-- `pool->tasks[h.idx - 1] = t`. -/
def setTask (p : TaskPool F V) (h : Handle) (t : Task F V) : TaskPool F V :=
  { p with tasks := p.tasks.set (h.idx - 1) t }

end TaskPool

/-! ## 2. The pool -/

/-- `get_task`. -/
def getTask (p : TaskPool F V) (h : Handle) : Except Fault (Task F V) := do
  require (h.idx > 0) .handleNull
  require (h.idx ≤ p.len) .handleRange
  load p.tasks (h.idx - 1)

/-- The part of `start_new_task` that finds a slot: the pool and the handle of the new task. -/
def allocTask (p : TaskPool F V) (fn : F) (data : V) : Except Fault (TaskPool F V × Handle) :=
  if p.freeTask.idx = 0 then
    let cap := if p.len = p.cap then p.cap * 2 + 10 else p.cap
    let h : Handle := ⟨p.len + 1⟩
    let newTask : Task F V :=
      { stackBase := some p.len, stackPtr := some .entry, fn := fn, data := data,
        state := .init, orphaned := false, handle := h }
    .ok ({ p with tasks := p.tasks ++ [newTask], cap := cap }, h)
  else do
    let h := p.freeTask
    require (h.idx > 0) .handleNull
    require (h.idx ≤ p.len) .handleRange
    let t ← load p.tasks (h.idx - 1)
    require (t.state = .free) .taskNotFree
    require (t.stackBase ≠ none) .taskNoStack
    let p := { p with freeTask := t.handle }
    let t := { t with
      state := .init, handle := h, fn := fn, data := data, stackPtr := some .entry }
    .ok (p.setTask h t, h)

section Ops

variable [SchedulerOps S]

open SchedulerOps

/-- `start_new_task`. -/
def startNewTask (s : Runtime S F V) (fn : F) (data : V) :
    Except Fault (Runtime S F V × Handle) := do
  let (pool, h) ← allocTask s.pool fn data
  let sched ← registerTask s.sched h
  .ok ({ s with pool := pool, sched := sched }, h)

/-- `poll_state`. -/
def pollState (s : Runtime S F V) (h : Handle) : Except Fault State := do
  let _cur ← currentTask s.sched
  let _ ← pollTask s.sched s.pool h
  let t ← getTask s.pool h
  .ok t.state

/-- `free_task`. -/
def freeTask (s : Runtime S F V) (h : Handle) : Except Fault (Runtime S F V) := do
  require (h.idx ≠ 0) .handleNull
  let sched ← SchedulerOps.freeTask s.sched h
  let t ← getTask s.pool h
  let pool := s.pool.setTask h { t with state := .free, handle := s.pool.freeTask }
  .ok { s with pool := { pool with freeTask := h }, sched := sched }

end Ops

/-! ## 3. Switching -/

/-- How a library function that may switch ends, from the processor's point of view. -/
inductive Control (F V : Type) where
  /-- It returned to its caller. -/
  | returned
  /-- The processor entered `fn(data)` on a fresh stack. -/
  | entered (fn : F) (data : V)
  /-- The processor is on another stack, whose topmost frame is this one. -/
  | resumed (frame : Frame)

/-- `from.idx == 0 ? NULL : get_task(from)`. -/
def getTaskOrNull (p : TaskPool F V) (src : Handle) : Except Fault (Option (Task F V)) :=
  if src.idx = 0 then .ok none else do
    let f1 ← getTask p src
    .ok (some f1)

/-- What `async_switch_asm` stores: `f1->stack_ptr = ...`, if `f1` is not NULL. -/
def saveStack (p : TaskPool F V) (src : Handle) (f1 : Option (Task F V)) (frame : Frame) :
    TaskPool F V :=
  match f1 with
  | none => p
  | some f1 => p.setTask src { f1 with stackPtr := some frame }

/-- `async_switch`, called from the frame `frame` of the running task. -/
def asyncSwitch (s : Runtime S F V) (src dst : Handle) (frame : Frame) :
    Except Fault (Runtime S F V × Control F V) := do
  require (dst.idx ≠ 0) .switchToNull
  require (src.idx ≠ dst.idx) .switchToSelf
  let f1 ← getTaskOrNull s.pool src
  let f2 ← getTask s.pool dst
  require (f2.state ≠ .free) .switchToFree
  require (f2.state ≠ .ready) .switchToReady
  match f2.stackPtr with
  | none => .error .switchNoStack
  | some top =>
    if f2.state = .init then
      let pool := s.pool.setTask dst { f2 with state := .running }
      .ok ({ s with pool := saveStack pool src f1 frame, running := dst },
        .entered f2.fn f2.data)
    else
      .ok ({ s with pool := saveStack s.pool src f1 frame, running := dst }, .resumed top)

/-- `async_skip`, called from the frame `frame`. -/
def asyncSkip [SchedulerOps S] (s : Runtime S F V) (frame : Frame) :
    Except Fault (Runtime S F V × Control F V) := do
  let current ← SchedulerOps.currentTask s.sched
  let (sched, next) ← SchedulerOps.nextTask s.sched
  let s := { s with sched := sched }
  let _t1 ← getTask s.pool current
  if current.idx ≠ next.idx then asyncSwitch s current next frame
  else .ok (s, .returned)

/-- A whole vtable.  `waitReady` is `wait_ready` up to its first `async_switch`, or to its end
if it does not switch; `waitResume` is what is left of it after the switch. -/
class SchedulerVTable (S : Type) extends SchedulerOps S where
  waitReady : {F V : Type} → Runtime S F V → Handle →
    Except Fault (Runtime S F V × Control F V)
  waitResume : {F V : Type} → Runtime S F V → Handle → Nat → Except Fault Unit

end CAsync
