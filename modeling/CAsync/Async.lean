/-
# The library's interface (`async.c`), and what a program can do

The running task calls one function of the library after another; `step` is one such call, up
to the moment the processor is back in the code of some task: the caller's, if the function
returned without a switch, and otherwise that of the task it switched to, whose own pending
call has then returned (`Reply`).  The assertions that a resumed task makes inside the library
belong to the call that resumed it.

`await_any` and `await_all` are made of `poll` and `skip` calls and are programs over `step`.
-/
import CAsync.Scheduler

namespace CAsync

open Faulting

variable {S F V : Type}

/-- A call of the running task into the library. -/
inductive Op (F V : Type) where
  | call (fn : F) (arg : V)
  | skip
  | await (h : Handle)
  | ret (data : V)
  | orphan (h : Handle)
  | free (h : Handle)
  | poll (h : Handle)

/-- What the code that runs next is told. -/
inductive Reply (F V : Type) where
  /-- `async_call` returned this handle. -/
  | handle (h : Handle)
  /-- `async_orphan` or `async_free` returned. -/
  | done
  /-- `poll_state` returned this state. -/
  | state (st : State)
  /-- A task starts: the processor entered `fn(data)`. -/
  | start (fn : F) (data : V)
  /-- `async_skip` returned. -/
  | skip
  /-- `await` returned this value. -/
  | await (v : V)
  /-- The running task is in `busy_wait_ready(h)`, before its next round. -/
  | waiting (h : Handle)

/-- The end of a call: the process exited, or some task runs on. -/
inductive Outcome (S F V : Type) where
  | exit (data : V)
  | next (s : Runtime S F V) (r : Reply F V)

section

variable [SchedulerVTable S]

/-- The rest of the pending call of the task that was switched to, up to its return. -/
def resume (s : Runtime S F V) : Frame → Except Fault (Reply F V)
  | .entry => .error .nullDeref
  | .asyncSkip => .ok .skip
  | .graphWaitReady parent child h => do
    SchedulerVTable.waitResume s parent child
    let t ← getTask s.pool h
    .ok (.await t.data)
  | .busyWaitReady h => .ok (.waiting h)

/-- Where the processor is after a call that may have switched; `returned` is the reply to the
caller if it has not. -/
def replyOf (s : Runtime S F V) (returned : Reply F V) :
    Control F V → Except Fault (Reply F V)
  | .returned => .ok returned
  | .entered fn data => .ok (.start fn data)
  | .resumed frame => resume s frame

/-- `async_orphan`. -/
def asyncOrphan (s : Runtime S F V) (h : Handle) : Except Fault (Runtime S F V) := do
  let t ← getTask s.pool h
  .ok { s with pool := s.pool.setTask h { t with orphaned := true } }

/-- `async_free`. -/
def asyncFree (s : Runtime S F V) (h : Handle) : Except Fault (Runtime S F V) := freeTask s h

/-- `async_call`. -/
def asyncCall (s : Runtime S F V) (fn : F) (arg : V) :
    Except Fault (Runtime S F V × Handle) := startNewTask s fn arg

/-- `async_skip`, called by a task. -/
def skip (s : Runtime S F V) : Except Fault (Outcome S F V) := do
  let (s, control) ← asyncSkip s .asyncSkip
  let reply ← replyOf s .skip control
  .ok (.next s reply)

/-- `await`. -/
def await (s : Runtime S F V) (h : Handle) : Except Fault (Outcome S F V) := do
  let (s, control) ← SchedulerVTable.waitReady s h
  match control with
  | .returned => do
    let t ← getTask s.pool h
    .ok (.next s (.await t.data))
  | control => do
    let reply ← replyOf s .skip control
    .ok (.next s reply)

/-- Where `async_return` is after `t->state = READY`. -/
inductive Returning (S F V : Type) where
  | exit (data : V)
  | ready (s : Runtime S F V) (finished next : Handle)

/-- `async_return` up to `t->state = READY`.  `async_deinit` only releases memory before the
process exits. -/
def asyncReturnReady (s : Runtime S F V) (data : V) : Except Fault (Returning S F V) := do
  let finishedTask ← SchedulerOps.currentTask s.sched
  if finishedTask.idx = 1 then .ok (.exit data)
  else do
    let (sched, finishedTask, nextTask) ← SchedulerOps.finishTask s.sched
    let s := { s with sched := sched }
    if finishedTask.idx = 1 then .ok (.exit data)
    else do
      let t ← getTask s.pool finishedTask
      let t := { t with data := data, state := .ready }
      let s := { s with pool := s.pool.setTask finishedTask t }
      .ok (.ready s finishedTask nextTask)

/-- `if (t->orphaned) { async_free(finished_task); }`. -/
def freeOrphan (s : Runtime S F V) (finishedTask : Handle) : Except Fault (Runtime S F V) := do
  let t ← getTask s.pool finishedTask
  if t.orphaned = true then asyncFree s finishedTask else .ok s

/-- `async_return`. -/
def asyncReturn (s : Runtime S F V) (data : V) : Except Fault (Outcome S F V) := do
  let returning ← asyncReturnReady s data
  match returning with
  | .exit data => .ok (.exit data)
  | .ready s finishedTask nextTask => do
    let s ← freeOrphan s finishedTask
    let (s, control) ← asyncSwitch s ⟨0⟩ nextTask .entry
    let reply ← replyOf s .skip control
    .ok (.next s reply)

/-- One call of the running task. -/
def step (s : Runtime S F V) : Op F V → Except Fault (Outcome S F V)
  | .call fn arg => do
    let (s, h) ← asyncCall s fn arg
    .ok (.next s (.handle h))
  | .skip => skip s
  | .await h => await s h
  | .ret data => asyncReturn s data
  | .orphan h => do
    let s ← asyncOrphan s h
    .ok (.next s .done)
  | .free h => do
    let s ← asyncFree s h
    .ok (.next s .done)
  | .poll h => do
    let st ← pollState s h
    .ok (.next s (.state st))

/-- The globals before `run_async_main`. -/
def boot : Runtime S F V :=
  { pool := { tasks := [], cap := 0, freeTask := ⟨0⟩ }, sched := SchedulerOps.zeroed,
    running := ⟨0⟩ }

/-- `run_async_main`, up to the first instruction of `main_fn(arg)`. -/
def runAsyncMain (mainFn : F) (arg : V) : Except Fault (Outcome S F V) := do
  let (s, h) ← asyncCall (boot : Runtime S F V) mainFn arg
  require (h.idx = 1) .mainNotFirst
  let (s, control) ← asyncSwitch s ⟨0⟩ h .entry
  let reply ← replyOf s .skip control
  .ok (.next s reply)

/-- A call that ends with some task running on. -/
def Next (s : Runtime S F V) (op : Op F V × Reply F V) (t : Runtime S F V) : Prop :=
  step s op.1 = .ok (.next t op.2)

theorem Next.unique {s t t' : Runtime S F V} {op : Op F V × Reply F V} (h : Next s op t)
    (h' : Next s op t') : t = t' := by
  have heq := h.symm.trans h'
  cases heq
  rfl

/-- The same, made in a state in which `P` allows it. -/
def Guarded (P : Runtime S F V → Op F V → Prop) (s : Runtime S F V) (op : Op F V × Reply F V)
    (t : Runtime S F V) : Prop :=
  Next s op t ∧ P s op.1

/-- The state in which `main_fn` starts. -/
def Start (s : Runtime S F V) : Prop :=
  ∃ (mainFn : F) (arg : V), runAsyncMain mainFn arg = .ok (.next s (.start mainFn arg))

end

end CAsync
