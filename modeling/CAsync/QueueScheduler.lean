/-
# The queue scheduler (`queue_scheduler.c`)

The scheduler's data is the run queue alone, a ring of handles with the running task at the
front.  A task that waits stays in the queue: `busy_wait_ready` polls the awaited task and
skips until it has finished.  `waitReady` is one round of that loop; a task suspended inside it
goes on with the next round (`Frame.busyWaitReady`).
-/
import CAsync.Scheduler
import CAsync.Storage

namespace CAsync

open Faulting RingQueue

instance : Inhabited Handle := ⟨⟨0⟩⟩

/-- `Queue`. -/
abbrev HandleQueue := RingQueue Handle

namespace HandleQueue

variable {F V : Type}

/-- `finish_task`. -/
def finishTask (q : HandleQueue) : Except Fault (HandleQueue × Handle × Handle) := do
  let (q, cur) ← queuePopFront q
  let next ← queuePeekFront q
  .ok (q, cur, next)

/-- `next_task`. -/
def nextTask (q : HandleQueue) : Except Fault (HandleQueue × Handle) := do
  let (q, h) ← queuePopFront q
  let q ← queuePushBack q h
  let h ← queuePeekFront q
  .ok (q, h)

/-- `poll_task`; it reads in front of the pool if the index is 0. -/
def pollTask (_ : HandleQueue) {F V : Type} (p : TaskPool F V) (h : Handle) :
    Except Fault State := do
  require (h.idx ≠ 0) .outOfBounds
  let t ← load p.tasks (h.idx - 1)
  .ok t.state

/-- `register_task` is `queue_push_back`, `current_task` is `queue_peek_front`, and
`queue_free_task` is empty. -/
instance : SchedulerOps HandleQueue where
  zeroed := RingQueue.zero
  registerTask := queuePushBack
  finishTask := finishTask
  freeTask := fun q _ => .ok q
  pollTask := pollTask
  currentTask := queuePeekFront
  nextTask := nextTask

/-- One round of `busy_wait_ready`: `if (poll_state(h) == READY) return; async_skip();`.  It does
not use the scheduler's data. -/
def busyWaitReady {S : Type} [SchedulerOps S] (s : Runtime S F V) (h : Handle) :
    Except Fault (Runtime S F V × Control F V) := do
  let state ← pollState s h
  if state = .ready then .ok (s, .returned)
  else do
    let (s, control) ← asyncSkip s (.busyWaitReady h)
    match control with
    | .returned => .ok (s, .resumed (.busyWaitReady h))
    | control => .ok (s, control)

/-- `graph_wait_ready`'s assertions have no counterpart here. -/
instance : SchedulerVTable HandleQueue where
  waitReady := busyWaitReady
  waitResume := fun _ _ _ => .error .nullDeref

end HandleQueue
end CAsync
