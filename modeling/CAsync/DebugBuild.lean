/-
# The graph scheduler in the `DEBUG` build (`graph_scheduler.c`)

With `DEBUG` defined, `verify_queue` runs before and after every queue macro of the graph
scheduler but one: the peek at the end of `graph_wait_ready`.  The functions below are those of
`Graph` with these calls in place; `graph_free_task` and `graph_poll_task` make none.  They act on
the same data, so the two builds are two vtables over one state.
-/
import CAsync.Reachable
import CAsync.VerifyQueue

namespace CAsync.Debug

open Faulting RingQueue HashMap

variable {F V : Type}

/-- `graph_register_task`. -/
def graphRegisterTask (g : Graph) (h : Handle) : Except Fault Graph := do
  require (h.idx ≠ 0) .registerNull
  let (handleToNode, hashNode) ← hashMapInsert g.handleToNode h.idx sizeofInt
  let entry ← load handleToNode.nodes hashNode
  match entry.val with
  | some _ => .error .nullDeref
  | none => do
    let n := g.nodes.length
    let g : Graph := { queue := g.queue, handleToNode := handleToNode.setVal hashNode (some n),
                       nodes := g.nodes ++ [{ parent := none, h := h, inQueue := true }] }
    g.verifyQueue
    let queue ← queuePushBack g.queue (some n)
    let g := { g with queue := queue }
    g.verifyQueue
    .ok g

/-- `queue_peek_front` between two checks, and the assertions on the node it finds. -/
def nextFront (g : Graph) : Except Fault Handle := do
  g.verifyQueue
  let front ← queuePeekFront g.queue
  g.verifyQueue
  let (_, node) ← g.queuedNode front
  .ok node.h

/-- `graph_finish_task`. -/
def graphFinishTask (g : Graph) : Except Fault (Graph × Handle × Handle) := do
  g.verifyQueue
  let (queue, front) ← queuePopFront g.queue
  let g := { g with queue := queue }
  g.verifyQueue
  let (n, curNode) ← g.queuedNode front
  let g := g.setNode n { curNode with inQueue := false }
  match curNode.parent with
  | none => do
    let next ← nextFront g
    .ok (g, curNode.h, next)
  | some p => do
    let parent ← load g.nodes p
    if parent.inQueue = false then do
      let g := g.setNode p { parent with inQueue := true }
      g.verifyQueue
      let queue ← queuePushFront g.queue (some p)
      let g := { g with queue := queue }
      g.verifyQueue
      .ok (g, curNode.h, parent.h)
    else do
      let next ← nextFront g
      .ok (g, curNode.h, next)

/-- `graph_current_task`. -/
def graphCurrentTask (g : Graph) : Except Fault Handle := nextFront g

/-- `graph_next_task`. -/
def graphNextTask (g : Graph) : Except Fault (Graph × Handle) := do
  g.verifyQueue
  let (queue, front) ← queuePopFront g.queue
  let g := { g with queue := queue }
  g.verifyQueue
  let (n, _) ← g.queuedNode front
  g.verifyQueue
  let queue ← queuePushBack g.queue (some n)
  let g := { g with queue := queue }
  g.verifyQueue
  g.verifyQueue
  let next ← queuePeekFront g.queue
  g.verifyQueue
  match next with
  | none => .error .nodeNull
  | some next => do
    let node ← load g.nodes next
    require (node.inQueue = true) .nodeNotQueued
    .ok (g, node.h)

/-- The entries that act on the scheduler's data. -/
@[reducible] def ops : SchedulerOps Graph where
  zeroed := Graph.zero
  registerTask := graphRegisterTask
  finishTask := graphFinishTask
  freeTask := Graph.graphFreeTask
  pollTask := Graph.graphPollTask
  currentTask := graphCurrentTask
  nextTask := graphNextTask

/-- `if (!child->in_queue) { child->in_queue = true; queue_push_front(&g->queue, child); }`, with
the checks around the push. -/
def queueChild (g : Graph) (c : Nat) (child : Node) : Except Fault Graph :=
  if child.inQueue = false then do
    let g := g.setNode c { child with inQueue := true }
    g.verifyQueue
    let queue ← queuePushFront g.queue (some c)
    let g := { g with queue := queue }
    g.verifyQueue
    .ok g
  else .ok g

/-- The part of `graph_wait_ready` before its `async_switch`.  Its last peek is not checked. -/
def graphBlock (g : Graph) (h : Handle) : Except Fault (Graph × Handle × Nat × Handle) := do
  g.verifyQueue
  let (queue, front) ← queuePopFront g.queue
  let g := { g with queue := queue }
  g.verifyQueue
  let (n, node) ← g.queuedNode front
  let g := g.setNode n { node with inQueue := false }
  let found ← hashMapFind g.handleToNode h.idx sizeofInt
  match found with
  | none => .error .notRegistered
  | some hashNode => do
    let entry ← load g.handleToNode.nodes hashNode
    match entry.val with
    | none => .error .nullDeref
    | some c => do
      let child ← load g.nodes c
      require (child.parent = none) .alreadyAwaited
      require (child.h.idx = h.idx) .childMismatch
      require (child.h.idx ≠ 0) .nodeDead
      let child := { child with parent := some n }
      let g ← queueChild (g.setNode c child) c child
      let next ← g.nextFront
      .ok (g, node.h, c, next)

/-- `graph_wait_ready` up to its `async_switch`. -/
def graphWaitReady (s : Runtime Graph F V) (h : Handle) :
    Except Fault (Runtime Graph F V × Control F V) := do
  let (g, parent, child, next) ← graphBlock s.sched h
  asyncSwitch { s with sched := g } parent next (.graphWaitReady parent child h)

/-- `graph_wait_ready` after its `async_switch`. -/
def graphWaitResume (s : Runtime Graph F V) (parent : Handle) (child : Nat) :
    Except Fault Unit := do
  let current ← graphCurrentTask s.sched
  require (current.idx = parent.idx) .resumedNotCurrent
  let child ← load s.sched.nodes child
  let state ← @pollState F V Graph ops s child.h
  require (state = .ready) .awaitedNotReady

/-- `vtable`. -/
@[reducible] def vtable : SchedulerVTable Graph where
  toSchedulerOps := ops
  waitReady := graphWaitReady
  waitResume := graphWaitResume

/-- One call of the running task, in this build. -/
def step (s : Runtime Graph F V) (op : Op F V) : Except Fault (Outcome Graph F V) :=
  @CAsync.step Graph F V vtable s op

/-- A call that ends with some task running on. -/
def Next (s : Runtime Graph F V) (op : Op F V × Reply F V) (t : Runtime Graph F V) : Prop :=
  @CAsync.Next Graph F V vtable s op t

theorem Next.unique {s t t' : Runtime Graph F V} {op : Op F V × Reply F V} (h : Next s op t)
    (h' : Next s op t') : t = t' := @CAsync.Next.unique Graph F V vtable s t t' op h h'

/-- The state in which `main_fn` starts. -/
def Start (s : Runtime Graph F V) : Prop := @CAsync.Start Graph F V vtable s

end CAsync.Debug
