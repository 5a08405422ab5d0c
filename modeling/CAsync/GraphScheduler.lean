/-
# The graph scheduler (`graph_scheduler.c`)

The scheduler's data is the run queue, a ring of node pointers with the running task at the
front, and the map from handles to nodes.  Nodes live in memory handed out by `calloc`
(`nodes`; an address is an index) and are never released: `graph_free_task` zeroes the handle
of a node and drops the pointer.

`verify_queue` is compiled out unless `DEBUG` is defined, and is left out here; `VerifyQueue` and
`DebugBuild` are about the build that has it.
-/
import CAsync.HashMap
import CAsync.Scheduler
import CAsync.Storage

namespace CAsync

open Faulting RingQueue HashMap

/-- `Node`. -/
structure Node where
  parent : Option Nat
  h : Handle
  inQueue : Bool
  deriving DecidableEq, Repr

/-- `Graph`, with the memory of its nodes.  The elements of the queue are `Node *`. -/
structure Graph where
  queue : RingQueue (Option Nat)
  handleToNode : HashMap Nat Nat
  nodes : List Node

/-- The size of the keys of `handle_to_node`. -/
def sizeofInt : Nat := 4

/-- `int_eql_fn`; every call passes `sizeof(int)`, as it asserts. -/
def intEqlFn (x y : Nat) (_size : Nat) : Int := (x : Int) - y

/-- `int_hash_fn`; every call passes `sizeof(int)`, as it asserts. -/
def intHashFn (x : Nat) (_size : Nat) : Nat := x

namespace Graph

variable {F V : Type}

/-- The static `graph`, after `use_graph_scheduler`. -/
def zero : Graph :=
  { queue := RingQueue.zero, handleToNode := HashMap.zero intEqlFn intHashFn, nodes := [] }

/-- `n->parent = ...`, `n->h = ...` and `n->in_queue = ...`. -/
def setNode (g : Graph) (n : Nat) (node : Node) : Graph := { g with nodes := g.nodes.set n node }

/-- A node taken from the queue: its address and its contents, after the three assertions that
it is not NULL, is marked as queued and has a handle (`graph_wait_ready` makes the last two in
the other order). -/
def queuedNode (g : Graph) (n : Option Nat) : Except Fault (Nat × Node) :=
  match n with
  | none => .error .nodeNull
  | some n => do
    let node ← load g.nodes n
    require (node.inQueue = true) .nodeNotQueued
    require (node.h.idx ≠ 0) .nodeDead
    .ok (n, node)

/-- `graph_register_task`.  The node is allocated only if the entry has none yet; otherwise
`n` stays NULL and the next line dereferences it. -/
def graphRegisterTask (g : Graph) (h : Handle) : Except Fault Graph := do
  require (h.idx ≠ 0) .registerNull
  let (handleToNode, hashNode) ← hashMapInsert g.handleToNode h.idx sizeofInt
  let entry ← load handleToNode.nodes hashNode
  match entry.val with
  | some _ => .error .nullDeref
  | none => do
    let n := g.nodes.length
    let nodes := g.nodes ++ [{ parent := none, h := h, inQueue := true }]
    let queue ← queuePushBack g.queue (some n)
    .ok { queue := queue, handleToNode := handleToNode.setVal hashNode (some n), nodes := nodes }

/-- The end of `graph_finish_task`: the next task is the front of the queue. -/
def nextFront (g : Graph) : Except Fault Handle := do
  let front ← queuePeekFront g.queue
  let (_, node) ← g.queuedNode front
  .ok node.h

/-- `graph_finish_task`: the new data, the finished task and the next one. -/
def graphFinishTask (g : Graph) : Except Fault (Graph × Handle × Handle) := do
  let (queue, front) ← queuePopFront g.queue
  let g := { g with queue := queue }
  let (n, curNode) ← g.queuedNode front
  let g := g.setNode n { curNode with inQueue := false }
  match curNode.parent with
  | none => do
    let next ← g.nextFront
    .ok (g, curNode.h, next)
  | some p => do
    let parent ← load g.nodes p
    if parent.inQueue = false then do
      let g := g.setNode p { parent with inQueue := true }
      let queue ← queuePushFront g.queue (some p)
      .ok ({ g with queue := queue }, curNode.h, parent.h)
    else do
      let next ← g.nextFront
      .ok (g, curNode.h, next)

/-- `graph_free_task`. -/
def graphFreeTask (g : Graph) (h : Handle) : Except Fault Graph := do
  let (handleToNode, hashNode) ← hashMapRemove g.handleToNode h.idx sizeofInt
  match hashNode with
  | none => .error .notRegistered
  | some hashNode => do
    let entry ← load handleToNode.nodes hashNode
    match entry.val with
    | none => .error .nodeNull
    | some n => do
      let node ← load g.nodes n
      require (node.inQueue = false) .stillQueued
      require (node.h.idx ≠ 0) .nodeDead
      let g := { g with handleToNode := handleToNode }
      .ok (g.setNode n { node with h := ⟨0⟩, inQueue := false })

/-- `graph_poll_task`. -/
def graphPollTask (_ : Graph) {F V : Type} (p : TaskPool F V) (h : Handle) :
    Except Fault State := do
  require (h.idx ≠ 0) .pollNull
  let t ← load p.tasks (h.idx - 1)
  .ok t.state

/-- `graph_current_task`. -/
def graphCurrentTask (g : Graph) : Except Fault Handle := do
  let front ← queuePeekFront g.queue
  let (_, node) ← g.queuedNode front
  .ok node.h

/-- `graph_next_task`. -/
def graphNextTask (g : Graph) : Except Fault (Graph × Handle) := do
  let (queue, front) ← queuePopFront g.queue
  let g := { g with queue := queue }
  let (n, _) ← g.queuedNode front
  let queue ← queuePushBack g.queue (some n)
  let g := { g with queue := queue }
  let next ← queuePeekFront g.queue
  match next with
  | none => .error .nodeNull
  | some next => do
    let node ← load g.nodes next
    require (node.inQueue = true) .nodeNotQueued
    .ok (g, node.h)

instance : SchedulerOps Graph where
  zeroed := zero
  registerTask := graphRegisterTask
  finishTask := graphFinishTask
  freeTask := graphFreeTask
  pollTask := graphPollTask
  currentTask := graphCurrentTask
  nextTask := graphNextTask

/-- `if (!child->in_queue) { child->in_queue = true; queue_push_front(&g->queue, child); }`. -/
def queueChild (g : Graph) (c : Nat) (child : Node) : Except Fault Graph :=
  if child.inQueue = false then do
    let g := g.setNode c { child with inQueue := true }
    let queue ← queuePushFront g.queue (some c)
    .ok { g with queue := queue }
  else .ok g

/-- The part of `graph_wait_ready` before its `async_switch`: the new data, the waiting task,
the node of the child and the task to switch to. -/
def graphBlock (g : Graph) (h : Handle) : Except Fault (Graph × Handle × Nat × Handle) := do
  let (queue, front) ← queuePopFront g.queue
  let g := { g with queue := queue }
  let (n, node) ← g.queuedNode front
  let g := g.setNode n { node with inQueue := false }
  let found ← hashMapFind g.handleToNode h.idx sizeofInt
  match found with
  | none => .error .notRegistered
  | some hashNode => do
    let entry ← load g.handleToNode.nodes hashNode
    match entry.val with
    | none => .error .nullDeref
    | some c => do
      let child ← load g.nodes c
      require (child.parent = none) .alreadyAwaited
      require (child.h.idx = h.idx) .childMismatch
      require (child.h.idx ≠ 0) .nodeDead
      let child := { child with parent := some n }
      let g ← (g.setNode c child).queueChild c child
      let next ← g.nextFront
      .ok (g, node.h, c, next)

/-- `graph_wait_ready` up to its `async_switch`. -/
def graphWaitReady (s : Runtime Graph F V) (h : Handle) :
    Except Fault (Runtime Graph F V × Control F V) := do
  let (g, parent, child, next) ← s.sched.graphBlock h
  asyncSwitch { s with sched := g } parent next (.graphWaitReady parent child h)

/-- `graph_wait_ready` after its `async_switch`. -/
def graphWaitResume (s : Runtime Graph F V) (parent : Handle) (child : Nat) :
    Except Fault Unit := do
  let current ← graphCurrentTask s.sched
  require (current.idx = parent.idx) .resumedNotCurrent
  let child ← load s.sched.nodes child
  let state ← pollState s child.h
  require (state = .ready) .awaitedNotReady

instance : SchedulerVTable Graph where
  waitReady := graphWaitReady
  waitResume := graphWaitResume

end Graph
end CAsync
