/-
# The graph scheduler without its data structures

`TaskGraph` is what the graph scheduler is about: a run queue of nodes, and for each node the
handle of its task (0 once the task was freed) and the node of the task that awaits it.  Its
operations are those of `graph_scheduler.c` on a plain list and plain functions; a node's
`in_queue` flag is membership in the queue.

Section 2 proves that the code is this model: `Represents g a` relates the two, and every entry
of the vtable keeps it, in lockstep down to the assertion that fails.
-/
import CAsync.GraphScheduler
import CAsync.HashMap.Table

namespace CAsync

open Faulting RingQueue HashMap

/-- The data of the graph scheduler, abstractly.  Nodes are numbered in the order of their
creation, and the next one is `fresh`. -/
structure TaskGraph where
  queue : List Nat
  nodeOf : Nat → Option Nat
  parent : Nat → Option Nat
  handle : Nat → Nat
  fresh : Nat

namespace TaskGraph

variable {F V : Type}

/-! ## 1. The operations -/

def zero : TaskGraph :=
  { queue := [], nodeOf := fun _ => none, parent := fun _ => none, handle := fun _ => 0,
    fresh := 0 }

/-- The handle of the node at the front of a queue. -/
def front (a : TaskGraph) : List Nat → Except Fault Handle
  | [] => .error .queueUnderflow
  | r :: _ => do
    require (a.handle r ≠ 0) .nodeDead
    .ok ⟨a.handle r⟩

def registerTask (a : TaskGraph) (h : Handle) : Except Fault TaskGraph := do
  require (h.idx ≠ 0) .registerNull
  match a.nodeOf h.idx with
  | some _ => .error .nullDeref
  | none =>
    .ok { queue := a.queue ++ [a.fresh], nodeOf := Function.update a.nodeOf h.idx (some a.fresh),
          parent := Function.update a.parent a.fresh none,
          handle := Function.update a.handle a.fresh h.idx, fresh := a.fresh + 1 }

/-- The front task ends.  If a task awaits it that is not queued, it goes to the front. -/
def finishTask (a : TaskGraph) : Except Fault (TaskGraph × Handle × Handle) :=
  match a.queue with
  | [] => .error .queueUnderflow
  | c :: rest => do
    require (a.handle c ≠ 0) .nodeDead
    match a.parent c with
    | none => do
      let next ← a.front rest
      .ok ({ a with queue := rest }, ⟨a.handle c⟩, next)
    | some p =>
      if p ∉ rest then .ok ({ a with queue := p :: rest }, ⟨a.handle c⟩, ⟨a.handle p⟩)
      else do
        let next ← a.front rest
        .ok ({ a with queue := rest }, ⟨a.handle c⟩, next)

def freeTask (a : TaskGraph) (h : Handle) : Except Fault TaskGraph :=
  match a.nodeOf h.idx with
  | none => .error .notRegistered
  | some r => do
    require (r ∉ a.queue) .stillQueued
    require (a.handle r ≠ 0) .nodeDead
    .ok { a with nodeOf := Function.update a.nodeOf h.idx none,
                 handle := Function.update a.handle r 0 }

def pollTask (_ : TaskGraph) {F V : Type} (p : TaskPool F V) (h : Handle) :
    Except Fault State := do
  require (h.idx ≠ 0) .pollNull
  let t ← load p.tasks (h.idx - 1)
  .ok t.state

/-- The front task goes to the back. -/
def nextTask (a : TaskGraph) : Except Fault (TaskGraph × Handle) :=
  match a.queue with
  | [] => .error .queueUnderflow
  | c :: rest => do
    require (a.handle c ≠ 0) .nodeDead
    .ok ({ a with queue := rest ++ [c] }, ⟨a.handle ((rest ++ [c]).headD c)⟩)

/-- The front task leaves the queue and becomes the parent of the child it awaits, which is
put at the front if it is not queued. -/
def block (a : TaskGraph) (h : Handle) : Except Fault (TaskGraph × Handle × Nat × Handle) :=
  match a.queue with
  | [] => .error .queueUnderflow
  | p :: rest => do
    require (a.handle p ≠ 0) .nodeDead
    match a.nodeOf h.idx with
    | none => .error .notRegistered
    | some c => do
      require (a.parent c = none) .alreadyAwaited
      require (a.handle c = h.idx) .childMismatch
      require (a.handle c ≠ 0) .nodeDead
      let queue := if c ∈ rest then rest else c :: rest
      let next ← a.front queue
      .ok ({ a with queue := queue, parent := Function.update a.parent c (some p) },
        ⟨a.handle p⟩, c, next)

instance : SchedulerOps TaskGraph where
  zeroed := zero
  registerTask := registerTask
  finishTask := finishTask
  freeTask := freeTask
  pollTask := pollTask
  currentTask := fun a => a.front a.queue
  nextTask := nextTask

def waitReady (s : Runtime TaskGraph F V) (h : Handle) :
    Except Fault (Runtime TaskGraph F V × Control F V) := do
  let (a, parent, child, next) ← s.sched.block h
  asyncSwitch { s with sched := a } parent next (.graphWaitReady parent child h)

def waitResume (s : Runtime TaskGraph F V) (parent : Handle) (child : Nat) :
    Except Fault Unit := do
  let current ← s.sched.front s.sched.queue
  require (current.idx = parent.idx) .resumedNotCurrent
  if child < s.sched.fresh then do
    let state ← pollState s ⟨s.sched.handle child⟩
    require (state = .ready) .awaitedNotReady
  else .error .outOfBounds

instance : SchedulerVTable TaskGraph where
  waitReady := waitReady
  waitResume := waitResume

/-! ## 2. The code refines the model -/

/-- The nodes in memory: parents and handles as in `a`, and the flag `in_queue` set on the
members of `q`. -/
structure Marks (nodes : List Node) (a : TaskGraph) (q : List Nat) : Prop where
  length_eq : nodes.length = a.fresh
  node : ∀ {r}, r < a.fresh →
    nodes[r]? = some { parent := a.parent r, h := ⟨a.handle r⟩, inQueue := decide (r ∈ q) }

/-- The graph `g` of the code represents `a`. -/
structure Represents (g : Graph) (a : TaskGraph) : Prop where
  queue : g.queue.Holds (a.queue.map some)
  nodup : a.queue.Nodup
  map : g.handleToNode.MapsTo sizeofInt a.nodeOf
  marks : Marks g.nodes a a.queue
  queue_lt : ∀ {r}, r ∈ a.queue → r < a.fresh
  parent_lt : ∀ {r p}, a.parent r = some p → p < a.fresh
  nodeOf_lt : ∀ {i r}, a.nodeOf i = some r → r < a.fresh

/-- Overwriting one node. -/
theorem Marks.set {nodes : List Node} {a a' : TaskGraph} {q q' : List Nat} {r : Nat} {node : Node}
    (hm : Marks nodes a q) (hr : r < a.fresh) (hfresh : a'.fresh = a.fresh)
    (hnode : node = { parent := a'.parent r, h := ⟨a'.handle r⟩, inQueue := decide (r ∈ q') })
    (hother : ∀ s, s ≠ r → a'.parent s = a.parent s ∧ a'.handle s = a.handle s ∧
      (s ∈ q' ↔ s ∈ q)) : Marks (nodes.set r node) a' q' where
  length_eq := by rw [List.length_set, hm.length_eq, hfresh]
  node := by
    intro s hs
    rw [hfresh] at hs
    by_cases hsr : r = s
    · subst hsr
      rw [List.getElem?_set_self (by rw [hm.length_eq]; exact hr), hnode]
    · obtain ⟨h1, h2, h3⟩ := hother s (Ne.symm hsr)
      rw [List.getElem?_set_ne hsr, hm.node hs, h1, h2]
      simp only [h3]

/-- A node marked as queued passes the assertions, up to the one on its handle. -/
theorem queuedNode_eq {g : Graph} {r : Nat} {node : Node} (hn : g.nodes[r]? = some node)
    (hq : node.inQueue = true) : g.queuedNode (some r) = (do
      require (node.h.idx ≠ 0) .nodeDead
      .ok (r, node)) := by
  simp only [Graph.queuedNode, load_eq hn, ok_bind, require_of hq]

/-- Reading the front of the queue, with its assertions. -/
theorem nextFront_eq {g : Graph} {a : TaskGraph} {q : List Nat} (hq : g.queue.Holds (q.map some))
    (hm : Marks g.nodes a q) (hlt : ∀ {r}, r ∈ q → r < a.fresh) : g.nextFront = a.front q := by
  unfold Graph.nextFront
  cases q with
  | nil => rw [hq.peekFront_nil, error_bind, front]
  | cons r q =>
    have hn := hm.node (hlt List.mem_cons_self)
    rw [hq.peekFront, ok_bind, queuedNode_eq hn (by simp), front]
    by_cases hh : a.handle r ≠ 0
    · simp only [require_of hh, ok_bind]
    · simp only [require_of_not hh, error_bind]

namespace Represents

variable {g : Graph} {a : TaskGraph}

theorem zero : Represents Graph.zero TaskGraph.zero where
  queue := zero_holds
  nodup := List.nodup_nil
  map := MapsTo.zero (by
    intro a b _
    unfold intEqlFn
    omega)
  marks := ⟨rfl, fun hr => absurd hr (Nat.not_lt_zero _)⟩
  queue_lt := fun hr => absurd hr List.not_mem_nil
  parent_lt := fun hp => by simp [TaskGraph.zero] at hp
  nodeOf_lt := fun hr => by simp [TaskGraph.zero] at hr

theorem currentTask (hr : Represents g a) : g.graphCurrentTask = a.front a.queue :=
  nextFront_eq hr.queue hr.marks hr.queue_lt

/-- **`graph_register_task`.** -/
theorem registerTask (hr : Represents g a) (h : Handle) :
    Lockstep Represents (g.graphRegisterTask h) (a.registerTask h) := by
  unfold Graph.graphRegisterTask TaskGraph.registerTask
  refine Lockstep.require_bind Iff.rfl fun _ => ?_
  cases hn : a.nodeOf h.idx with
  | some r =>
    obtain ⟨m, p, n, hok, hp, hval⟩ := hr.map.insert_some hn
    simp only [hok, ok_bind, load_eq hp, hval]
    exact .error _
  | none =>
    obtain ⟨m, p, n, hok, hp, hval, hset⟩ := hr.map.insert_none hn
    obtain ⟨q, hpush, hq⟩ := hr.queue.pushBack (some g.nodes.length)
    simp only [hok, ok_bind, load_eq hp, hval, hpush]
    have hlen := hr.marks.length_eq
    have hfresh : ∀ {r}, r ∈ a.queue → r ≠ a.fresh := fun hmem => Nat.ne_of_lt (hr.queue_lt hmem)
    refine .ok ⟨?_, ?_, ?_, ⟨?_, ?_⟩, ?_, ?_, ?_⟩
    · rw [hlen] at hq
      simpa using hq
    · refine List.nodup_append.mpr ⟨hr.nodup, List.nodup_singleton _, fun r hmem s hs => ?_⟩
      rw [List.mem_singleton.mp hs]
      exact hfresh hmem
    · rw [← hlen]
      exact hset _
    · simp [hlen]
    · intro r hlt
      simp only at hlt ⊢
      by_cases hra : r = a.fresh
      · subst hra
        rw [← hlen, List.getElem?_concat_length]
        simp
      · rw [List.getElem?_append_left (by omega), hr.marks.node (by omega),
          Function.update_of_ne hra, Function.update_of_ne hra]
        simp [hra]
    · intro r hmem
      rcases List.mem_append.mp hmem with hmem | hmem
      · exact Nat.lt_succ_of_lt (hr.queue_lt hmem)
      · rw [List.mem_singleton.mp hmem]
        exact Nat.lt_succ_self _
    · intro r p hp
      by_cases hra : r = a.fresh
      · subst hra
        simp at hp
      · simp only [Function.update_of_ne hra] at hp
        exact Nat.lt_succ_of_lt (hr.parent_lt hp)
    · intro i r hi
      by_cases hih : i = h.idx
      · subst hih
        simp only [Function.update_self, Option.some.injEq] at hi
        rw [← hi]
        exact Nat.lt_succ_self _
      · simp only [Function.update_of_ne hih] at hi
        exact Nat.lt_succ_of_lt (hr.nodeOf_lt hi)

/-- **`graph_free_task`.** -/
theorem freeTask (hr : Represents g a) (h : Handle) :
    Lockstep Represents (g.graphFreeTask h) (a.freeTask h) := by
  unfold Graph.graphFreeTask TaskGraph.freeTask
  cases hn : a.nodeOf h.idx with
  | none =>
    rw [hr.map.remove_none hn]
    exact .error _
  | some r =>
    obtain ⟨m, p, n, hok, hp, hval, hm⟩ := hr.map.remove_some hn
    have hlt := hr.nodeOf_lt hn
    simp only [hok, ok_bind, load_eq hp, hval, load_eq (hr.marks.node hlt)]
    refine Lockstep.require_bind (by simp) fun hq => ?_
    have hq' : r ∉ a.queue := by simpa using hq
    refine Lockstep.require_bind Iff.rfl fun _ => ?_
    refine .ok ⟨hr.queue, hr.nodup, hm, ?_, hr.queue_lt, hr.parent_lt, ?_⟩
    · refine hr.marks.set hlt rfl ?_ fun s hs => ⟨rfl, Function.update_of_ne hs _ _, Iff.rfl⟩
      simp [hq']
    · intro i s hi
      by_cases hih : i = h.idx
      · subst hih
        simp at hi
      · simp only [Function.update_of_ne hih] at hi
        exact hr.nodeOf_lt hi

/-- The front node taken out of the queue and unmarked. -/
theorem popped (hr : Represents g a) {c : Nat} {rest : List Nat} (hq : a.queue = c :: rest) :
    ∃ q, queuePopFront g.queue = .ok (q, some c) ∧ q.Holds (rest.map some) ∧ c ∉ rest ∧
      c < a.fresh ∧
      g.nodes[c]? = some { parent := a.parent c, h := ⟨a.handle c⟩, inQueue := true } ∧
      Marks (g.nodes.set c { parent := a.parent c, h := ⟨a.handle c⟩, inQueue := false }) a
        rest := by
  have hqueue := hr.queue
  rw [hq, List.map_cons] at hqueue
  obtain ⟨q, hpop, hh⟩ := hqueue.popFront
  have hnd := hr.nodup
  rw [hq] at hnd
  have hc : c ∉ rest := (List.nodup_cons.mp hnd).1
  have hlt : c < a.fresh := hr.queue_lt (by rw [hq]; exact List.mem_cons_self)
  refine ⟨q, hpop, hh, hc, hlt, ?_, ?_⟩
  · rw [hr.marks.node hlt]
    simp [hq]
  · refine hr.marks.set hlt rfl (by simp [hc]) fun s hs => ⟨rfl, rfl, ?_⟩
    rw [hq, List.mem_cons]
    simp [hs]

/-- **`graph_finish_task`.** -/
theorem finishTask (hr : Represents g a) :
    Lockstep (fun x y => Represents x.1 y.1 ∧ x.2 = y.2) g.graphFinishTask a.finishTask := by
  unfold Graph.graphFinishTask TaskGraph.finishTask
  cases hq : a.queue with
  | nil =>
    have hqueue := hr.queue
    rw [hq, List.map_nil] at hqueue
    rw [hqueue.popFront_nil]
    exact .error _
  | cons c rest =>
    obtain ⟨q, hpop, hh, hc, hlt, hn, hm⟩ := hr.popped hq
    have hnd := hr.nodup
    rw [hq, List.nodup_cons] at hnd
    have hrest : ∀ {r}, r ∈ rest → r < a.fresh :=
      fun hmem => hr.queue_lt (by rw [hq]; exact List.mem_cons_of_mem _ hmem)
    have hsame : Represents { g with
        queue := q,
        nodes := g.nodes.set c { parent := a.parent c, h := ⟨a.handle c⟩, inQueue := false } }
        { a with queue := rest } :=
      ⟨hh, hnd.2, hr.map, ⟨hm.length_eq, hm.node⟩, hrest, hr.parent_lt, hr.nodeOf_lt⟩
    rw [hpop, ok_bind]
    dsimp only
    rw [queuedNode_eq (by exact hn) rfl]
    by_cases hdead : a.handle c ≠ 0
    swap
    · simp only [require_of_not hdead, error_bind]
      exact .error _
    simp only [require_of hdead, ok_bind, Graph.setNode]
    -- the end of both sides when no parent is woken
    have hfront : Lockstep (fun x y => Represents x.1 y.1 ∧ x.2 = y.2)
        (do
          let next ← Graph.nextFront { g with
            queue := q,
            nodes := g.nodes.set c { parent := a.parent c, h := ⟨a.handle c⟩, inQueue := false } }
          Except.ok (({ g with
            queue := q,
            nodes := g.nodes.set c { parent := a.parent c, h := ⟨a.handle c⟩, inQueue := false } } :
              Graph), (⟨a.handle c⟩ : Handle), next))
        (do
          let next ← a.front rest
          .ok (({ a with queue := rest } : TaskGraph), (⟨a.handle c⟩ : Handle), next)) := by
      rw [nextFront_eq hh hm hrest]
      cases a.front rest with
      | error e => exact .error e
      | ok next => exact .ok ⟨hsame, rfl⟩
    cases hp : a.parent c with
    | none =>
      rw [hp] at hfront
      exact hfront
    | some p =>
      have hplt := hr.parent_lt hp
      have hpn := hm.node hplt
      rw [hp] at hpn hm hfront
      dsimp only
      rw [load_eq hpn, ok_bind]
      by_cases hpr : p ∈ rest
      · rw [if_neg (by simp [hpr]), if_neg (by simp [hpr])]
        exact hfront
      · obtain ⟨q', hpush, hh'⟩ := hh.pushFront (some p)
        rw [if_pos (by simp [hpr]), if_pos hpr, hpush, ok_bind]
        refine .ok ⟨⟨hh', List.nodup_cons.mpr ⟨hpr, hnd.2⟩, hr.map, ?_, ?_, hr.parent_lt,
          hr.nodeOf_lt⟩, rfl⟩
        · refine hm.set hplt rfl (by simp) fun s hs => ⟨rfl, rfl, ?_⟩
          rw [List.mem_cons]
          simp [hs]
        · intro r hmem
          rcases List.mem_cons.mp hmem with rfl | hmem
          · exact hplt
          · exact hrest hmem

/-- **`graph_next_task`.** -/
theorem nextTask (hr : Represents g a) :
    Lockstep (fun x y => Represents x.1 y.1 ∧ x.2 = y.2) g.graphNextTask a.nextTask := by
  unfold Graph.graphNextTask TaskGraph.nextTask
  cases hq : a.queue with
  | nil =>
    have hqueue := hr.queue
    rw [hq, List.map_nil] at hqueue
    rw [hqueue.popFront_nil]
    exact .error _
  | cons c rest =>
    obtain ⟨q, hpop, hh, hc, hlt, hn, -⟩ := hr.popped hq
    have hnd := hr.nodup
    rw [hq, List.nodup_cons] at hnd
    rw [hpop, ok_bind]
    dsimp only
    rw [queuedNode_eq (by exact hn) rfl]
    by_cases hdead : a.handle c ≠ 0
    swap
    · simp only [require_of_not hdead, error_bind]
      exact .error _
    obtain ⟨q', hpush, hh'⟩ := hh.pushBack (some c)
    simp only [require_of hdead, ok_bind, hpush]
    have hperm : ∀ {r}, r ∈ rest ++ [c] ↔ r ∈ a.queue := by
      intro r
      rw [hq]
      simp [or_comm]
    have hnew : Represents { g with queue := q' } { a with queue := rest ++ [c] } := by
      refine ⟨by simpa using hh', ?_, hr.map, ⟨hr.marks.length_eq, fun hlt => ?_⟩, ?_,
        hr.parent_lt, hr.nodeOf_lt⟩
      · exact List.nodup_append.mpr ⟨hnd.2, List.nodup_singleton _, fun r hmem s hs => by
          rw [List.mem_singleton.mp hs]
          rintro rfl
          exact hc hmem⟩
      · rw [hr.marks.node hlt]
        simp only [hperm]
      · exact fun hmem => hr.queue_lt (hperm.mp hmem)
    obtain ⟨f, tail, hf⟩ : ∃ f tail, rest ++ [c] = f :: tail := by
      cases rest with
      | nil => exact ⟨c, [], rfl⟩
      | cons r rest => exact ⟨r, rest ++ [c], rfl⟩
    have hqueue := hnew.queue
    have hfn := hnew.marks.node (hnew.queue_lt (by rw [hf]; exact List.mem_cons_self))
    rw [hf, List.map_cons] at hqueue
    rw [hf, hqueue.peekFront, ok_bind]
    dsimp only at hfn ⊢
    rw [load_eq hfn, ok_bind, require_of (by simp [hf]), ok_bind]
    rw [hf] at hnew
    exact .ok ⟨hnew, rfl⟩

/-- **The first half of `graph_wait_ready`.** -/
theorem block (hr : Represents g a) (h : Handle) :
    Lockstep (fun x y => Represents x.1 y.1 ∧ x.2 = y.2) (g.graphBlock h) (a.block h) := by
  unfold Graph.graphBlock TaskGraph.block
  cases hq : a.queue with
  | nil =>
    have hqueue := hr.queue
    rw [hq, List.map_nil] at hqueue
    rw [hqueue.popFront_nil]
    exact .error _
  | cons p rest =>
    obtain ⟨q, hpop, hh, hc, hlt, hn, hm⟩ := hr.popped hq
    have hnd := hr.nodup
    rw [hq, List.nodup_cons] at hnd
    have hrest : ∀ {r}, r ∈ rest → r < a.fresh :=
      fun hmem => hr.queue_lt (by rw [hq]; exact List.mem_cons_of_mem _ hmem)
    rw [hpop, ok_bind]
    dsimp only
    rw [queuedNode_eq (by exact hn) rfl]
    by_cases hdead : a.handle p ≠ 0
    swap
    · simp only [require_of_not hdead, error_bind]
      exact .error _
    simp only [require_of hdead, ok_bind, Graph.setNode]
    cases hi : a.nodeOf h.idx with
    | none =>
      rw [hr.map.find_none hi]
      exact .error _
    | some c =>
      obtain ⟨e, n, hfind, he, hval⟩ := hr.map.find_some hi
      have hclt := hr.nodeOf_lt hi
      have hcn := hm.node hclt
      simp only [hfind, ok_bind, load_eq he, hval, load_eq hcn]
      refine Lockstep.require_bind Iff.rfl fun _ => ?_
      refine Lockstep.require_bind Iff.rfl fun _ => ?_
      refine Lockstep.require_bind Iff.rfl fun _ => ?_
      let a' : TaskGraph := { a with parent := Function.update a.parent c (some p) }
      have hparent : ∀ {r s}, a'.parent r = some s → s < a.fresh := by
        intro r s hs
        by_cases hrc : r = c
        · subst hrc
          simp only [a', Function.update_self, Option.some.injEq] at hs
          rw [← hs]
          exact hlt
        · simp only [a', Function.update_of_ne hrc] at hs
          exact hr.parent_lt hs
      have hset : ∀ (q' : List Nat) (b : Bool), b = decide (c ∈ q') →
          (∀ s, s ≠ c → (s ∈ q' ↔ s ∈ rest)) →
          Marks ((g.nodes.set p { parent := a.parent p, h := ⟨a.handle p⟩, inQueue := false }).set c
            { parent := some p, h := ⟨a.handle c⟩, inQueue := b }) a' q' := by
        intro q' b hb hs
        refine hm.set hclt rfl (by simp [a', hb]) fun s hsc =>
          ⟨Function.update_of_ne hsc _ _, rfl, hs s hsc⟩
      unfold Graph.queueChild
      by_cases hcr : c ∈ rest
      · have hmarks := hset rest _ rfl fun _ _ => Iff.rfl
        rw [if_neg (by simp [hcr]), if_pos hcr, ok_bind,
          nextFront_eq (a := a') hh hmarks hrest]
        change Lockstep _ (a.front rest >>= _) (a.front rest >>= _)
        cases a.front rest with
        | error e => exact .error e
        | ok next =>
          exact .ok ⟨⟨hh, hnd.2, hr.map, ⟨hmarks.length_eq, hmarks.node⟩, hrest, hparent,
            hr.nodeOf_lt⟩, rfl⟩
      · obtain ⟨q', hpush, hh'⟩ := hh.pushFront (some c)
        have hmarks := hset (c :: rest) true (by simp) fun s hs => by simp [hs]
        have hqlt : ∀ {r}, r ∈ c :: rest → r < a.fresh := by
          intro r hmem
          rcases List.mem_cons.mp hmem with rfl | hmem
          · exact hclt
          · exact hrest hmem
        rw [if_pos (by simp [hcr]), if_neg hcr]
        simp only [Graph.setNode, hpush, ok_bind, List.set_set]
        rw [nextFront_eq (a := a') hh' hmarks hqlt]
        change Lockstep _ (a.front (c :: rest) >>= _) (a.front (c :: rest) >>= _)
        cases a.front (c :: rest) with
        | error e => exact .error e
        | ok next =>
          exact .ok ⟨⟨hh', List.nodup_cons.mpr ⟨hcr, hnd.2⟩, hr.map,
            ⟨hmarks.length_eq, hmarks.node⟩, hqlt, hparent, hr.nodeOf_lt⟩, rfl⟩

end Represents
end TaskGraph
end CAsync
