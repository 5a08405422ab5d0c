/-
# When the checks of the `DEBUG` build pass

`g.Lists l`: the queue of `g` is flat, and holds the nodes `l`, which are distinct, marked as
queued and not freed.  Then `verify_queue` accepts it.  From such a state each entry of the
`DEBUG` vtable is in lockstep with the entry of the other one and leads to such a state again, with
two exceptions: a push into the last cell when the queue cannot grow, and the return to a task that
was freed while it waited.
-/
import CAsync.DebugBuild
import CAsync.Lib.Instrumented

namespace CAsync

open Faulting RingQueue HashMap

/-- The queue of `g` is flat and holds the nodes `l`, each of them once, marked as queued and
live. -/
structure Graph.Lists (g : Graph) (l : List Nat) : Prop where
  holds : g.queue.Holds (l.map some)
  nodup : l.Nodup
  flat : g.queue.start ≤ g.queue.end_
  queued : ∀ r ∈ l, ∃ node, g.nodes[r]? = some node ∧ node.inQueue = true ∧ node.h.idx ≠ 0

/-- The same for some nodes, with the end of the queue at `n` in a memory of `cap` cells. -/
def Graph.FlatAt (n cap : Nat) (g : Graph) : Prop :=
  (∃ l, g.Lists l) ∧ g.queue.end_ = n ∧ g.queue.cap = cap

namespace Graph.Lists

variable {g : Graph} {l : List Nat} {r : Nat} {node : Node} {q : RingQueue (Option Nat)}

/-! ## 1. The parts of an entry -/

theorem verify (h : g.Lists l) : g.verifyQueue = .ok () :=
  Graph.verifyQueue_flat h.holds h.nodup h.flat h.queued

theorem queuedNode (hn : g.nodes[r]? = some node) (hq : node.inQueue = true)
    (hidx : node.h.idx ≠ 0) : g.queuedNode (some r) = .ok (r, node) := by
  unfold Graph.queuedNode
  dsimp only
  rw [load_eq hn, ok_bind, require_of hq, ok_bind, require_of hidx, ok_bind]

/-- A node that is not marked is not in the queue. -/
theorem not_mem (h : g.Lists l) (hn : g.nodes[r]? = some node) (hq : node.inQueue = false) :
    r ∉ l := by
  intro hmem
  obtain ⟨node', hn', hq', -⟩ := h.queued r hmem
  rw [hn] at hn'
  cases hn'
  rw [hq] at hq'
  cases hq'

/-- A node is overwritten. -/
theorem setNode (h : g.Lists l) (node : Node)
    (hx : r ∈ l → node.inQueue = true ∧ node.h.idx ≠ 0) : (g.setNode r node).Lists l := by
  refine ⟨h.holds, h.nodup, h.flat, fun s hs => ?_⟩
  obtain ⟨node', hn, hmarks⟩ := h.queued s hs
  unfold Graph.setNode
  dsimp only
  by_cases hrs : r = s
  · subst hrs
    exact ⟨node, List.getElem?_set_self (List.getElem?_eq_some_iff.mp hn).1, hx hs⟩
  · exact ⟨node', by rw [List.getElem?_set_ne hrs, hn], hmarks⟩

/-- The front node is taken out. -/
theorem pop (h : g.Lists (r :: l)) : ∃ q node, queuePopFront g.queue = .ok (q, some r) ∧
    ({ g with queue := q } : Graph).Lists l ∧ g.nodes[r]? = some node ∧ node.inQueue = true ∧
    node.h.idx ≠ 0 ∧ r ∉ l ∧ q.start ≠ 0 ∧ q.end_ = g.queue.end_ ∧ q.cap = g.queue.cap := by
  have hholds := h.holds
  rw [List.map_cons] at hholds
  obtain ⟨q, hok, hq⟩ := hholds.popFront
  obtain ⟨hstart, hflat, hend, hcap⟩ := hholds.popFront_flat h.flat hok
  obtain ⟨node, hn, hqueued, hidx⟩ := h.queued r List.mem_cons_self
  obtain ⟨hr, hnd⟩ := List.nodup_cons.mp h.nodup
  exact ⟨q, node, hok, ⟨hq, hnd, hflat, fun s hs => h.queued s (List.mem_cons_of_mem _ hs)⟩, hn,
    hqueued, hidx, hr, by omega, hend, hcap⟩

theorem pop_nil (h : g.Lists []) : queuePopFront g.queue = .error .queueUnderflow :=
  Holds.popFront_nil h.holds

/-- A marked node is pushed to the front, behind a pop. -/
theorem pushFront (h : g.Lists l) (hr : r ∉ l) (hn : g.nodes[r]? = some node)
    (hq : node.inQueue = true) (hidx : node.h.idx ≠ 0) (hs : g.queue.start ≠ 0) :
    ∃ q, queuePushFront g.queue (some r) = .ok q ∧ ({ g with queue := q } : Graph).Lists (r :: l) ∧
      q.end_ = g.queue.end_ ∧ q.cap = g.queue.cap := by
  obtain ⟨q, hok, hholds⟩ := h.holds.pushFront (some r)
  obtain ⟨hflat, hend, hcap⟩ := h.holds.pushFront_flat h.flat hs hok
  refine ⟨q, hok, ⟨hholds, List.nodup_cons.mpr ⟨hr, h.nodup⟩, hflat, fun s hs => ?_⟩, hend, hcap⟩
  rcases List.mem_cons.mp hs with rfl | hs
  · exact ⟨node, hn, hq, hidx⟩
  · exact h.queued s hs

/-- A marked node is pushed to the back: if the ring wraps, `verify_queue` rejects it. -/
theorem pushBack (h : g.Lists l) (hr : r ∉ l) (hn : g.nodes[r]? = some node)
    (hq : node.inQueue = true) (hidx : node.h.idx ≠ 0) :
    ∃ q, queuePushBack g.queue (some r) = .ok q ∧
      (g.queue.Wraps → ({ g with queue := q } : Graph).verifyQueue = .error .verifyQueue) ∧
      (¬ g.queue.Wraps → ({ g with queue := q } : Graph).Lists (l ++ [r]) ∧
        q.end_ = g.queue.end_ + 1 ∧ q.cap = capAfter g.queue.cap g.queue.end_) := by
  obtain ⟨q, hok, hholds⟩ := h.holds.pushBack (some r)
  obtain ⟨hwrap, hflat⟩ := h.holds.pushBack_flat h.flat hok
  refine ⟨q, hok, fun hw => Graph.verifyQueue_wrapped (hwrap hw), fun hw => ?_⟩
  obtain ⟨hstart, hend, hcap⟩ := hflat hw
  refine ⟨⟨by simpa using hholds, ?_, hstart, fun s hs => ?_⟩, hend, hcap⟩
  · refine List.nodup_append.mpr ⟨h.nodup, List.nodup_singleton _, fun s hs t ht => ?_⟩
    rw [List.mem_singleton.mp ht]
    exact fun heq => hr (heq ▸ hs)
  · rcases List.mem_append.mp hs with hs | hs
    · exact h.queued s hs
    · rw [List.mem_singleton.mp hs]
      exact ⟨node, hn, hq, hidx⟩

/-- The two checks around a peek pass. -/
theorem nextFront (h : g.Lists l) : Debug.nextFront g = g.nextFront := by
  unfold Debug.nextFront Graph.nextFront
  simp only [h.verify, ok_bind]

end Graph.Lists

namespace Debug

variable {g : Graph} {n cap : Nat}

/-! ## 2. The entries of the vtable -/

theorem graphCurrentTask_eq (h : g.FlatAt n cap) : graphCurrentTask g = g.graphCurrentTask := by
  obtain ⟨⟨l, hl⟩, -⟩ := h
  exact hl.nextFront

/-- **`graph_register_task`** fails its check exactly if the queue wraps. -/
theorem graphRegisterTask_checked (hg : g.FlatAt n cap) (h : Handle) :
    Instrumented .verifyQueue g.queue.Wraps (Graph.FlatAt (n + 1) (capAfter cap n))
      (graphRegisterTask g h) (g.graphRegisterTask h) := by
  obtain ⟨⟨l, hl⟩, rfl, rfl⟩ := hg
  unfold graphRegisterTask Graph.graphRegisterTask
  refine .require_bind fun hidx => .after fun found _ => ?_
  obtain ⟨m, p⟩ := found
  refine .after fun entry _ => ?_
  cases entry.val with
  | some v => exact .error _
  | none =>
    have hnew : (⟨g.queue, m.setVal p (some g.nodes.length),
        g.nodes ++ [{ parent := none, h := h, inQueue := true }]⟩ : Graph).Lists l := by
      refine ⟨hl.holds, hl.nodup, hl.flat, fun s hs => ?_⟩
      obtain ⟨node, hn, hmarks⟩ := hl.queued s hs
      exact ⟨node, (List.getElem?_append_left (List.getElem?_eq_some_iff.mp hn).1).trans hn,
        hmarks⟩
    have hfresh : g.nodes.length ∉ l := by
      intro hmem
      obtain ⟨node, hn, -⟩ := hl.queued _ hmem
      exact absurd (List.getElem?_eq_some_iff.mp hn).1 (Nat.lt_irrefl _)
    obtain ⟨q, hok, hwrap, hflat⟩ := hnew.pushBack hfresh List.getElem?_concat_length rfl hidx
    simp only [hnew.verify, ok_bind, hok]
    refine ⟨fun hw => ?_, fun hw x hx => ?_, fun hw x hx => ?_⟩
    · rw [(hflat hw).1.verify, ok_bind]
    · cases hx
      obtain ⟨hpushed, hend, hcap⟩ := hflat hw
      exact ⟨⟨_, hpushed⟩, hend, hcap⟩
    · rw [hwrap hw, error_bind]

/-- **`graph_next_task`** fails its check exactly if it pushes into the last cell: the pop before
has made `start` positive. -/
theorem graphNextTask_checked (hg : g.FlatAt n cap) :
    Instrumented .verifyQueue (n + 1 = cap) (fun x => x.1.FlatAt (n + 1) cap)
      (graphNextTask g) g.graphNextTask := by
  obtain ⟨⟨l, hl⟩, rfl, rfl⟩ := hg
  unfold graphNextTask Graph.graphNextTask
  cases l with
  | nil =>
    rw [hl.verify, hl.pop_nil]
    exact .error _
  | cons r l =>
    obtain ⟨q, node, hpop, hl', hn, hqueued, hidx, hr, hstart, hend, hcap⟩ := hl.pop
    obtain ⟨q', hpush, hwrap, hflat⟩ := hl'.pushBack hr hn hqueued hidx
    have hnode := Graph.Lists.queuedNode (g := { g with queue := q }) hn hqueued hidx
    have hwraps : q.Wraps ↔ g.queue.end_ + 1 = g.queue.cap := by
      unfold Wraps
      rw [hend, hcap]
      exact and_iff_left hstart
    simp only [hl.verify, hpop, ok_bind, hl'.verify, hnode, hpush]
    refine Instrumented.congr (w := q.Wraps) ?_ hwraps
    by_cases hw : q.Wraps
    · rw [hwrap hw]
      exact ⟨fun h => absurd hw h, fun h => absurd hw h, fun _ _ _ => rfl⟩
    · obtain ⟨hpushed, hend', hcap'⟩ := hflat hw
      have hcap'' : q'.cap = g.queue.cap := by
        obtain ⟨hlen, hroom, -⟩ := hl.holds.flat hl.flat
        rw [List.length_map, List.length_cons] at hlen
        rw [hwraps] at hw
        rw [hcap', hcap, hend]
        exact if_pos (by omega)
      simp only [hpushed.verify, ok_bind]
      refine Instrumented.congr (w := False) (.same fun x hx => ?_) ⟨False.elim, hw⟩
      obtain ⟨next, -, hx⟩ := bind_eq_ok.mp hx
      cases next with
      | none => cases hx
      | some next =>
        obtain ⟨_, -, hx⟩ := bind_eq_ok.mp hx
        obtain ⟨_, -, hx⟩ := bind_eq_ok.mp hx
        cases hx
        exact ⟨⟨_, hpushed⟩, hend'.trans (congrArg (· + 1) hend), hcap''⟩

/-- `if (!child->in_queue) ...` fails no check. -/
theorem queueChild_checked {l : List Nat} {c : Nat} {child : Node} (hg : g.Lists l)
    (hstart : g.queue.start ≠ 0) (hc : g.nodes[c]? = some child) (hidx : child.h.idx ≠ 0) :
    Instrumented .verifyQueue False (Graph.FlatAt g.queue.end_ g.queue.cap) (queueChild g c child)
      (g.queueChild c child) := by
  unfold queueChild Graph.queueChild
  by_cases hq : child.inQueue = false
  swap
  · rw [if_neg hq, if_neg hq]
    exact .ok ⟨⟨_, hg⟩, rfl, rfl⟩
  have hcl := hg.not_mem hc hq
  have hset := hg.setNode { child with inQueue := true } fun hmem => absurd hmem hcl
  have hnew : (g.setNode c { child with inQueue := true }).nodes[c]? =
      some { child with inQueue := true } :=
    List.getElem?_set_self (List.getElem?_eq_some_iff.mp hc).1
  obtain ⟨q, hpush, hpushed, hend, hcap⟩ := hset.pushFront hcl hnew rfl hidx hstart
  rw [if_pos hq, if_pos hq]
  simp only [hset.verify, hpush, ok_bind, hpushed.verify]
  exact .ok ⟨⟨_, hpushed⟩, hend, hcap⟩

/-- **The first half of `graph_wait_ready`** fails no check. -/
theorem graphBlock_checked (hg : g.FlatAt n cap) (h : Handle) :
    Instrumented .verifyQueue False (fun x => x.1.FlatAt n cap) (graphBlock g h)
      (g.graphBlock h) := by
  obtain ⟨⟨l, hl⟩, rfl, rfl⟩ := hg
  unfold graphBlock Graph.graphBlock
  cases l with
  | nil =>
    rw [hl.verify, hl.pop_nil]
    exact .error _
  | cons r l =>
    obtain ⟨q, node, hpop, hl', hn, hqueued, hidx, hr, hstart, hend, hcap⟩ := hl.pop
    have hnode := Graph.Lists.queuedNode (g := { g with queue := q }) hn hqueued hidx
    have hoff := hl'.setNode (r := r) { node with inQueue := false }
      fun hmem => absurd hmem hr
    simp only [hl.verify, hpop, ok_bind, hl'.verify, hnode]
    refine .after fun found _ => ?_
    cases found with
    | none => exact .error _
    | some e =>
      refine .after fun entry _ => ?_
      cases entry.val with
      | none => exact .error _
      | some c =>
        refine .after fun child hchild => .require_bind fun _ => .require_bind fun _ =>
          .require_bind fun hlive => ?_
        rw [load_eq_ok] at hchild
        have hparent := hoff.setNode (r := c) { child with parent := some r } fun hmem => by
          obtain ⟨child', hc, hmarks⟩ := hoff.queued c hmem
          rw [hchild] at hc
          cases hc
          exact hmarks
        refine .first (queueChild_checked hparent hstart
          (List.getElem?_set_self (List.getElem?_eq_some_iff.mp hchild).1) hlive) fun g' hg' => ?_
        refine .after fun next _ => .ok ?_
        exact ⟨hg'.1, hg'.2.1.trans hend, hg'.2.2.trans hcap⟩

end Debug

/-- The task that awaits the task at the front of the queue has not been freed. -/
def Graph.WaiterLive (g : Graph) : Prop :=
  ∀ r node p waiter, g.queue.elems[g.queue.start]? = some (some r) → g.nodes[r]? = some node →
    node.parent = some p → g.nodes[p]? = some waiter → waiter.h.idx ≠ 0

namespace Debug

variable {g : Graph} {n cap : Nat}

/-- The end of `graph_finish_task`. -/
theorem nextFront_checked (hg : g.FlatAt n cap) (finished : Handle) :
    Instrumented .verifyQueue False (fun x : Graph × Handle × Handle => x.1.FlatAt n cap)
      (do
        let next ← nextFront g
        .ok (g, finished, next))
      (do
        let next ← g.nextFront
        .ok (g, finished, next)) := by
  obtain ⟨l, hl⟩ := hg.1
  rw [hl.nextFront]
  exact .after fun _ _ => .ok hg

/-- **`graph_finish_task`** fails no check, unless the task to wake up has been freed. -/
theorem graphFinishTask_checked (hg : g.FlatAt n cap) (hlive : g.WaiterLive) :
    Instrumented .verifyQueue False (fun x => x.1.FlatAt n cap) (graphFinishTask g)
      g.graphFinishTask := by
  obtain ⟨⟨l, hl⟩, rfl, rfl⟩ := hg
  unfold graphFinishTask Graph.graphFinishTask
  cases l with
  | nil =>
    rw [hl.verify, hl.pop_nil]
    exact .error _
  | cons r l =>
    obtain ⟨q, node, hpop, hl', hn, hqueued, hidx, hr, hstart, hend, hcap⟩ := hl.pop
    have hnode := Graph.Lists.queuedNode (g := { g with queue := q }) hn hqueued hidx
    have hoff := hl'.setNode (r := r) { node with inQueue := false }
      fun hmem => absurd hmem hr
    have hoff' : Graph.FlatAt g.queue.end_ g.queue.cap
        (({ g with queue := q } : Graph).setNode r { node with inQueue := false }) :=
      ⟨⟨l, hoff⟩, hend, hcap⟩
    simp only [hl.verify, hpop, ok_bind, hl'.verify, hnode]
    cases hp : node.parent with
    | none =>
      rw [hp] at hoff'
      exact nextFront_checked hoff' node.h
    | some p =>
      rw [hp] at hoff hoff'
      refine .after fun waiter hwaiter => ?_
      rw [load_eq_ok] at hwaiter
      by_cases hq : waiter.inQueue = false
      swap
      · rw [if_neg hq, if_neg hq]
        exact nextFront_checked hoff' node.h
      have hwl := hoff.not_mem hwaiter hq
      have hwlive : waiter.h.idx ≠ 0 := by
        have hlen := (List.getElem?_eq_some_iff.mp hn).1
        unfold Graph.setNode at hwaiter
        by_cases hpr : p = r
        · subst hpr
          rw [List.getElem?_set_self hlen] at hwaiter
          cases hwaiter
          exact hidx
        · rw [List.getElem?_set_ne (Ne.symm hpr)] at hwaiter
          exact hlive r node p waiter (Holds.front (l := l.map some) hl.holds) hn hp hwaiter
      have hset := hoff.setNode { waiter with inQueue := true }
        fun hmem => absurd hmem hwl
      obtain ⟨q', hpush, hpushed, hend', hcap'⟩ := hset.pushFront hwl
        (List.getElem?_set_self (List.getElem?_eq_some_iff.mp hwaiter).1) rfl hwlive hstart
      rw [if_pos hq, if_pos hq]
      simp only [hset.verify, hpush, ok_bind, hpushed.verify]
      exact .ok ⟨⟨_, hpushed⟩, hend'.trans hend, hcap'.trans hcap⟩

/-- `graph_free_task` leaves the queue as it is. -/
theorem graphFreeTask_flatAt {g' : Graph} {h : Handle} (hg : g.FlatAt n cap)
    (hok : g.graphFreeTask h = .ok g') : g'.FlatAt n cap := by
  obtain ⟨⟨l, hl⟩, rfl, rfl⟩ := hg
  unfold Graph.graphFreeTask at hok
  obtain ⟨⟨m, found⟩, -, hok⟩ := bind_eq_ok.mp hok
  cases found with
  | none => cases hok
  | some p =>
    obtain ⟨entry, -, hok⟩ := bind_eq_ok.mp hok
    cases hval : entry.val with
    | none =>
      rw [hval] at hok
      cases hok
    | some r =>
      rw [hval] at hok
      obtain ⟨node, hn, hok⟩ := bind_eq_ok.mp hok
      obtain ⟨_, hq, hok⟩ := bind_eq_ok.mp hok
      obtain ⟨_, -, hok⟩ := bind_eq_ok.mp hok
      cases hok
      rw [load_eq_ok] at hn
      rw [require_eq_ok] at hq
      have hmap : ({ g with handleToNode := m } : Graph).Lists l :=
        ⟨hl.holds, hl.nodup, hl.flat, hl.queued⟩
      exact ⟨⟨l, hmap.setNode _ fun hmem => absurd hmem (hl.not_mem hn hq)⟩, rfl, rfl⟩

end Debug
end CAsync
