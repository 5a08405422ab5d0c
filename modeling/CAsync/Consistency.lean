/-
# Pool, map and run queue

In every state of every run the map of the graph scheduler has exactly the handles of the live
tasks as keys, each with its own node, and the run queue holds such nodes only
(`map_consistent`).  So the slot that `async_call` takes is never a key: `hash_map_insert` hands
`graph_register_task` a new entry, whose `val` is NULL, and `async_call` never fails.
-/
import CAsync.Reachable

namespace CAsync

open Faulting TaskPool HashMap RingQueue

variable {F V : Type}

namespace Graph

/-- The map has the key `i`. -/
def HasKey (g : Graph) (i : Nat) : Prop :=
  ∃ e, hashMapFind g.handleToNode i sizeofInt = .ok (some e)

/-- The map has the node at address `n` under the key `i`. -/
def Stores (g : Graph) (i n : Nat) : Prop :=
  ∃ e entry, hashMapFind g.handleToNode i sizeofInt = .ok (some e) ∧
    g.handleToNode.nodes[e]? = some entry ∧ entry.val = some n

/-- The tasks of the nodes in the run queue. -/
def tasks (g : Graph) : List Handle :=
  g.queue.toList.filterMap fun x => (x.bind fun n => g.nodes[n]?).map Node.h

end Graph

namespace TaskGraph.Represents

variable {g : Graph} {a : TaskGraph} {i n : Nat}

theorem hasKey (hr : Represents g a) : g.HasKey i ↔ (a.nodeOf i).isSome := by
  unfold Graph.HasKey
  cases hn : a.nodeOf i with
  | none =>
    rw [hr.map.find_none hn]
    simp
  | some r =>
    obtain ⟨e, entry, hok, -⟩ := hr.map.find_some hn
    rw [hok]
    simp

theorem stores (hr : Represents g a) : g.Stores i n ↔ a.nodeOf i = some n := by
  unfold Graph.Stores
  cases hn : a.nodeOf i with
  | none =>
    rw [hr.map.find_none hn]
    simp
  | some r =>
    obtain ⟨e, entry, hok, he, hval⟩ := hr.map.find_some hn
    constructor
    · rintro ⟨e', entry', hok', he', hval'⟩
      rw [hok] at hok'
      cases hok'
      rw [he] at he'
      cases he'
      rw [← hval, hval']
    · rintro ⟨rfl⟩
      exact ⟨e, entry, hok, he, hval⟩

/-- What the node of a registered task holds. -/
theorem node_of (hr : Represents g a) (ha : a.WellFormed) (hn : a.nodeOf i = some n) :
    g.nodes[n]? = some { parent := a.parent n, h := ⟨i⟩, inQueue := decide (n ∈ a.queue) } := by
  rw [hr.marks.node (hr.nodeOf_lt hn), (ha.node hn).1]

theorem toList_eq (hr : Represents g a) : g.queue.toList = a.queue.map some :=
  hr.queue.toList_eq

theorem tasks_eq (hr : Represents g a) : g.tasks = a.tasks := by
  unfold Graph.tasks TaskGraph.tasks
  rw [hr.toList_eq, List.filterMap_map, ← List.filterMap_eq_map]
  refine List.filterMap_congr fun r hmem => ?_
  simp [hr.marks.node (hr.queue_lt hmem)]

/-- The flag `in_queue` of a node. -/
theorem inQueue_iff (hr : Represents g a) {node : Node} (hn : g.nodes[n]? = some node) :
    node.inQueue = true ↔ some n ∈ g.queue.toList := by
  obtain ⟨hlt, -⟩ := List.getElem?_eq_some_iff.mp hn
  rw [hr.marks.length_eq] at hlt
  rw [hr.marks.node hlt] at hn
  cases hn
  rw [hr.toList_eq]
  simp

end TaskGraph.Represents

/-- **`hash_map_insert` gives a new task a new entry.** -/
theorem insert_new {g : Graph} {a : TaskGraph} (hr : TaskGraph.Represents g a) {i : Nat}
    (hi : a.nodeOf i = none) : ∃ m e entry,
      hashMapInsert g.handleToNode i sizeofInt = .ok (m, e) ∧ m.nodes[e]? = some entry ∧
        entry.val = none := by
  obtain ⟨m, e, entry, hok, he, hval, -⟩ := hr.map.insert_none hi
  exact ⟨m, e, entry, hok, he, hval⟩

/-- **Pool, map and run queue agree.**  In every state of every run: a handle is a key of the map
exactly if its slot is not `FREE`; the node under a key is that task's, and no other key has it;
every node in the run queue is the node under its own handle; and when a task is created, the
entry of the map is new, so that `async_call` does not fail. -/
theorem map_consistent {l : List (Op F V × Reply F V)} {s : Runtime Graph F V}
    (hs : Reached l s) :
    (∀ i, s.sched.HasKey i ↔ ∃ st, s.pool.stateOf ⟨i⟩ = some st ∧ st ≠ .free) ∧
      (∀ i, s.sched.HasKey i → ∃ n node, s.sched.Stores i n ∧ s.sched.nodes[n]? = some node ∧
        node.h.idx = i) ∧
      (∀ i j n, s.sched.Stores i n → s.sched.Stores j n → i = j) ∧
      (∀ x ∈ s.sched.queue.toList, ∃ n node, x = some n ∧ s.sched.nodes[n]? = some node ∧
        s.sched.Stores node.h.idx n) ∧
      (∀ fn arg pool h, allocTask s.pool fn arg = .ok (pool, h) → ∃ m e entry,
        hashMapInsert s.sched.handleToNode h.idx sizeofInt = .ok (m, e) ∧
          m.nodes[e]? = some entry ∧ entry.val = none) ∧
      ∀ fn arg, ∃ h t, Next s (.call fn arg, .handle h) t := by
  obtain ⟨a, -, ha, hsa⟩ := hs.model
  have hr := hsa.sched
  refine ⟨fun i => ?_, fun i hi => ?_, fun i j n hi hj => ?_, fun x hx => ?_,
    fun fn arg pool h halloc => ?_, fun fn arg => ?_⟩
  · rw [hr.hasKey, hsa.pool]
    refine (ha.nodeOf_isSome (h := ⟨i⟩)).trans ⟨?_, ?_⟩
    · rintro ⟨u, hu, hlive⟩
      exact ⟨u.state, stateOf_eq hu, hlive⟩
    · rintro ⟨st, hst, hlive⟩
      obtain ⟨u, hu, rfl⟩ := stateOf_eq_some.mp hst
      exact ⟨u, hu, hlive⟩
  · obtain ⟨n, hn⟩ := Option.isSome_iff_exists.mp (hr.hasKey.mp hi)
    exact ⟨n, _, hr.stores.mpr hn, hr.node_of ha.graph hn, rfl⟩
  · exact congrArg Handle.idx
      (ha.graph.node_inj (h := ⟨i⟩) (i := ⟨j⟩) (hr.stores.mp hi) (hr.stores.mp hj))
  · rw [hr.toList_eq, List.mem_map] at hx
    obtain ⟨n, hn, rfl⟩ := hx
    have hnode := ha.graph.queued hn
    exact ⟨n, _, rfl, hr.node_of ha.graph hnode, hr.stores.mpr hnode⟩
  · obtain ⟨i, b, hok, heff, -⟩ := ha.step_call fn arg
    rw [hsa.pool] at halloc
    unfold step asyncCall startNewTask at hok
    simp only [halloc, ok_bind] at hok
    cases hreg : SchedulerOps.registerTask a.sched h with
    | error e =>
      rw [hreg] at hok
      cases hok
    | ok c =>
      rw [hreg] at hok
      cases hok
      cases heff with
      | call _ _ _ fresh => exact insert_new hr fresh
  · obtain ⟨h, b, hok, -⟩ := ha.step_call fn arg
    have hstep := graphRefines.step hsa (.call fn arg)
    rw [hok] at hstep
    obtain ⟨o, ho, hrel⟩ := hstep.ok_right
    cases hrel with
    | @next t _ _ _ => exact ⟨h, t, ho⟩

/-- `main` calls a task. -/
theorem map_consistent_call : ∃ s : Runtime Graph Nat Nat,
    ∀ i, s.sched.HasKey i ↔ ∃ st, s.pool.stateOf ⟨i⟩ = some st ∧ st ≠ .free :=
  ⟨_, (map_consistent (l := [(.call 7 0, .handle ⟨2⟩)])
    ⟨_, ⟨0, 0, rfl⟩, .cons rfl (.refl _)⟩).1⟩

end CAsync
