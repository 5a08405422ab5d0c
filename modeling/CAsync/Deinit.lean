/-
# What is freed when the process exits

`async_return` of `main` calls `async_deinit`, which lets the scheduler free its data.  The graph
scheduler frees the nodes that are in its map.  Nothing is freed before that: `graph_free_task`
drops the node of the task, and `hash_map_remove` the entry.  So in every run what `async_deinit`
frees is two blocks for each task that is not freed, each block once, and two more were allocated
for each other task that there has been (`exit_frees`).
-/
import CAsync.Consistency
import CAsync.FreeList
import CAsync.HashMap.Recycling

namespace CAsync

open Faulting TaskPool HashMap

variable {F V : Type}

/-! ## 1. The code -/

namespace Graph

/-- `graph_hash_node_deinit` on these entries: the pointers that it frees. -/
def hashNodesDeinit (m : HashMap Nat Nat) : List Nat → Except Fault (List (Option Nat))
  | [] => .ok []
  | e :: entries => do
    let entry ← load m.nodes e
    let vals ← hashNodesDeinit m entries
    .ok (entry.val :: vals)

/-- `graph_cleanup`: the pointers that the callback frees, and the entries of the map. -/
def graphCleanup (g : Graph) : Except Fault (List (Option Nat) × List Nat) := do
  let (stored, freed) ← hashMapDeinit g.handleToNode
  let vals ← hashNodesDeinit g.handleToNode stored
  .ok (vals, freed)

end Graph

/-! ## 2. What a call does to the scheduler's data -/

/-- The entries of the vtable that a call makes. -/
def Op.Moves (g g' : Graph) : Op F V → Prop
  | .call _ _ => ∃ h, g.graphRegisterTask h = .ok g'
  | .skip => ∃ next, g.graphNextTask = .ok (g', next)
  | .await h => ∃ x, g.graphBlock h = .ok (g', x)
  | .ret _ => ∃ g₁ f next, g.graphFinishTask = .ok (g₁, f, next) ∧
      (g' = g₁ ∨ g₁.graphFreeTask f = .ok g')
  | .free h => g.graphFreeTask h = .ok g'
  | .orphan _ => g' = g
  | .poll _ => g' = g

section

variable {s t : Runtime Graph F V} {h : Handle} {r : Reply F V}

theorem freeTask_sched (hok : freeTask s h = .ok t) : s.sched.graphFreeTask h = .ok t.sched := by
  unfold freeTask at hok
  obtain ⟨_, -, hok⟩ := bind_eq_ok.mp hok
  obtain ⟨sched, hfree, hok⟩ := bind_eq_ok.mp hok
  obtain ⟨u, -, hok⟩ := bind_eq_ok.mp hok
  cases hok
  exact hfree

theorem skip_sched (hok : skip s = .ok (.next t r)) :
    ∃ next, s.sched.graphNextTask = .ok (t.sched, next) := by
  unfold skip asyncSkip at hok
  obtain ⟨⟨u, control⟩, hskip, hok⟩ := bind_eq_ok.mp hok
  obtain ⟨reply, -, hok⟩ := bind_eq_ok.mp hok
  cases hok
  obtain ⟨current, -, hskip⟩ := bind_eq_ok.mp hskip
  obtain ⟨⟨sched, next⟩, hnext, hskip⟩ := bind_eq_ok.mp hskip
  obtain ⟨v, -, hskip⟩ := bind_eq_ok.mp hskip
  refine ⟨next, ?_⟩
  split at hskip
  · rw [asyncSwitch_sched hskip]
    exact hnext
  · cases hskip
    exact hnext

theorem await_sched (hok : await s h = .ok (.next t r)) :
    ∃ x, s.sched.graphBlock h = .ok (t.sched, x) := by
  unfold await at hok
  obtain ⟨⟨u, control⟩, hwait, hok⟩ := bind_eq_ok.mp hok
  have hu : u = t := by
    cases control with
    | returned =>
      obtain ⟨v, -, hok⟩ := bind_eq_ok.mp hok
      cases hok
      rfl
    | entered fn data =>
      obtain ⟨v, -, hok⟩ := bind_eq_ok.mp hok
      cases hok
      rfl
    | resumed frame =>
      obtain ⟨v, -, hok⟩ := bind_eq_ok.mp hok
      cases hok
      rfl
  subst hu
  have hwait : Graph.graphWaitReady s h = .ok (u, control) := hwait
  obtain ⟨⟨g, parent, c, next⟩, hblock, hswitch⟩ := bind_eq_ok.mp hwait
  rw [asyncSwitch_sched hswitch]
  exact ⟨_, hblock⟩

theorem return_sched {data : V} (hok : asyncReturn s data = .ok (.next t r)) :
    ∃ g₁ f next, s.sched.graphFinishTask = .ok (g₁, f, next) ∧
      (t.sched = g₁ ∨ g₁.graphFreeTask f = .ok t.sched) := by
  unfold asyncReturn at hok
  obtain ⟨returning, hready, hok⟩ := bind_eq_ok.mp hok
  cases returning with
  | exit data => cases hok
  | ready u f next =>
    obtain ⟨v, hfree, hok⟩ := bind_eq_ok.mp hok
    obtain ⟨⟨w, control⟩, hswitch, hok⟩ := bind_eq_ok.mp hok
    obtain ⟨reply, -, hok⟩ := bind_eq_ok.mp hok
    cases hok
    unfold asyncReturnReady at hready
    obtain ⟨current, -, hready⟩ := bind_eq_ok.mp hready
    split at hready
    · cases hready
    obtain ⟨⟨g₁, i, j⟩, hfinish, hready⟩ := bind_eq_ok.mp hready
    dsimp only at hready
    split at hready
    · cases hready
    obtain ⟨x, -, hready⟩ := bind_eq_ok.mp hready
    cases hready
    refine ⟨g₁, f, next, hfinish, ?_⟩
    rw [asyncSwitch_sched hswitch]
    unfold freeOrphan at hfree
    obtain ⟨y, -, hfree⟩ := bind_eq_ok.mp hfree
    split at hfree
    · exact .inr (freeTask_sched hfree)
    · cases hfree
      exact .inl rfl

/-- **Every call.** -/
theorem Next.moves {op : Op F V} (hst : Next s (op, r) t) : op.Moves s.sched t.sched := by
  have hstep : step s op = .ok (.next t r) := hst
  cases op with
  | call fn arg =>
    unfold step asyncCall startNewTask at hstep
    obtain ⟨⟨u, i⟩, hcall, hstep⟩ := bind_eq_ok.mp hstep
    obtain ⟨⟨pool, j⟩, -, hcall⟩ := bind_eq_ok.mp hcall
    obtain ⟨sched, hregister, hcall⟩ := bind_eq_ok.mp hcall
    cases hcall
    cases hstep
    exact ⟨_, hregister⟩
  | skip => exact skip_sched hstep
  | await h => exact await_sched hstep
  | ret data => exact return_sched hstep
  | orphan h =>
    unfold step asyncOrphan at hstep
    obtain ⟨u, horphan, hstep⟩ := bind_eq_ok.mp hstep
    obtain ⟨v, -, horphan⟩ := bind_eq_ok.mp horphan
    cases horphan
    cases hstep
    rfl
  | free h =>
    unfold step asyncFree at hstep
    obtain ⟨u, hfree, hstep⟩ := bind_eq_ok.mp hstep
    cases hstep
    exact freeTask_sched hfree
  | poll h =>
    unfold step at hstep
    obtain ⟨st, -, hstep⟩ := bind_eq_ok.mp hstep
    cases hstep
    rfl

end

/-! ## 3. What is allocated -/

/-- The call creates a task. -/
def Op.creates : Op F V → Bool
  | .call _ _ => true
  | _ => false

/-- `n` nodes have been allocated, and as many entries of the map. -/
structure Accounts (g : Graph) (n : Nat) : Prop where
  linked : ∃ L, Linked g.handleToNode L
  entries : g.handleToNode.nodes.length = n
  nodes : g.nodes.length = n

namespace Accounts

variable {g g' : Graph} {a : TaskGraph} {n : Nat} {h : Handle}

theorem zero : Accounts Graph.zero 0 where
  linked := ⟨_, Linked.zero _ _⟩
  entries := rfl
  nodes := rfl

theorem congr (hg : Accounts g n) (hmap : g'.handleToNode = g.handleToNode)
    (hlen : g'.nodes.length = g.nodes.length) : Accounts g' n where
  linked := by
    rw [hmap]
    exact hg.linked
  entries := by
    rw [hmap]
    exact hg.entries
  nodes := hlen.trans hg.nodes

/-- **A new entry is allocated**, as `hash_map_remove` has never given one back. -/
theorem insert_length {m m' : HashMap Nat Nat} {f : Nat → Option Nat} {L : Nat → List Nat}
    {k e size : Nat} (hm : m.MapsTo size f) (hl : Linked m L) (hk : f k = none)
    (hok : hashMapInsert m k size = .ok (m', e)) : m'.nodes.length = m.nodes.length + 1 := by
  obtain ⟨L₁, e₁, m₁, hinsert, hl₁, hst₁⟩ : ∃ L₁ e₁ m₁, hashMapInsert m k size = .ok (m₁, e₁) ∧
      Linked m₁ L₁ ∧ ∀ p, Stored L₁ p ↔ Stored L p ∨
        (m.nodes.length ≤ p ∧ p < m₁.nodes.length) := by
    obtain ⟨m₁, L₁, e₁, h⟩ := hl.insert k size
    exact ⟨L₁, e₁, m₁, h⟩
  obtain ⟨L₀, ht, hL, -⟩ := hm.table
  obtain rfl := hl.chained.unique ht.chained
  obtain ⟨m₂, L₂, x, n, hinsert', ht₂, hx, hst₂, -⟩ :=
    ht.insert_absent hm.lawful (MapsTo.no_entry hm.eq_iff hL hk)
  rw [hok] at hinsert hinsert'
  cases hinsert
  cases hinsert'
  obtain rfl := hl₁.chained.unique ht₂.chained
  have halloc : ∀ {p}, Stored L p → p < m.nodes.length := fun ⟨_, hp⟩ => hl.chained.alloc hp
  have hnew : m.nodes.length ≤ e ∧ e < m'.nodes.length :=
    ((hst₁ e).mp ((hst₂ e).mpr (.inr rfl))).resolve_left hx
  have honly : ∀ p, m.nodes.length ≤ p → p < m'.nodes.length → p = e := by
    intro p hle hlt
    refine ((hst₂ p).mp ((hst₁ p).mpr (.inr ⟨hle, hlt⟩))).resolve_left fun hp => ?_
    exact absurd (halloc hp) (Nat.not_lt.mpr hle)
  have hfirst := honly m.nodes.length (Nat.le_refl _) (by omega)
  have hlast := honly (m'.nodes.length - 1) (by omega) (by omega)
  omega

/-- **`graph_register_task`** allocates a node, and the map an entry for it. -/
theorem register (hg : Accounts g n) (hr : TaskGraph.Represents g a)
    (hok : g.graphRegisterTask h = .ok g') : Accounts g' (n + 1) := by
  obtain ⟨L, hl⟩ := hg.linked
  obtain ⟨m, L', e, hinsert, hl', hst⟩ := hl.insert h.idx sizeofInt
  unfold Graph.graphRegisterTask at hok
  obtain ⟨_, -, hok⟩ := bind_eq_ok.mp hok
  rw [hinsert, ok_bind] at hok
  dsimp only at hok
  obtain ⟨entry, hentry, hok⟩ := bind_eq_ok.mp hok
  cases hval : entry.val with
  | some v =>
    rw [hval] at hok
    cases hok
  | none =>
    rw [hval] at hok
    obtain ⟨queue, -, hok⟩ := bind_eq_ok.mp hok
    cases hok
    have hnew : m.nodes.length = g.handleToNode.nodes.length + 1 := by
      cases hn : a.nodeOf h.idx with
      | none => exact insert_length hr.map hl hn hinsert
      | some r =>
        -- an entry that is there has its node
        obtain ⟨m', e', entry', hinsert', hentry', hval'⟩ := hr.map.insert_some hn
        rw [hinsert] at hinsert'
        cases hinsert'
        rw [load_eq hentry'] at hentry
        cases hentry
        rw [hval] at hval'
        cases hval'
    refine ⟨⟨L', hl'.setVal _ _⟩, ?_, ?_⟩
    · rw [← hg.entries, ← hnew]
      exact List.length_modify _ _ _
    · rw [← hg.nodes]
      exact List.length_append

/-- **`graph_free_task`** frees nothing. -/
theorem free (hg : Accounts g n) (hok : g.graphFreeTask h = .ok g') : Accounts g' n := by
  obtain ⟨L, hl⟩ := hg.linked
  unfold Graph.graphFreeTask at hok
  rcases hl.remove h.idx sizeofInt with ⟨-, hremove⟩ | ⟨-, m, L', x, hremove, hl', hlen, -⟩
  · rw [hremove, ok_bind] at hok
    cases hok
  · rw [hremove, ok_bind] at hok
    dsimp only at hok
    obtain ⟨entry, -, hok⟩ := bind_eq_ok.mp hok
    split at hok
    · cases hok
    · obtain ⟨node, -, hok⟩ := bind_eq_ok.mp hok
      obtain ⟨_, -, hok⟩ := bind_eq_ok.mp hok
      obtain ⟨_, -, hok⟩ := bind_eq_ok.mp hok
      cases hok
      exact ⟨⟨L', hl'⟩, hlen.trans hg.entries, (List.length_set).trans hg.nodes⟩

theorem finish {f next : Handle} (hg : Accounts g n)
    (hok : g.graphFinishTask = .ok (g', f, next)) : Accounts g' n := by
  unfold Graph.graphFinishTask at hok
  obtain ⟨⟨queue, front⟩, -, hok⟩ := bind_eq_ok.mp hok
  obtain ⟨⟨c, node⟩, -, hok⟩ := bind_eq_ok.mp hok
  dsimp only at hok
  split at hok
  · obtain ⟨i, -, hok⟩ := bind_eq_ok.mp hok
    cases hok
    exact hg.congr rfl List.length_set
  · obtain ⟨parent, -, hok⟩ := bind_eq_ok.mp hok
    split at hok
    · obtain ⟨queue', -, hok⟩ := bind_eq_ok.mp hok
      cases hok
      exact hg.congr rfl (List.length_set.trans List.length_set)
    · obtain ⟨i, -, hok⟩ := bind_eq_ok.mp hok
      cases hok
      exact hg.congr rfl List.length_set

theorem next {i : Handle} (hg : Accounts g n) (hok : g.graphNextTask = .ok (g', i)) :
    Accounts g' n := by
  unfold Graph.graphNextTask at hok
  obtain ⟨⟨queue, front⟩, -, hok⟩ := bind_eq_ok.mp hok
  obtain ⟨⟨c, node⟩, -, hok⟩ := bind_eq_ok.mp hok
  obtain ⟨queue', -, hok⟩ := bind_eq_ok.mp hok
  obtain ⟨front', -, hok⟩ := bind_eq_ok.mp hok
  split at hok
  · cases hok
  · obtain ⟨node', -, hok⟩ := bind_eq_ok.mp hok
    obtain ⟨_, -, hok⟩ := bind_eq_ok.mp hok
    cases hok
    exact hg.congr rfl rfl

theorem block {x : Handle × Nat × Handle} (hg : Accounts g n) (hok : g.graphBlock h = .ok (g', x)) :
    Accounts g' n := by
  unfold Graph.graphBlock at hok
  obtain ⟨⟨queue, front⟩, -, hok⟩ := bind_eq_ok.mp hok
  obtain ⟨⟨c, node⟩, -, hok⟩ := bind_eq_ok.mp hok
  obtain ⟨found, -, hok⟩ := bind_eq_ok.mp hok
  split at hok
  · cases hok
  · obtain ⟨entry, -, hok⟩ := bind_eq_ok.mp hok
    split at hok
    · cases hok
    · obtain ⟨child, -, hok⟩ := bind_eq_ok.mp hok
      obtain ⟨_, -, hok⟩ := bind_eq_ok.mp hok
      obtain ⟨_, -, hok⟩ := bind_eq_ok.mp hok
      obtain ⟨_, -, hok⟩ := bind_eq_ok.mp hok
      obtain ⟨g₁, hqueue, hok⟩ := bind_eq_ok.mp hok
      obtain ⟨i, -, hok⟩ := bind_eq_ok.mp hok
      cases hok
      unfold Graph.queueChild at hqueue
      split at hqueue
      · obtain ⟨queue', -, hqueue⟩ := bind_eq_ok.mp hqueue
        cases hqueue
        exact hg.congr rfl (List.length_set.trans (List.length_set.trans List.length_set))
      · cases hqueue
        exact hg.congr rfl (List.length_set.trans List.length_set)

/-- **Every call.** -/
theorem moves (hg : Accounts g n) (hr : TaskGraph.Represents g a) {op : Op F V}
    (hop : op.Moves g g') : Accounts g' (n + if op.creates then 1 else 0) := by
  cases op with
  | call fn arg =>
    obtain ⟨h, hok⟩ := hop
    exact hg.register hr hok
  | skip =>
    obtain ⟨i, hok⟩ := hop
    exact hg.next hok
  | await h =>
    obtain ⟨x, hok⟩ := hop
    exact hg.block hok
  | ret data =>
    obtain ⟨g₁, f, i, hok, rfl | hfree⟩ := hop
    · exact hg.finish hok
    · exact (hg.finish hok).free hfree
  | free h => exact hg.free hop
  | orphan h =>
    obtain rfl : g' = g := hop
    exact hg
  | poll h =>
    obtain rfl : g' = g := hop
    exact hg

end Accounts

/-- **Every run**: a node and an entry for each task that has been created. -/
theorem Reached.accounts {l : List (Op F V × Reply F V)} {s : Runtime Graph F V}
    (hs : Reached l s) : Accounts s.sched (l.countP (fun x => x.1.creates) + 1) := by
  obtain ⟨s₀, h₀, hrun⟩ := hs
  refine hrun.history (P := fun l s => Accounts s.sched (l.countP (fun x => x.1.creates) + 1)) ?_ ?_
  · obtain ⟨mainFn, arg, hmain⟩ := h₀
    unfold runAsyncMain asyncCall startNewTask at hmain
    obtain ⟨⟨u, i⟩, hcall, hmain⟩ := bind_eq_ok.mp hmain
    obtain ⟨⟨pool, j⟩, -, hcall⟩ := bind_eq_ok.mp hcall
    obtain ⟨sched, hregister, hcall⟩ := bind_eq_ok.mp hcall
    cases hcall
    obtain ⟨_, -, hmain⟩ := bind_eq_ok.mp hmain
    obtain ⟨⟨v, control⟩, hswitch, hmain⟩ := bind_eq_ok.mp hmain
    obtain ⟨reply, -, hmain⟩ := bind_eq_ok.mp hmain
    cases hmain
    rw [asyncSwitch_sched hswitch]
    exact Accounts.zero.register TaskGraph.Represents.zero hregister
  · rintro l s ⟨op, r⟩ t hrun hacc hst
    obtain ⟨a, -, -, hsa⟩ := Reached.model ⟨s₀, h₀, hrun⟩
    have hnext := hacc.moves hsa.sched hst.moves
    rw [List.countP_append, List.countP_singleton, Nat.add_right_comm]
    exact hnext

/-! ## 4. What is freed -/

/-- The handles of the slots. -/
def TaskPool.handles (p : TaskPool F V) : List Handle := (List.range p.len).map fun i => ⟨i + 1⟩

theorem TaskPool.mem_handles {p : TaskPool F V} {h : Handle} :
    h ∈ p.handles ↔ (p.slot h).isSome := by
  rw [slot_isSome]
  unfold TaskPool.handles
  rw [List.mem_map]
  constructor
  · rintro ⟨i, hi, rfl⟩
    exact ⟨Nat.succ_pos i, List.mem_range.mp hi⟩
  · rintro ⟨hpos, hle⟩
    exact ⟨h.idx - 1, List.mem_range.mpr (by omega), Handle.eq_of_idx (by dsimp only; omega)⟩

theorem TaskPool.handles_nodup (p : TaskPool F V) : p.handles.Nodup := by
  unfold TaskPool.handles
  refine List.nodup_range.map fun i j hij => ?_
  simpa using hij

theorem TaskPool.handles_slot (p : TaskPool F V) :
    p.handles.map p.slot = p.tasks.map some := by
  unfold TaskPool.handles
  refine List.ext_getElem (by simp [TaskPool.len]) fun i hi _ => ?_
  simp only [List.length_map, List.length_range, TaskPool.len] at hi
  simp [slot, hi]

/-- **The number of live tasks** is the length of a list of them. -/
theorem TaskPool.live_eq_length {p : TaskPool F V} {l : List Handle} (hnd : l.Nodup)
    (hl : ∀ h, h ∈ l ↔ ∃ t, p.slot h = some t ∧ t.state ≠ .free) : p.live = l.length := by
  let live : Handle → Bool := fun h => (p.slot h).any fun t => t.state ≠ .free
  have hcount : p.live = p.handles.countP live := by
    have hmap : p.handles.countP live =
        (p.handles.map p.slot).countP fun x => x.any fun t => t.state ≠ .free := by
      rw [List.countP_map]
      rfl
    rw [hmap, p.handles_slot, List.countP_map]
    rfl
  have hperm : (p.handles.filter live).Perm l := by
    refine (List.perm_ext_iff_of_nodup (p.handles_nodup.filter _) hnd).mpr fun h => ?_
    rw [hl, List.mem_filter, mem_handles]
    dsimp only [live]
    cases p.slot h with
    | none => simp
    | some t => simp
  rw [hcount, List.countP_eq_length_filter, hperm.length_eq]

/-- The callback on entries that all have a node. -/
theorem Graph.hashNodesDeinit_eq {m : HashMap Nat Nat} {val : Nat → Nat} {entries : List Nat}
    (h : ∀ e ∈ entries, ∃ entry, m.nodes[e]? = some entry ∧ entry.val = some (val e)) :
    Graph.hashNodesDeinit m entries = .ok ((entries.map val).map some) := by
  induction entries with
  | nil => rfl
  | cons e entries ih =>
    obtain ⟨entry, hentry, hval⟩ := h e List.mem_cons_self
    rw [Graph.hashNodesDeinit, load_eq hentry, ok_bind,
      ih fun e he => h e (List.mem_cons_of_mem _ he), ok_bind, hval]
    rfl

/-- **`hash_map_deinit`** comes to one entry for each key of the map. -/
theorem entries_of_keys {m : HashMap Nat Nat} {f : Nat → Option Nat} {L : Nat → List Nat}
    {size : Nat}
    (hm : m.MapsTo size f) (hl : Linked m L) : ∃ (stored : List Nat) (key val : Nat → Nat),
      hashMapDeinit m = .ok (stored, stored) ∧ stored.Nodup ∧ (stored.map key).Nodup ∧
      (∀ k, k ∈ stored.map key ↔ (f k).isSome) ∧ ∀ e ∈ stored, f (key e) = some (val e) ∧
        ∃ entry, m.nodes[e]? = some entry ∧ entry.val = some (val e) := by
  obtain ⟨L', ht, hL, hall⟩ := hm.table
  obtain rfl := hl.chained.unique ht.chained
  obtain ⟨stored, hdeinit, hnd, hmem⟩ := hl.deinit
  let key : Nat → Nat := fun e => ((m.nodes[e]?).map HashNode.key).getD 0
  let val : Nat → Nat := fun e => ((m.nodes[e]?).bind HashNode.val).getD 0
  have hentry : ∀ e ∈ stored, ∃ entry, m.nodes[e]? = some entry ∧ entry.keySize = size ∧
      entry.key = key e ∧ entry.val = some (val e) ∧ f (key e) = some (val e) := by
    intro e he
    obtain ⟨c, hc⟩ := (hmem e).mp he
    obtain ⟨entry, hentry⟩ := ht.chained.node hc
    obtain ⟨hsize, hsome, hf⟩ := hL e entry ⟨c, hc⟩ hentry
    obtain ⟨v, hv⟩ := Option.isSome_iff_exists.mp hsome
    have hkey : key e = entry.key := by
      dsimp only [key]
      rw [hentry]
      rfl
    have hval : val e = v := by
      dsimp only [val]
      rw [hentry, Option.bind_some, hv]
      rfl
    rw [hkey, hval]
    exact ⟨entry, hentry, hsize, rfl, hv, hf.trans hv⟩
  refine ⟨stored, key, val, hdeinit, hnd, hnd.map_on fun e he e' he' heq => ?_, fun k => ?_,
    fun e he => ?_⟩
  · obtain ⟨entry, h₁, hsize, hkey, -⟩ := hentry e he
    obtain ⟨entry', h₁', hsize', hkey', -⟩ := hentry e' he'
    refine ht.single ((hmem e).mp he) ((hmem e').mp he') h₁ h₁' (hsize'.trans hsize.symm) ?_
    rw [hm.eq_iff, hkey, hkey', heq]
  · rw [List.mem_map]
    constructor
    · rintro ⟨e, he, rfl⟩
      obtain ⟨entry, -, -, -, -, hf⟩ := hentry e he
      rw [hf]
      rfl
    · intro hk
      obtain ⟨e, entry, hst, hn, rfl⟩ := hall k hk
      refine ⟨e, (hmem e).mpr hst, ?_⟩
      dsimp only [key]
      rw [hn]
      rfl
  · obtain ⟨entry, h₁, -, -, hv, hf⟩ := hentry e he
    exact ⟨hf, entry, h₁, hv⟩

/-- **What `async_deinit` frees**, in every state that any program can reach: the nodes of the tasks
that are not freed, and as many entries of the map, each of them once.  But a node and an entry have
been allocated for each task that has been created, so those of the other tasks are lost. -/
theorem exit_frees {l : List (Op F V × Reply F V)} {s : Runtime Graph F V} (hs : Reached l s) :
    ∃ nodes entries : List Nat, s.sched.graphCleanup = .ok (nodes.map some, entries) ∧
      nodes.Nodup ∧ entries.Nodup ∧ nodes.length = s.pool.live ∧ entries.length = s.pool.live ∧
      (∀ n, n ∈ nodes ↔ ∃ i, s.sched.Stores i n) ∧
      s.sched.nodes.length = l.countP (fun x => x.1.creates) + 1 ∧
      s.sched.handleToNode.nodes.length = l.countP (fun x => x.1.creates) + 1 := by
  obtain ⟨a, -, ha, hsa⟩ := hs.model
  have hr := hsa.sched
  obtain ⟨⟨L, hl⟩, hentries, hnodes⟩ := hs.accounts
  obtain ⟨stored, key, val, hdeinit, hnd, hkeys, hmem, hval⟩ := entries_of_keys hr.map hl
  -- one live task for each key
  have hlive : s.pool.live = stored.length := by
    have hhandles : (stored.map fun e => (⟨key e⟩ : Handle)).Nodup := by
      have hmap := hkeys.map (f := Handle.mk) fun i j hij => by cases hij; rfl
      rwa [List.map_map] at hmap
    rw [hsa.pool, live_eq_length hhandles, List.length_map]
    intro h
    rw [← ha.nodeOf_isSome, ← hmem, List.mem_map, List.mem_map]
    exact exists_congr fun e => and_congr_right fun _ =>
      ⟨fun heq => by rw [← heq], fun heq => Handle.eq_of_idx heq⟩
  refine ⟨stored.map val, stored, ?_, hnd.map_on fun e he e' he' heq => ?_, hnd, ?_, hlive.symm,
    fun n => ?_, hnodes, hentries⟩
  · unfold Graph.graphCleanup
    rw [hdeinit, ok_bind]
    dsimp only
    rw [Graph.hashNodesDeinit_eq fun e he => (hval e he).2, ok_bind]
  · -- two tasks do not share a node
    have hnode := (hval e he).1
    rw [heq] at hnode
    have hsame : (⟨key e⟩ : Handle) = ⟨key e'⟩ := ha.graph.node_inj hnode (hval e' he').1
    exact List.inj_on_of_nodup_map hkeys he he' (congrArg Handle.idx hsame)
  · rw [List.length_map, hlive]
  · rw [List.mem_map]
    constructor
    · rintro ⟨e, he, rfl⟩
      exact ⟨key e, hr.stores.mpr (hval e he).1⟩
    · rintro ⟨i, hi⟩
      have hnode := hr.stores.mp hi
      obtain ⟨e, he, rfl⟩ := List.mem_map.mp ((hmem i).mpr (by rw [hnode]; rfl))
      rw [(hval e he).1] at hnode
      exact ⟨e, he, Option.some.inj hnode⟩

/-- `main` calls a task that is freed when it returns. -/
theorem exit_frees_orphan : ∃ (s : Runtime Graph Nat Nat) (nodes entries : List Nat),
    s.sched.graphCleanup = .ok (nodes.map some, entries) ∧ nodes.length = s.pool.live ∧
      s.sched.nodes.length = 2 := by
  obtain ⟨nodes, entries, hok, -, -, hlen, -, -, hnodes, -⟩ := exit_frees (F := Nat) (V := Nat)
    (l := [(.call 7 0, .handle ⟨2⟩), (.orphan ⟨2⟩, .done), (.skip, .start 7 0), (.ret 5, .skip)])
    ⟨_, ⟨0, 0, rfl⟩, .cons rfl (.cons rfl (.cons rfl (.cons rfl (.refl _))))⟩
  exact ⟨_, nodes, entries, hok, hlen, hnodes⟩

end CAsync
