/-
# Where the nodes of a hash map are

`Conserved h L F` is what the free list is for: every node ever allocated is in one of the chains
`L` or in the list `F` that starts at `free`, and in one place only.

`hash_map_remove` ends with `n->next = h->free; h->free = n->next`, so `free` never changes, and a
removed node is in no chain and in no list.  `Linked` is the invariant that does hold between
operations, for any two callbacks: it says of `free` that it is NULL.  Section 2 is one operation,
and section 3 every sequence of operations (`recycles_iff`): nodes are conserved until
`hash_map_remove` first finds its key, and never again.
-/
import CAsync.HashMap.Dictionary
import Mathlib.Data.List.Nodup

namespace CAsync
namespace HashMap

open Faulting

variable {K V : Type} {h h' : HashMap K V} {L L' : Nat → List Nat} {F : List Nat}

/-! ## 1. Conservation -/

/-- **Every node is in one place**: in the chain of one cell, or in the list `free`. -/
structure Conserved (h : HashMap K V) (L : Nat → List Nat) (F : List Nat) : Prop where
  chained : Chained h L
  freeList : Links h.nextOf h.free F
  nodeMax : h.nodeMax = h.nodes.length
  place : ∀ p, p < h.nodeMax ↔ Stored L p ∨ p ∈ F
  apart : ∀ p, ¬ (Stored L p ∧ p ∈ F)

/-- Nodes are conserved, `hash_map_deinit` frees each of them once, and `hash_map_insert` allocates
only if no node is free. -/
def Recycles [Inhabited K] (h : HashMap K V) : Prop :=
  ∃ L F, Conserved h L F ∧
    (∃ stored freed, hashMapDeinit h = .ok (stored, freed) ∧ freed.Perm (List.range h.nodeMax)) ∧
    ∀ key keySize h' n, hashMapInsert h key keySize = .ok (h', n) → h'.nodeMax ≠ h.nodeMax → F = []

/-- What holds of a map between operations, whatever its callbacks are. -/
structure Linked (h : HashMap K V) (L : Nat → List Nat) : Prop where
  chained : Chained h L
  cells_length : h.cells.length = h.cap
  free : h.free = none
  nodeMax : h.nodeMax = h.nodes.length
  cap_le : h.cap * 5 ≤ h.nodeMax * 2 + 50

/-- No node has been dropped. -/
def Full (h : HashMap K V) (L : Nat → List Nat) : Prop := ∀ p, p < h.nodes.length → Stored L p

/-- The chains of a map are determined by its memory. -/
theorem Chained.unique (hc : Chained h L) (hc' : Chained h L') : L = L' := by
  funext c
  rcases Nat.lt_or_ge c h.cells.length with hlt | hge
  · exact (hc.chain (List.getElem?_eq_getElem hlt)).unique
      (hc'.chain (List.getElem?_eq_getElem hlt))
  · rw [hc.beyond hge, hc'.beyond hge]

theorem Linked.zero (equalityFn : K → K → Nat → Int) (hashFn : K → Nat → Nat) :
    Linked (HashMap.zero equalityFn hashFn : HashMap K V) fun _ => [] where
  chained := (zero_table equalityFn hashFn).chained
  cells_length := rfl
  free := rfl
  nodeMax := rfl
  cap_le := Nat.zero_le _

/-! ### `hash_map_deinit` -/

theorem deinitChain_eq : ∀ {l : List Nat} {fuel : Nat} {p : Option Nat}, Links h.nextOf p l →
    (∀ q ∈ l, q < h.nodes.length) → l.length ≤ fuel → deinitChain h fuel p = .ok l
  | [], fuel, p, hl, _, _ => by
    obtain rfl := hl.head
    unfold deinitChain
    rfl
  | q :: l, 0, p, _, _, hfuel => by simp at hfuel
  | q :: l, fuel + 1, p, hl, halloc, hfuel => by
    obtain rfl := hl.head
    obtain ⟨n, hn⟩ : ∃ n, h.nodes[q]? = some n :=
      ⟨_, List.getElem?_eq_getElem (halloc q List.mem_cons_self)⟩
    have hnext : h.nextOf q = n.next := by simp [nextOf, hn]
    have hrest := hl.tail
    rw [hnext] at hrest
    have ih := deinitChain_eq hrest (fun r hr => halloc r (List.mem_cons_of_mem _ hr))
      (Nat.le_of_succ_le_succ hfuel)
    rw [List.head?_cons, deinitChain, load_eq hn, ok_bind, ih, ok_bind]

theorem deinitCells_eq (hc : Chained h L) :
    ∀ {k cell : Nat}, cell + k ≤ h.cells.length →
      deinitCells h k cell = .ok ((List.range' cell k).flatMap L)
  | 0, _, _ => rfl
  | k + 1, cell, hle => by
    have hlt : cell < h.cells.length := by omega
    have hchain := deinitChain_eq (hc.chain (hc.cell hlt)) (fun q hq => hc.alloc hq)
      (hc.length_le cell)
    rw [deinitCells, load_eq (hc.cell hlt), ok_bind, hchain, ok_bind,
      deinitCells_eq hc (by omega), ok_bind, List.range'_succ, List.flatMap_cons]

/-- The nodes of the table, chain after chain. -/
theorem Linked.deinit (hl : Linked h L) : ∃ stored, hashMapDeinit h = .ok (stored, stored) ∧
    stored.Nodup ∧ ∀ p, p ∈ stored ↔ Stored L p := by
  have hcells : deinitCells h h.cap 0 = .ok ((List.range' 0 h.cap).flatMap L) :=
    deinitCells_eq hl.chained (by rw [hl.cells_length]; omega)
  refine ⟨(List.range' 0 h.cap).flatMap L, ?_, ?_, fun p => ?_⟩
  · rw [hashMapDeinit, hcells, ok_bind, hl.free, deinitChain, ok_bind, List.append_nil]
  · rw [List.nodup_flatMap]
    refine ⟨fun c hcm => ?_, ?_⟩
    · have hlt : c < h.cells.length := by
        have := List.mem_range'_1.mp hcm
        rw [hl.cells_length]
        omega
      exact (hl.chained.chain (hl.chained.cell hlt)).nodup
    · have hcells : (List.range' 0 h.cap).Nodup := List.nodup_range'
      exact List.Pairwise.imp (fun {c d} hcd p hp hq => hcd (hl.chained.apart hp hq)) hcells
  · rw [List.mem_flatMap]
    constructor
    · rintro ⟨c, -, hp⟩
      exact ⟨c, hp⟩
    · rintro ⟨c, hp⟩
      have hlt := hl.chained.cell_lt hp
      rw [hl.cells_length] at hlt
      exact ⟨c, List.mem_range'_1.mpr ⟨Nat.zero_le _, by omega⟩, hp⟩

/-- A map that has dropped no node: `hash_map_deinit` frees them all, and each of them once. -/
theorem Linked.deinit_full (hl : Linked h L) (hfull : Full h L) :
    ∃ stored, hashMapDeinit h = .ok (stored, stored) ∧ stored.Perm (List.range h.nodeMax) := by
  obtain ⟨stored, hok, hnd, hmem⟩ := hl.deinit
  refine ⟨stored, hok, (List.perm_ext_iff_of_nodup hnd List.nodup_range).mpr fun p => ?_⟩
  rw [hmem, List.mem_range, hl.nodeMax]
  exact ⟨fun ⟨_, hp⟩ => hl.chained.alloc hp, hfull p⟩

/-- **Nodes are conserved exactly as long as none is dropped.** -/
theorem Linked.recycles_iff_full [Inhabited K] (hl : Linked h L) : Recycles h ↔ Full h L := by
  constructor
  · rintro ⟨L', F, hcons, -, -⟩ p hp
    have hF : F = [] := by
      have hfree := hcons.freeList
      rw [hl.free] at hfree
      exact Links.nil_iff.mp hfree
    rcases (hcons.place p).mp (by rw [hl.nodeMax]; exact hp) with hst | hpF
    · rwa [hl.chained.unique hcons.chained]
    · rw [hF] at hpF
      exact absurd hpF List.not_mem_nil
  · intro hfull
    obtain ⟨stored, hok, hperm⟩ := hl.deinit_full hfull
    refine ⟨L, [], ⟨hl.chained, ?_, hl.nodeMax, fun p => ?_, fun p hp => ?_⟩,
      ⟨stored, stored, hok, hperm⟩, fun _ _ _ _ _ _ => rfl⟩
    · rw [hl.free]
      exact .nil
    · rw [hl.nodeMax]
      exact ⟨fun hp => .inl (hfull p hp), fun hp => by
        obtain ⟨c, hc⟩ := hp.resolve_right List.not_mem_nil
        exact hl.chained.alloc hc⟩
    · exact absurd hp.2 List.not_mem_nil

/-! ## 2. One operation -/

/-- The growth test leaves a map with cells, and the same nodes in them. -/
theorem Linked.expandIfFull (hl : Linked h L) :
    ∃ h' L', h.expandIfFull = .ok h' ∧ Linked h' L' ∧ h'.cap ≠ 0 ∧
      (∀ p, Stored L' p ↔ Stored L p) ∧ h'.nodes.length = h.nodes.length := by
  have hbound := hl.cap_le
  unfold HashMap.expandIfFull
  split
  · obtain ⟨h', L', hok, hc, hlen, hcap, -, hst, -, hfree, hmax, -, -, hnl⟩ :=
      hl.chained.expand hl.cells_length
    exact ⟨h', L', hok, ⟨hc, hlen, hfree.trans hl.free, by rw [hmax, hl.nodeMax, hnl], by omega⟩,
      by omega, hst, hnl⟩
  · exact ⟨h, L, rfl, hl, by omega, fun _ => Iff.rfl, rfl⟩

/-- **`hash_map_insert`** passes, and a node is added to the table for each
one that is allocated. -/
theorem Linked.insert [Inhabited K] (hl : Linked h L) (key : K) (keySize : Nat) :
    ∃ h' L' n, hashMapInsert h key keySize = .ok (h', n) ∧ Linked h' L' ∧
      ∀ p, Stored L' p ↔ Stored L p ∨ (h.nodes.length ≤ p ∧ p < h'.nodes.length) := by
  obtain ⟨h₁, L₁, hok, hl₁, hcap, hst, hnl⟩ := hl.expandIfFull
  have hlt : h₁.hashFn key keySize % h₁.cap < h₁.cells.length := by
    rw [hl₁.cells_length]
    exact Nat.mod_lt _ (Nat.pos_of_ne_zero hcap)
  have hfind := findIn_eq key keySize (h₁.hashFn key keySize)
    (hl₁.chained.chain (hl₁.chained.cell hlt)) (fun q hq => hl₁.chained.alloc hq)
    (hl₁.chained.length_le _)
  unfold hashMapInsert
  dsimp only
  rw [hok, ok_bind, require_of hcap, ok_bind, load_eq (hl₁.chained.cell hlt), ok_bind, hfind,
    ok_bind]
  cases (L₁ (h₁.hashFn key keySize % h₁.cap)).find?
      (h₁.isKeyAt key keySize (h₁.hashFn key keySize)) with
  | some n =>
    refine ⟨h₁, L₁, n, rfl, hl₁, fun p => ?_⟩
    rw [hst, hnl]
    exact ⟨.inl, fun hp => hp.resolve_right fun hr => absurd hr.2 (Nat.not_lt.mpr hr.1)⟩
  | none =>
    obtain ⟨h₂, h₃, htake, hpush, hadd, hc⟩ :=
      hl₁.chained.add hl₁.free hlt key keySize (h₁.hashFn key keySize)
    have hbound := hl₁.cap_le
    have hmax := hl₁.nodeMax
    dsimp only
    rw [htake, ok_bind]
    dsimp only
    rw [hpush, ok_bind]
    refine ⟨_, _, _, rfl, ⟨hc, ?_, hadd.free, ?_, ?_⟩, fun p => ?_⟩
    · rw [hadd.cells, hadd.cap, hl₁.cells_length]
    · rw [hadd.nodeMax, hadd.nodes, hmax]
    · rw [hadd.cap, hadd.nodeMax]
      omega
    · rw [stored_push, hst, hadd.nodes, hnl]
      exact or_congr_right (by omega)

/-- **`hash_map_remove`** passes.  A node that it finds is dropped. -/
theorem Linked.remove (hl : Linked h L) (key : K) (keySize : Nat) :
    (hashMapFind h key keySize = .ok none ∧ hashMapRemove h key keySize = .ok (h, none)) ∨
    (hashMapFind h key keySize ≠ .ok none ∧
      ∃ h' L' x, hashMapRemove h key keySize = .ok (h', some x) ∧ Linked h' L' ∧
        h'.nodes.length = h.nodes.length ∧ Stored L x ∧
        ∀ p, Stored L' p ↔ Stored L p ∧ p ≠ x) := by
  unfold hashMapFind hashMapRemove
  by_cases hcap : h.cap = 0
  · rw [if_pos hcap, if_pos hcap]
    exact .inl ⟨rfl, rfl⟩
  · have hlt : h.hashFn key keySize % h.cap < h.cells.length := by
      rw [hl.cells_length]
      exact Nat.mod_lt _ (Nat.pos_of_ne_zero hcap)
    have hlinks := hl.chained.chain (hl.chained.cell hlt)
    have hfind := findIn_eq key keySize (h.hashFn key keySize) hlinks
      (fun q hq => hl.chained.alloc hq) (hl.chained.length_le _)
    rw [if_neg hcap, if_neg hcap]
    dsimp only
    rw [load_eq (hl.chained.cell hlt), ok_bind, ok_bind, hfind]
    rcases findPrev_eq key keySize (h.hashFn key keySize) [] hlinks
      (fun q hq => hl.chained.alloc hq) (hl.chained.length_le _) with
      ⟨a, x, b, hsplit, hx, hprev⟩ | ⟨hall, prev, hprev⟩
    · -- the node is found
      rw [List.getLast?_nil, List.nil_append] at hprev
      have hmem : x ∈ L (h.hashFn key keySize % h.cap) := by simp [hsplit]
      obtain ⟨n, hn⟩ := hl.chained.node hmem
      have hhead : a.getLast? ≠ none ∨ (L (h.hashFn key keySize % h.cap)).head? = some x := by
        cases a with
        | nil => exact .inr (by rw [hsplit]; rfl)
        | cons y a => exact .inl (by simp)
      obtain ⟨h₂, hdrop, hload, hr, hc⟩ := hl.chained.drop hl.free hsplit hn
      refine .inr ⟨fun hnone => ?_, { h₂ with free := none }, _, x, ?_, ⟨hc, ?_, rfl, ?_, ?_⟩,
        hr.nodes, ⟨_, hmem⟩, fun p => hl.chained.stored_unlink hsplit⟩
      · rw [Except.ok.injEq, List.find?_eq_none] at hnone
        exact hnone x hmem hx
      · rw [hprev, ok_bind]
        dsimp only
        rw [load_eq hn, ok_bind, require_of hhead, ok_bind, hdrop, load_eq hload, ok_bind]
      · exact hr.cells.trans (hl.cells_length.trans hr.cap.symm)
      · exact hr.nodeMax.trans (hl.nodeMax.trans hr.nodes.symm)
      · rw [hr.cap, hr.nodeMax]
        exact hl.cap_le
    · -- no node of the chain has the key
      rw [List.getLast?_nil] at hprev
      rw [hprev]
      refine .inl ⟨?_, rfl⟩
      rw [List.find?_eq_none.mpr fun q hq => by rw [hall q hq]; exact Bool.false_ne_true]

theorem Linked.setVal (hl : Linked h L) (n : Nat) (val : Option V) :
    Linked (h.setVal n val) L where
  chained := hl.chained.of_eq rfl (fun q _ => by
    by_cases hq : n = q
    · subst hq
      cases hn : h.nodes[n]? <;> simp [nextOf, HashMap.setVal, hn]
    · simp [nextOf, HashMap.setVal, hq]) (by simp [HashMap.setVal])
  cells_length := hl.cells_length
  free := hl.free
  nodeMax := by
    rw [HashMap.setVal, List.length_modify]
    exact hl.nodeMax
  cap_le := hl.cap_le

/-- A removal that finds its key. -/
def Drops (h : HashMap K V) (op : MapOp K V) : Prop :=
  ∃ key keySize, op = .remove key keySize ∧ hashMapFind h key keySize ≠ .ok none

/-- **One operation** keeps the invariant.  It drops a node if it is a removal that finds its key,
and only then. -/
theorem Linked.op [Inhabited K] (hl : Linked h L) {op : MapOp K V} {reply : Option Nat}
    (hop : mapOp h op = .ok (h', reply)) :
    ∃ L', Linked h' L' ∧ (Drops h op → ¬ Full h' L') ∧ (¬ Drops h op → Full h L → Full h' L') := by
  cases op with
  | insert key keySize =>
    obtain ⟨h₁, L₁, n, hok, hl₁, hst⟩ := hl.insert key keySize
    simp only [mapOp, hok, ok_bind] at hop
    cases hop
    refine ⟨L₁, hl₁, ?_, fun _ hfull p hp => (hst p).mpr ?_⟩
    · rintro ⟨_, _, he, -⟩
      cases he
    · rcases Nat.lt_or_ge p h.nodes.length with hlt | hge
      · exact .inl (hfull p hlt)
      · exact .inr ⟨hge, hp⟩
  | find key keySize =>
    obtain ⟨r, -, he⟩ := bind_eq_ok.mp hop
    cases he
    refine ⟨L, hl, ?_, fun _ hfull => hfull⟩
    rintro ⟨_, _, he, -⟩
    cases he
  | remove key keySize =>
    rcases hl.remove key keySize with ⟨hfind, hok⟩ | ⟨hfind, h₁, L₁, x, hok, hl₁, hlen, hx, hst⟩
    · rw [mapOp, hok] at hop
      cases hop
      refine ⟨L, hl, ?_, fun _ hfull => hfull⟩
      rintro ⟨_, _, he, hne⟩
      cases he
      exact absurd hfind hne
    · rw [mapOp, hok] at hop
      cases hop
      refine ⟨L₁, hl₁, fun _ hfull => ?_, fun hno => absurd ⟨key, keySize, rfl, hfind⟩ hno⟩
      obtain ⟨c, hc⟩ := hx
      have hxlt := hl.chained.alloc hc
      exact ((hst x).mp (hfull x (by rw [hlen]; exact hxlt))).2 rfl
  | write n val =>
    obtain ⟨_, -, he⟩ := bind_eq_ok.mp hop
    cases he
    refine ⟨L, hl.setVal n val, ?_, fun _ hfull p hp => hfull p ?_⟩
    · rintro ⟨_, _, he, -⟩
      cases he
    · rwa [HashMap.setVal, List.length_modify] at hp

/-! ## 3. Every sequence of operations -/

section

variable [Inhabited K] {equalityFn : K → K → Nat → Int} {hashFn : K → Nat → Nat}
  {ops : List (MapOp K V)} {out : List (Option Nat)}

/-- `node_max` and `cap` of the map after the operations `ops` are bounded by the number of keys
in the table at some earlier time. -/
def PeakBound (equalityFn : K → K → Nat → Int) (hashFn : K → Nat → Nat) (ops : List (MapOp K V))
    (h : HashMap K V) : Prop :=
  h.cap * 5 ≤ h.nodeMax * 2 + 50 ∧
  ∃ front back s os stored freed, ops = front ++ back ∧
    runOps mapOp (zero equalityFn hashFn) front = .ok (s, os) ∧
    hashMapDeinit s = .ok (stored, freed) ∧ h.nodeMax ≤ stored.length

theorem linked_run (hrun : runOps mapOp (zero equalityFn hashFn) ops = .ok (h, out)) :
    ∃ L, Linked h L :=
  runOps_invariant (I := fun h => ∃ L, Linked h L)
    (fun _ _ _ _ ⟨_, hl⟩ hop => (hl.op hop).imp fun _ hl' => hl'.1) ⟨_, .zero _ _⟩ hrun

/-- Without a removal that finds its key no node is dropped. -/
theorem full_run (hrun : runOps mapOp (zero equalityFn hashFn) ops = .ok (h, out))
    (hno : ∀ front key keySize back s os, ops = front ++ .remove key keySize :: back →
      runOps mapOp (zero equalityFn hashFn) front = .ok (s, os) →
      hashMapFind s key keySize = .ok none) :
    ∃ L, Linked h L ∧ Full h L := by
  induction ops using List.reverseRecOn generalizing h out with
  | nil =>
    cases hrun
    exact ⟨_, .zero _ _, fun p hp => absurd hp (Nat.not_lt_zero p)⟩
  | append_singleton ops op ih =>
    obtain ⟨s, reply, os, hfront, hop, -⟩ := runOps_snoc_ok.mp hrun
    obtain ⟨L, hl, hfull⟩ := ih hfront fun front key keySize back s' os' he hs' =>
      hno front key keySize (back ++ [op]) s' os' (by rw [he, List.append_assoc]; rfl) hs'
    obtain ⟨L', hl', -, hkeep⟩ := hl.op hop
    refine ⟨L', hl', hkeep ?_ hfull⟩
    rintro ⟨key, keySize, rfl, hne⟩
    exact hne (hno ops key keySize [] s os rfl hfront)

/-- **Hash-map nodes are conserved exactly if no removal finds its key**, for any callbacks and any
sequence of operations.  Each removal that finds its key drops the node: from then on it is in no
chain and not in the list `free`. -/
theorem recycles_iff (ops : List (MapOp K V)) :
    (∀ front back h out, ops = front ++ back →
      runOps mapOp (zero equalityFn hashFn) front = .ok (h, out) →
      Recycles h ∧ PeakBound equalityFn hashFn front h) ↔
    ∀ front key keySize back h out, ops = front ++ .remove key keySize :: back →
      runOps mapOp (zero equalityFn hashFn) front = .ok (h, out) →
      hashMapFind h key keySize = .ok none := by
  constructor
  · intro hall front key keySize back h out hops hrun
    by_contra hfind
    obtain ⟨L, hl⟩ := linked_run hrun
    obtain ⟨hnone, -⟩ | ⟨-, h', -, x, hok, -⟩ := hl.remove key keySize
    · exact hfind hnone
    · have hop : mapOp h (.remove key keySize) = .ok (h', some x) := hok
      obtain ⟨L', hl', hdrop, -⟩ := hl.op hop
      have hrec := (hall (front ++ [.remove key keySize]) back h' (out ++ [some x])
        (by rw [hops, List.append_assoc]; rfl)
        (runOps_snoc_ok.mpr ⟨h, some x, out, hrun, hop, rfl⟩)).1
      exact hdrop ⟨key, keySize, rfl, hfind⟩ (hl'.recycles_iff_full.mp hrec)
  · rintro hno front back h out rfl hrun
    obtain ⟨L, hl, hfull⟩ := full_run hrun fun front' key keySize back' s os he hs =>
      hno front' key keySize (back' ++ back) s os (by rw [he, List.append_assoc]; rfl) hs
    obtain ⟨stored, hok, hperm⟩ := hl.deinit_full hfull
    refine ⟨hl.recycles_iff_full.mpr hfull, hl.cap_le, front, [], h, out, stored, stored, by simp,
      hrun, hok, ?_⟩
    exact Nat.le_of_eq (by rw [hperm.length_eq, List.length_range])

end

/-- One key, inserted and removed: its node is in no chain, and `free` is NULL. -/
theorem removed_node_lost : ¬ ∀ front back (h : HashMap Nat Nat) out,
    [MapOp.insert 1 4, MapOp.remove 1 4] = front ++ back →
    runOps mapOp (zero (fun (a b _ : Nat) => (a : Int) - b) fun (a _ : Nat) => a) front =
      .ok (h, out) →
    Recycles h ∧ PeakBound (fun (a b _ : Nat) => (a : Int) - b) (fun (a _ : Nat) => a) front h := by
  intro hall
  obtain ⟨h, out, hrun, hmax, hcells⟩ : ∃ (h : HashMap Nat Nat) (out : List (Option Nat)),
      runOps mapOp (zero (fun (a b _ : Nat) => (a : Int) - b) fun (a _ : Nat) => a)
        [MapOp.insert 1 4, MapOp.remove 1 4] = .ok (h, out) ∧ h.nodeMax = 1 ∧
      hashMapDeinit h = .ok ([], []) := ⟨_, _, rfl, rfl, rfl⟩
  obtain ⟨⟨L, F, -, ⟨stored, freed, hdeinit, hperm⟩, -⟩, -⟩ := hall _ [] h out rfl hrun
  rw [hcells] at hdeinit
  cases hdeinit
  have hlen := hperm.length_eq
  rw [hmax] at hlen
  cases hlen

end HashMap
end CAsync
