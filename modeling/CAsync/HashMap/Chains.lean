/-
# The chains of a hash map, and the in-place rehash

`Chained h L` says that the chain of cell `c` is the list `L c`: every cell of the table starts
a null-terminated chain, and no node is in two chains.  Section 2 is the two pointer
manipulations every operation is made of, `unlink` and `pushCell`, in terms of `L`.  Section 3
is `hash_map_expand`: its two loops move nodes between the chains of the array they are still
walking, and end with the same nodes, each in the cell of its hash.
-/
import CAsync.HashMap
import CAsync.Lib.Links
import Mathlib.Data.List.Perm.Subperm

namespace CAsync
namespace HashMap

open Faulting

variable {K V : Type} {h h' : HashMap K V} {L : Nat → List Nat}

/-! ## 1. Links and bodies -/

/-- The link of a node; a wild pointer has none. -/
def nextOf (h : HashMap K V) (p : Nat) : Option Nat := (h.nodes[p]?).bind HashNode.next

/-- A node without its link: what moving nodes between chains never changes. -/
def bodyOf (h : HashMap K V) (p : Nat) : Option (HashNode K V) :=
  (h.nodes[p]?).map fun n => { n with next := none }

/-- The cell of a node in a table of `cap` cells. -/
def cellOf (h : HashMap K V) (cap p : Nat) : Option Nat :=
  (h.nodes[p]?).map fun n => n.hash % cap

theorem nextOf_setNext {p : Nat} {v : Option Nat} (hp : p < h.nodes.length) :
    (h.setNext p v).nextOf = Function.update h.nextOf p v := by
  funext q
  by_cases hq : q = p
  · subst hq
    simp [nextOf, setNext, List.getElem?_eq_getElem hp]
  · rw [Function.update_of_ne hq]
    simp [nextOf, setNext, Ne.symm hq]

@[simp] theorem bodyOf_setNext (p : Nat) (v : Option Nat) (q : Nat) :
    (h.setNext p v).bodyOf q = h.bodyOf q := by
  by_cases hq : p = q
  · subst hq
    cases hn : h.nodes[p]? with
    | none => simp [bodyOf, setNext, hn]
    | some n => simp [bodyOf, setNext, hn]
  · simp [bodyOf, setNext, hq]

@[simp] theorem nextOf_setCell (c : Nat) (v : Option Nat) : (h.setCell c v).nextOf = h.nextOf := rfl

@[simp] theorem bodyOf_setCell (c : Nat) (v : Option Nat) (q : Nat) :
    (h.setCell c v).bodyOf q = h.bodyOf q := rfl

/-- A node with an unchanged body keeps everything but its link. -/
theorem node_of_bodyOf {p : Nat} {n : HashNode K V} (hb : h'.bodyOf p = h.bodyOf p)
    (hn : h.nodes[p]? = some n) : ∃ v, h'.nodes[p]? = some { n with next := v } := by
  simp only [bodyOf, hn, Option.map_some] at hb
  obtain ⟨n', hn', he⟩ := Option.map_eq_some_iff.mp hb
  refine ⟨n'.next, ?_⟩
  rw [hn']
  cases n'
  simp_all

theorem bodyOf_isSome {p : Nat} : (h.bodyOf p).isSome ↔ p < h.nodes.length := by
  rw [bodyOf, Option.isSome_map]
  simp

/-- Two states of one map that differ in links and cells only. -/
structure Relinked (h h' : HashMap K V) : Prop where
  body : ∀ p, h'.bodyOf p = h.bodyOf p
  cells : h'.cells.length = h.cells.length
  nodes : h'.nodes.length = h.nodes.length
  free : h'.free = h.free
  cap : h'.cap = h.cap
  nodeMax : h'.nodeMax = h.nodeMax
  equalityFn : h'.equalityFn = h.equalityFn
  hashFn : h'.hashFn = h.hashFn

namespace Relinked

theorem refl (h : HashMap K V) : Relinked h h :=
  ⟨fun _ => rfl, rfl, rfl, rfl, rfl, rfl, rfl, rfl⟩

theorem trans {h₁ h₂ h₃ : HashMap K V} (h₁₂ : Relinked h₁ h₂) (h₂₃ : Relinked h₂ h₃) :
    Relinked h₁ h₃ :=
  ⟨fun p => (h₂₃.body p).trans (h₁₂.body p), h₂₃.cells.trans h₁₂.cells,
    h₂₃.nodes.trans h₁₂.nodes, h₂₃.free.trans h₁₂.free, h₂₃.cap.trans h₁₂.cap,
    h₂₃.nodeMax.trans h₁₂.nodeMax, h₂₃.equalityFn.trans h₁₂.equalityFn,
    h₂₃.hashFn.trans h₁₂.hashFn⟩

theorem setNext (h : HashMap K V) (p : Nat) (v : Option Nat) : Relinked h (h.setNext p v) :=
  ⟨fun q => bodyOf_setNext p v q, rfl, by simp [HashMap.setNext], rfl, rfl, rfl, rfl, rfl⟩

theorem setCell (h : HashMap K V) (c : Nat) (v : Option Nat) : Relinked h (h.setCell c v) :=
  ⟨fun q => bodyOf_setCell c v q, by simp [HashMap.setCell], rfl, rfl, rfl, rfl, rfl, rfl⟩

/-- A node keeps everything but its link. -/
theorem node (hr : Relinked h h') {p : Nat} {n : HashNode K V} (hn : h.nodes[p]? = some n) :
    ∃ v, h'.nodes[p]? = some { n with next := v } :=
  node_of_bodyOf (hr.body p) hn

theorem unlink (h : HashMap K V) (c : Nat) (prev v : Option Nat) :
    Relinked h (h.unlink c prev v) := by
  cases prev with
  | none => exact setCell h c v
  | some p => exact setNext h p v

theorem cellOf (hr : Relinked h h') (cap p : Nat) : h'.cellOf cap p = h.cellOf cap p := by
  have hb := hr.body p
  unfold HashMap.cellOf
  cases hn : h.nodes[p]? with
  | none =>
    simp only [bodyOf, hn, Option.map_none, Option.map_eq_none_iff] at hb
    simp [hb]
  | some n =>
    obtain ⟨v, hv⟩ := hr.node hn
    simp [hv]

end Relinked

/-! ## 2. Unlinking and pushing -/

/-- **The chains of the table**: following the links from cell `c` visits the nodes `L c`, and
no node is in two chains. -/
structure Chained (h : HashMap K V) (L : Nat → List Nat) : Prop where
  chain : ∀ {c v}, h.cells[c]? = some v → Links h.nextOf v (L c)
  beyond : ∀ {c}, h.cells.length ≤ c → L c = []
  apart : ∀ {c d p}, p ∈ L c → p ∈ L d → c = d
  alloc : ∀ {c p}, p ∈ L c → p < h.nodes.length

/-- The nodes of the table. -/
def Stored (L : Nat → List Nat) (p : Nat) : Prop := ∃ c, p ∈ L c

theorem stored_push {c x p : Nat} :
    Stored (Function.update L c (x :: L c)) p ↔ Stored L p ∨ p = x := by
  constructor
  · rintro ⟨d, hp⟩
    by_cases hd : d = c
    · subst hd
      rw [Function.update_self] at hp
      rcases List.mem_cons.mp hp with rfl | hp
      · exact Or.inr rfl
      · exact Or.inl ⟨d, hp⟩
    · rw [Function.update_of_ne hd] at hp
      exact Or.inl ⟨d, hp⟩
  · rintro (⟨d, hp⟩ | rfl)
    · refine ⟨d, ?_⟩
      by_cases hd : d = c
      · subst hd
        rw [Function.update_self]
        exact List.mem_cons_of_mem _ hp
      · rwa [Function.update_of_ne hd]
    · exact ⟨c, by rw [Function.update_self]; exact List.mem_cons_self⟩

namespace Chained

/-- The chains only depend on the cells and on the links of their nodes. -/
theorem of_eq (hc : Chained h L) (hcells : h'.cells = h.cells)
    (hnext : ∀ p, p < h.nodes.length → h'.nextOf p = h.nextOf p)
    (hlen : h.nodes.length ≤ h'.nodes.length) : Chained h' L := by
  refine ⟨?_, ?_, hc.apart, fun hp => Nat.lt_of_lt_of_le (hc.alloc hp) hlen⟩
  · intro c v hv
    rw [hcells] at hv
    exact (hc.chain hv).congr fun p hp => (hnext p (hc.alloc hp)).symm
  · intro c hcc
    rw [hcells] at hcc
    exact hc.beyond hcc

theorem cell_lt (hc : Chained h L) {c p : Nat} (hp : p ∈ L c) : c < h.cells.length := by
  rcases Nat.lt_or_ge c h.cells.length with hlt | hge
  · exact hlt
  · rw [hc.beyond hge] at hp
    exact absurd hp (List.not_mem_nil)

theorem node (hc : Chained h L) {c p : Nat} (hp : p ∈ L c) : ∃ n, h.nodes[p]? = some n :=
  ⟨_, List.getElem?_eq_getElem (hc.alloc hp)⟩

theorem cell (hc : Chained h L) {c : Nat} (hlt : c < h.cells.length) :
    h.cells[c]? = some (L c).head? := by
  have hv := List.getElem?_eq_getElem hlt
  rw [hv, (hc.chain hv).head]

/-- A chain has no node twice. -/
theorem nodup (hc : Chained h L) (c : Nat) : (L c).Nodup := by
  rcases Nat.lt_or_ge c h.cells.length with hlt | hge
  · exact (hc.chain (hc.cell hlt)).nodup
  · rw [hc.beyond hge]
    exact List.nodup_nil

/-- A chain is no longer than the memory its nodes live in. -/
theorem length_le (hc : Chained h L) (c : Nat) : (L c).length ≤ h.nodes.length := by
  rcases Nat.lt_or_ge c h.cells.length with hlt | hge
  · have hnd := hc.nodup c
    have hsub : L c ⊆ List.range h.nodes.length :=
      fun p hp => List.mem_range.mpr (hc.alloc hp)
    simpa using (List.Nodup.subperm hnd hsub).length_le
  · simp [hc.beyond hge]

theorem stored_unlink (hc : Chained h L) {c x p : Nat} {pre suf : List Nat}
    (hL : L c = pre ++ x :: suf) :
    Stored (Function.update L c (pre ++ suf)) p ↔ Stored L p ∧ p ≠ x := by
  have hx : x ∈ L c := by simp [hL]
  have hnd := (hc.chain (hc.cell (hc.cell_lt hx))).nodup
  rw [hL] at hnd
  have hxps : x ∉ pre ++ suf := by
    simp only [List.nodup_append, List.nodup_cons, List.mem_cons] at hnd
    intro hxp
    rcases List.mem_append.mp hxp with hxp | hxs
    · exact hnd.2.2 x hxp x (Or.inl rfl) rfl
    · exact hnd.2.1.1 hxs
  constructor
  · rintro ⟨d, hp⟩
    by_cases hd : d = c
    · subst hd
      rw [Function.update_self] at hp
      refine ⟨⟨d, ?_⟩, fun e => hxps (e ▸ hp)⟩
      rw [hL]
      rcases List.mem_append.mp hp with hp | hp
      · exact List.mem_append_left _ hp
      · exact List.mem_append_right _ (List.mem_cons_of_mem _ hp)
    · rw [Function.update_of_ne hd] at hp
      refine ⟨⟨d, hp⟩, fun e => hd (hc.apart (e ▸ hp) hx)⟩
  · rintro ⟨⟨d, hp⟩, hpx⟩
    refine ⟨d, ?_⟩
    by_cases hd : d = c
    · subst hd
      rw [Function.update_self]
      rw [hL] at hp
      simp only [List.mem_append, List.mem_cons] at hp ⊢
      rcases hp with hp | rfl | hp
      · exact Or.inl hp
      · exact absurd rfl hpx
      · exact Or.inr hp
    · rwa [Function.update_of_ne hd]

/-- Unlinking the node after `pre` takes it out of its chain. -/
theorem unlink (hc : Chained h L) {c x : Nat} {pre suf : List Nat} (hL : L c = pre ++ x :: suf) :
    Chained (h.unlink c pre.getLast? (h.nextOf x)) (Function.update L c (pre ++ suf)) ∧
      (h.unlink c pre.getLast? (h.nextOf x)).nextOf x = h.nextOf x := by
  have hx : x ∈ L c := by simp [hL]
  have hlt := hc.cell_lt hx
  have hsub : ∀ {d p}, p ∈ Function.update L c (pre ++ suf) d → p ∈ L d := by
    intro d p hp
    by_cases hd : d = c
    · subst hd
      rw [Function.update_self] at hp
      rw [hL]
      rcases List.mem_append.mp hp with hp | hp
      · exact List.mem_append_left _ hp
      · exact List.mem_append_right _ (List.mem_cons_of_mem _ hp)
    · rwa [Function.update_of_ne hd] at hp
  have hbeyond : ∀ {d}, h.cells.length ≤ d → Function.update L c (pre ++ suf) d = [] := by
    intro d hd
    rw [Function.update_of_ne (by omega)]
    exact hc.beyond hd
  rcases List.eq_nil_or_concat pre with rfl | ⟨pre', y, rfl⟩
  · -- the head of the chain: the cell is overwritten
    simp only [List.getLast?_nil, HashMap.unlink, List.nil_append] at hL hsub hbeyond ⊢
    refine ⟨⟨?_, ?_, ?_, ?_⟩, rfl⟩
    · intro d v hv
      simp only [setCell, List.getElem?_set] at hv
      by_cases hd : c = d
      · subst hd
        rw [if_pos rfl, if_pos hlt, Option.some.injEq] at hv
        subst hv
        have hch := hc.chain (hc.cell hlt)
        rw [hL] at hch
        rw [Function.update_self]
        exact hch.tail
      · rw [if_neg hd] at hv
        rw [Function.update_of_ne (Ne.symm hd)]
        exact hc.chain hv
    · intro d hd
      exact hbeyond (by simpa [setCell] using hd)
    · exact fun hp hq => hc.apart (hsub hp) (hsub hq)
    · exact fun hp => hc.alloc (hsub hp)
  · -- in the middle: the link of its predecessor is overwritten
    simp only [List.concat_eq_append, List.getLast?_concat, HashMap.unlink, List.append_assoc,
      List.singleton_append] at hL hsub hbeyond ⊢
    have hy : y ∈ L c := by simp [hL]
    have hxy : x ≠ y := by
      have hnd := (hc.chain (hc.cell hlt)).nodup
      rw [hL] at hnd
      simp only [List.nodup_append, List.nodup_cons, List.mem_cons] at hnd
      rintro rfl
      exact hnd.2.1.1 (Or.inl rfl)
    refine ⟨⟨?_, ?_, ?_, ?_⟩, ?_⟩
    · intro d v hv
      rw [nextOf_setNext (hc.alloc hy)]
      by_cases hd : d = c
      · subst hd
        rw [Function.update_self]
        have hch := hc.chain hv
        rw [hL] at hch
        exact hch.unlink
      · rw [Function.update_of_ne hd]
        exact (hc.chain hv).update fun hyd => hd (hc.apart hyd hy)
    · exact fun hd => hbeyond hd
    · exact fun hp hq => hc.apart (hsub hp) (hsub hq)
    · intro d p hp
      simpa [setNext] using hc.alloc (hsub hp)
    · rw [nextOf_setNext (hc.alloc hy), Function.update_of_ne hxy]

/-- Pushing a node that is in no chain. -/
theorem pushCell (hc : Chained h L) {c x : Nat} (hlt : c < h.cells.length)
    (hx : x < h.nodes.length) (hnew : ¬ Stored L x) :
    ∃ h', h.pushCell c x = .ok h' ∧ Relinked h h' ∧
      Chained h' (Function.update L c (x :: L c)) := by
  unfold HashMap.pushCell
  rw [load_eq (hc.cell hlt), ok_bind]
  refine ⟨_, rfl, (Relinked.setNext h x _).trans (Relinked.setCell _ c _), ?_, ?_, ?_, ?_⟩
  · intro d v hv
    rw [nextOf_setCell, nextOf_setNext hx]
    simp only [setCell, setNext, List.getElem?_set] at hv
    by_cases hd : c = d
    · subst hd
      rw [if_pos rfl, if_pos hlt, Option.some.injEq] at hv
      subst hv
      rw [Function.update_self]
      exact (hc.chain (hc.cell hlt)).push fun hm => hnew ⟨c, hm⟩
    · rw [if_neg hd] at hv
      rw [Function.update_of_ne (Ne.symm hd)]
      exact (hc.chain hv).update fun hm => hnew ⟨d, hm⟩
  · intro d hd
    simp only [setCell, setNext, List.length_set] at hd
    rw [Function.update_of_ne (by omega)]
    exact hc.beyond hd
  · intro d e p hp hq
    by_cases hd : d = c
    · subst hd
      by_cases he : e = d
      · exact he.symm
      · rw [Function.update_self] at hp
        rw [Function.update_of_ne he] at hq
        rcases List.mem_cons.mp hp with rfl | hp
        · exact absurd ⟨e, hq⟩ hnew
        · exact hc.apart hp hq
    · rw [Function.update_of_ne hd] at hp
      by_cases he : e = c
      · subst he
        rw [Function.update_self] at hq
        rcases List.mem_cons.mp hq with rfl | hq
        · exact absurd ⟨d, hp⟩ hnew
        · exact hc.apart hp hq
      · rw [Function.update_of_ne he] at hq
        exact hc.apart hp hq
  · intro d p hp
    simp only [setCell, setNext, List.length_modify]
    by_cases hd : d = c
    · subst hd
      rw [Function.update_self] at hp
      rcases List.mem_cons.mp hp with rfl | hp
      · exact hx
      · exact hc.alloc hp
    · rw [Function.update_of_ne hd] at hp
      exact hc.alloc hp

end Chained

/-! ## 3. `hash_map_expand` -/

/-- **The inner loop.**  The chain of `cell` is `pre` (walked, and staying) followed by `suf`
(still to walk).  Afterwards exactly the nodes that belong in `cell` are left in it, the others
are at the head of the chains they belong in, and nothing else has changed. -/
theorem expandChain_spec {newCap cell : Nat} (hnew : 0 < newCap) :
    ∀ (suf pre : List Nat) {fuel : Nat} {h : HashMap K V} {L : Nat → List Nat},
      Chained h L → L cell = pre ++ suf → h.cells.length = newCap → suf.length ≤ fuel →
      cell < newCap → (∀ p ∈ pre, h.cellOf newCap p = some cell) →
      ∃ h' L', expandChain newCap cell fuel pre.getLast? suf.head? h = .ok h' ∧ Chained h' L' ∧
        Relinked h h' ∧ (∀ p, Stored L' p ↔ Stored L p) ∧
        (∀ p ∈ L' cell, h.cellOf newCap p = some cell) ∧
        (∀ c p, c ≠ cell → p ∈ L' c → p ∈ L c ∨ h.cellOf newCap p = some c)
  | [], pre, fuel, h, L, hc, hL, _, _, _, hpre => by
    refine ⟨h, L, ?_, hc, Relinked.refl h, fun _ => Iff.rfl, ?_, fun c p _ hp => Or.inl hp⟩
    · unfold expandChain
      rfl
    · intro p hp
      rw [hL, List.append_nil] at hp
      exact hpre p hp
  | x :: suf, pre, fuel, h, L, hc, hL, hlen, hfuel, hcell, hpre => by
    have hx : x ∈ L cell := by simp [hL]
    obtain ⟨n, hn⟩ := hc.node hx
    have hxc : h.cellOf newCap x = some (n.hash % newCap) := by simp [cellOf, hn]
    have hnext : h.nextOf x = n.next := by simp [nextOf, hn]
    have hhead : n.next = suf.head? := by
      have hch := hc.chain (hc.cell (hc.cell_lt hx))
      rw [hL] at hch
      rw [← hnext]
      exact hch.suffix.tail.head
    cases fuel with
    | zero => simp at hfuel
    | succ fuel =>
      have hfuel' : suf.length ≤ fuel := by simpa using hfuel
      by_cases hmove : n.hash % newCap = cell
      · -- the node stays: it joins the walked part
        have hpre' : ∀ p ∈ pre ++ [x], h.cellOf newCap p = some cell := by
          intro p hp
          rcases List.mem_append.mp hp with hp | hp
          · exact hpre p hp
          · rw [List.mem_singleton.mp hp, hxc, hmove]
        obtain ⟨h', L', hok, hrest⟩ := expandChain_spec hnew suf (pre ++ [x]) hc (by simp [hL])
          hlen hfuel' hcell hpre'
        refine ⟨h', L', ?_, hrest⟩
        rw [List.getLast?_concat] at hok
        simp only [List.head?_cons, expandChain, load_eq hn, ok_bind]
        rw [if_neg (by simpa using hmove), hhead]
        exact hok
      · -- the node moves to the head of its own chain
        have hlt : n.hash % newCap < newCap := Nat.mod_lt _ hnew
        obtain ⟨hc₁, -⟩ := hc.unlink hL
        have hr₁ := Relinked.unlink h cell pre.getLast? (h.nextOf x)
        obtain ⟨h₂, hok₂, hr₂, hc₂⟩ := hc₁.pushCell (c := n.hash % newCap) (x := x)
          (by rw [hr₁.cells, hlen]; exact hlt) (by rw [hr₁.nodes]; exact hc.alloc hx)
          (fun hs => ((hc.stored_unlink hL).mp hs).2 rfl)
        have hr := hr₁.trans hr₂
        have hL₂ : Function.update (Function.update L cell (pre ++ suf)) (n.hash % newCap)
            (x :: Function.update L cell (pre ++ suf) (n.hash % newCap)) cell = pre ++ suf := by
          rw [Function.update_of_ne (Ne.symm hmove), Function.update_self]
        obtain ⟨h', L', hok, hc', hr', hst, hhome, helse⟩ := expandChain_spec hnew suf pre hc₂ hL₂
          (by rw [hr.cells, hlen]) hfuel' hcell
          (fun p hp => by rw [hr.cellOf]; exact hpre p hp)
        refine ⟨h', L', ?_, hc', hr.trans hr', ?_, ?_, ?_⟩
        · simp only [List.head?_cons, expandChain, load_eq hn, ok_bind]
          rw [if_pos hmove, ← hnext, hok₂, ok_bind, hnext, hhead]
          exact hok
        · intro p
          rw [hst, stored_push, hc.stored_unlink hL]
          by_cases hpx : p = x
          · subst hpx
            exact ⟨fun _ => ⟨cell, hx⟩, fun _ => Or.inr rfl⟩
          · simp [hpx]
        · intro p hp
          rw [← hr.cellOf]
          exact hhome p hp
        · intro c p hcc hp
          rcases helse c p hcc hp with hp | hp
          · by_cases hcn : c = n.hash % newCap
            · subst hcn
              rw [Function.update_self, Function.update_of_ne hcc] at hp
              rcases List.mem_cons.mp hp with rfl | hp
              · exact Or.inr hxc
              · exact Or.inl hp
            · rw [Function.update_of_ne hcn, Function.update_of_ne hcc] at hp
              exact Or.inl hp
          · exact Or.inr (by rw [← hr.cellOf]; exact hp)

/-- **The outer loop.**  The cells before `cell` have been walked, and hold only nodes that
belong there; so do the cells the table has grown by. -/
theorem expandCells_spec {newCap cap : Nat} (hnew : 0 < newCap) (hcap : cap ≤ newCap) :
    ∀ (k : Nat) {cell : Nat} {h : HashMap K V} {L : Nat → List Nat},
      Chained h L → h.cells.length = newCap → cell + k = cap →
      (∀ c p, c < cell ∨ cap ≤ c → p ∈ L c → h.cellOf newCap p = some c) →
      ∃ h' L', expandCells newCap k cell h = .ok h' ∧ Chained h' L' ∧ Relinked h h' ∧
        (∀ p, Stored L' p ↔ Stored L p) ∧ ∀ c p, p ∈ L' c → h.cellOf newCap p = some c
  | 0, cell, h, L, hc, _, hk, hdone =>
    ⟨h, L, rfl, hc, Relinked.refl h, fun _ => Iff.rfl, fun c p hp => hdone c p (by omega) hp⟩
  | k + 1, cell, h, L, hc, hlen, hk, hdone => by
    have hlt : cell < h.cells.length := by omega
    obtain ⟨h₁, L₁, hok₁, hc₁, hr₁, hst₁, hhome₁, helse₁⟩ := expandChain_spec hnew (L cell) []
      hc rfl hlen (hc.length_le cell) (by omega) (fun p hp => absurd hp List.not_mem_nil)
    have hdone₁ : ∀ c p, c < cell + 1 ∨ cap ≤ c → p ∈ L₁ c → h₁.cellOf newCap p = some c := by
      intro c p hcc hp
      rw [hr₁.cellOf]
      by_cases hce : c = cell
      · subst hce
        exact hhome₁ p hp
      · rcases helse₁ c p hce hp with hp | hp
        · exact hdone c p (by omega) hp
        · exact hp
    obtain ⟨h', L', hok, hc', hr', hst', hhome'⟩ := expandCells_spec hnew hcap k hc₁
      (by rw [hr₁.cells, hlen]) (by omega) hdone₁
    refine ⟨h', L', ?_, hc', hr₁.trans hr', fun p => (hst' p).trans (hst₁ p), ?_⟩
    · simp only [expandCells, load_eq (hc.cell hlt), ok_bind]
      rw [List.getLast?_nil] at hok₁
      rw [hok₁, ok_bind]
      exact hok
    · intro c p hp
      rw [← hr₁.cellOf]
      exact hhome' c p hp

/-- **`hash_map_expand` loses nothing**: the table of `2 * cap + 10` cells has the same nodes,
each in the cell of its hash. -/
theorem Chained.expand (hc : Chained h L) (hlen : h.cells.length = h.cap) :
    ∃ h' L', hashMapExpand h = .ok h' ∧ Chained h' L' ∧ h'.cells.length = h'.cap ∧
      h'.cap = h.cap * 2 + 10 ∧ (∀ p, h'.bodyOf p = h.bodyOf p) ∧
      (∀ p, Stored L' p ↔ Stored L p) ∧ (∀ c p, p ∈ L' c → h'.cellOf h'.cap p = some c) ∧
      h'.free = h.free ∧ h'.nodeMax = h.nodeMax ∧ h'.equalityFn = h.equalityFn ∧
      h'.hashFn = h.hashFn ∧ h'.nodes.length = h.nodes.length := by
  let g : HashMap K V :=
    { h with cells := h.cells ++ List.replicate (h.cap * 2 + 10 - h.cap) none }
  have hg : Chained g L := by
    refine ⟨?_, ?_, hc.apart, hc.alloc⟩
    · intro c v hv
      rcases Nat.lt_or_ge c h.cells.length with hlt | hge
      · rw [List.getElem?_append_left hlt] at hv
        exact hc.chain hv
      · rw [List.getElem?_append_right hge] at hv
        obtain rfl : v = none := (List.mem_replicate.mp (List.mem_of_getElem? hv)).2
        rw [hc.beyond hge]
        exact .nil
    · intro c hcc
      exact hc.beyond (by simp [g] at hcc; omega)
  obtain ⟨h', L', hok, hc', hr, hst, hhome⟩ := expandCells_spec
    (show 0 < h.cap * 2 + 10 by omega) (show h.cap ≤ h.cap * 2 + 10 by omega) h.cap hg
    (by simp [g]; omega) (show 0 + h.cap = h.cap by omega) (fun c p hcc hp => by
      rw [hc.beyond (by omega)] at hp
      exact absurd hp List.not_mem_nil)
  refine ⟨{ h' with cap := h.cap * 2 + 10 }, L', ?_, ⟨hc'.chain, hc'.beyond, hc'.apart, hc'.alloc⟩,
    ?_, rfl, hr.body, hst, ?_, hr.free, hr.nodeMax, hr.equalityFn, hr.hashFn, hr.nodes⟩
  · unfold hashMapExpand
    dsimp only
    rw [hok, ok_bind]
  · have := hr.cells
    simp [g] at this
    simp only
    omega
  · intro c p hp
    have := hhome c p hp
    rw [← hr.cellOf] at this
    exact this

/-- **Every node survives, once.**  Wherever the nodes of the table are, the rehash ends, with each
of them in exactly one chain, once, and that chain is the one of its hash in the new table; nothing
else joins, and of a node only its link has changed. -/
theorem expand_keeps_nodes (hc : Chained h L) (hlen : h.cells.length = h.cap) :
    ∃ h' L', hashMapExpand h = .ok h' ∧ h'.cap = 2 * h.cap + 10 ∧ h'.cells.length = h'.cap ∧
      Chained h' L' ∧ (∀ p, Stored L' p ↔ Stored L p) ∧ (∀ c, (L' c).Nodup) ∧
      (∀ p, Stored L p → ∃! c, p ∈ L' c) ∧
      (∀ c p, p ∈ L' c → ∃ n, h'.nodes[p]? = some n ∧ c = n.hash % h'.cap) ∧
      ∀ (p : Nat) (n : HashNode K V), h.nodes[p]? = some n →
        ∃ next, h'.nodes[p]? = some { n with next := next } := by
  obtain ⟨h', L', hok, hc', hcells, hcap, hbody, hst, hhome', -⟩ := hc.expand hlen
  refine ⟨h', L', hok, by omega, hcells, hc', hst, hc'.nodup, fun p hp => ?_, fun c p hp => ?_,
    fun p n hn => node_of_bodyOf (hbody p) hn⟩
  · obtain ⟨c, hpc⟩ := (hst p).mpr hp
    exact ⟨c, hpc, fun d hpd => hc'.apart hpd hpc⟩
  · obtain ⟨n, hn⟩ := hc'.node hp
    have hcell := hhome' c p hp
    rw [cellOf, hn, Option.map_some, Option.some.injEq] at hcell
    exact ⟨n, hn, hcell.symm⟩

/-- Two nodes in the only cell, of which the first has to leave. -/
def crowded : HashMap Nat Nat :=
  { cells := [some 0], free := none, cap := 1, nodeMax := 2,
    equalityFn := fun (a b _ : Nat) => (a : Int) - b, hashFn := fun (a _ : Nat) => a,
    nodes := [{ next := some 1, key := 13, keySize := 4, val := none, hash := 13 },
      { next := none, key := 12, keySize := 4, val := some 5, hash := 12 }] }

theorem expand_keeps_nodes_crowded : ∃ h' L', hashMapExpand crowded = .ok h' ∧
    (∀ p, Stored L' p ↔ Stored (fun c => if c = 0 then [0, 1] else []) p) ∧
    ∀ c p, p ∈ L' c → ∃ n, h'.nodes[p]? = some n ∧ c = n.hash % h'.cap := by
  have hchain : Links crowded.nextOf (some 0) [0, 1] :=
    .cons (show Links _ (some 1) [1] from .cons (show Links _ none [] from .nil))
  have hc : Chained crowded fun c => if c = 0 then [0, 1] else [] := by
    refine ⟨fun {c v} hv => ?_, fun {c} hcc => ?_, fun {c d p} hp hq => ?_, fun {c p} hp => ?_⟩
    · cases c with
      | zero =>
        cases hv
        exact hchain
      | succ c => cases hv
    · exact if_neg (Nat.ne_of_gt hcc)
    · split at hp <;> split at hq <;> simp_all
    · split at hp
      · change p < 2
        simp at hp
        omega
      · cases hp
  obtain ⟨h', L', hok, -, -, -, hst, -, -, hhome, -⟩ := expand_keeps_nodes hc rfl
  exact ⟨h', L', hok, hst, hhome⟩

/-! ## 4. A node more, and a node less -/

/-- `h'` has one node more than `h`, fresh from `calloc`, with the given key. -/
structure Added (h h' : HashMap K V) (key : K) (keySize hash : Nat) : Prop where
  node : ∃ n, h'.nodes[h.nodes.length]? = some n ∧ n.key = key ∧ n.keySize = keySize ∧
    n.hash = hash ∧ n.val = none
  body : ∀ {q}, q < h.nodes.length → h'.bodyOf q = h.bodyOf q
  nodes : h'.nodes.length = h.nodes.length + 1
  nodeMax : h'.nodeMax = h.nodeMax + 1
  free : h'.free = none
  cells : h'.cells.length = h.cells.length
  cap : h'.cap = h.cap
  equalityFn : h'.equalityFn = h.equalityFn
  hashFn : h'.hashFn = h.hashFn

/-- **The end of `hash_map_insert`** with an empty free list: the new node is allocated, put at the
head of its chain, and given its key. -/
theorem Chained.add [Inhabited K] (hc : Chained h L) (hfree : h.free = none) {c : Nat}
    (hlt : c < h.cells.length) (key : K) (keySize hash : Nat) :
    ∃ h₁ h₂, takeNode h = .ok (h₁, h.nodes.length) ∧ h₁.pushCell c h.nodes.length = .ok h₂ ∧
      Added h (h₂.setKey h.nodes.length key keySize hash) key keySize hash ∧
      Chained (h₂.setKey h.nodes.length key keySize hash)
        (Function.update L c (h.nodes.length :: L c)) := by
  let zeroed : HashNode K V :=
    { next := none, key := default, keySize := 0, val := none, hash := 0 }
  let h₁ : HashMap K V := { h with nodes := h.nodes ++ [zeroed], nodeMax := h.nodeMax + 1 }
  have htake : takeNode h = .ok (h₁, h.nodes.length) := by
    unfold takeNode
    split
    · rename_i hsome
      rw [hfree] at hsome
      cases hsome
    · rfl
  have hold : ∀ {q}, q < h.nodes.length → h₁.nodes[q]? = h.nodes[q]? :=
    fun hq => List.getElem?_append_left hq
  have hc₁ : Chained h₁ L :=
    hc.of_eq rfl (fun q hq => by simp only [nextOf, hold hq]) (by simp [h₁])
  obtain ⟨h₂, hpush, hr₂, hc₂⟩ := hc₁.pushCell (c := c) (x := h.nodes.length) hlt (by simp [h₁])
    fun ⟨_, hx⟩ => Nat.lt_irrefl _ (hc.alloc hx)
  -- the key is written last
  obtain ⟨v, hv⟩ := hr₂.node (p := h.nodes.length) (n := zeroed) (by simp [h₁])
  have hx₃ : (h₂.setKey h.nodes.length key keySize hash).nodes[h.nodes.length]? = some
      { zeroed with next := v, hash := hash, key := key, keySize := keySize } := by
    simp [setKey, hv]
  have hother : ∀ {q}, q ≠ h.nodes.length →
      (h₂.setKey h.nodes.length key keySize hash).nodes[q]? = h₂.nodes[q]? := by
    intro q hq
    simp [setKey, Ne.symm hq]
  have hnext : ∀ q, (h₂.setKey h.nodes.length key keySize hash).nextOf q = h₂.nextOf q := by
    intro q
    by_cases hq : q = h.nodes.length
    · rw [hq]
      simp only [nextOf, hx₃, hv, Option.bind_some]
    · simp only [nextOf, hother hq]
  refine ⟨h₁, h₂, htake, hpush, ⟨⟨_, hx₃, rfl, rfl, rfl, rfl⟩, fun {q} hq => ?_, ?_, hr₂.nodeMax,
    hr₂.free.trans hfree, hr₂.cells, hr₂.cap, hr₂.equalityFn, hr₂.hashFn⟩,
    hc₂.of_eq rfl (fun q _ => hnext q) (by simp [setKey])⟩
  · have hb := hr₂.body q
    simp only [bodyOf, hold hq] at hb
    simp only [bodyOf, hother (Nat.ne_of_lt hq)]
    exact hb
  · have hlen := hr₂.nodes
    simpa [setKey, h₁] using hlen

/-- **The end of `hash_map_remove`** with an empty free list: the node is unlinked, and the free
list stays empty. -/
theorem Chained.drop (hc : Chained h L) (hfree : h.free = none) {c x : Nat} {a b : List Nat}
    (hL : L c = a ++ x :: b) {n : HashNode K V} (hn : h.nodes[x]? = some n) :
    ∃ h' : HashMap K V,
      (h.unlink c a.getLast? n.next).setNext x (h.unlink c a.getLast? n.next).free = h' ∧
      h'.nodes[x]? = some { n with next := none } ∧ Relinked h { h' with free := none } ∧
      Chained { h' with free := none } (Function.update L c (a ++ b)) := by
  have hnext : h.nextOf x = n.next := by simp [nextOf, hn]
  obtain ⟨hc₁, -⟩ := hc.unlink hL
  have hr₁ := Relinked.unlink h c a.getLast? n.next
  rw [hnext] at hc₁
  let h₁ := h.unlink c a.getLast? n.next
  have hr₂ := hr₁.trans (Relinked.setNext h₁ x h₁.free)
  have hxlen : x < h₁.nodes.length := by
    rw [hr₁.nodes]
    exact hc.alloc (c := c) (by simp [hL])
  have hc₂ : Chained (h₁.setNext x h₁.free) (Function.update L c (a ++ b)) := by
    refine ⟨fun {d v} hv => ?_, hc₁.beyond, hc₁.apart, fun hq => ?_⟩
    · rw [nextOf_setNext hxlen]
      exact (hc₁.chain hv).update fun hxc => ((hc.stored_unlink hL).mp ⟨d, hxc⟩).2 rfl
    · simpa [HashMap.setNext] using hc₁.alloc hq
  obtain ⟨v, hv⟩ := hr₁.node hn
  have hfree₁ : h₁.free = none := hr₁.free.trans hfree
  refine ⟨_, rfl, ?_, ⟨hr₂.body, hr₂.cells, hr₂.nodes, hfree.symm, hr₂.cap, hr₂.nodeMax,
    hr₂.equalityFn, hr₂.hashFn⟩, hc₂.of_eq rfl (fun _ _ => rfl) (Nat.le_refl _)⟩
  have hv' : h₁.nodes[x]? = some { n with next := v } := hv
  change (h₁.setNext x h₁.free).nodes[x]? = _
  simp [HashMap.setNext, hv', hfree₁]

end HashMap
end CAsync
