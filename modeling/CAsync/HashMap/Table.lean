/-
# Lookup, insertion and removal

`Table h L` is the invariant of a hash map between operations: its chains are `L`, every node
is in the cell of its hash, no two nodes have equal keys, and the list `free` is empty.  The
last clause is what `hash_map_remove` really does: it stores the old `free` in the node it
removes and reads it back, so the removed node is dropped.  It is also why `hash_map_insert`
always hands out a node fresh from `calloc`, whose `val` is NULL.

Section 3 says the same of a finite map: `h.MapsTo size m` for a map whose keys all have size
`size`, and one lemma for each operation.
-/
import CAsync.HashMap.Chains

namespace CAsync
namespace HashMap

open Faulting

variable {K V : Type} {h h' : HashMap K V} {L L' : Nat → List Nat}

/-- What the callbacks promise: `equality_fn` is an equivalence on the keys of one size, and
equal keys have equal hashes. -/
structure LawfulKeys (equalityFn : K → K → Nat → Int) (hashFn : K → Nat → Nat) : Prop where
  refl : ∀ a size, equalityFn a a size = 0
  symm : ∀ {a b size}, equalityFn a b size = 0 → equalityFn b a size = 0
  trans : ∀ {a b c size}, equalityFn a b size = 0 → equalityFn b c size = 0 →
    equalityFn a c size = 0
  hash_eq : ∀ {a b size}, equalityFn a b size = 0 → hashFn a size = hashFn b size

/-- The invariant of a hash map between operations. -/
structure Table (h : HashMap K V) (L : Nat → List Nat) : Prop where
  chained : Chained h L
  cells_length : h.cells.length = h.cap
  home : ∀ {c p}, p ∈ L c → h.cellOf h.cap p = some c
  hashed : ∀ {p n}, Stored L p → h.nodes[p]? = some n → n.hash = h.hashFn n.key n.keySize
  single : ∀ {p q n m}, Stored L p → Stored L q → h.nodes[p]? = some n → h.nodes[q]? = some m →
    m.keySize = n.keySize → h.equalityFn n.key m.key n.keySize = 0 → p = q
  noFree : h.free = none

/-- The entry of a key: a node of the table with an equal key of the same size. -/
def IsEntry (h : HashMap K V) (L : Nat → List Nat) (key : K) (keySize p : Nat) : Prop :=
  Stored L p ∧ ∃ n, h.nodes[p]? = some n ∧ n.keySize = keySize ∧
    h.equalityFn key n.key keySize = 0

theorem zero_table (equalityFn : K → K → Nat → Int) (hashFn : K → Nat → Nat) :
    Table (zero equalityFn hashFn : HashMap K V) fun _ => [] where
  chained := ⟨fun hv => by simp [zero] at hv, fun _ => rfl,
    fun hp => absurd hp List.not_mem_nil, fun hp => absurd hp List.not_mem_nil⟩
  cells_length := rfl
  home := fun hp => absurd hp List.not_mem_nil
  hashed := fun hp => absurd hp.choose_spec List.not_mem_nil
  single := fun hp => absurd hp.choose_spec List.not_mem_nil
  noFree := rfl

/-! ## 1. The walks along one chain -/

/-- Whether the node at an address has the key looked for. -/
def isKeyAt (h : HashMap K V) (key : K) (keySize hash p : Nat) : Bool :=
  (h.nodes[p]?).any (h.isKey key keySize hash)

/-- The loop of `hash_map_find` returns the first node of the chain with the key. -/
theorem findIn_eq (key : K) (keySize hash : Nat) :
    ∀ {l : List Nat} {fuel : Nat} {p : Option Nat}, Links h.nextOf p l →
      (∀ q ∈ l, q < h.nodes.length) → l.length ≤ fuel →
      findIn h key keySize hash fuel p = .ok (l.find? (h.isKeyAt key keySize hash))
  | [], fuel, p, hl, _, _ => by
    obtain rfl := hl.head
    unfold findIn
    rfl
  | q :: l, 0, p, _, _, hfuel => by simp at hfuel
  | q :: l, fuel + 1, p, hl, halloc, hfuel => by
    obtain rfl := hl.head
    obtain ⟨n, hn⟩ : ∃ n, h.nodes[q]? = some n :=
      ⟨_, List.getElem?_eq_getElem (halloc q List.mem_cons_self)⟩
    have hnext : h.nextOf q = n.next := by simp [nextOf, hn]
    have hrest := hl.tail
    rw [hnext] at hrest
    simp only [List.head?_cons, findIn, load_eq hn, ok_bind, List.find?_cons, isKeyAt, hn,
      Option.any_some]
    split
    · rename_i hk
      rw [hk]
    · rename_i hk
      rw [Bool.not_eq_true _ |>.mp hk]
      exact findIn_eq key keySize hash hrest (fun r hr => halloc r (List.mem_cons_of_mem _ hr))
        (Nat.le_of_succ_le_succ hfuel)

/-- The loop of `hash_map_remove`: it stops at the first node with the key, with `prev` the
node before it, or at the end of the chain. -/
theorem findPrev_eq (key : K) (keySize hash : Nat) :
    ∀ {l : List Nat} (pre : List Nat) {fuel : Nat} {p : Option Nat}, Links h.nextOf p l →
      (∀ q ∈ l, q < h.nodes.length) → l.length ≤ fuel →
      (∃ a x b, l = a ++ x :: b ∧ h.isKeyAt key keySize hash x = true ∧
        findPrev h key keySize hash fuel pre.getLast? p = .ok ((pre ++ a).getLast?, some x)) ∨
      ((∀ q ∈ l, h.isKeyAt key keySize hash q = false) ∧
        ∃ prev, findPrev h key keySize hash fuel pre.getLast? p = .ok (prev, none))
  | [], pre, fuel, p, hl, _, _ => by
    obtain rfl := hl.head
    refine Or.inr ⟨fun q hq => absurd hq List.not_mem_nil, pre.getLast?, ?_⟩
    unfold findPrev
    rfl
  | q :: l, pre, 0, p, _, _, hfuel => by simp at hfuel
  | q :: l, pre, fuel + 1, p, hl, halloc, hfuel => by
    obtain rfl := hl.head
    obtain ⟨n, hn⟩ : ∃ n, h.nodes[q]? = some n :=
      ⟨_, List.getElem?_eq_getElem (halloc q List.mem_cons_self)⟩
    have hnext : h.nextOf q = n.next := by simp [nextOf, hn]
    have hrest := hl.tail
    rw [hnext] at hrest
    have hkey : h.isKeyAt key keySize hash q = h.isKey key keySize hash n := by
      simp [isKeyAt, hn]
    simp only [List.head?_cons, findPrev, load_eq hn, ok_bind]
    by_cases hk : h.isKey key keySize hash n = true
    · refine Or.inl ⟨[], q, l, rfl, hkey.trans hk, ?_⟩
      rw [if_pos hk, List.append_nil]
    · rw [if_neg hk]
      have ih := findPrev_eq key keySize hash (pre ++ [q]) hrest
        (fun r hr => halloc r (List.mem_cons_of_mem _ hr)) (Nat.le_of_succ_le_succ hfuel)
      rw [List.getLast?_concat] at ih
      rcases ih with ⟨a, x, b, rfl, hx, hok⟩ | ⟨hall, hok⟩
      · exact Or.inl ⟨q :: a, x, b, rfl, hx, by simpa using hok⟩
      · refine Or.inr ⟨fun r hr => ?_, hok⟩
        rcases List.mem_cons.mp hr with rfl | hr
        · rw [hkey]
          exact Bool.not_eq_true _ |>.mp hk
        · exact hall r hr

namespace Table

variable {key : K} {keySize p : Nat}

/-- The nodes with the key are in the chain of its hash. -/
theorem isEntry_iff (ht : Table h L) (hk : LawfulKeys h.equalityFn h.hashFn) :
    IsEntry h L key keySize p ↔ p ∈ L (h.hashFn key keySize % h.cap) ∧
      h.isKeyAt key keySize (h.hashFn key keySize) p = true := by
  constructor
  · rintro ⟨⟨c, hp⟩, n, hn, hsize, heq⟩
    have hhash : n.hash = h.hashFn key keySize := by
      rw [ht.hashed ⟨c, hp⟩ hn, hsize]
      exact (hk.hash_eq heq).symm
    have hc := ht.home hp
    simp only [cellOf, hn, Option.map_some, Option.some.injEq] at hc
    rw [← hhash, hc]
    exact ⟨hp, by simp [isKeyAt, hn, isKey, hsize, heq]⟩
  · rintro ⟨hp, hkey⟩
    obtain ⟨n, hn⟩ := ht.chained.node hp
    simp only [isKeyAt, hn, Option.any_some, isKey, decide_eq_true_eq] at hkey
    exact ⟨⟨_, hp⟩, n, hn, hkey.1, hkey.2.2⟩

/-- A key has at most one entry. -/
theorem isEntry_unique (ht : Table h L) (hk : LawfulKeys h.equalityFn h.hashFn) {q : Nat}
    (hp : IsEntry h L key keySize p) (hq : IsEntry h L key keySize q) : p = q := by
  obtain ⟨hsp, n, hn, hns, hne⟩ := hp
  obtain ⟨hsq, m, hm, hms, hme⟩ := hq
  refine ht.single hsp hsq hn hm (by rw [hms, hns]) ?_
  rw [hns]
  exact hk.trans (hk.symm hne) hme

/-! ## 2. The operations -/

/-- The walk along the chain of the key's hash finds the key's entry, if there is one. -/
theorem findIn_spec (ht : Table h L) (key : K) (keySize : Nat)
    (hk : LawfulKeys h.equalityFn h.hashFn) {head : Option Nat}
    (hhead : h.cells[h.hashFn key keySize % h.cap]? = some head) :
    ∃ r, findIn h key keySize (h.hashFn key keySize) h.nodes.length head = .ok r ∧
      ∀ p, r = some p ↔ IsEntry h L key keySize p := by
  have hl := ht.chained.chain hhead
  have hok := findIn_eq key keySize (h.hashFn key keySize) hl
    (fun q hq => ht.chained.alloc hq) (ht.chained.length_le _)
  refine ⟨_, hok, fun p => ⟨fun hf => ?_, fun hp => ?_⟩⟩
  · exact (ht.isEntry_iff hk).mpr ⟨List.mem_of_find?_eq_some hf, List.find?_some hf⟩
  · obtain ⟨hmem, hkey⟩ := (ht.isEntry_iff hk).mp hp
    cases hf : (L (h.hashFn key keySize % h.cap)).find?
        (h.isKeyAt key keySize (h.hashFn key keySize)) with
    | none => exact absurd hkey (by simpa using List.find?_eq_none.mp hf p hmem)
    | some q =>
      have hq : IsEntry h L key keySize q :=
        (ht.isEntry_iff hk).mpr ⟨List.mem_of_find?_eq_some hf, List.find?_some hf⟩
      rw [ht.isEntry_unique hk hp hq]

/-- **`hash_map_find`** returns the entry of the key, or NULL if there is none. -/
theorem find (ht : Table h L) (hk : LawfulKeys h.equalityFn h.hashFn) (key : K) (keySize : Nat) :
    ∃ r, hashMapFind h key keySize = .ok r ∧ ∀ p, r = some p ↔ IsEntry h L key keySize p := by
  unfold hashMapFind
  split
  · rename_i hcap
    refine ⟨none, rfl, fun p => ⟨fun hp => by simp at hp, ?_⟩⟩
    rintro ⟨⟨c, hp⟩, -⟩
    have hlt := ht.chained.cell_lt hp
    rw [ht.cells_length] at hlt
    omega
  · rename_i hcap
    have hlt : h.hashFn key keySize % h.cap < h.cells.length := by
      rw [ht.cells_length]
      exact Nat.mod_lt _ (Nat.pos_of_ne_zero hcap)
    dsimp only
    rw [load_eq (ht.chained.cell hlt), ok_bind]
    exact ht.findIn_spec key keySize hk (ht.chained.cell hlt)

/-- The growth test leaves a table with cells, and the same nodes in it. -/
theorem expandIfFull (ht : Table h L) :
    ∃ h' L', h.expandIfFull = .ok h' ∧ Table h' L' ∧ h'.cap ≠ 0 ∧
      (∀ p, h'.bodyOf p = h.bodyOf p) ∧ (∀ p, Stored L' p ↔ Stored L p) ∧
      h'.equalityFn = h.equalityFn ∧ h'.hashFn = h.hashFn ∧
      h'.nodes.length = h.nodes.length := by
  unfold HashMap.expandIfFull
  split
  · obtain ⟨h', L', hok, hc, hlen, hcap, hbody, hst, hhome, hfree, -, heq, hhash, hnl⟩ :=
      ht.chained.expand ht.cells_length
    have hold : ∀ {p : Nat} {n : HashNode K V}, h'.nodes[p]? = some n →
        ∃ v, h.nodes[p]? = some { n with next := v } :=
      fun {p _} hn => node_of_bodyOf (hbody p).symm hn
    refine ⟨h', L', hok, ⟨hc, hlen, fun hp => hhome _ _ hp, ?_, ?_, by rw [hfree, ht.noFree]⟩,
      by omega, hbody, hst, heq, hhash, hnl⟩
    · intro p n hp hn
      obtain ⟨v, hv⟩ := hold hn
      have hh := ht.hashed ((hst p).mp hp) hv
      rw [hhash]
      exact hh
    · intro p q n m hp hq hn hm hsize hkey
      obtain ⟨v, hv⟩ := hold hn
      obtain ⟨w, hw⟩ := hold hm
      rw [heq] at hkey
      exact ht.single ((hst p).mp hp) ((hst q).mp hq) hv hw hsize hkey
  · rename_i hfull
    exact ⟨h, L, rfl, ht, by omega, fun _ => rfl, fun _ => Iff.rfl, rfl, rfl, rfl⟩

/-- **`hash_map_insert` of a present key** returns its entry and changes no node. -/
theorem insert_present [Inhabited K] (ht : Table h L) (hk : LawfulKeys h.equalityFn h.hashFn)
    (hp : IsEntry h L key keySize p) :
    ∃ h' L', hashMapInsert h key keySize = .ok (h', p) ∧ Table h' L' ∧
      (∀ q, h'.bodyOf q = h.bodyOf q) ∧ (∀ q, Stored L' q ↔ Stored L q) ∧
      h'.equalityFn = h.equalityFn ∧ h'.hashFn = h.hashFn := by
  obtain ⟨h', L', hok, ht', hcap, hbody, hst, heq, hhash, -⟩ := ht.expandIfFull
  have hlt : h'.hashFn key keySize % h'.cap < h'.cells.length := by
    rw [ht'.cells_length]
    exact Nat.mod_lt _ (Nat.pos_of_ne_zero hcap)
  obtain ⟨r, hfind, hr⟩ := ht'.findIn_spec key keySize
    (by rw [heq, hhash]; exact hk) (ht'.chained.cell hlt)
  have hp' : IsEntry h' L' key keySize p := by
    obtain ⟨hs, n, hn, hsize, hkey⟩ := hp
    obtain ⟨v, hv⟩ := node_of_bodyOf (hbody p) hn
    exact ⟨(hst p).mpr hs, _, hv, hsize, by rw [heq]; exact hkey⟩
  refine ⟨h', L', ?_, ht', hbody, hst, heq, hhash⟩
  unfold hashMapInsert
  dsimp only
  rw [hok, ok_bind, require_of hcap, ok_bind, load_eq (ht'.chained.cell hlt), ok_bind, hfind,
    ok_bind, (hr p).mpr hp']

/-- **`hash_map_insert` of an absent key** adds a node fresh from `calloc`: it has the key, its
`val` is NULL, and every other node is as before. -/
theorem insert_absent [Inhabited K] (ht : Table h L) (hk : LawfulKeys h.equalityFn h.hashFn)
    (hp : ∀ p, ¬ IsEntry h L key keySize p) :
    ∃ h' L' x n, hashMapInsert h key keySize = .ok (h', x) ∧ Table h' L' ∧
      ¬ Stored L x ∧ (∀ q, Stored L' q ↔ Stored L q ∨ q = x) ∧
      (∀ q, q ≠ x → h'.bodyOf q = h.bodyOf q) ∧
      h'.nodes[x]? = some n ∧ n.key = key ∧ n.keySize = keySize ∧ n.val = none ∧
      h'.equalityFn = h.equalityFn ∧ h'.hashFn = h.hashFn := by
  obtain ⟨h₁, L₁, hok, ht₁, hcap, hbody, hst, heq, hhash, hnl⟩ := ht.expandIfFull
  have hk₁ : LawfulKeys h₁.equalityFn h₁.hashFn := by rw [heq, hhash]; exact hk
  have hlt : h₁.hashFn key keySize % h₁.cap < h₁.cells.length := by
    rw [ht₁.cells_length]
    exact Nat.mod_lt _ (Nat.pos_of_ne_zero hcap)
  obtain ⟨r, hfind, hr⟩ := ht₁.findIn_spec key keySize hk₁
    (ht₁.chained.cell hlt)
  have hnone : r = none := by
    cases hrc : r with
    | none => rfl
    | some p =>
      obtain ⟨hs, n, hn, hsize, hkey⟩ := (hr p).mp hrc
      obtain ⟨v, hv⟩ := node_of_bodyOf (hbody p).symm hn
      exact absurd ⟨(hst p).mp hs, _, hv, hsize, by rw [← heq]; exact hkey⟩ (hp p)
  obtain ⟨h₂, h₃, htake, hpush, hadd, hc₄⟩ :=
    ht₁.chained.add ht₁.noFree hlt key keySize (h₁.hashFn key keySize)
  obtain ⟨nx, hx₄, hxkey, hxsize, hxhash, hxval⟩ := hadd.node
  let x := h₁.nodes.length
  let h₄ := h₃.setKey x key keySize (h₁.hashFn key keySize)
  have hbody₄ : ∀ {q}, q < h₁.nodes.length → h₄.bodyOf q = h₁.bodyOf q := hadd.body
  have hst₄ : ∀ q, Stored (Function.update L₁ (h₁.hashFn key keySize % h₁.cap)
      (x :: L₁ (h₁.hashFn key keySize % h₁.cap))) q ↔ Stored L q ∨ q = x := by
    intro q
    rw [stored_push, hst]
  have hstlt : ∀ {q}, Stored L q → q < h₁.nodes.length := fun {q} hq => by
    obtain ⟨c, hqc⟩ := (hst q).mpr hq
    exact ht₁.chained.alloc hqc
  have hback : ∀ {q : Nat} {n : HashNode K V}, Stored L q → h₄.nodes[q]? = some n →
      ∃ w, h₁.nodes[q]? = some { n with next := w } :=
    fun hq hn => node_of_bodyOf (hbody₄ (hstlt hq)).symm hn
  have heq₄ : h₄.equalityFn = h₁.equalityFn := hadd.equalityFn
  have hhash₄ : h₄.hashFn = h₁.hashFn := hadd.hashFn
  have hcap₄ : h₄.cap = h₁.cap := hadd.cap
  have hfresh : ∀ {q m}, Stored L q → h₄.nodes[q]? = some m → m.keySize = keySize →
      h₁.equalityFn key m.key keySize = 0 → False := by
    intro q m hq hm hsize hkey
    obtain ⟨w, hw⟩ := hback hq hm
    obtain ⟨w', hw'⟩ := node_of_bodyOf (hbody q).symm hw
    exact hp q ⟨hq, _, hw', hsize, by rw [← heq]; exact hkey⟩
  refine ⟨h₄, _, x, nx, ?_, ⟨hc₄, ?_, ?_, ?_, ?_, hadd.free⟩, ?_, hst₄, ?_, hx₄, hxkey, hxsize,
    hxval, ?_, ?_⟩
  · unfold hashMapInsert
    dsimp only
    rw [hok, ok_bind, require_of hcap, ok_bind, load_eq (ht₁.chained.cell hlt), ok_bind, hfind,
      ok_bind, hnone]
    simp only [htake, ok_bind, hpush]
    rfl
  · rw [hcap₄, ← ht₁.cells_length]
    exact hadd.cells
  · intro c q hq
    rw [hcap₄]
    by_cases hcc : c = h₁.hashFn key keySize % h₁.cap
    · subst hcc
      rw [Function.update_self] at hq
      rcases List.mem_cons.mp hq with rfl | hq
      · simp [cellOf, h₄, x, hx₄, hxhash]
      · obtain ⟨n, hn⟩ := ht₁.chained.node hq
        obtain ⟨w, hw⟩ := node_of_bodyOf (hbody₄ (ht₁.chained.alloc hq)) hn
        have hhome := ht₁.home hq
        simp only [cellOf, hn, hw, Option.map_some] at hhome ⊢
        exact hhome
    · rw [Function.update_of_ne hcc] at hq
      obtain ⟨n, hn⟩ := ht₁.chained.node hq
      obtain ⟨w, hw⟩ := node_of_bodyOf (hbody₄ (ht₁.chained.alloc hq)) hn
      have hhome := ht₁.home hq
      simp only [cellOf, hn, hw, Option.map_some] at hhome ⊢
      exact hhome
  · intro q n hq hn
    rcases (hst₄ q).mp hq with hq | rfl
    · obtain ⟨w, hw⟩ := hback hq hn
      have hh := ht₁.hashed ((hst q).mpr hq) hw
      rw [hhash₄]
      exact hh
    · rw [hx₄, Option.some.injEq] at hn
      rw [hhash₄, ← hn, hxhash, hxkey, hxsize]
  · intro p q n m hp hq hn hm hsize hkey
    rw [heq₄] at hkey
    rcases (hst₄ p).mp hp with hp | rfl <;> rcases (hst₄ q).mp hq with hq | rfl
    · obtain ⟨w, hw⟩ := hback hp hn
      obtain ⟨w', hw'⟩ := hback hq hm
      exact ht₁.single ((hst p).mpr hp) ((hst q).mpr hq) hw hw' hsize hkey
    · rw [hx₄, Option.some.injEq] at hm
      subst hm
      rw [hxkey, ← hsize, hxsize] at hkey
      exact (hfresh hp hn (hsize.symm.trans hxsize) (hk₁.symm hkey)).elim
    · rw [hx₄, Option.some.injEq] at hn
      subst hn
      rw [hxkey, hxsize] at hkey
      exact (hfresh hq hm (hsize.trans hxsize) hkey).elim
    · rfl
  · exact fun hx => Nat.lt_irrefl _ (hstlt hx)
  · intro q hq
    rcases Nat.lt_or_ge q h₁.nodes.length with hlt' | hge
    · rw [hbody₄ hlt', hbody]
    · have hnone₄ : h₄.nodes[q]? = none := by
        have hlen : h₄.nodes.length = h₁.nodes.length + 1 := hadd.nodes
        rw [List.getElem?_eq_none_iff, hlen]
        omega
      have hnone₁ : h.nodes[q]? = none := List.getElem?_eq_none_iff.mpr (by omega)
      simp [bodyOf, hnone₄, hnone₁]
  · rw [heq₄, heq]
  · rw [hhash₄, hhash]

/-- A write of `val` through a returned node leaves the table as it is. -/
theorem setVal (ht : Table h L) (x : Nat) (v : Option V) : Table (h.setVal x v) L := by
  have hnode : ∀ {q : Nat} {n : HashNode K V}, (h.setVal x v).nodes[q]? = some n →
      ∃ w, h.nodes[q]? = some { n with val := w } := by
    intro q n hn
    simp only [HashMap.setVal, List.getElem?_modify, Option.map_eq_map,
      Option.map_eq_some_iff] at hn
    obtain ⟨n', hn', he⟩ := hn
    refine ⟨n'.val, ?_⟩
    rw [hn', ← he]
    split <;> rfl
  refine ⟨ht.chained.of_eq rfl (fun q _ => ?_) (by simp [HashMap.setVal]), ht.cells_length, ?_, ?_,
    ?_, ht.noFree⟩
  · by_cases hq : x = q
    · subst hq
      cases hn : h.nodes[x]? <;> simp [nextOf, HashMap.setVal, hn]
    · simp [nextOf, HashMap.setVal, hq]
  · intro c q hq
    obtain ⟨n, hn⟩ := ht.chained.node hq
    have hhome := ht.home hq
    by_cases hqx : x = q
    · subst hqx
      simpa [cellOf, HashMap.setVal, hn] using hhome
    · simpa [cellOf, HashMap.setVal, hqx] using hhome
  · intro q n hq hn
    obtain ⟨w, hw⟩ := hnode hn
    have hh := ht.hashed hq hw
    exact hh
  · intro p q n m hp hq hn hm hsize hkey
    obtain ⟨w, hw⟩ := hnode hn
    obtain ⟨w', hw'⟩ := hnode hm
    exact ht.single hp hq hw hw' hsize hkey

/-- **`hash_map_remove` of an absent key** returns NULL and changes nothing. -/
theorem remove_absent (ht : Table h L) (hk : LawfulKeys h.equalityFn h.hashFn)
    (hp : ∀ p, ¬ IsEntry h L key keySize p) :
    hashMapRemove h key keySize = .ok (h, none) := by
  unfold hashMapRemove
  split
  · rfl
  · rename_i hcap
    have hlt : h.hashFn key keySize % h.cap < h.cells.length := by
      rw [ht.cells_length]
      exact Nat.mod_lt _ (Nat.pos_of_ne_zero hcap)
    have hl := ht.chained.chain (ht.chained.cell hlt)
    dsimp only
    rw [load_eq (ht.chained.cell hlt), ok_bind]
    rcases findPrev_eq key keySize (h.hashFn key keySize) [] hl
      (fun q hq => ht.chained.alloc hq) (ht.chained.length_le _) with
      ⟨a, x, b, hsplit, hx, -⟩ | ⟨-, prev, hok⟩
    · exact absurd ((ht.isEntry_iff hk).mpr ⟨by simp [hsplit], hx⟩) (hp x)
    · rw [List.getLast?_nil] at hok
      rw [hok]
      rfl

/-- **`hash_map_remove` of a present key** returns its entry, takes exactly this node out of
the table, and leaves `free` as it was: the node is not recycled. -/
theorem remove_present (ht : Table h L) (hk : LawfulKeys h.equalityFn h.hashFn)
    (hp : IsEntry h L key keySize p) :
    ∃ h' L', hashMapRemove h key keySize = .ok (h', some p) ∧ Table h' L' ∧
      (∀ q, Stored L' q ↔ Stored L q ∧ q ≠ p) ∧ (∀ q, h'.bodyOf q = h.bodyOf q) ∧
      h'.equalityFn = h.equalityFn ∧ h'.hashFn = h.hashFn := by
  obtain ⟨hmem, hkey⟩ := (ht.isEntry_iff hk).mp hp
  have hlt := ht.chained.cell_lt hmem
  have hcap : h.cap ≠ 0 := by rw [ht.cells_length] at hlt; omega
  have hl := ht.chained.chain (ht.chained.cell hlt)
  rcases findPrev_eq key keySize (h.hashFn key keySize) [] hl
    (fun q hq => ht.chained.alloc hq) (ht.chained.length_le _) with
    ⟨a, x, b, hsplit, hx, hok⟩ | ⟨hall, -⟩
  swap
  · rw [hall p hmem] at hkey
    exact absurd hkey (by simp)
  have hxp : x = p := ht.isEntry_unique hk
    ((ht.isEntry_iff hk).mpr ⟨by simp [hsplit], hx⟩) hp
  subst hxp
  rw [List.getLast?_nil, List.nil_append] at hok
  obtain ⟨n, hn⟩ := ht.chained.node hmem
  -- `prev` is null only if the node is the head of its chain
  have hhead : a.getLast? ≠ none ∨
      (L (h.hashFn key keySize % h.cap)).head? = some x := by
    cases a with
    | nil => exact Or.inr (by rw [hsplit]; rfl)
    | cons y a => exact Or.inl (by simp)
  have hst : ∀ q, Stored (Function.update L (h.hashFn key keySize % h.cap) (a ++ b)) q ↔
      Stored L q ∧ q ≠ x := fun q => ht.chained.stored_unlink hsplit
  obtain ⟨h₂, hdrop, hload, hr₂, hc₂⟩ := ht.chained.drop ht.noFree hsplit hn
  have hback : ∀ {q : Nat} {m : HashNode K V}, h₂.nodes[q]? = some m →
      ∃ w, h.nodes[q]? = some { m with next := w } :=
    fun {q _} hm => node_of_bodyOf (hr₂.body q).symm hm
  refine ⟨{ h₂ with free := none }, _, ?_, ⟨hc₂, ?_, ?_, ?_, ?_, rfl⟩, hst, hr₂.body,
    hr₂.equalityFn, hr₂.hashFn⟩
  · unfold hashMapRemove
    rw [if_neg hcap]
    dsimp only
    rw [load_eq (ht.chained.cell hlt), ok_bind, hok, ok_bind]
    dsimp only
    rw [load_eq hn, ok_bind, require_of hhead, ok_bind, hdrop, load_eq hload, ok_bind]
  · exact hr₂.cells.trans (ht.cells_length.trans hr₂.cap.symm)
  · intro c q hq
    obtain ⟨d, hd⟩ := ((hst q).mp ⟨c, hq⟩).1
    have hcd : c = d := by
      by_cases hcc : c = h.hashFn key keySize % h.cap
      · subst hcc
        rw [Function.update_self] at hq
        refine ht.chained.apart ?_ hd
        rw [hsplit]
        rcases List.mem_append.mp hq with hq | hq
        · exact List.mem_append_left _ hq
        · exact List.mem_append_right _ (List.mem_cons_of_mem _ hq)
      · rw [Function.update_of_ne hcc] at hq
        exact ht.chained.apart hq hd
    subst hcd
    have := ht.home hd
    rw [← hr₂.cellOf, ← hr₂.cap] at this
    exact this
  · intro q m hq hm
    obtain ⟨w, hw⟩ := hback hm
    have hh := ht.hashed ((hst q).mp hq).1 hw
    rw [← hr₂.hashFn] at hh
    exact hh
  · intro q r m m' hq hr hm hm' hsize heq
    obtain ⟨w, hw⟩ := hback hm
    obtain ⟨w', hw'⟩ := hback hm'
    refine ht.single ((hst q).mp hq).1 ((hst r).mp hr).1 hw hw' hsize ?_
    rw [← hr₂.equalityFn]
    exact heq

end Table

/-! ## 3. As a finite map -/

/-- `h` stores the finite map `m`: the callbacks compare for equality, every key has size
`size`, no stored `val` is NULL, and the entry of `k` has the `val` `m k`. -/
structure MapsTo (h : HashMap K V) (size : Nat) (m : K → Option V) : Prop where
  eq_iff : ∀ {a b : K} {s : Nat}, h.equalityFn a b s = 0 ↔ a = b
  table : ∃ L, Table h L ∧
    (∀ p n, Stored L p → h.nodes[p]? = some n → n.keySize = size ∧ n.val.isSome ∧
      m n.key = n.val) ∧
    ∀ k, (m k).isSome → ∃ p n, Stored L p ∧ h.nodes[p]? = some n ∧ n.key = k

namespace MapsTo

variable {size : Nat} {m : K → Option V} {k : K} {v : V}

theorem lawful (hm : h.MapsTo size m) : LawfulKeys h.equalityFn h.hashFn where
  refl := fun _ _ => hm.eq_iff.mpr rfl
  symm := fun e => hm.eq_iff.mpr (hm.eq_iff.mp e).symm
  trans := fun e f => hm.eq_iff.mpr ((hm.eq_iff.mp e).trans (hm.eq_iff.mp f))
  hash_eq := fun e => by rw [hm.eq_iff.mp e]

theorem zero {equalityFn : K → K → Nat → Int} {hashFn : K → Nat → Nat}
    (heq : ∀ {a b : K} {s : Nat}, equalityFn a b s = 0 ↔ a = b) :
    (zero equalityFn hashFn : HashMap K V).MapsTo size fun _ => none where
  eq_iff := heq
  table := ⟨_, zero_table _ _, fun p n hp => absurd hp.choose_spec List.not_mem_nil,
    fun k hk => by simp at hk⟩

/-- A key that is not in the map has no entry. -/
theorem no_entry {L : Nat → List Nat} (heq : ∀ {a b : K} {s : Nat}, h.equalityFn a b s = 0 ↔ a = b)
    (hL : ∀ p n, Stored L p → h.nodes[p]? = some n → n.keySize = size ∧ n.val.isSome ∧
      m n.key = n.val) (hk : m k = none) (p : Nat) : ¬ IsEntry h L k size p := by
  rintro ⟨hp, n, hn, -, hkey⟩
  obtain ⟨-, hsome, hval⟩ := hL p n hp hn
  rw [← heq.mp hkey, hk] at hval
  rw [← hval] at hsome
  simp at hsome

/-- **Find.** -/
theorem find_none (hm : h.MapsTo size m) (hk : m k = none) :
    hashMapFind h k size = .ok none := by
  obtain ⟨L, ht, hL, -⟩ := hm.table
  obtain ⟨r, hok, hr⟩ := ht.find hm.lawful k size
  cases r with
  | none => exact hok
  | some p => exact absurd ((hr p).mp rfl) (no_entry hm.eq_iff hL hk p)

theorem find_some (hm : h.MapsTo size m) (hk : m k = some v) :
    ∃ p n, hashMapFind h k size = .ok (some p) ∧ h.nodes[p]? = some n ∧ n.val = some v := by
  obtain ⟨L, ht, hL, hall⟩ := hm.table
  obtain ⟨r, hok, hr⟩ := ht.find hm.lawful k size
  obtain ⟨p, n, hp, hn, rfl⟩ := hall k (by simp [hk])
  obtain ⟨hsize, -, hval⟩ := hL p n hp hn
  have hentry : IsEntry h L n.key size p := ⟨hp, n, hn, hsize, hm.eq_iff.mpr rfl⟩
  exact ⟨p, n, by rw [hok, (hr p).mpr hentry], hn, by rw [← hval, hk]⟩

/-- **Insert of a present key.** -/
theorem insert_some [Inhabited K] (hm : h.MapsTo size m) (hk : m k = some v) :
    ∃ h' p n, hashMapInsert h k size = .ok (h', p) ∧ h'.nodes[p]? = some n ∧ n.val = some v := by
  obtain ⟨L, ht, hL, hall⟩ := hm.table
  obtain ⟨p, n, hp, hn, rfl⟩ := hall k (by simp [hk])
  obtain ⟨hsize, -, hval⟩ := hL p n hp hn
  have hentry : IsEntry h L n.key size p := ⟨hp, n, hn, hsize, hm.eq_iff.mpr rfl⟩
  obtain ⟨h', -, hok, -, hbody, -⟩ := ht.insert_present hm.lawful hentry
  obtain ⟨w, hw⟩ := node_of_bodyOf (hbody p) hn
  exact ⟨h', p, _, hok, hw, by rw [← hk, hval]⟩

/-- **Insert of a new key, and the write of its `val`.** -/
theorem insert_none [Inhabited K] [DecidableEq K] (hm : h.MapsTo size m) (hk : m k = none) :
    ∃ h' p n, hashMapInsert h k size = .ok (h', p) ∧ h'.nodes[p]? = some n ∧ n.val = none ∧
      ∀ v, (h'.setVal p (some v)).MapsTo size (Function.update m k (some v)) := by
  obtain ⟨L, ht, hL, hall⟩ := hm.table
  obtain ⟨h', L', x, n, hok, ht', hxL, hst, hbody, hx, hkey, hsize, hval, heq, hhash⟩ :=
    ht.insert_absent hm.lawful (no_entry hm.eq_iff hL hk)
  refine ⟨h', x, n, hok, hx, hval, fun v => ⟨?_, L', ?_, ?_, ?_⟩⟩
  · intro a b s
    show h'.equalityFn a b s = 0 ↔ a = b
    rw [heq]
    exact hm.eq_iff
  · exact ht'.setVal x (some v)
  · intro q n' hq hn'
    by_cases hqx : q = x
    · subst hqx
      simp only [setVal, List.getElem?_modify, hx, if_pos, Option.map_eq_map, Option.map_some,
        Option.some.injEq] at hn'
      subst hn'
      simp [hkey, hsize]
    · have hq' : Stored L q := by
        rcases (hst q).mp hq with hq | hq
        · exact hq
        · exact absurd hq hqx
      have hn'' : h'.nodes[q]? = some n' := by
        simpa [setVal, Ne.symm hqx] using hn'
      obtain ⟨w, hw⟩ := node_of_bodyOf (hbody q hqx).symm hn''
      obtain ⟨h1, h2, h3⟩ := hL q _ hq' hw
      refine ⟨h1, h2, ?_⟩
      rw [Function.update_of_ne]
      · exact h3
      · intro e
        rw [← e] at hk
        simp only at h3
        rw [hk] at h3
        simp [← h3] at h2
  · intro k' hk'
    by_cases hkk : k' = k
    · subst hkk
      exact ⟨x, { n with val := some v }, (hst x).mpr (Or.inr rfl), by simp [setVal, hx], hkey⟩
    · rw [Function.update_of_ne hkk] at hk'
      obtain ⟨p, n', hp, hn', rfl⟩ := hall k' hk'
      have hpx : p ≠ x := fun e => hxL (e ▸ hp)
      obtain ⟨w, hw⟩ := node_of_bodyOf (hbody p hpx) hn'
      refine ⟨p, { n' with next := w }, (hst p).mpr (Or.inl hp), ?_, rfl⟩
      simpa [setVal, Ne.symm hpx] using hw

/-- **Remove.** -/
theorem remove_none (hm : h.MapsTo size m) (hk : m k = none) :
    hashMapRemove h k size = .ok (h, none) := by
  obtain ⟨L, ht, hL, -⟩ := hm.table
  exact ht.remove_absent hm.lawful (no_entry hm.eq_iff hL hk)

theorem remove_some [DecidableEq K] (hm : h.MapsTo size m) (hk : m k = some v) :
    ∃ h' p n, hashMapRemove h k size = .ok (h', some p) ∧ h'.nodes[p]? = some n ∧
      n.val = some v ∧ h'.MapsTo size (Function.update m k none) := by
  obtain ⟨L, ht, hL, hall⟩ := hm.table
  obtain ⟨p, n, hp, hn, rfl⟩ := hall k (by simp [hk])
  obtain ⟨hsize, -, hval⟩ := hL p n hp hn
  have hentry : IsEntry h L n.key size p := ⟨hp, n, hn, hsize, hm.eq_iff.mpr rfl⟩
  obtain ⟨h', L', hok, ht', hst, hbody, heq, hhash⟩ := ht.remove_present hm.lawful hentry
  obtain ⟨w, hw⟩ := node_of_bodyOf (hbody p) hn
  refine ⟨h', p, _, hok, hw, by rw [← hk, hval], ?_, L', ht', ?_, ?_⟩
  · intro a b s
    rw [heq]
    exact hm.eq_iff
  · intro q n' hq hn'
    obtain ⟨hq, hqp⟩ := (hst q).mp hq
    obtain ⟨w', hw'⟩ := node_of_bodyOf (hbody q).symm hn'
    obtain ⟨h1, h2, h3⟩ := hL q _ hq hw'
    refine ⟨h1, h2, ?_⟩
    rw [Function.update_of_ne]
    · exact h3
    · intro e
      exact hqp (ht.single hq hp hw' hn (hsize.trans h1.symm) (hm.eq_iff.mpr e))
  · intro k' hk'
    by_cases hkk : k' = n.key
    · subst hkk
      simp at hk'
    · rw [Function.update_of_ne hkk] at hk'
      obtain ⟨q, n', hq, hn', rfl⟩ := hall k' hk'
      have hqp : q ≠ p := by
        rintro rfl
        rw [hn, Option.some.injEq] at hn'
        exact hkk (by rw [hn'])
      obtain ⟨w', hw'⟩ := node_of_bodyOf (hbody q) hn'
      exact ⟨q, _, (hst q).mpr ⟨hq, hqp⟩, hw', rfl⟩

end MapsTo
end HashMap
end CAsync
