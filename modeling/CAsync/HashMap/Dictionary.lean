/-
# The hash map implements a finite map

A `Dict` is what a client of the map sees: for each key of each size, the node that the map has
for it and the `val` of this node.  `Dict.step` is what each operation does to it, and `Answers`
is what the client is told.  Keys are equal if `equality_fn` says so, and need not be the same
pointer.

`Models h m` connects the two: the nodes in the table are those of `m`.  Section 2 is one step, and
section 3 every sequence of operations from the zeroed struct (`finite_map`).
-/
import CAsync.HashMap.Table

namespace CAsync

open Faulting HashMap

variable {K V : Type}

/-! ## 1. Operations -/

/-- A use of a hash map; `write` is `n->val = val` through a node that some operation returned. -/
inductive MapOp (K V : Type) where
  | insert (key : K) (keySize : Nat)
  | find (key : K) (keySize : Nat)
  | remove (key : K) (keySize : Nat)
  | write (n : Nat) (val : Option V)

/-- The operation, and the node it returns. -/
def mapOp [Inhabited K] (h : HashMap K V) : MapOp K V → Except Fault (HashMap K V × Option Nat)
  | .insert key keySize => do
    let (h, n) ← hashMapInsert h key keySize
    .ok (h, some n)
  | .find key keySize => do
    let n ← hashMapFind h key keySize
    .ok (h, n)
  | .remove key keySize => hashMapRemove h key keySize
  | .write n val => do
    let _ ← load h.nodes n
    .ok (h.setVal n val, some n)

/-- For each present key, its node and the `val` of the node. -/
abbrev Dict (K V : Type) := K → Nat → Option (Nat × Option V)

namespace Dict

variable {m : Dict K V} {equalityFn : K → K → Nat → Int} {key k : K} {keySize s n : Nat}

/-- The entry of all keys equal to `key`. -/
def put (equalityFn : K → K → Nat → Int) (m : Dict K V) (key : K) (keySize : Nat)
    (e : Option (Nat × Option V)) : Dict K V :=
  fun k s => if s = keySize ∧ equalityFn key k keySize = 0 then e else m k s

/-- The `val` of a node. -/
def write (m : Dict K V) (n : Nat) (val : Option V) : Dict K V :=
  fun k s => (m k s).map fun e => if e.1 = n then (n, val) else e

/-- What an operation that returns the node `reply` does. -/
def step (equalityFn : K → K → Nat → Int) (m : Dict K V) : MapOp K V → Option Nat → Dict K V
  | .insert key keySize, some n =>
    if (m key keySize).isSome then m else m.put equalityFn key keySize (some (n, none))
  | .insert _ _, none => m
  | .find _ _, _ => m
  | .remove key keySize, _ => m.put equalityFn key keySize none
  | .write n val, _ => m.write n val

/-- The dictionary after the operations `ops` with the replies `out`. -/
def after (equalityFn : K → K → Nat → Int) (ops : List (MapOp K V)) (out : List (Option Nat)) :
    Dict K V :=
  (ops.zip out).foldl (fun m x => m.step equalityFn x.1 x.2) fun _ _ => none

theorem after_snoc {ops : List (MapOp K V)} {out : List (Option Nat)}
    (hlen : ops.length = out.length) (op : MapOp K V) (reply : Option Nat) :
    after equalityFn (ops ++ [op]) (out ++ [reply]) =
      (after equalityFn ops out).step equalityFn op reply := by
  unfold after
  rw [List.zip_append hlen, List.foldl_append]
  rfl

theorem put_of_eq {e : Option (Nat × Option V)} (hs : s = keySize)
    (hk : equalityFn key k keySize = 0) : m.put equalityFn key keySize e k s = e :=
  if_pos ⟨hs, hk⟩

theorem put_of_ne {e : Option (Nat × Option V)}
    (h : ¬ (s = keySize ∧ equalityFn key k keySize = 0)) :
    m.put equalityFn key keySize e k s = m k s := if_neg h

end Dict

/-- **What an operation returns.**  `insert` returns the node of the key, or the node of no key;
`find` and `remove` return the node of the key, or NULL if the key is absent. -/
def Answers (m : Dict K V) (reply : Option Nat) : MapOp K V → Prop
  | .insert key keySize => ∃ n, reply = some n ∧
    ((∃ v, m key keySize = some (n, v)) ∨
      m key keySize = none ∧ ∀ k s v, m k s ≠ some (n, v))
  | .find key keySize => reply = (m key keySize).map Prod.fst
  | .remove key keySize => reply = (m key keySize).map Prod.fst
  | .write n _ => reply = some n

/-- The `val` that the returned node must hold: the one that was written last for the key, or NULL
for a new key. -/
def MapOp.lastVal (m : Dict K V) : MapOp K V → Option V
  | .insert key keySize => (m key keySize).bind Prod.snd
  | .find key keySize => (m key keySize).bind Prod.snd
  | .remove key keySize => (m key keySize).bind Prod.snd
  | .write _ val => val

/-! ## 2. One operation -/

/-- `h` has the callbacks it was given, and its table holds the nodes of the dictionary `m`. -/
structure Models (equalityFn : K → K → Nat → Int) (hashFn : K → Nat → Nat) (h : HashMap K V)
    (m : Dict K V) (L : Nat → List Nat) : Prop where
  equalityFn_eq : h.equalityFn = equalityFn
  hashFn_eq : h.hashFn = hashFn
  table : Table h L
  entry : ∀ {k : K} {s n : Nat} {v : Option V}, m k s = some (n, v) ↔
    IsEntry h L k s n ∧ ∃ node, h.nodes[n]? = some node ∧ node.val = v

namespace Models

variable {equalityFn : K → K → Nat → Int} {hashFn : K → Nat → Nat} {h h' : HashMap K V}
  {m : Dict K V} {L L' : Nat → List Nat} {key : K} {keySize p : Nat}

theorem zero : Models equalityFn hashFn (HashMap.zero equalityFn hashFn : HashMap K V)
    (fun _ _ => none) fun _ => [] where
  equalityFn_eq := rfl
  hashFn_eq := rfl
  table := zero_table _ _
  entry := by
    intro k s n v
    constructor
    · intro h
      cases h
    · rintro ⟨⟨⟨c, hc⟩, -⟩, -⟩
      exact absurd hc List.not_mem_nil

theorem lawful (hm : Models equalityFn hashFn h m L) (hk : LawfulKeys equalityFn hashFn) :
    LawfulKeys h.equalityFn h.hashFn := by
  rw [hm.equalityFn_eq, hm.hashFn_eq]
  exact hk

/-- A key is in the dictionary if it has a node. -/
theorem of_isEntry (hm : Models equalityFn hashFn h m L) (hp : IsEntry h L key keySize p) :
    ∃ v, m key keySize = some (p, v) := by
  obtain ⟨n, hn, -⟩ := hp.2
  exact ⟨n.val, hm.entry.mpr ⟨hp, n, hn, rfl⟩⟩

theorem no_entry (hm : Models equalityFn hashFn h m L) (hnone : m key keySize = none) (p : Nat) :
    ¬ IsEntry h L key keySize p := by
  intro hp
  obtain ⟨v, hv⟩ := hm.of_isEntry hp
  rw [hnone] at hv
  cases hv

/-- Nodes with unchanged bodies are entries of the same keys. -/
theorem isEntry_congr (heq : h'.equalityFn = h.equalityFn) (hst : Stored L' p ↔ Stored L p)
    (hbody : Stored L p → h'.bodyOf p = h.bodyOf p) :
    IsEntry h' L' key keySize p ↔ IsEntry h L key keySize p := by
  constructor
  · rintro ⟨hp, n, hn, hsize, hkey⟩
    have hp' := hst.mp hp
    obtain ⟨w, hw⟩ := node_of_bodyOf (hbody hp').symm hn
    exact ⟨hp', _, hw, hsize, by rw [← heq]; exact hkey⟩
  · rintro ⟨hp, n, hn, hsize, hkey⟩
    obtain ⟨w, hw⟩ := node_of_bodyOf (hbody hp) hn
    exact ⟨hst.mpr hp, _, hw, hsize, by rw [heq]; exact hkey⟩

/-- So is their `val`. -/
theorem val_congr {v : Option V} (hbody : h'.bodyOf p = h.bodyOf p) :
    (∃ node, h'.nodes[p]? = some node ∧ node.val = v) ↔
      ∃ node, h.nodes[p]? = some node ∧ node.val = v := by
  constructor
  · rintro ⟨n, hn, hv⟩
    obtain ⟨w, hw⟩ := node_of_bodyOf hbody.symm hn
    exact ⟨_, hw, hv⟩
  · rintro ⟨n, hn, hv⟩
    obtain ⟨w, hw⟩ := node_of_bodyOf hbody hn
    exact ⟨_, hw, hv⟩

/-- Nodes are never given back. -/
theorem length_le (hbody : ∀ q, (h.bodyOf q).isSome → (h'.bodyOf q).isSome) :
    h.nodes.length ≤ h'.nodes.length := by
  by_contra hlt
  have hlast := hbody h'.nodes.length (bodyOf_isSome.mpr (by omega))
  exact absurd (bodyOf_isSome.mp hlast) (Nat.lt_irrefl _)

/-- **Find.** -/
theorem find (hm : Models equalityFn hashFn h m L) (hk : LawfulKeys equalityFn hashFn) (key : K)
    (keySize : Nat) : hashMapFind h key keySize = .ok ((m key keySize).map Prod.fst) := by
  obtain ⟨r, hok, hr⟩ := hm.table.find (hm.lawful hk) key keySize
  rw [hok]
  cases hmk : m key keySize with
  | none =>
    cases r with
    | none => rfl
    | some p => exact absurd ((hr p).mp rfl) (hm.no_entry hmk p)
  | some e =>
    rw [(hr e.1).mpr (hm.entry.mp (by rw [hmk])).1]
    rfl

/-- **Insert of a present key.** -/
theorem insert_present [Inhabited K] (hm : Models equalityFn hashFn h m L)
    (hk : LawfulKeys equalityFn hashFn) {v : Option V} (hmk : m key keySize = some (p, v)) :
    ∃ h' L', hashMapInsert h key keySize = .ok (h', p) ∧ h.nodes.length ≤ h'.nodes.length ∧
      Models equalityFn hashFn h' m L' := by
  obtain ⟨h', L', hok, ht, hbody, hst, heq, hhash⟩ :=
    hm.table.insert_present (hm.lawful hk) (hm.entry.mp hmk).1
  refine ⟨h', L', hok, length_le fun q => (hbody q).symm ▸ id, by rw [heq, hm.equalityFn_eq],
    by rw [hhash, hm.hashFn_eq], ht, ?_⟩
  intro k s n w
  rw [hm.entry, isEntry_congr heq (hst n) fun _ => hbody n, val_congr (hbody n)]

/-- **Insert of an absent key.** -/
theorem insert_absent [Inhabited K] (hm : Models equalityFn hashFn h m L)
    (hk : LawfulKeys equalityFn hashFn) (hmk : m key keySize = none) :
    ∃ h' L' x, hashMapInsert h key keySize = .ok (h', x) ∧ (∀ k s v, m k s ≠ some (x, v)) ∧
      h.nodes.length ≤ h'.nodes.length ∧
      Models equalityFn hashFn h' (m.put equalityFn key keySize (some (x, none))) L' := by
  obtain ⟨h', L', x, nx, hok, ht, hxL, hst, hbody, hx, hxkey, hxsize, hxval, heq, hhash⟩ :=
    hm.table.insert_absent (hm.lawful hk) (hm.no_entry hmk)
  have hxold : ∀ {k s}, ¬ IsEntry h L k s x := fun hp => hxL hp.1
  have hxsome : (h'.bodyOf x).isSome := by
    rw [bodyOf, hx]
    rfl
  refine ⟨h', L', x, hok, fun k s v hv => hxold (hm.entry.mp hv).1, length_le fun q => ?_,
    by rw [heq, hm.equalityFn_eq], by rw [hhash, hm.hashFn_eq], ht, ?_⟩
  · by_cases hqx : q = x
    · rw [hqx]
      exact fun _ => hxsome
    · rw [hbody q hqx]
      exact id
  -- the keys of the new node
  have hnew : ∀ {k s}, IsEntry h' L' k s x ↔ s = keySize ∧ equalityFn key k keySize = 0 := by
    intro k s
    constructor
    · rintro ⟨-, n, hn, hsize, hkey⟩
      rw [hx, Option.some.injEq] at hn
      subst hn
      obtain rfl : s = keySize := hsize.symm.trans hxsize
      rw [heq, hm.equalityFn_eq, hxkey] at hkey
      exact ⟨rfl, hk.symm hkey⟩
    · rintro ⟨rfl, hkey⟩
      refine ⟨(hst x).mpr (.inr rfl), nx, hx, hxsize, ?_⟩
      rw [heq, hm.equalityFn_eq, hxkey]
      exact hk.symm hkey
  have hold : ∀ {k : K} {s q : Nat}, q ≠ x → (IsEntry h' L' k s q ↔ IsEntry h L k s q) :=
    fun {k s q} hq => isEntry_congr heq
      ((hst q).trans ⟨fun h => h.resolve_right hq, .inl⟩) fun _ => hbody q hq
  intro k s n v
  by_cases hsame : s = keySize ∧ equalityFn key k keySize = 0
  · rw [Dict.put_of_eq hsame.1 hsame.2]
    constructor
    · intro he
      cases he
      exact ⟨hnew.mpr hsame, nx, hx, hxval⟩
    · rintro ⟨hentry, node, hnode, hval⟩
      by_cases hnx : n = x
      · subst hnx
        rw [hx, Option.some.injEq] at hnode
        rw [← hval, ← hnode, hxval]
      · -- another node of the key would have been one of `key`
        obtain ⟨hp, nn, hnn, hsize, hkey⟩ := (hold hnx).mp hentry
        refine absurd ⟨hp, nn, hnn, hsize.trans hsame.1, ?_⟩ (hm.no_entry hmk n)
        rw [hm.equalityFn_eq] at hkey ⊢
        rw [hsame.1] at hkey
        exact hk.trans hsame.2 hkey
  · rw [Dict.put_of_ne hsame, hm.entry]
    by_cases hnx : n = x
    · subst hnx
      exact ⟨fun h => absurd h.1 hxold, fun h => absurd (hnew.mp h.1) hsame⟩
    · rw [hold hnx, val_congr (hbody n hnx)]

/-- **Remove**, and the node that is returned holds what it held. -/
theorem remove (hm : Models equalityFn hashFn h m L) (hk : LawfulKeys equalityFn hashFn) (key : K)
    (keySize : Nat) :
    ∃ h' L', hashMapRemove h key keySize = .ok (h', (m key keySize).map Prod.fst) ∧
      h.nodes.length ≤ h'.nodes.length ∧
      (∀ p v, m key keySize = some (p, v) → ∃ node, h'.nodes[p]? = some node ∧ node.val = v) ∧
      Models equalityFn hashFn h' (m.put equalityFn key keySize none) L' := by
  cases hmk : m key keySize with
  | none =>
    refine ⟨h, L, hm.table.remove_absent (hm.lawful hk) (hm.no_entry hmk), Nat.le_refl _,
      fun _ _ he => absurd he (by simp), hm.equalityFn_eq, hm.hashFn_eq, hm.table, ?_⟩
    intro k s n v
    by_cases hsame : s = keySize ∧ equalityFn key k keySize = 0
    · rw [Dict.put_of_eq hsame.1 hsame.2]
      refine ⟨fun he => absurd he (by simp), ?_⟩
      rintro ⟨⟨hp, nn, hnn, hsize, hkey⟩, -⟩
      refine absurd ⟨hp, nn, hnn, hsize.trans hsame.1, ?_⟩ (hm.no_entry hmk n)
      rw [hm.equalityFn_eq] at hkey ⊢
      rw [hsame.1] at hkey
      exact hk.trans hsame.2 hkey
    · rw [Dict.put_of_ne hsame, hm.entry]
  | some e =>
    obtain ⟨p, w⟩ := e
    obtain ⟨hp, hval⟩ := hm.entry.mp hmk
    obtain ⟨h', L', hok, ht, hst, hbody, heq, hhash⟩ :=
      hm.table.remove_present (hm.lawful hk) hp
    refine ⟨h', L', hok, length_le fun q => (hbody q).symm ▸ id, ?_,
      by rw [heq, hm.equalityFn_eq], by rw [hhash, hm.hashFn_eq], ht, ?_⟩
    · -- the chain is relinked around the node, which keeps its body
      rintro _ _ ⟨⟩
      exact (val_congr (hbody p)).mpr hval
    intro k s n v
    have hgone : ¬ IsEntry h' L' k s p := fun hp' => ((hst p).mp hp'.1).2 rfl
    have hrest : n ≠ p → (IsEntry h' L' k s n ↔ IsEntry h L k s n) := fun hn =>
      isEntry_congr heq ((hst n).trans ⟨And.left, fun h => ⟨h, hn⟩⟩) fun _ => hbody n
    obtain ⟨hps, np, hnp, hsize, hkey⟩ := hp
    rw [hm.equalityFn_eq] at hkey
    by_cases hsame : s = keySize ∧ equalityFn key k keySize = 0
    · rw [Dict.put_of_eq hsame.1 hsame.2]
      refine ⟨fun he => absurd he (by simp), ?_⟩
      rintro ⟨hentry, -⟩
      by_cases hn : n = p
      · rw [hn] at hentry
        exact absurd hentry hgone
      · have hentry' := (hrest hn).mp hentry
        refine absurd (hm.table.isEntry_unique (hm.lawful hk) hentry' ⟨hps, np, hnp, ?_, ?_⟩) hn
        · rw [hsize, hsame.1]
        · rw [hm.equalityFn_eq, hsame.1]
          exact hk.trans (hk.symm hsame.2) hkey
    · rw [Dict.put_of_ne hsame, hm.entry]
      by_cases hn : n = p
      · subst hn
        refine ⟨?_, fun h => absurd h.1 hgone⟩
        rintro ⟨⟨-, nn, hnn, hs, hk'⟩, -⟩
        rw [hnp, Option.some.injEq] at hnn
        subst hnn
        obtain rfl : s = keySize := hs.symm.trans hsize
        rw [hm.equalityFn_eq] at hk'
        exact absurd ⟨rfl, hk.trans hkey (hk.symm hk')⟩ hsame
      · rw [hrest hn, val_congr (hbody n)]

/-- **A write through a node.** -/
theorem write (hm : Models equalityFn hashFn h m L) (n : Nat) (val : Option V) :
    Models equalityFn hashFn (h.setVal n val) (m.write n val) L := by
  have hnode : ∀ q, (h.setVal n val).nodes[q]? =
      (h.nodes[q]?).map fun node => if n = q then { node with val := val } else node := by
    intro q
    unfold HashMap.setVal
    rw [List.getElem?_modify]
    rfl
  have hentry : ∀ {k s q}, IsEntry (h.setVal n val) L k s q ↔ IsEntry h L k s q := by
    intro k s q
    refine and_congr_right fun _ => ?_
    rw [hnode]
    constructor
    · rintro ⟨node, hn, hsize, hkey⟩
      obtain ⟨node', hn', rfl⟩ := Option.map_eq_some_iff.mp hn
      refine ⟨node', hn', ?_, ?_⟩
      · split at hsize <;> exact hsize
      · split at hkey <;> exact hkey
    · rintro ⟨node, hn, hsize, hkey⟩
      refine ⟨_, by rw [hn, Option.map_some], ?_, ?_⟩
      · split <;> exact hsize
      · split <;> exact hkey
  refine ⟨hm.equalityFn_eq, hm.hashFn_eq, hm.table.setVal n val, ?_⟩
  intro k s q v
  rw [hentry, hnode]
  unfold Dict.write
  constructor
  · intro he
    obtain ⟨⟨q', v'⟩, hmk, hq⟩ := Option.map_eq_some_iff.mp he
    obtain ⟨hold, node, hn, hv⟩ := hm.entry.mp hmk
    by_cases hqn : q' = n
    · subst hqn
      rw [if_pos rfl, Prod.mk.injEq] at hq
      obtain ⟨rfl, rfl⟩ := hq
      exact ⟨hold, _, by rw [hn, Option.map_some, if_pos rfl], rfl⟩
    · rw [if_neg hqn, Prod.mk.injEq] at hq
      obtain ⟨rfl, rfl⟩ := hq
      exact ⟨hold, node, by rw [hn, Option.map_some, if_neg (Ne.symm hqn)], hv⟩
  · rintro ⟨hold, node, hn, hv⟩
    obtain ⟨node', hn', rfl⟩ := Option.map_eq_some_iff.mp hn
    rw [hm.entry.mpr ⟨hold, node', hn', rfl⟩, Option.map_some]
    by_cases hqn : q = n
    · subst hqn
      rw [if_pos rfl] at hv
      rw [if_pos rfl, ← hv]
    · rw [if_neg (Ne.symm hqn)] at hv
      rw [if_neg hqn, ← hv]

/-- **One operation** returns what it should, and does what it should. -/
theorem op [Inhabited K] (hm : Models equalityFn hashFn h m L) (hk : LawfulKeys equalityFn hashFn)
    (o : MapOp K V) (hwrite : ∀ n v, o = .write n v → n < h.nodes.length) :
    ∃ h' L' reply, mapOp h o = .ok (h', reply) ∧ Answers m reply o ∧
      h.nodes.length ≤ h'.nodes.length ∧
      (∀ n, reply = some n → ∃ node, h'.nodes[n]? = some node ∧ node.val = o.lastVal m) ∧
      Models equalityFn hashFn h' (m.step equalityFn o reply) L' := by
  unfold mapOp
  cases o with
  | insert key keySize =>
    dsimp only
    cases hmk : m key keySize with
    | none =>
      obtain ⟨h', L', x, hok, hx, hlen, hm'⟩ := hm.insert_absent hk hmk
      refine ⟨h', L', some x, by rw [hok, ok_bind], ⟨x, rfl, .inr ⟨hmk, hx⟩⟩, hlen, ?_, ?_⟩
      · rintro n ⟨⟩
        rw [MapOp.lastVal, hmk]
        exact (hm'.entry.mp (Dict.put_of_eq rfl (hk.refl key keySize))).2
      · simp only [Dict.step, hmk]
        exact hm'
    | some e =>
      obtain ⟨p, v⟩ := e
      obtain ⟨h', L', hok, hlen, hm'⟩ := hm.insert_present hk hmk
      refine ⟨h', L', some p, by rw [hok, ok_bind], ⟨p, rfl, .inl ⟨v, hmk⟩⟩, hlen, ?_, ?_⟩
      · rintro n ⟨⟩
        rw [MapOp.lastVal, hmk]
        exact (hm'.entry.mp hmk).2
      · simp only [Dict.step, hmk]
        exact hm'
  | find key keySize =>
    dsimp only
    refine ⟨h, L, _, by rw [hm.find hk, ok_bind], rfl, Nat.le_refl _, fun n hn => ?_, hm⟩
    obtain ⟨⟨n', v⟩, hmk, rfl⟩ := Option.map_eq_some_iff.mp hn
    rw [MapOp.lastVal, hmk]
    exact (hm.entry.mp hmk).2
  | remove key keySize =>
    obtain ⟨h', L', hok, hlen, hheld, hm'⟩ := hm.remove hk key keySize
    refine ⟨h', L', _, hok, rfl, hlen, fun n hn => ?_, hm'⟩
    obtain ⟨⟨n', v⟩, hmk, rfl⟩ := Option.map_eq_some_iff.mp hn
    rw [MapOp.lastVal, hmk]
    exact hheld n' v hmk
  | write n val =>
    have hn := hwrite n val rfl
    have hlen : (h.setVal n val).nodes.length = h.nodes.length := by simp [HashMap.setVal]
    refine ⟨h.setVal n val, L, some n, ?_, rfl, Nat.le_of_eq hlen.symm, ?_, hm.write n val⟩
    · dsimp only
      rw [load_eq (List.getElem?_eq_getElem hn), ok_bind]
    · rintro n' ⟨⟩
      refine ⟨{ h.nodes[n] with val := val }, ?_, rfl⟩
      unfold HashMap.setVal
      rw [List.getElem?_modify, List.getElem?_eq_getElem hn, Option.map_eq_map, Option.map_some,
        if_pos rfl]

end Models

/-! ## 3. Every sequence of operations -/

/-- The key was inserted, and not removed since. -/
def Present (equalityFn : K → K → Nat → Int) (ops : List (MapOp K V)) (k : K) (s : Nat) : Prop :=
  ∃ front k' back, ops = front ++ .insert k' s :: back ∧ equalityFn k' k s = 0 ∧
    ∀ k'', .remove k'' s ∈ back → equalityFn k'' k s ≠ 0

/-- One operation more: an insert of the key makes it present, a removal absent, and the others
leave it as it was. -/
theorem present_snoc {equalityFn : K → K → Nat → Int} {ops : List (MapOp K V)} {op : MapOp K V}
    {k : K} {s : Nat} : Present equalityFn (ops ++ [op]) k s ↔
      (∃ k', op = .insert k' s ∧ equalityFn k' k s = 0) ∨
      (∀ k', op = .remove k' s → equalityFn k' k s ≠ 0) ∧ Present equalityFn ops k s := by
  constructor
  · rintro ⟨front, k', back, hops, hk, hback⟩
    rcases List.eq_nil_or_concat back with rfl | ⟨back, op', rfl⟩
    · obtain ⟨-, hop⟩ := List.append_inj' hops rfl
      cases hop
      exact .inl ⟨k', rfl, hk⟩
    · rw [List.concat_eq_append, ← List.cons_append, ← List.append_assoc] at hops
      obtain ⟨rfl, hop⟩ := List.append_inj' hops rfl
      cases hop
      refine .inr ⟨fun k'' he => hback k'' (by simp [he]), front, k', back, rfl, hk,
        fun k'' hr => hback k'' (by simp [hr])⟩
  · rintro (⟨k', rfl, hk⟩ | ⟨hop, front, k', back, rfl, hk, hback⟩)
    · exact ⟨ops, k', [], rfl, hk, fun _ h => absurd h List.not_mem_nil⟩
    · refine ⟨front, k', back ++ [op], by simp, hk, fun k'' hr => ?_⟩
      rcases List.mem_append.mp hr with hr | hr
      · exact hback k'' hr
      · exact hop k'' (List.mem_singleton.mp hr).symm

/-- What the reply to an insert must be for the dictionary to follow it. -/
theorem Dict.isSome_step {equalityFn : K → K → Nat → Int} {hashFn : K → Nat → Nat}
    {h : HashMap K V} {L : Nat → List Nat} {m : Dict K V} {op : MapOp K V} {reply : Option Nat}
    (hk : LawfulKeys equalityFn hashFn) (hm : Models equalityFn hashFn h m L)
    (hans : Answers m reply op) {k : K} {s : Nat} :
    (m.step equalityFn op reply k s).isSome ↔
      (∃ k', op = .insert k' s ∧ equalityFn k' k s = 0) ∨
      (∀ k', op = .remove k' s → equalityFn k' k s ≠ 0) ∧ (m k s).isSome := by
  cases op with
  | insert key keySize =>
    obtain ⟨n, rfl, hold | ⟨hnone, -⟩⟩ := hans
    · obtain ⟨v, hmk⟩ := hold
      simp only [Dict.step, hmk, Option.isSome_some, if_true]
      constructor
      · exact fun hs => .inr ⟨nofun, hs⟩
      · rintro (⟨k', he, hkk⟩ | ⟨-, hs⟩)
        · cases he
          obtain ⟨⟨hp, nn, hnn, hsize, hkey⟩, -⟩ := hm.entry.mp hmk
          rw [hm.equalityFn_eq] at hkey
          have hentry : IsEntry h L k s n := ⟨hp, nn, hnn, hsize, by
            rw [hm.equalityFn_eq]
            exact hk.trans (hk.symm hkk) hkey⟩
          obtain ⟨w, hw⟩ := hm.of_isEntry hentry
          rw [hw]
          rfl
        · exact hs
    · simp only [Dict.step, hnone, Option.isSome_none]
      by_cases hsame : s = keySize ∧ equalityFn key k keySize = 0
      · obtain ⟨rfl, hkk⟩ := hsame
        simp only [Bool.false_eq_true, if_false]
        rw [Dict.put_of_eq rfl hkk]
        exact ⟨fun _ => .inl ⟨key, rfl, hkk⟩, fun _ => rfl⟩
      · simp only [Bool.false_eq_true, if_false]
        rw [Dict.put_of_ne hsame]
        constructor
        · exact fun hs => .inr ⟨nofun, hs⟩
        · rintro (⟨k', he, hkk⟩ | ⟨-, hs⟩)
          · cases he
            exact absurd ⟨rfl, hkk⟩ hsame
          · exact hs
  | find key keySize =>
    constructor
    · exact fun hs => .inr ⟨nofun, hs⟩
    · rintro (⟨k', he, -⟩ | ⟨-, hs⟩)
      · cases he
      · exact hs
  | remove key keySize =>
    unfold Dict.step
    by_cases hsame : s = keySize ∧ equalityFn key k keySize = 0
    · obtain ⟨rfl, hkk⟩ := hsame
      dsimp only
      rw [Dict.put_of_eq rfl hkk]
      constructor
      · exact fun hs => absurd hs (by simp)
      · rintro (⟨k', he, -⟩ | ⟨hne, -⟩)
        · cases he
        · exact absurd hkk (hne key rfl)
    · dsimp only
      rw [Dict.put_of_ne hsame]
      constructor
      · refine fun hs => .inr ⟨fun k' he => ?_, hs⟩
        cases he
        exact fun hkk => hsame ⟨rfl, hkk⟩
      · rintro (⟨k', he, -⟩ | ⟨-, hs⟩)
        · cases he
        · exact hs
  | write n val =>
    unfold Dict.step Dict.write
    dsimp only
    rw [Option.isSome_map]
    constructor
    · exact fun hs => .inr ⟨nofun, hs⟩
    · rintro (⟨k', he, -⟩ | ⟨-, hs⟩)
      · cases he
      · exact hs

/-- **The hash map implements a finite map.**  The callbacks are any that satisfy `LawfulKeys`, and
the operations any sequence from the zeroed struct.  Afterwards every operation, where a write goes
through a node returned before, passes and returns what the dictionary of the operations so far
says, and the node that it returns, also one that it has removed, holds the last `val` written for
the key (NULL for a new key); a key is in this dictionary exactly if it was inserted and not removed
since; the node of a present key holds its key and the last `val` written for it, is in the cell
`hash % cap`, and is the only node of the key in the table. -/
theorem finite_map [Inhabited K] {equalityFn : K → K → Nat → Int} {hashFn : K → Nat → Nat}
    (hk : LawfulKeys equalityFn hashFn) {ops : List (MapOp K V)} {out : List (Option Nat)}
    {h : HashMap K V}
    (hrun : runOps mapOp (HashMap.zero equalityFn hashFn) ops = .ok (h, out)) :
    (∀ op, (∀ n v, op = .write n v → some n ∈ out) →
      ∃ h' reply, mapOp h op = .ok (h', reply) ∧
        Answers (Dict.after equalityFn ops out) reply op ∧
        ∀ n, reply = some n → ∃ node, h'.nodes[n]? = some node ∧
          node.val = op.lastVal (Dict.after equalityFn ops out)) ∧
    (∀ k s, (Dict.after equalityFn ops out k s).isSome ↔ Present equalityFn ops k s) ∧
    ∃ L, Chained h L ∧ h.cells.length = h.cap ∧
      ∀ k s n v, Dict.after equalityFn ops out k s = some (n, v) →
        n ∈ L (hashFn k s % h.cap) ∧
        (∃ node, h.nodes[n]? = some node ∧ node.keySize = s ∧ equalityFn k node.key s = 0 ∧
          node.val = v) ∧
        ∀ c q node, q ∈ L c → h.nodes[q]? = some node → node.keySize = s →
          equalityFn k node.key s = 0 → q = n := by
  obtain ⟨-, hout, ⟨L, hm⟩, hpresent⟩ : ops.length = out.length ∧
      (∀ n, some n ∈ out → n < h.nodes.length) ∧
      (∃ L, Models equalityFn hashFn h (Dict.after equalityFn ops out) L) ∧
      ∀ k s, (Dict.after equalityFn ops out k s).isSome ↔ Present equalityFn ops k s := by
    refine runOps_history (P := fun ops out h => ops.length = out.length ∧
      (∀ n, some n ∈ out → n < h.nodes.length) ∧
      (∃ L, Models equalityFn hashFn h (Dict.after equalityFn ops out) L) ∧
      ∀ k s, (Dict.after equalityFn ops out k s).isSome ↔ Present equalityFn ops k s)
      ⟨rfl, fun n hn => absurd hn List.not_mem_nil, ⟨_, .zero⟩, fun k s => ?_⟩ ?_ hrun
    · refine ⟨fun hs => absurd hs (by simp [Dict.after]), ?_⟩
      rintro ⟨front, k', back, hops, -⟩
      simp at hops
    · rintro ops out h op h' reply ⟨hlen, hout, ⟨L, hm⟩, hpresent⟩ hop
      have hwrite : ∀ n v, op = .write n v → n < h.nodes.length := by
        rintro n v rfl
        obtain ⟨node, hn, -⟩ := bind_eq_ok.mp hop
        exact (List.getElem?_eq_some_iff.mp (load_eq_ok.mp hn)).1
      obtain ⟨h₁, L₁, reply₁, hop₁, hans, hle, hreply, hm₁⟩ := hm.op hk op hwrite
      rw [hop] at hop₁
      cases hop₁
      refine ⟨by simp [hlen], fun n hn => ?_, ⟨L₁, by rw [Dict.after_snoc hlen]; exact hm₁⟩,
        fun k s => ?_⟩
      · rcases List.mem_append.mp hn with hn | hn
        · exact Nat.lt_of_lt_of_le (hout n hn) hle
        · obtain ⟨node, hnode, -⟩ := hreply n (List.mem_singleton.mp hn).symm
          exact (List.getElem?_eq_some_iff.mp hnode).1
      · rw [Dict.after_snoc hlen, Dict.isSome_step hk hm hans, hpresent, present_snoc]
  refine ⟨fun op hwrite => ?_, hpresent, L, hm.table.chained, hm.table.cells_length,
    fun k s n v hmk => ?_⟩
  · obtain ⟨h', -, reply, hop, hans, -, hheld, -⟩ :=
      hm.op hk op fun n v he => hout n (hwrite n v he)
    exact ⟨h', reply, hop, hans, hheld⟩
  · obtain ⟨hentry, node, hn, hv⟩ := hm.entry.mp hmk
    have hcell := ((hm.table.isEntry_iff (hm.lawful hk)).mp hentry).1
    rw [hm.hashFn_eq] at hcell
    refine ⟨hcell, ?_, fun c q nq hq hnq hsize hkey => ?_⟩
    · obtain ⟨-, node', hn', hsize, hkey⟩ := hentry
      rw [hn, Option.some.injEq] at hn'
      subst hn'
      exact ⟨node, hn, hsize, by rw [← hm.equalityFn_eq]; exact hkey, hv⟩
    · refine hm.table.isEntry_unique (hm.lawful hk) ⟨⟨c, hq⟩, nq, hnq, hsize, ?_⟩ hentry
      rw [hm.equalityFn_eq]
      exact hkey

/-- Two keys in one cell.  The first is removed, and its node still holds what was written there. -/
theorem finite_map_collision : ∃ (h h' : HashMap Nat Nat) (out : List (Option Nat)),
    runOps mapOp (HashMap.zero (fun (a b _ : Nat) => (a : Int) - b) fun (a _ : Nat) => a % 2)
      [.insert 1 4, .write 0 (some 7), .insert 3 4] = .ok (h, out) ∧
    mapOp h (.remove 1 4) = .ok (h', some 0) ∧
    (∃ node, h'.nodes[0]? = some node ∧ node.val = some 7) ∧
    ∀ k s, (Dict.after (fun (a b _ : Nat) => (a : Int) - b)
        [.insert 1 4, .write 0 (some 7), .insert 3 4] out k s).isSome ↔
      Present (fun (a b _ : Nat) => (a : Int) - b)
        [.insert 1 4, .write 0 (some 7), .insert 3 4] k s := by
  have hk : LawfulKeys (fun (a b _ : Nat) => (a : Int) - b) fun (a _ : Nat) => a % 2 :=
    ⟨fun a _ => Int.sub_self a, fun h => by omega, fun h₁ h₂ => by omega, fun h => by
      obtain rfl := Int.ofNat_inj.mp (Int.sub_eq_zero.mp h)
      rfl⟩
  obtain ⟨hops, hpresent, -⟩ := finite_map (V := Nat) hk
    (show runOps mapOp (HashMap.zero _ _) [.insert 1 4, .write 0 (some 7), .insert 3 4] =
      .ok (_, _) from rfl)
  obtain ⟨h', reply, hop, hans, hheld⟩ := hops (.remove 1 4) fun _ _ he => by cases he
  obtain rfl : reply = some 0 := hans
  exact ⟨_, h', _, rfl, hop, hheld 0 rfl, hpresent⟩

end CAsync
