/-
# `verify_queue` (`graph_scheduler.c`, with `DEBUG` defined)

The check reads the cells from `start` up to `end` as if the queue never wrapped around the end of
its memory, so it first asserts `start <= end`.  Section 2 says what a queue that passes looks
like, cell by cell (`verifyQueue_eq_ok`), and that its elements, read modulo `cap` as the queue
macros read them, are then queued nodes with a handle and distinct (`WellMarked`).  Section 3 is
the other direction: a ring that holds such nodes passes exactly as long as it lies flat.
-/
import CAsync.FlatQueue
import CAsync.GraphScheduler
import Mathlib.Data.List.Nodup

namespace CAsync

open Faulting RingQueue

namespace Graph

/-! ## 1. The check -/

/-- The inner loop: none of the `n` elements from index `j` on is the element `x`. -/
def verifyDistinct (g : Graph) (x : Option Nat) (j : Nat) : Nat → Except Fault Unit
  | 0 => .ok ()
  | n + 1 => do
    let y ← load g.queue.elems j
    require (x ≠ y) .verifyQueue
    g.verifyDistinct x (j + 1) n

/-- The outer loop, over the `n` elements from index `i` on. -/
def verifyElems (g : Graph) (i : Nat) : Nat → Except Fault Unit
  | 0 => .ok ()
  | n + 1 => do
    let x ← load g.queue.elems i
    match x with
    | none => .error .verifyQueue
    | some r => do
      let node ← load g.nodes r
      require (node.inQueue = true) .verifyQueue
      require (node.h.idx ≠ 0) .verifyQueue
      g.verifyDistinct x (i + 1) n
      g.verifyElems (i + 1) n

/-- `verify_queue(&g->queue)`.  Indices are natural numbers here, so two of its assertions always
hold; a NULL `elems` has no cells. -/
def verifyQueue (g : Graph) : Except Fault Unit := do
  require (g.queue.end_ ≤ g.queue.cap) .verifyQueue
  require (g.queue.start ≤ g.queue.end_) .verifyQueue
  require (g.queue.cap ≠ 0 → g.queue.elems ≠ []) .verifyQueue
  g.verifyElems g.queue.start (g.queue.end_ - g.queue.start)

/-! ## 2. What a queue that passes looks like -/

/-- Cell `i` of the queue points to a node that is marked as queued and has a handle. -/
def QueuedAt (g : Graph) (i : Nat) : Prop :=
  ∃ r node, g.queue.elems[i]? = some (some r) ∧ g.nodes[r]? = some node ∧ node.inQueue = true ∧
    node.h.idx ≠ 0

variable {g : Graph}

theorem verifyDistinct_eq_ok {x : Option Nat} {n : Nat} : ∀ {j : Nat},
    g.verifyDistinct x j n = .ok () ↔
      ∀ k, j ≤ k → k < j + n → ∃ y, g.queue.elems[k]? = some y ∧ x ≠ y := by
  induction n with
  | zero =>
    intro j
    exact ⟨fun _ k h₁ h₂ => absurd h₂ (by omega), fun _ => rfl⟩
  | succ n ih =>
    intro j
    unfold verifyDistinct
    simp only [bind_eq_ok, load_eq_ok, require_eq_ok]
    constructor
    · rintro ⟨y, hy, -, hne, hrest⟩ k h₁ h₂
      rcases Nat.eq_or_lt_of_le h₁ with rfl | h₁
      · exact ⟨y, hy, hne⟩
      · exact ih.mp hrest k h₁ (by omega)
    · intro h
      obtain ⟨y, hy, hne⟩ := h j (Nat.le_refl j) (by omega)
      exact ⟨y, hy, (), hne, ih.mpr fun k h₁ h₂ => h k (by omega) (by omega)⟩

theorem verifyElems_eq_ok {n : Nat} : ∀ {i : Nat}, g.verifyElems i n = .ok () ↔
    (∀ k, i ≤ k → k < i + n → g.QueuedAt k) ∧
      ∀ k j, i ≤ k → k < j → j < i + n → g.queue.elems[k]? ≠ g.queue.elems[j]? := by
  induction n with
  | zero =>
    intro i
    exact ⟨fun _ => ⟨fun k h₁ h₂ => absurd h₂ (by omega), fun k j h₁ h₂ h₃ => by omega⟩,
      fun _ => rfl⟩
  | succ n ih =>
    intro i
    unfold verifyElems
    constructor
    · intro h
      obtain ⟨x, hx, h⟩ := bind_eq_ok.mp h
      rw [load_eq_ok] at hx
      cases x with
      | none => cases h
      | some r =>
        obtain ⟨node, hnode, h⟩ := bind_eq_ok.mp h
        obtain ⟨_, hqueued, h⟩ := bind_eq_ok.mp h
        obtain ⟨_, hidx, h⟩ := bind_eq_ok.mp h
        obtain ⟨_, hdistinct, h⟩ := bind_eq_ok.mp h
        rw [load_eq_ok] at hnode
        rw [require_eq_ok] at hqueued hidx
        obtain ⟨hall, hpair⟩ := ih.mp h
        refine ⟨fun k h₁ h₂ => ?_, fun k j h₁ h₂ h₃ => ?_⟩
        · rcases Nat.eq_or_lt_of_le h₁ with rfl | h₁
          · exact ⟨r, node, hx, hnode, hqueued, hidx⟩
          · exact hall k h₁ (by omega)
        · rcases Nat.eq_or_lt_of_le h₁ with rfl | h₁
          · obtain ⟨y, hy, hne⟩ := verifyDistinct_eq_ok.mp hdistinct j h₂ (by omega)
            rw [hx, hy]
            exact fun heq => hne (Option.some.inj heq)
          · exact hpair k j h₁ h₂ (by omega)
    · rintro ⟨hall, hpair⟩
      obtain ⟨r, node, hx, hnode, hqueued, hidx⟩ := hall i (Nat.le_refl i) (by omega)
      have hdistinct : g.verifyDistinct (some r) (i + 1) n = .ok () := by
        refine verifyDistinct_eq_ok.mpr fun k h₁ h₂ => ?_
        obtain ⟨s, -, hs, -⟩ := hall k (by omega) (by omega)
        refine ⟨some s, hs, fun heq => hpair i k (Nat.le_refl i) h₁ (by omega) ?_⟩
        rw [hx, hs, heq]
      rw [load_eq hx, ok_bind]
      dsimp only
      rw [load_eq hnode, ok_bind, require_of hqueued, ok_bind, require_of hidx, ok_bind, hdistinct,
        ok_bind]
      exact ih.mpr ⟨fun k h₁ h₂ => hall k (by omega) (by omega),
        fun k j h₁ h₂ h₃ => hpair k j (by omega) h₂ (by omega)⟩

/-- **What the check asserts**, cell by cell. -/
theorem verifyQueue_eq_ok : g.verifyQueue = .ok () ↔
    g.queue.end_ ≤ g.queue.cap ∧ g.queue.start ≤ g.queue.end_ ∧
      (g.queue.cap ≠ 0 → g.queue.elems ≠ []) ∧
      (∀ k, g.queue.start ≤ k → k < g.queue.end_ → g.QueuedAt k) ∧
      ∀ k j, g.queue.start ≤ k → k < j → j < g.queue.end_ →
        g.queue.elems[k]? ≠ g.queue.elems[j]? := by
  unfold verifyQueue
  simp only [bind_eq_ok, require_eq_ok, exists_const, verifyElems_eq_ok]
  refine and_congr_right fun _ => and_congr_right fun hflat => and_congr_right fun _ => ?_
  rw [Nat.add_sub_cancel' hflat]

/-- The check never accepts a queue that has wrapped around. -/
theorem verifyQueue_wrapped (h : g.queue.end_ < g.queue.start) :
    g.verifyQueue = .error .verifyQueue := by
  unfold verifyQueue
  by_cases hend : g.queue.end_ ≤ g.queue.cap
  · rw [require_of hend, ok_bind, require_of_not (Nat.not_le.mpr h), error_bind]
  · rw [require_of_not hend, error_bind]

end Graph

/-- The stored elements of the queue, from `start` to `end` modulo `cap`, are nodes that are marked
as queued and have a handle, and no node is stored twice. -/
structure Graph.WellMarked (g : Graph) : Prop where
  queuedAt : ∀ i, i < g.queue.stored → g.QueuedAt ((g.queue.start + i) % g.queue.cap)
  distinct : ∀ i j, i < j → j < g.queue.stored →
    g.queue.elems[(g.queue.start + i) % g.queue.cap]? ≠
      g.queue.elems[(g.queue.start + j) % g.queue.cap]?

namespace Graph

variable {g : Graph}

/-- **A queue that passes the check is well marked**, for every state of the queue. -/
theorem wellMarked_of_verifyQueue (h : g.verifyQueue = .ok ()) : g.WellMarked := by
  obtain ⟨hcap, hflat, -, hall, hpair⟩ := verifyQueue_eq_ok.mp h
  have hstored : g.queue.stored = g.queue.end_ - g.queue.start := if_pos hflat
  have hcell : ∀ {i}, i < g.queue.stored → (g.queue.start + i) % g.queue.cap = g.queue.start + i :=
    fun hi => Nat.mod_eq_of_lt (by omega)
  refine ⟨fun i hi => ?_, fun i j hij hj => ?_⟩
  · rw [hcell hi]
    exact hall _ (by omega) (by omega)
  · rw [hcell (Nat.lt_trans hij hj), hcell hj]
    exact hpair _ _ (by omega) (by omega) (by omega)

/-- A ring that holds distinct queued nodes is well marked, wrapped around or not. -/
theorem wellMarked_of_holds {l : List Nat} (hq : g.queue.Holds (l.map some)) (hnd : l.Nodup)
    (hnode : ∀ r ∈ l, ∃ node, g.nodes[r]? = some node ∧ node.inQueue = true ∧ node.h.idx ≠ 0) :
    g.WellMarked := by
  have hlen := hq.stored_eq
  rw [List.length_map] at hlen
  have helem : ∀ i (hi : i < l.length),
      g.queue.elems[(g.queue.start + i) % g.queue.cap]? = some (some l[i]) := by
    intro i hi
    rw [hq.elem i (by rwa [List.length_map]), List.getElem?_map, List.getElem?_eq_getElem hi]
    rfl
  refine ⟨fun i hi => ?_, fun i j hij hj heq => ?_⟩
  · rw [hlen] at hi
    obtain ⟨node, hn, hmarks⟩ := hnode _ (List.getElem_mem hi)
    exact ⟨_, node, helem i hi, hn, hmarks⟩
  · rw [hlen] at hj
    rw [helem i (Nat.lt_trans hij hj), helem j hj, Option.some.injEq, Option.some.injEq] at heq
    exact Nat.ne_of_lt hij (hnd.getElem_inj_iff.mp heq)

/-! ## 3. Which rings pass -/

/-- **A flat ring of distinct queued nodes passes the check.** -/
theorem verifyQueue_flat {l : List Nat} (hq : g.queue.Holds (l.map some)) (hnd : l.Nodup)
    (hflat : g.queue.start ≤ g.queue.end_)
    (hnode : ∀ r ∈ l, ∃ node, g.nodes[r]? = some node ∧ node.inQueue = true ∧ node.h.idx ≠ 0) :
    g.verifyQueue = .ok () := by
  obtain ⟨hend, hcap, hcell⟩ := hq.flat hflat
  rw [List.length_map] at hend hcell
  have helem : ∀ k (hk : k < l.length), g.queue.elems[g.queue.start + k]? = some (some l[k]) := by
    intro k hk
    rw [hcell k hk, List.getElem?_map, List.getElem?_eq_getElem hk]
    rfl
  have hshift : ∀ {k}, g.queue.start ≤ k → k < g.queue.end_ →
      ∃ i, ∃ hi : i < l.length, k = g.queue.start + i ∧ g.queue.elems[k]? = some (some l[i]) := by
    intro k h₁ h₂
    have hi : k - g.queue.start < l.length := by omega
    have hk : k = g.queue.start + (k - g.queue.start) := by omega
    refine ⟨k - g.queue.start, hi, hk, ?_⟩
    rw [← helem _ hi, ← hk]
  refine verifyQueue_eq_ok.mpr ⟨by omega, hflat, fun hc hnil => ?_, fun k h₁ h₂ => ?_,
    fun k j h₁ h₂ h₃ heq => ?_⟩
  · have hlen := hq.length_eq
    rw [hnil] at hlen
    exact hc hlen.symm
  · obtain ⟨i, hi, -, hk⟩ := hshift h₁ h₂
    obtain ⟨node, hn, hmarks⟩ := hnode _ (List.getElem_mem hi)
    exact ⟨_, node, hk, hn, hmarks⟩
  · obtain ⟨i, hi, rfl, hk⟩ := hshift h₁ (Nat.lt_trans h₂ h₃)
    obtain ⟨i', hi', rfl, hj⟩ := hshift (Nat.le_trans h₁ (Nat.le_of_lt h₂)) h₃
    rw [hk, hj, Option.some.injEq, Option.some.injEq] at heq
    have := hnd.getElem_inj_iff.mp heq
    omega

end Graph
end CAsync
