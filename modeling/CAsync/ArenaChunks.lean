/-
# The chunks of an arena

A request of `n` bytes moves the `len` of one node of the chain up by `n`, so the chunks of one node
lie one behind the other (`arena_chunks_disjoint`).  That is so by the `cap` that a node records.
The block of a later node is half as large: `arena_alloc` allocates it with the `cap` of the node
before it.  The chunks lie inside their blocks, with every `cap` the size of its block, exactly as
long as one node is enough (`chunks_inside_iff`).
-/
import CAsync.Arena

namespace CAsync

open Faulting

/-- The number of bytes that a sequence of requests asks for. -/
def total (reqs : List Request) : Int := reqs.foldr (fun r n => r.bytes + n) 0

@[simp] theorem total_nil : total [] = 0 := rfl

@[simp] theorem total_cons (r : Request) (reqs : List Request) :
    total (r :: reqs) = r.bytes + total reqs := rfl

theorem total_append (reqs reqs' : List Request) :
    total (reqs ++ reqs') = total reqs + total reqs' := by
  induction reqs with
  | nil => simp
  | cons r reqs ih =>
    rw [List.cons_append, total_cons, total_cons, ih]
    omega

theorem total_nonneg {reqs : List Request} (h : ∀ r ∈ reqs, 0 ≤ r.bytes) : 0 ≤ total reqs := by
  induction reqs with
  | nil => exact Int.le_refl 0
  | cons r reqs ih =>
    have hr := h r List.mem_cons_self
    have hrest := ih fun q hq => h q (List.mem_cons_of_mem _ hq)
    rw [total_cons]
    omega

/-- Two chunks have no byte in common. -/
def Chunk.Apart (c d : Chunk) : Prop :=
  c.node ≠ d.node ∨ c.offset + c.size ≤ d.offset ∨ d.offset + d.size ≤ c.offset

/-! ## 1. One request after the other -/

/-- What holds of the nodes of an arena and of its chunks after the requests `reqs`. -/
structure Allocated (reqs : List Request) (chunks : List Chunk) (nodes : List Arena) : Prop where
  shape : ArenaShape nodes (total reqs)
  len_le : ∀ {i : Nat} {n : Arena}, nodes[i]? = some n → n.len ≤ total reqs
  alone : nodes.length = 1 → ∀ n, nodes[0]? = some n → n.len = total reqs
  sizes : chunks.map Chunk.size = reqs.map Request.bytes
  placed : ∀ c ∈ chunks, 0 ≤ c.offset ∧
    ∃ n, nodes[c.node]? = some n ∧ c.offset + c.size ≤ n.len
  apart : chunks.Pairwise Chunk.Apart

theorem Allocated.init : Allocated [] [] arenaInit where
  shape := arenaInit_shape
  len_le := by
    intro i n hn
    cases i with
    | zero =>
      cases hn
      exact Int.le_refl 0
    | succ i => cases hn
  alone := by
    intro _ n hn
    cases hn
    rfl
  sizes := rfl
  placed := fun c hc => absurd hc List.not_mem_nil
  apart := .nil

theorem Allocated.asked_nonneg {reqs : List Request} {chunks : List Chunk} {nodes : List Arena}
    (h : Allocated reqs chunks nodes) : 0 ≤ total reqs := by
  obtain ⟨n, hn⟩ := ArenaShape.node h.shape.init
  exact Int.le_trans (h.shape.len_nonneg hn) (h.len_le hn)

/-- **One request more.** -/
theorem Allocated.alloc {reqs : List Request} {chunks : List Chunk} {nodes : List Arena}
    {r : Request} (h : Allocated reqs chunks nodes) (hr : 0 ≤ r.bytes)
    (htotal : total reqs + r.bytes < 2 ^ 30) :
    ∃ nodes' c, arenaAlloc nodes r = .ok (nodes', c) ∧
      Allocated (reqs ++ [r]) (chunks ++ [c]) nodes' := by
  have hsum : total (reqs ++ [r]) = total reqs + r.bytes := by
    rw [total_append, total_cons, total_nil, Int.add_zero]
  obtain ⟨nodes', c, hok, hshape, htaken⟩ := arenaAlloc_spec hr htotal
    (h.shape.mono (Int.le_add_of_nonneg_right hr)) fun hm => Int.add_le_add_right (h.len_le hm) _
  have hlength : nodes.length ≤ nodes'.length := arenaLoop_length hok
  have hsize := htaken.size
  obtain ⟨n, hn, hstop⟩ := htaken.stop
  -- the chunk starts behind what was in use in its node
  have hbefore : c.offset ≤ total reqs ∧ ∀ m, nodes[c.node]? = some m → c.offset = m.len := by
    refine ⟨?_, fun m hm => ?_⟩
    · rcases Nat.lt_or_ge c.node nodes.length with hlt | hge
      · obtain ⟨m, hm⟩ := ArenaShape.node hlt
        obtain ⟨m', -, hsame, -⟩ := htaken.old hm
        rw [hsame rfl]
        exact h.len_le hm
      · rw [htaken.fresh hge]
        exact h.asked_nonneg
    · obtain ⟨m', -, hsame, -⟩ := htaken.old hm
      exact hsame rfl
  refine ⟨nodes', c, hok, by rw [hsum]; exact hshape, ?_, ?_, ?_, ?_, ?_⟩
  · intro i m hm
    rw [hsum]
    by_cases hi : i = c.node
    · subst hi
      rw [hn, Option.some.injEq] at hm
      rw [← hm, hstop, hsize]
      exact Int.add_le_add_right hbefore.1 _
    rcases Nat.lt_or_ge i nodes.length with hlt | hge
    · obtain ⟨m₀, hm₀⟩ := ArenaShape.node hlt
      obtain ⟨m', hm', -, hother⟩ := htaken.old hm₀
      rw [hm, Option.some.injEq] at hm'
      have hle := h.len_le hm₀
      rw [hm', hother hi]
      omega
    · have hasked := h.asked_nonneg
      rw [htaken.new hm hge hi]
      omega
  · intro hone m hm
    have hone' : nodes.length = 1 := by
      have := h.shape.init
      omega
    obtain ⟨m₀, hm₀⟩ := ArenaShape.node h.shape.init
    have hnode : c.node = 0 := by
      have := ArenaShape.lt_length hn
      omega
    rw [hnode] at hn
    rw [hm, Option.some.injEq] at hn
    rw [hn, hstop, hsize, hbefore.2 m₀ (by rw [hnode, hm₀]), h.alone hone' m₀ hm₀, hsum]
  · rw [List.map_append, List.map_append, h.sizes, List.map_singleton, List.map_singleton, hsize]
  · intro d hd
    rcases List.mem_append.mp hd with hd | hd
    · obtain ⟨h₀, m, hm, hle⟩ := h.placed d hd
      obtain ⟨m', hm', hsame, hother⟩ := htaken.old hm
      refine ⟨h₀, m', hm', ?_⟩
      by_cases hdc : d.node = c.node
      · rw [hdc, hn, Option.some.injEq] at hm'
        have := hsame hdc
        rw [← hm', hstop, hsize]
        omega
      · rw [hother hdc]
        exact hle
    · rw [List.mem_singleton.mp hd]
      exact ⟨htaken.offset, n, hn, Int.le_of_eq hstop.symm⟩
  · refine List.pairwise_append.mpr ⟨h.apart, List.pairwise_singleton _ _, fun d hd e he => ?_⟩
    rw [List.mem_singleton.mp he]
    obtain ⟨-, m, hm, hle⟩ := h.placed d hd
    by_cases hdc : d.node = c.node
    · refine .inr (.inl ?_)
      rw [hdc] at hm
      rw [hbefore.2 m hm]
      exact hle
    · exact .inl hdc

/-! ## 2. Every sequence of requests -/

/-- Every sequence of requests is answered. -/
theorem exists_allocated {reqs : List Request} (hsizes : ∀ r ∈ reqs, 0 ≤ r.bytes)
    (htotal : total reqs < 2 ^ 30) :
    ∃ nodes chunks, runOps arenaAlloc arenaInit reqs = .ok (nodes, chunks) ∧
      Allocated reqs chunks nodes := by
  refine runOps_total .init fun front r back chunks nodes hreqs h => ?_
  have hback : ∀ q ∈ back, 0 ≤ q.bytes := fun q hq => hsizes q (by rw [hreqs]; simp [hq])
  have hsum := total_append front (r :: back)
  rw [← hreqs, total_cons] at hsum
  have hrest := total_nonneg hback
  exact h.alloc (hsizes r (by rw [hreqs]; simp)) (by omega)

/-- **Chunks of an arena never overlap, and every call ends.**  For every sequence of requests of
non-negative sizes below `2 ^ 30` bytes in total: each call returns a chunk of the size asked for,
without a failed assertion, an overflow or an endless loop; no two chunks have a byte in common;
each ends within the `cap` of its node; `len <= cap` in every node; the chain from the head visits
all the nodes that were ever made, and no call makes their number smaller. -/
theorem arena_chunks_disjoint {reqs : List Request} (hsizes : ∀ r ∈ reqs, 0 ≤ r.bytes)
    (htotal : total reqs < 2 ^ 30) :
    ∃ nodes chunks, runOps arenaAlloc arenaInit reqs = .ok (nodes, chunks) ∧
      chunks.map Chunk.size = reqs.map Request.bytes ∧ chunks.Pairwise Chunk.Apart ∧
      (∀ c ∈ chunks, 0 ≤ c.offset ∧
        ∃ n, nodes[c.node]? = some n ∧ c.offset + c.size ≤ n.cap) ∧
      (∀ n ∈ nodes, n.len ≤ n.cap) ∧
      Links (fun i => nodes[i]?.bind Arena.next) (some 0) (List.range nodes.length) ∧
      ∀ front back nodes₁ chunks₁, reqs = front ++ back →
        runOps arenaAlloc arenaInit front = .ok (nodes₁, chunks₁) →
        nodes₁.length ≤ nodes.length := by
  obtain ⟨nodes, chunks, hrun, h⟩ := exists_allocated hsizes htotal
  refine ⟨nodes, chunks, hrun, h.sizes, h.apart, fun c hc => ?_, fun n hn => ?_, h.shape.links,
    fun front back nodes₁ chunks₁ hreqs hfront => ?_⟩
  · obtain ⟨h₀, n, hn, hle⟩ := h.placed c hc
    have hlt := h.shape.len_lt hn
    exact ⟨h₀, n, hn, by omega⟩
  · obtain ⟨i, hi⟩ := List.mem_iff_getElem?.mp hn
    exact Int.le_of_lt (h.shape.len_lt hi)
  · rw [hreqs, runOps_append, hfront, ok_bind] at hrun
    obtain ⟨⟨nodes₂, chunks₂⟩, hback, heq⟩ := bind_eq_ok.mp hrun
    cases heq
    exact runOps_invariant (I := fun nodes => nodes₁.length ≤ nodes.length)
      (fun _ _ _ _ hle hok => Nat.le_trans hle (arenaLoop_length hok)) (Nat.le_refl _) hback

/-- Two requests, the second of which needs a second node. -/
theorem arena_chunks_disjoint_two : ∃ nodes chunks,
    runOps arenaAlloc arenaInit [⟨1, 60⟩, ⟨5, 4⟩] = .ok (nodes, chunks) ∧
      chunks.Pairwise Chunk.Apart := by
  obtain ⟨nodes, chunks, hrun, -, hapart, -⟩ := @arena_chunks_disjoint [⟨1, 60⟩, ⟨5, 4⟩]
    (by decide) (by decide)
  exact ⟨nodes, chunks, hrun, hapart⟩

/-! ## 3. The blocks -/

/-- After these requests every chunk lies inside the block that its node was given, and the `cap`
of every node is the size of its block. -/
def ChunksInside (reqs : List Request) : Prop :=
  ∀ nodes chunks, runOps arenaAlloc arenaInit reqs = .ok (nodes, chunks) →
    (∀ c ∈ chunks, 0 ≤ c.offset ∧
      ∃ n, nodes[c.node]? = some n ∧ c.offset + c.size ≤ n.size) ∧
    ∀ n ∈ nodes, n.cap = n.size

/-- **The chunks lie inside their blocks if and only if all of them fit into the first one.**  The
requests are any of non-negative sizes below `2 ^ 30` bytes in total. -/
theorem chunks_inside_iff {reqs : List Request} (hsizes : ∀ r ∈ reqs, 0 ≤ r.bytes)
    (htotal : total reqs < 2 ^ 30) : ChunksInside reqs ↔ total reqs < 64 := by
  obtain ⟨nodes, chunks, hrun, h⟩ := exists_allocated hsizes htotal
  obtain ⟨n₀, hn₀⟩ := ArenaShape.node h.shape.init
  have hcap₀ : n₀.cap = 64 := h.shape.cap hn₀
  constructor
  · intro hinside
    by_contra hmany
    by_cases hone : nodes.length = 1
    · have hlt := h.shape.len_lt hn₀
      rw [h.alone hone n₀ hn₀] at hlt
      omega
    · -- the second node has a `cap` of 128 and a block of 64 bytes
      obtain ⟨n₁, hn₁⟩ := ArenaShape.node (show 1 < nodes.length by have := h.shape.init; omega)
      have heq := (hinside nodes chunks hrun).2 n₁ (List.mem_of_getElem? hn₁)
      rw [h.shape.cap hn₁, h.shape.size hn₁] at heq
      exact absurd heq (by decide)
  · intro hfew nodes' chunks' hrun'
    rw [hrun] at hrun'
    cases hrun'
    have hone : nodes.length = 1 := by
      by_contra hmore
      have hfull := h.shape.full hn₀ (by have := h.shape.init; omega)
      omega
    have hsize : ∀ {i : Nat} {n : Arena}, nodes[i]? = some n → n.cap = n.size := by
      intro i n hn
      obtain rfl : i = 0 := by
        have := ArenaShape.lt_length hn
        omega
      rw [h.shape.cap hn, h.shape.size hn]
      rfl
    refine ⟨fun c hc => ?_, fun n hn => ?_⟩
    · obtain ⟨h₀, n, hn, hle⟩ := h.placed c hc
      have hlt := h.shape.len_lt hn
      rw [hsize hn] at hlt
      exact ⟨h₀, n, hn, by omega⟩
    · obtain ⟨i, hi⟩ := List.mem_iff_getElem?.mp hn
      exact hsize hi

/-- The requests 60 and 100. -/
theorem chunks_inside_iff_two : ChunksInside [⟨1, 60⟩, ⟨1, 100⟩] ↔
    total [⟨1, 60⟩, ⟨1, 100⟩] < 64 :=
  chunks_inside_iff (by decide) (by decide)

/-- The second of the requests 60 and 100 gets 100 bytes in a block of 64. -/
theorem chunk_outside_block : ¬ ChunksInside [⟨1, 60⟩, ⟨1, 100⟩] ∧
    ∃ nodes chunks n, runOps arenaAlloc arenaInit [⟨1, 60⟩, ⟨1, 100⟩] = .ok (nodes, chunks) ∧
      chunks = [⟨0, 0, 60⟩, ⟨1, 0, 100⟩] ∧ nodes[1]? = some n ∧ n.cap = 128 ∧ n.size = 64 := by
  have hrun : runOps arenaAlloc arenaInit [⟨1, 60⟩, ⟨1, 100⟩] =
      .ok ([⟨some 1, 64, 60, 64⟩, ⟨none, 64, 100, 128⟩], [⟨0, 0, 60⟩, ⟨1, 0, 100⟩]) := by
    decide
  refine ⟨fun h => ?_, _, _, _, hrun, rfl, rfl, rfl, rfl⟩
  exact absurd ((h _ _ hrun).2 ⟨none, 64, 100, 128⟩ (by decide)) (by decide)

end CAsync
