/-
# The arena allocator (`arena.c`)

An arena is a chain of blocks, each twice as large as the one before, and a chunk is a stretch of
one of them.  `Arena` structs live in memory handed out by `calloc` (an address is an index), and
`elems` is a block of its own, of which only its number of bytes matters.  So a chunk is a node, an
offset and a size.

`int` arithmetic that leaves the 32-bit range is a fault, and so is a loop of `arena_alloc` that
does not end: after as many rounds as there are nodes, each round adds one and doubles `cap`, which
overflows after 31 more.
-/
import CAsync.Fault
import CAsync.Lib.Links
import Mathlib.Tactic.Ring

namespace CAsync

open Faulting

/-! ## 1. The source -/

/-- `Arena`; `size` is the number of bytes that `elems` was allocated with. -/
structure Arena where
  next : Option Nat
  size : Int
  len : Int
  cap : Int
  deriving DecidableEq, Repr

/-- The arguments of `arena_alloc` behind the arena. -/
structure Request where
  elemCnt : Int
  elemSize : Int
  deriving DecidableEq, Repr

/-- The number of bytes asked for. -/
def Request.bytes (r : Request) : Int := r.elemCnt * r.elemSize

/-- What `arena_alloc` returns: `a->elems + offset`, for `size` bytes. -/
structure Chunk where
  node : Nat
  offset : Int
  size : Int
  deriving DecidableEq, Repr

/-- `arena_init`: the memory with the one node of the new arena. -/
def arenaInit : List Arena := [{ next := none, size := 64, len := 0, cap := 64 }]

/-- `a->next = new_arena`, for a new node behind the node `a`. -/
def addNode (nodes : List Arena) (a : Nat) (node newArena : Arena) : List Arena :=
  nodes.set a { node with next := some nodes.length } ++ [newArena]

/-- The loop of `arena_alloc`, from the node `a` on. -/
def arenaLoop (r : Request) : Nat → Option Nat → List Arena → Except Fault (List Arena × Chunk)
  | _, none, _ => .error .arenaEnd
  | 0, some _, _ => .error .endlessChain
  | fuel + 1, some a, nodes => do
    let node ← load nodes a
    let size ← intOp (r.elemCnt * r.elemSize)
    let stop ← intOp (node.len + size)
    if stop < node.cap then
      .ok (nodes.set a { node with len := stop }, { node := a, offset := node.len, size := size })
    else
      match node.next with
      | some next => arenaLoop r fuel (some next) nodes
      | none => do
        let cap ← intOp (node.cap * 2)
        -- the new block has `a->cap` bytes, and not `new_arena->cap`
        let newArena : Arena := { next := none, size := node.cap, len := 0, cap := cap }
        arenaLoop r fuel (some nodes.length) (addNode nodes a node newArena)

/-- `arena_alloc` on the arena that starts at the first node. -/
def arenaAlloc (nodes : List Arena) (r : Request) : Except Fault (List Arena × Chunk) :=
  arenaLoop r (nodes.length + 32) (some 0) nodes

/-! ## 2. The invariant -/

/-- The size of the block of the `i`-th node. -/
def blockSize : Nat → Int
  | 0 => 64
  | i + 1 => 64 * 2 ^ i

/-- **The shape of an arena** that at most `bound` bytes were asked of.  The `i`-th node has
`64 * 2 ^ i` bytes by its `cap`, and is followed by the next one; a node is there only because the
one before it could not take a request. -/
structure ArenaShape (nodes : List Arena) (bound : Int) : Prop where
  init : 0 < nodes.length
  cap : ∀ {i : Nat} {n : Arena}, nodes[i]? = some n → n.cap = 64 * 2 ^ i
  size : ∀ {i : Nat} {n : Arena}, nodes[i]? = some n → n.size = blockSize i
  len_nonneg : ∀ {i : Nat} {n : Arena}, nodes[i]? = some n → 0 ≤ n.len
  len_lt : ∀ {i : Nat} {n : Arena}, nodes[i]? = some n → n.len < n.cap
  next : ∀ {i : Nat} {n : Arena}, nodes[i]? = some n →
    n.next = if i + 1 < nodes.length then some (i + 1) else none
  full : ∀ {i : Nat} {n : Arena}, nodes[i]? = some n → i + 1 < nodes.length → n.cap ≤ bound

theorem arenaInit_shape {bound : Int} : ArenaShape arenaInit bound := by
  have hone : ∀ {i : Nat} {n : Arena}, arenaInit[i]? = some n → i = 0 ∧ n = ⟨none, 64, 0, 64⟩ := by
    intro i n hn
    cases i with
    | zero =>
      cases hn
      exact ⟨rfl, rfl⟩
    | succ i => cases hn
  refine ⟨Nat.zero_lt_one, fun hn => ?_, fun hn => ?_, fun hn => ?_, fun hn => ?_, fun hn => ?_,
    fun hn hlt => ?_⟩ <;> obtain ⟨rfl, rfl⟩ := hone hn
  · rfl
  · rfl
  · exact Int.le_refl 0
  · decide
  · rfl
  · exact absurd hlt (by decide)

namespace ArenaShape

variable {nodes : List Arena} {bound bound' : Int} {i : Nat} {n : Arena}

theorem mono (h : ArenaShape nodes bound) (hle : bound ≤ bound') : ArenaShape nodes bound' :=
  ⟨h.init, h.cap, h.size, h.len_nonneg, h.len_lt, h.next,
    fun hn hlt => Int.le_trans (h.full hn hlt) hle⟩

theorem node (hlt : i < nodes.length) : ∃ n, nodes[i]? = some n :=
  ⟨_, List.getElem?_eq_getElem hlt⟩

theorem lt_length (hn : nodes[i]? = some n) : i < nodes.length :=
  (List.getElem?_eq_some_iff.mp hn).1

/-- The chain visits every node. -/
theorem links (h : ArenaShape nodes bound) :
    Links (fun i => nodes[i]?.bind Arena.next) (some 0) (List.range nodes.length) := by
  have hfrom : ∀ k i, i + k + 1 = nodes.length →
      Links (fun i => nodes[i]?.bind Arena.next) (some i) (List.range' i (k + 1)) := by
    intro k
    induction k with
    | zero =>
      intro i hi
      obtain ⟨n, hn⟩ := node (show i < nodes.length by omega)
      rw [List.range'_succ]
      refine .cons ?_
      rw [hn, Option.bind_some, h.next hn, if_neg (by omega)]
      exact .nil
    | succ k ih =>
      intro i hi
      obtain ⟨n, hn⟩ := node (show i < nodes.length by omega)
      rw [List.range'_succ]
      refine .cons ?_
      rw [hn, Option.bind_some, h.next hn, if_pos (by omega)]
      exact ih (i + 1) (by omega)
  have hall := hfrom (nodes.length - 1) 0 (by have := h.init; omega)
  rw [show nodes.length - 1 + 1 = nodes.length by have := h.init; omega] at hall
  rwa [List.range_eq_range']

/-- A chunk taken from a node. -/
theorem take (h : ArenaShape nodes bound) (hn : nodes[i]? = some n) {stop : Int}
    (hle : n.len ≤ stop) (hlt : stop < n.cap) :
    ArenaShape (nodes.set i { n with len := stop }) bound := by
  have hset : ∀ {j : Nat} {m : Arena}, (nodes.set i { n with len := stop })[j]? = some m →
      ∃ m', nodes[j]? = some m' ∧ m.cap = m'.cap ∧ m.size = m'.size ∧ m.next = m'.next ∧
        0 ≤ m.len ∧ m.len < m.cap := by
    intro j m hm
    rw [List.getElem?_set] at hm
    split at hm
    · rename_i hij
      subst hij
      rw [if_pos (lt_length hn), Option.some.injEq] at hm
      subst hm
      exact ⟨n, hn, rfl, rfl, rfl, Int.le_trans (h.len_nonneg hn) hle, hlt⟩
    · exact ⟨m, hm, rfl, rfl, rfl, h.len_nonneg hm, h.len_lt hm⟩
  refine ⟨by simpa using h.init, fun hm => ?_, fun hm => ?_, fun hm => ?_, fun hm => ?_,
    fun hm => ?_, fun hm hlt => ?_⟩ <;> obtain ⟨m', hm', h1, h2, h3, h4, h5⟩ := hset hm
  · rw [h1, h.cap hm']
  · rw [h2, h.size hm']
  · exact h4
  · exact h5
  · rw [h3, h.next hm', List.length_set]
  · rw [h1]
    exact h.full hm' (by simpa using hlt)

/-- The nodes after one was added behind the last: the new one, and the old ones, linked. -/
theorem getElem?_addNode (h : ArenaShape nodes bound) (hn : nodes[i]? = some n)
    (hlast : i + 1 = nodes.length) {new m : Arena} {j : Nat}
    (hm : (addNode nodes i n new)[j]? = some m) :
    (j = nodes.length ∧ m = new) ∨ j < nodes.length ∧ ∃ m', nodes[j]? = some m' ∧
      m.cap = m'.cap ∧ m.size = m'.size ∧ m.len = m'.len ∧ m.next = some (j + 1) := by
  unfold addNode at hm
  rcases Nat.lt_or_ge j nodes.length with hj | hj
  · rw [List.getElem?_append_left (by simpa using hj), List.getElem?_set] at hm
    refine .inr ⟨hj, ?_⟩
    split at hm
    · rename_i hij
      subst hij
      rw [if_pos hj, Option.some.injEq] at hm
      subst hm
      exact ⟨n, hn, rfl, rfl, rfl, by rw [hlast]⟩
    · exact ⟨m, hm, rfl, rfl, rfl, by rw [h.next hm, if_pos (by omega)]⟩
  · rw [List.getElem?_append_right (by simpa using hj), List.length_set] at hm
    obtain ⟨hlt, hm⟩ := List.getElem?_eq_some_iff.mp hm
    rw [List.length_singleton] at hlt
    obtain rfl : j = nodes.length := by omega
    simp only [Nat.sub_self, List.getElem_cons_zero] at hm
    exact .inl ⟨rfl, hm.symm⟩

theorem length_addNode (new : Arena) : (addNode nodes i n new).length = nodes.length + 1 := by
  simp [addNode]

/-- A node added behind the last one, which could not take a request. -/
theorem grow (h : ArenaShape nodes bound) (hn : nodes[i]? = some n) (hlast : i + 1 = nodes.length)
    (hfull : n.cap ≤ bound) :
    ArenaShape (addNode nodes i n { next := none, size := n.cap, len := 0, cap := n.cap * 2 })
      bound := by
  have hcap := h.cap hn
  have hpos : (0 : Int) < 2 ^ i := Int.pow_pos (by decide)
  refine ⟨by rw [length_addNode]; omega, fun hm => ?_, fun hm => ?_, fun hm => ?_, fun hm => ?_,
    fun hm => ?_, @fun j m hm hlt => ?_⟩ <;>
    rcases h.getElem?_addNode hn hlast hm with ⟨rfl, rfl⟩ | ⟨hj, m', hm', h1, h2, h3, h4⟩
  · rw [← hlast, pow_succ, hcap]
    ring
  · rw [h1, h.cap hm']
  · rw [← hlast, hcap]
    rfl
  · rw [h2, h.size hm']
  · exact Int.le_refl 0
  · rw [h3]
    exact h.len_nonneg hm'
  · show 0 < n.cap * 2
    omega
  · rw [h1, h3]
    exact h.len_lt hm'
  · rw [length_addNode, if_neg (by omega)]
  · rw [length_addNode, if_pos (by omega), h4]
  · rw [length_addNode] at hlt
    omega
  · rw [h1]
    rcases Nat.lt_or_ge (j + 1) nodes.length with hlt' | hge
    · exact h.full hm' hlt'
    · obtain rfl : j = i := by omega
      rw [hn, Option.some.injEq] at hm'
      rw [← hm']
      exact hfull

/-- Before the 25th node some `cap` has reached `2 ^ 30`. -/
theorem length_le (h : ArenaShape nodes bound) (hbound : bound < 2 ^ 30) : nodes.length ≤ 25 := by
  by_contra hlong
  obtain ⟨n, hn⟩ := node (show 24 < nodes.length by omega)
  have hfull := h.full hn (by omega)
  rw [h.cap hn] at hfull
  omega

end ArenaShape

/-! ## 3. `arena_alloc` -/

/-- **What `arena_alloc` does**: it takes the chunk `c` from a node of the chain, whose `len` it
moves from the start of the chunk to its end, and it leaves the `len` of the others alone. -/
structure Taken (nodes nodes' : List Arena) (r : Request) (c : Chunk) : Prop where
  size : c.size = r.bytes
  offset : 0 ≤ c.offset
  stop : ∃ n, nodes'[c.node]? = some n ∧ n.len = c.offset + c.size
  old : ∀ {i : Nat} {n : Arena}, nodes[i]? = some n → ∃ n', nodes'[i]? = some n' ∧
    (i = c.node → c.offset = n.len) ∧ (i ≠ c.node → n'.len = n.len)
  new : ∀ {i : Nat} {n : Arena}, nodes'[i]? = some n → nodes.length ≤ i → i ≠ c.node → n.len = 0
  fresh : nodes.length ≤ c.node → c.offset = 0

/-- **The loop of `arena_alloc`** ends with a chunk: each round goes on to a node with a `cap`
twice as large. -/
theorem arenaLoop_spec {r : Request} {bound : Int} (hr : 0 ≤ r.bytes) (hbound : bound < 2 ^ 30)
    {fuel i : Nat} {nodes : List Arena} (h : ArenaShape nodes bound) (hi : i < nodes.length)
    (hfuel : 25 ≤ fuel + i)
    (hroom : ∀ {j : Nat} {m : Arena}, nodes[j]? = some m → m.len + r.bytes ≤ bound) :
    ∃ nodes' c, arenaLoop r fuel (some i) nodes = .ok (nodes', c) ∧ ArenaShape nodes' bound ∧
      Taken nodes nodes' r c := by
  induction fuel generalizing i nodes with
  | zero =>
    have := h.length_le hbound
    omega
  | succ fuel ih =>
    obtain ⟨n, hn⟩ := ArenaShape.node hi
    have hlen := h.len_nonneg hn
    have hle := hroom hn
    unfold arenaLoop
    rw [load_eq hn, ok_bind]
    rw [show intOp (r.elemCnt * r.elemSize) = .ok r.bytes from
      intOp_eq hr (show r.bytes < 2 ^ 31 by omega), ok_bind, intOp_eq (by omega) (by omega),
      ok_bind]
    split
    · rename_i hlt
      refine ⟨_, _, rfl, h.take hn (by omega) hlt, rfl, hlen,
        ⟨{ n with len := n.len + r.bytes }, by simp [hi], rfl⟩, fun {j m} hm => ?_,
        fun {j m} hm hj => ?_, fun hi' => absurd hi (Nat.not_lt.mpr hi')⟩
      · rw [List.getElem?_set]
        dsimp only
        by_cases hij : i = j
        · subst hij
          rw [hn, Option.some.injEq] at hm
          subst hm
          exact ⟨_, by rw [if_pos rfl, if_pos hi], fun _ => rfl, fun hne => absurd rfl hne⟩
        · exact ⟨m, by rw [if_neg hij, hm], fun e => absurd e.symm hij, fun _ => rfl⟩
      · have := ArenaShape.lt_length hm
        rw [List.length_set] at this
        omega
    · rename_i hfull
      rw [h.next hn]
      by_cases hlast : i + 1 < nodes.length
      · rw [if_pos hlast]
        exact ih h hlast (by omega) hroom
      · have hcap := h.len_lt hn
        rw [if_neg hlast]
        dsimp only
        rw [intOp_eq (by omega) (by omega), ok_bind]
        have hlast' : i + 1 = nodes.length := by omega
        have hgrow := h.grow hn hlast' (show n.cap ≤ bound by omega)
        obtain ⟨nodes', c, hok, h', htaken⟩ := ih hgrow
          (show nodes.length < _ by rw [ArenaShape.length_addNode]; omega) (by omega)
          (fun {j m} hm => by
            rcases h.getElem?_addNode hn hlast' hm with ⟨-, rfl⟩ | ⟨-, m', hm', -, -, hlen', -⟩
            · show 0 + r.bytes ≤ bound
              omega
            · rw [hlen']
              exact hroom hm')
        -- the node that this round has added
        have hnew : (addNode nodes i n { next := none, size := n.cap, len := 0, cap := n.cap * 2 })[
            nodes.length]? = some { next := none, size := n.cap, len := 0, cap := n.cap * 2 } := by
          simp [addNode]
        refine ⟨nodes', c, hok, h', htaken.size, htaken.offset, htaken.stop, fun {j m} hm => ?_,
          fun {j m} hm hj hne => ?_, fun hj => ?_⟩
        · have hj := ArenaShape.lt_length hm
          obtain ⟨m₁, hm₁⟩ := ArenaShape.node (show j < (addNode nodes i n
            { next := none, size := n.cap, len := 0, cap := n.cap * 2 }).length by
              rw [ArenaShape.length_addNode]
              omega)
          have hlen₁ : m₁.len = m.len := by
            rcases h.getElem?_addNode hn hlast' hm₁ with ⟨he, -⟩ | ⟨-, m', hm', -, -, hlen', -⟩
            · omega
            · rw [hm, Option.some.injEq] at hm'
              rw [hlen', hm']
          obtain ⟨m', hm', hsame, hother⟩ := htaken.old hm₁
          rw [hlen₁] at hsame hother
          exact ⟨m', hm', hsame, hother⟩
        · rcases Nat.eq_or_lt_of_le hj with rfl | hj
          · obtain ⟨m', hm', -, hother⟩ := htaken.old hnew
            rw [hm, Option.some.injEq] at hm'
            rw [hm', hother hne]
          · exact htaken.new hm (by rw [ArenaShape.length_addNode]; exact hj) hne
        · rcases Nat.eq_or_lt_of_le hj with he | hj
          · obtain ⟨m', -, hsame, -⟩ := htaken.old hnew
            exact hsame he
          · exact htaken.fresh (by rw [ArenaShape.length_addNode]; exact hj)

theorem arenaAlloc_spec {r : Request} {bound : Int} {nodes : List Arena} (hr : 0 ≤ r.bytes)
    (hbound : bound < 2 ^ 30) (h : ArenaShape nodes bound)
    (hroom : ∀ {j : Nat} {m : Arena}, nodes[j]? = some m → m.len + r.bytes ≤ bound) :
    ∃ nodes' c, arenaAlloc nodes r = .ok (nodes', c) ∧ ArenaShape nodes' bound ∧
      Taken nodes nodes' r c :=
  arenaLoop_spec hr hbound h h.init (by omega) hroom

/-- No node is ever taken out of the chain. -/
theorem arenaLoop_length {r : Request} {fuel : Nat} {a : Option Nat} {nodes nodes' : List Arena}
    {c : Chunk} (hok : arenaLoop r fuel a nodes = .ok (nodes', c)) :
    nodes.length ≤ nodes'.length := by
  induction fuel generalizing a nodes with
  | zero =>
    unfold arenaLoop at hok
    cases a with
    | none => cases hok
    | some i => cases hok
  | succ fuel ih =>
    unfold arenaLoop at hok
    cases a with
    | none => cases hok
    | some i =>
      obtain ⟨n, -, hok⟩ := bind_eq_ok.mp hok
      obtain ⟨size, -, hok⟩ := bind_eq_ok.mp hok
      obtain ⟨stop, -, hok⟩ := bind_eq_ok.mp hok
      split at hok
      · cases hok
        rw [List.length_set]
      · split at hok
        · exact ih hok
        · obtain ⟨cap, -, hok⟩ := bind_eq_ok.mp hok
          have hle := ih hok
          rw [ArenaShape.length_addNode] at hle
          exact Nat.le_of_succ_le hle

end CAsync
