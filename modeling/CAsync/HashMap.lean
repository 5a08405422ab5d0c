/-
# The chained hash map of `hashmap.c`

The nodes live in memory handed out by `calloc`: `nodes` is that memory, a node's address is
its index, and NULL is `none`.  So `next`, `free` and the cells of the table are pointers, and
the in-place moves of `hash_map_expand` and the unlinking of `hash_map_remove` are the pointer
assignments of the source.  The loops over a chain take the number of allocated nodes as fuel;
a chain that is longer would visit a node twice and never end (`endlessChain`).

`node_max` and `key_size` are `int` in the source, and `cap` and the hashes have 64 bits; all are
natural numbers here.  `node_max` counts the nodes that have ever been allocated, and their number
is assumed to stay below `2 ^ 31`, which keeps `cap` small too.  `calloc` and `realloc` are
assumed to succeed.

`key`, `val` and the two callbacks are generic: `key` has type `K`, a non-NULL `val` has type
`V`, and `ctx` is part of the callbacks.
-/
import CAsync.Fault

namespace CAsync

open Faulting

variable {K V : Type}

/-- `struct HashNode`. -/
structure HashNode (K V : Type) where
  next : Option Nat
  key : K
  keySize : Nat
  val : Option V
  hash : Nat

/-- `HashMap`, with the memory of its nodes. -/
structure HashMap (K V : Type) where
  cells : List (Option Nat)
  free : Option Nat
  cap : Nat
  nodeMax : Nat
  equalityFn : K → K → Nat → Int
  hashFn : K → Nat → Nat
  nodes : List (HashNode K V)

namespace HashMap

/-- The zeroed struct, with its two callbacks installed. -/
def zero (equalityFn : K → K → Nat → Int) (hashFn : K → Nat → Nat) : HashMap K V :=
  { cells := [], free := none, cap := 0, nodeMax := 0, equalityFn := equalityFn,
    hashFn := hashFn, nodes := [] }

/-- `n->next = next`. -/
def setNext (h : HashMap K V) (n : Nat) (next : Option Nat) : HashMap K V :=
  { h with nodes := h.nodes.modify n fun node => { node with next := next } }

/-- `n->val = val`. -/
def setVal (h : HashMap K V) (n : Nat) (val : Option V) : HashMap K V :=
  { h with nodes := h.nodes.modify n fun node => { node with val := val } }

/-- `h->cells[cell] = n`. -/
def setCell (h : HashMap K V) (cell : Nat) (n : Option Nat) : HashMap K V :=
  { h with cells := h.cells.set cell n }

/-- Taking a node out of a chain: `if (prev) prev->next = next; else h->cells[cell] = next`. -/
def unlink (h : HashMap K V) (cell : Nat) (prev next : Option Nat) : HashMap K V :=
  match prev with
  | some p => h.setNext p next
  | none => h.setCell cell next

/-- Putting a node at the head of a chain: `n->next = h->cells[cell]; h->cells[cell] = n`. -/
def pushCell (h : HashMap K V) (cell n : Nat) : Except Fault (HashMap K V) := do
  let head ← load h.cells cell
  .ok ((h.setNext n head).setCell cell (some n))

/-- The inner loop of `hash_map_expand`: walk one chain and move out the nodes that belong
elsewhere. -/
def expandChain (newCap cell : Nat) : Nat → Option Nat → Option Nat → HashMap K V →
    Except Fault (HashMap K V)
  | _, _, none, h => .ok h
  | 0, _, some _, _ => .error .endlessChain
  | fuel + 1, prev, some n, h => do
    let node ← load h.nodes n
    let next := node.next
    let newCell := node.hash % newCap
    if newCell ≠ cell then do
      let h ← (h.unlink cell prev next).pushCell newCell n
      expandChain newCap cell fuel prev next h
    else
      expandChain newCap cell fuel (some n) next h

/-- The outer loop of `hash_map_expand`: `k` cells from `cell` on. -/
def expandCells (newCap : Nat) : (k cell : Nat) → HashMap K V → Except Fault (HashMap K V)
  | 0, _, h => .ok h
  | k + 1, cell, h => do
    let n ← load h.cells cell
    let h ← expandChain newCap cell h.nodes.length none n h
    expandCells newCap k (cell + 1) h

/-- `hash_map_expand`. -/
def hashMapExpand (h : HashMap K V) : Except Fault (HashMap K V) := do
  let newCap := h.cap * 2 + 10
  let h := { h with cells := h.cells ++ List.replicate (newCap - h.cap) none }
  let h ← expandCells newCap h.cap 0 h
  .ok { h with cap := newCap }

/-- The test the three loops over a chain make on a node. -/
def isKey (h : HashMap K V) (key : K) (keySize hash : Nat) (n : HashNode K V) : Bool :=
  n.keySize = keySize ∧ n.hash = hash ∧ h.equalityFn key n.key keySize = 0

/-- The loop of `hash_map_find`, and the first loop of `hash_map_insert`. -/
def findIn (h : HashMap K V) (key : K) (keySize hash : Nat) : Nat → Option Nat →
    Except Fault (Option Nat)
  | _, none => .ok none
  | 0, some _ => .error .endlessChain
  | fuel + 1, some n => do
    let node ← load h.nodes n
    if h.isKey key keySize hash node then .ok (some n)
    else findIn h key keySize hash fuel node.next

/-- `hash_map_find`. -/
def hashMapFind (h : HashMap K V) (key : K) (keySize : Nat) : Except Fault (Option Nat) :=
  if h.cap = 0 then .ok none else do
    let hash := h.hashFn key keySize
    let cell := hash % h.cap
    let head ← load h.cells cell
    findIn h key keySize hash h.nodes.length head

/-- The growth test of `hash_map_insert`. -/
def expandIfFull (h : HashMap K V) : Except Fault (HashMap K V) :=
  if h.nodeMax ≥ h.cap * 5 then hashMapExpand h else .ok h

/-- Where `hash_map_insert` takes a new node from: the list `free`, else `calloc`. -/
def takeNode [Inhabited K] (h : HashMap K V) : Except Fault (HashMap K V × Nat) :=
  match h.free with
  | some n => do
    let node ← load h.nodes n
    .ok ({ h with free := node.next }, n)
  | none =>
    let zeroed := { next := none, key := default, keySize := 0, val := none, hash := 0 }
    .ok ({ h with nodes := h.nodes ++ [zeroed], nodeMax := h.nodeMax + 1 }, h.nodes.length)

/-- `n->hash = hash; n->key = key; n->key_size = key_size`. -/
def setKey (h : HashMap K V) (n : Nat) (key : K) (keySize hash : Nat) : HashMap K V :=
  { h with nodes := h.nodes.modify n fun node =>
      { node with hash := hash, key := key, keySize := keySize } }

/-- `hash_map_insert`: the new map and the entry. -/
def hashMapInsert [Inhabited K] (h : HashMap K V) (key : K) (keySize : Nat) :
    Except Fault (HashMap K V × Nat) := do
  let h ← expandIfFull h
  require (h.cap ≠ 0) .hashMapNoCells
  let hash := h.hashFn key keySize
  let cell := hash % h.cap
  let head ← load h.cells cell
  match ← findIn h key keySize hash h.nodes.length head with
  | some n => .ok (h, n)
  | none => do
    let (h, n) ← takeNode h
    let h ← h.pushCell cell n
    .ok (h.setKey n key keySize hash, n)

/-- The loop of `hash_map_remove`: the pointers `prev` and `n` it stops with. -/
def findPrev (h : HashMap K V) (key : K) (keySize hash : Nat) : Nat → Option Nat → Option Nat →
    Except Fault (Option Nat × Option Nat)
  | _, prev, none => .ok (prev, none)
  | 0, _, some _ => .error .endlessChain
  | fuel + 1, prev, some n => do
    let node ← load h.nodes n
    if h.isKey key keySize hash node then .ok (prev, some n)
    else findPrev h key keySize hash fuel (some n) node.next

/-- `hash_map_remove`: the new map and the entry, `none` for NULL.  The last two assignments
of the source are `n->next = h->free; h->free = n->next`, so `free` keeps its old value. -/
def hashMapRemove (h : HashMap K V) (key : K) (keySize : Nat) :
    Except Fault (HashMap K V × Option Nat) :=
  if h.cap = 0 then .ok (h, none) else do
    let hash := h.hashFn key keySize
    let cell := hash % h.cap
    let head ← load h.cells cell
    let (prev, found) ← findPrev h key keySize hash h.nodes.length none head
    match found with
    | none => .ok (h, none)
    | some n => do
      let node ← load h.nodes n
      let next := node.next
      require (prev ≠ none ∨ head = some n) .hashMapNotHead
      let h := h.unlink cell prev next
      let h := h.setNext n h.free
      let node ← load h.nodes n
      .ok ({ h with free := node.next }, some n)

/-- The two inner loops of `hash_map_deinit`: the nodes they free, in order. -/
def deinitChain (h : HashMap K V) : Nat → Option Nat → Except Fault (List Nat)
  | _, none => .ok []
  | 0, some _ => .error .endlessChain
  | fuel + 1, some n => do
    let node ← load h.nodes n
    let freed ← deinitChain h fuel node.next
    .ok (n :: freed)

/-- The outer loop of `hash_map_deinit`: `k` cells from `cell` on. -/
def deinitCells (h : HashMap K V) : (k cell : Nat) → Except Fault (List Nat)
  | 0, _ => .ok []
  | k + 1, cell => do
    let head ← load h.cells cell
    let freed ← deinitChain h h.nodes.length head
    let rest ← deinitCells h k (cell + 1)
    .ok (freed ++ rest)

/-- `hash_map_deinit`: the nodes of the table, which the callback is called for, and all the nodes
it frees. -/
def hashMapDeinit (h : HashMap K V) : Except Fault (List Nat × List Nat) := do
  let stored ← deinitCells h h.cap 0
  let free ← deinitChain h h.nodes.length h.free
  .ok (stored, stored ++ free)

end HashMap
end CAsync
