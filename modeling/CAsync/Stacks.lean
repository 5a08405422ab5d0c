/-
# Tasks on real stacks

In `Runtime` a stack that is not running is a frame.  Here it is memory again: each task has a
block of `STACK_SIZE` bytes, the stack pointer of a task that is left is a word in its `Task`, and
a switch is a run of `asyncSwitchAsm`.

`PoolStep` is what the library does to the pool: `start_new_task` takes a slot, `async_switch` goes
from one task to another, and all its other writes leave the saved stack pointers alone.
`Stacks.Step` adds the processor.  Between two steps of the library the running code computes what
it likes, and it may write where it likes, to the stacks of other tasks too: `recv` into the buffer
of a caller does.  The label of such a step says which addresses outside of its own stack these are
(`StackOp.run wrote`), so that a result can say what it needs nobody to have written.

What is assumed of every step is in `Keeps`, `OnStack`, `Args` and `Layout`: nobody but the
library writes the fields `stack_ptr` of the tasks; the functions that work on the pool write to
no stack but that of the running task; no stack overflows, so that the stack pointer is in the
running task's own stack at a switch, with room for the registers; `async_switch` passes its
arguments as the ABI says; `mmap` and `realloc` return memory that is not in use.  Addresses of
blocks are numbers, and no block reaches the end of the address space.
-/
import CAsync.Pool
import CAsync.SwitchAsm

namespace CAsync

open Faulting Memory Processor TaskPool

variable {F V : Type}

/-! ## 1. The pool -/

inductive PoolOp (F V : Type) where
  | alloc (fn : F) (data : V) (h : Handle)
  | write (h : Handle)
  | switch (src dst : Handle) (frame : Frame) (control : Control F V)

/-- `async_return` has no task to leave any more, and neither has `run_async_main`. -/
def LeavesNothing (p : TaskPool F V) (running : Handle) : Prop :=
  running.idx = 0 ∨ p.stateOf running = some .ready ∨ p.stateOf running = some .free

/-- The steps of the library, on the pool and the handle of the running task. -/
inductive PoolStep : TaskPool F V × Handle → PoolOp F V → TaskPool F V × Handle → Prop
  | alloc {p q : TaskPool F V} {running h : Handle} {fn : F} {data : V}
      (ok : allocTask p fn data = .ok (q, h)) (unused : h ≠ running) :
      PoolStep (p, running) (.alloc fn data h) (q, running)
  | write {p q : TaskPool F V} {running h : Handle} {t u : Task F V} (task : p.slot h = some u)
      (stackPtr : t.stackPtr = u.stackPtr)
      (state : t.state = u.state ∧ t.fn = u.fn ∧ t.data = u.data ∨ t.state = .ready ∨
        t.state = .free)
      (slot : q.slot = Function.update p.slot h (some t)) (len : q.len = p.len)
      (cap : q.cap = p.cap) : PoolStep (p, running) (.write h) (q, running)
  | switch {p : TaskPool F V} {running src dst : Handle} {frame : Frame}
      {t : Runtime Unit F V} {control : Control F V}
      (ok : asyncSwitch ⟨p, (), running⟩ src dst frame = .ok (t, control))
      (leaves : src = running ∨ src.idx = 0 ∧ LeavesNothing p running) :
      PoolStep (p, running) (.switch src dst frame control) (t.pool, t.running)

/-- A step on the stacks: code that runs, and the addresses outside of its own stack that it has
written, or a step of the library. -/
inductive StackOp (F V : Type) where
  | run (wrote : Set Word)
  | lib (op : PoolOp F V)

/-- Where the step may have written on a stack that is not the running task's. -/
def StackOp.wrote : StackOp F V → Set Word
  | .run wrote => wrote
  | .lib _ => ∅

/-- Where the steps may have. -/
def written (l : List (StackOp F V)) : Set Word := {a | ∃ op ∈ l, a ∈ op.wrote}

/-- The steps of the library among them. -/
def libraryOps (l : List (StackOp F V)) : List (PoolOp F V) :=
  l.filterMap fun
    | .run _ => none
    | .lib op => some op

/-- The task of slot `h` stays where it is. -/
def PoolOp.Leaves (h : Handle) : PoolOp F V → Prop
  | .alloc _ _ i => i ≠ h
  | .write _ => True
  | .switch _ dst _ _ => dst ≠ h

/-! ## 2. The machine -/

/-- `STACK_SIZE`. -/
def stackSize : Nat := 16384

/-- `sizeof(Task)`. -/
def sizeofTask : Nat := 48

/-- The offset of `stack_ptr` in a `Task`. -/
def stackPtrOffset : Nat := 8

/-- The library on a processor: `tasks` is the address of `pool->tasks`, `bases` has the address of
the stack of each slot, and `osLow` and `osHigh` bound the stack that the process starts on. -/
structure Stacks (F V : Type) where
  pool : TaskPool F V
  running : Handle
  cpu : Cpu
  pc : Word
  tasks : Nat
  bases : List Nat
  osLow : Nat
  osHigh : Nat

namespace Stacks

/-- The lowest address of a stack; the one of the process belongs to no task. -/
def low (s : Stacks F V) (h : Handle) : Nat :=
  if h.idx = 0 then s.osLow else s.bases.getD (h.idx - 1) 0

/-- The end of a stack, where it is empty. -/
def high (s : Stacks F V) (h : Handle) : Nat :=
  if h.idx = 0 then s.osHigh else s.bases.getD (h.idx - 1) 0 + stackSize

/-- `&pool->tasks[h.idx - 1].stack_ptr`. -/
def ptrAt (s : Stacks F V) (h : Handle) : Nat :=
  s.tasks + sizeofTask * (h.idx - 1) + stackPtrOffset

/-- `pool->tasks[h.idx - 1].stack_ptr`. -/
def stackPtr (s : Stacks F V) (h : Handle) : Word :=
  readWord s.cpu.mem (BitVec.ofNat 64 (s.ptrAt h))

/-- The blocks do not overlap: the stacks, and the array of the tasks. -/
structure Layout (s : Stacks F V) : Prop where
  bases : s.bases.length = s.pool.len
  cap : s.pool.len ≤ s.pool.cap
  null : 0 < s.tasks
  array : s.tasks + sizeofTask * s.pool.cap < 2 ^ 64
  high : ∀ h, h.idx ≤ s.pool.len → s.high h < 2 ^ 64
  aligned : ∀ b ∈ s.bases, b % 16 = 0
  disjoint : ∀ h i, h ≠ i → h.idx ≤ s.pool.len → i.idx ≤ s.pool.len →
    s.high h ≤ s.low i ∨ s.high i ≤ s.low h
  apart : ∀ h, h.idx ≤ s.pool.len →
    s.high h ≤ s.tasks ∨ s.tasks + sizeofTask * s.pool.cap ≤ s.low h

/-- Code that runs on the stack of the running task leaves the other stacks alone but for the
addresses in `wrote`, and the saved stack pointers but for the one of slot `new`. -/
structure Keeps (s t : Stacks F V) (new : Option Handle) (wrote : Set Word) : Prop where
  others : ∀ h, h ≠ s.running → h.idx ≤ s.pool.len →
    AgreeOff wrote (s.low h) (s.high h) s.cpu.mem t.cpu.mem
  ptrs : ∀ h, 0 < h.idx → h.idx ≤ s.pool.len → some h ≠ new → t.stackPtr h = s.stackPtr h

/-- The arguments that `async_switch` passes to `async_switch_asm`. -/
structure Args (code : F → Word) (word : V → Word) (s : Stacks F V) (src dst : Handle)
    (t : Task F V) : Prop where
  rdi : s.cpu.regs .rdi = if src.idx = 0 then 0 else BitVec.ofNat 64 (s.ptrAt src)
  rsi : s.cpu.regs .rsi = s.stackPtr dst
  rdx : s.cpu.regs .rdx = if t.state = .init then 1 else 0
  rcx : s.cpu.regs .rcx = code t.fn
  r8 : s.cpu.regs .r8 = word t.data

/-- The stack pointer is in the stack of the running task, with room for the registers. -/
structure OnStack (s : Stacks F V) : Prop where
  room : s.low s.running + 48 ≤ (s.cpu.regs .rsp).toNat
  inside : (s.cpu.regs .rsp).toNat + 8 ≤ s.high s.running

/-- The blocks are where they were. -/
structure SameBlocks (s t : Stacks F V) : Prop where
  tasks : t.tasks = s.tasks
  bases : t.bases = s.bases
  osLow : t.osLow = s.osLow
  osHigh : t.osHigh = s.osHigh

/-- One step: code that runs, or a step of the library. -/
inductive Step (code : F → Word) (word : V → Word) (here : Nat → Word) :
    Stacks F V → StackOp F V → Stacks F V → Prop
  | run {s t : Stacks F V} {wrote : Set Word} (pool : t.pool = s.pool)
      (running : t.running = s.running) (blocks : SameBlocks s t)
      (keeps : Keeps s t none wrote) : Step code word here s (.run wrote) t
  /-- `realloc` may move the array; a slot that is not `FREE` is behind all others. -/
  | alloc {s t : Stacks F V} {fn : F} {data : V} {h : Handle}
      (pool : PoolStep (s.pool, s.running) (.alloc fn data h) (t.pool, t.running))
      (bases : ∃ b, t.bases = s.bases ++ b) (osLow : t.osLow = s.osLow)
      (osHigh : t.osHigh = s.osHigh) (layout : Layout t) (keeps : Keeps s t (some h) ∅)
      (stackPtr : t.stackPtr h = BitVec.ofNat 64 (t.high h)) :
      Step code word here s (.lib (.alloc fn data h)) t
  | write {s t : Stacks F V} {h : Handle}
      (pool : PoolStep (s.pool, s.running) (.write h) (t.pool, t.running))
      (blocks : SameBlocks s t) (keeps : Keeps s t none ∅) :
      Step code word here s (.lib (.write h)) t
  | switch {s t : Stacks F V} {src dst : Handle} {frame : Frame} {control : Control F V}
      {u : Task F V} {e : Exit}
      (pool : PoolStep (s.pool, s.running) (.switch src dst frame control) (t.pool, t.running))
      (task : s.pool.slot dst = some u) (args : Args code word s src dst u) (stack : OnStack s)
      (asm : exec asyncSwitchAsm here 22 0 s.cpu = some (t.cpu, e)) (pc : e.pc = some t.pc)
      (blocks : SameBlocks s t) : Step code word here s (.lib (.switch src dst frame control)) t

/-- `run_async_main` before its first call of the library. -/
structure Booted (s : Stacks F V) : Prop where
  tasks : s.pool.tasks = []
  running : s.running.idx = 0
  layout : Layout s

end Stacks
end CAsync
