/-
# The ways a run can stop

Every `assert` of the library has its own fault, named after what it checks, so that a theorem
can say which assertions can fire and which cannot.  The last group is not in the source: it
marks the places where C would be undefined (a NULL or wild pointer, an index outside an
allocation) or where a pointer loop would not end.
-/
import CAsync.Lib.Faulting
import Mathlib.Algebra.Group.Int.Defs

namespace CAsync

/-- Why a run stopped: a failed assertion, or undefined behaviour. -/
inductive Fault where
  -- storage.h
  | queueUnderflow
  | queueExpand
  -- hashmap.c
  | hashMapNoCells
  | hashMapNotHead
  -- scheduler.c
  | taskNotFree
  | taskNoStack
  | handleNull
  | handleRange
  -- switch.c
  | switchToNull
  | switchToSelf
  | switchToFree
  | switchToReady
  | switchNoStack
  -- graph_scheduler.c
  | verifyQueue
  | registerNull
  | nodeNull
  | nodeNotQueued
  | nodeDead
  | notRegistered
  | stillQueued
  | pollNull
  | alreadyAwaited
  | childMismatch
  | resumedNotCurrent
  | awaitedNotReady
  -- async.c
  | mainNotFirst
  | awaitNull
  -- io.c
  | packNoHeader
  | packFull
  | unpackEnd
  | unpackLength
  -- arena.c
  | arenaEnd
  -- str.c
  | stringNull
  -- echo_async.c
  | bufferEmpty
  -- undefined behaviour, and loops that do not end
  | nullDeref
  | outOfBounds
  | vaArg
  | intOverflow
  | endlessChain
  deriving DecidableEq, Repr

export Faulting (require)

/-- Reading the `i`-th cell of an allocation. -/
def load {α : Type} (mem : List α) (i : Nat) : Except Fault α :=
  match mem[i]? with
  | some x => .ok x
  | none => .error .outOfBounds

/-- Writing the `i`-th cell of an allocation. -/
def store {α : Type} (mem : List α) (i : Nat) (x : α) : Except Fault (List α) :=
  if i < mem.length then .ok (mem.set i x) else .error .outOfBounds

theorem load_eq {α : Type} {mem : List α} {i : Nat} {x : α} (h : mem[i]? = some x) :
    load mem i = .ok x := by
  unfold load
  rw [h]

@[simp] theorem load_eq_ok {α : Type} {mem : List α} {i : Nat} {x : α} :
    load mem i = .ok x ↔ mem[i]? = some x := by
  unfold load
  cases mem[i]? with
  | none => simp
  | some y => simp

theorem store_eq {α : Type} {mem : List α} {i : Nat} {x : α} (h : i < mem.length) :
    store mem i x = .ok (mem.set i x) := if_pos h

/-- The result of an `int` operation. -/
def intOp (n : Int) : Except Fault Int :=
  if -2 ^ 31 ≤ n ∧ n < 2 ^ 31 then .ok n else .error .intOverflow

theorem intOp_eq {n : Int} (h₀ : 0 ≤ n) (h : n < 2 ^ 31) : intOp n = .ok n := if_pos ⟨by omega, h⟩

end CAsync
