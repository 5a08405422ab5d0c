/-
# The tasks of `async_recv`, `async_send` and `async_accept`

Each of the three functions packs its arguments into a local array `arg_buf`, calls `async_call`
with the address of the array, and returns.  The task it has created starts at some later switch,
with `unpack` of what is then at that address.

`arg_buf` is modelled as the storage that it has in a call from a given frame.  The storage is
reclaimed when the call returns, and every later call may use it again: the next of these calls from
the same frame packs its own arguments there, and any other call, of the library, of libc or of the
program itself, leaves there whatever its own frames and locals are (`Left`, a part of the step's
label).  The call that switches to the new task is one of them.  `own_args_iff` says when a task
still finds its own arguments: when the last call that has used the storage was one of the three
functions with the same argument bytes, or happens to have left these very bytes.

What the task functions do after `unpack`, `recv` and `async_skip` in a loop and then
`async_return`, are calls like those of any other task.
-/
import CAsync.PackUnpack
import CAsync.LifeCycle
import Mathlib.Data.Vector.Defs

namespace CAsync

open Faulting TaskPool Bytes

variable {S F V G W : Type}

/-! ## 1. The functions of `io.c` -/

/-- Where a function is called: the task whose stack it is on, and how deep. -/
structure StackFrame where
  task : Handle
  depth : Nat
  deriving DecidableEq, Repr

/-- The function of a task: one of `io.c`, or one of the program. -/
inductive TaskFn (G : Type) where
  | asyncRecvImpl
  | asyncSendImpl
  | asyncAcceptImpl
  | user (fn : G)

/-- A `void *`: the address of `arg_buf` in a call from a frame, or any other. -/
inductive Pointer (W : Type) where
  | argBuf (frame : StackFrame)
  | user (p : W)

/-- The library, and the storage that `arg_buf` has in a call from each frame. -/
structure IoRuntime (S G W : Type) where
  lib : Runtime S (TaskFn G) (Pointer W)
  argBuf : StackFrame → List UInt8

/-- What a call leaves in the storage of `arg_buf` for each frame, if its own frames reach it. -/
abbrev Left := StackFrame → Option (List.Vector UInt8 256)

namespace IoRuntime

/-- The storage after a call that has left this in it. -/
def leave (m : IoRuntime S G W) (left : Left) : IoRuntime S G W :=
  { m with argBuf := fun frame => ((left frame).map List.Vector.toList).getD (m.argBuf frame) }

@[simp] theorem leave_lib (m : IoRuntime S G W) (left : Left) : (m.leave left).lib = m.lib := rfl

/-- What the three functions share: `char arg_buf[256] = {0};`, `pack` and `async_call`. -/
def packAndCall [SchedulerOps S] (m : IoRuntime S G W) (frame : StackFrame) (impl : TaskFn G)
    (fmt : List Char) (args : List Arg) : Except Fault (IoRuntime S G W × Handle) := do
  let (_, argBuf) ← pack (List.replicate 256 0) 256 fmt args
  let (lib, h) ← startNewTask m.lib impl (.argBuf frame)
  .ok ({ lib := lib, argBuf := Function.update m.argBuf frame argBuf }, h)

/-- `async_recv`. -/
def asyncRecv [SchedulerOps S] (m : IoRuntime S G W) (frame : StackFrame) (fd : BitVec 32)
    (buf : BitVec 64) (n flags : BitVec 32) : Except Fault (IoRuntime S G W × Handle) :=
  m.packAndCall frame .asyncRecvImpl ['i', 'p', 'i', 'i'] [.i fd, .p buf, .i n, .i flags]

/-- `async_send`. -/
def asyncSend [SchedulerOps S] (m : IoRuntime S G W) (frame : StackFrame) (fd : BitVec 32)
    (buf : BitVec 64) (n flags : BitVec 32) : Except Fault (IoRuntime S G W × Handle) :=
  m.packAndCall frame .asyncSendImpl ['i', 'p', 'i', 'i'] [.i fd, .p buf, .i n, .i flags]

/-- `async_accept`. -/
def asyncAccept [SchedulerOps S] (m : IoRuntime S G W) (frame : StackFrame) (fd : BitVec 32)
    (addr addrLen : BitVec 64) : Except Fault (IoRuntime S G W × Handle) :=
  m.packAndCall frame .asyncAcceptImpl ['i', 'p', 'p'] [.i fd, .p addr, .p addrLen]

/-- The call of `unpack` that the function of a task starts with, if it is one of `io.c`. -/
def unpackArgs (m : IoRuntime S G W) : TaskFn G → Pointer W → Option (Except Fault Unpacked)
  | .asyncRecvImpl, .argBuf frame => some (unpack (m.argBuf frame) ['i', 'p', 'i', 'i'])
  | .asyncSendImpl, .argBuf frame => some (unpack (m.argBuf frame) ['i', 'p', 'i', 'i'])
  | .asyncAcceptImpl, .argBuf frame => some (unpack (m.argBuf frame) ['i', 'p', 'p'])
  | _, _ => none

end IoRuntime

/-- A call of one of the three functions. -/
inductive IoCall where
  | recv (fd : BitVec 32) (buf : BitVec 64) (n flags : BitVec 32)
  | send (fd : BitVec 32) (buf : BitVec 64) (n flags : BitVec 32)
  | accept (fd : BitVec 32) (addr addrLen : BitVec 64)

namespace IoCall

def impl : IoCall → TaskFn G
  | .recv .. => .asyncRecvImpl
  | .send .. => .asyncSendImpl
  | .accept .. => .asyncAcceptImpl

def fmt : IoCall → List Char
  | .recv .. => ['i', 'p', 'i', 'i']
  | .send .. => ['i', 'p', 'i', 'i']
  | .accept .. => ['i', 'p', 'p']

def args : IoCall → List Arg
  | .recv fd buf n flags => [.i fd, .p buf, .i n, .i flags]
  | .send fd buf n flags => [.i fd, .p buf, .i n, .i flags]
  | .accept fd addr addrLen => [.i fd, .p addr, .p addrLen]

/-- The call, made from a frame. -/
def run [SchedulerOps S] (m : IoRuntime S G W) (frame : StackFrame) :
    IoCall → Except Fault (IoRuntime S G W × Handle)
  | .recv fd buf n flags => m.asyncRecv frame fd buf n flags
  | .send fd buf n flags => m.asyncSend frame fd buf n flags
  | .accept fd addr addrLen => m.asyncAccept frame fd addr addrLen

theorem run_eq [SchedulerOps S] (m : IoRuntime S G W) (frame : StackFrame) (c : IoCall) :
    c.run m frame = m.packAndCall frame c.impl c.fmt c.args := by
  cases c <;> rfl

theorem unpackArgs_impl (m : IoRuntime S G W) (frame : StackFrame) (c : IoCall) :
    m.unpackArgs c.impl (.argBuf frame) = some (unpack (m.argBuf frame) c.fmt) := by
  cases c <;> rfl

theorem matches_args (c : IoCall) : Matches c.fmt c.args := by
  cases c <;> rfl

theorem width_fmt (c : IoCall) : width c.fmt = 20 := by
  cases c <;> rfl

theorem format_fmt (c : IoCall) : Format c.fmt := by
  cases c <;> simp [Format, fmt]

theorem length_fields_args (c : IoCall) : (fields c.args).length = 20 := by
  rw [length_fields, ← c.matches_args, c.width_fmt]

end IoCall

/-! ## 2. The contents of `arg_buf` -/

/-- `arg_buf` with these argument bytes. -/
def packed (bytes : List UInt8) : List UInt8 :=
  intBytes (28 : Nat) ++ (intBytes 256 ++ (bytes ++ List.replicate 228 0))

theorem pack_packed {fmt : List Char} {args : List Arg} (hargs : Matches fmt args)
    (hw : width fmt = 20) :
    pack (List.replicate 256 0) 256 fmt args = .ok ((28 : Nat), packed (fields args)) := by
  unfold Matches at hargs
  subst hargs
  have hlen : (List.replicate 256 (0 : UInt8)).length = 256 := List.length_replicate
  rw [pack_eq (by rw [hw]; decide) (by decide) (by rw [hlen]; decide), hw, List.drop_replicate]
  rfl

/-- The storage holds what `unpack` needs to find the arguments of `c`: the length that `pack`
writes in front, and the argument bytes. -/
def HoldsArgs (bytes : List UInt8) (c : IoCall) : Prop :=
  slice bytes 0 4 = intBytes (28 : Nat) ∧ slice bytes 8 20 = fields c.args

instance (bytes : List UInt8) (c : IoCall) : Decidable (HoldsArgs bytes c) :=
  inferInstanceAs (Decidable (_ ∧ _))

theorem length_packed {bytes : List UInt8} (h : bytes.length = 20) :
    (packed bytes).length = 256 := by
  unfold packed
  rw [List.length_append, List.length_append, List.length_append, length_intBytes,
    length_intBytes, h, List.length_replicate]

theorem holdsArgs_packed {bytes : List UInt8} {c : IoCall} (h : bytes.length = 20) :
    HoldsArgs (packed bytes) c ↔ bytes = fields c.args := by
  have hbody : slice (packed bytes) 8 20 = bytes := by
    unfold packed
    rw [← List.append_assoc]
    exact slice_append (by rw [List.length_append, length_intBytes, length_intBytes]) h.symm
  unfold HoldsArgs
  rw [hbody]
  have hsize : slice ([] ++ packed bytes) 0 4 = intBytes 28 :=
    slice_append rfl (length_intBytes _).symm
  exact and_iff_right hsize

/-- The storage is the two `int`s of the header, 20 bytes, and a rest. -/
theorem storage_eq (bytes : List UInt8) :
    bytes = slice bytes 0 4 ++ (slice bytes 4 4 ++ (slice bytes 8 20 ++ bytes.drop 28)) := by
  have hbody : slice bytes 8 20 ++ bytes.drop 28 = bytes.drop 8 := by
    unfold slice
    rw [show bytes.drop 28 = (bytes.drop 8).drop 20 from
      (List.drop_drop (i := 20) (j := 8)).symm, List.take_append_drop]
  have hsize : slice bytes 4 4 ++ bytes.drop 8 = bytes.drop 4 := by
    unfold slice
    rw [show bytes.drop 8 = (bytes.drop 4).drop 4 from
      (List.drop_drop (i := 4) (j := 4)).symm, List.take_append_drop]
  rw [hbody, hsize, slice_zero, List.take_append_drop]

/-- **`unpack` of storage with the length 28 in front** stores the arguments whose bytes follow. -/
theorem unpack_holds {bytes : List UInt8} {fmt : List Char} {args : List Arg}
    (hlen : bytes.length = 256) (hargs : Matches fmt args) (hw : width fmt = 20)
    (hfront : slice bytes 0 4 = intBytes (28 : Nat)) (hbody : slice bytes 8 20 = fields args) :
    ∃ u, unpack bytes fmt = .ok u ∧ u.stored = args := by
  unfold Matches at hargs
  subst hargs
  have hsize : (slice bytes 4 4).length = 4 := length_slice (by omega)
  have hbuf := storage_eq bytes
  rw [hfront, hbody, ← intBytes_intOfBytes hsize] at hbuf
  obtain ⟨hlo, hhi⟩ := intOfBytes_range (slice bytes 4 4)
  generalize hn : intOfBytes (slice bytes 4 4) = size at hbuf hlo hhi
  obtain ⟨reads, hloop⟩ := unpackLoop_fields args (intBytes (28 : Nat) ++ intBytes size)
    (bytes.drop 28) (n := 8) (L := 28)
    (by rw [List.length_append, length_intBytes, length_intBytes]) (by rw [hw]) (by decide)
  rw [List.append_assoc, ← hbuf, hw] at hloop
  refine ⟨{ ret := size, stored := args, reads := reads }, ?_, rfl⟩
  rw [unpack_eq _ (by decide) hlo hhi hbuf, show unpackLoop bytes _ _ 8 = _ from hloop, ok_bind,
    unpackEnd_some, require_of rfl, ok_bind]

/-- **What `unpack` finds in the storage**, with the format of `c`: the arguments of `c` exactly if
the storage holds them. -/
theorem unpack_iff_holdsArgs {bytes : List UInt8} {c : IoCall} (hlen : bytes.length = 256) :
    (∃ u, unpack bytes c.fmt = .ok u ∧ u.stored = c.args) ↔ HoldsArgs bytes c := by
  constructor
  · rintro ⟨u, hu, hstored⟩
    -- the loop ends at 28, and `unpack` compares that with the length in front
    have hfront : slice bytes 0 4 = intBytes (28 : Nat) := by
      have hend := unpack_length c.format_fmt (by rw [c.width_fmt]; decide) hu
      rw [c.width_fmt] at hend
      rw [← intBytes_intOfBytes (length_slice (by omega)), hend]
    -- the bytes behind the header are those of some arguments for the format of `c`
    have hbody : (slice bytes 8 20).length = 20 := length_slice (by omega)
    obtain ⟨args, hargs, hfields⟩ := exists_fields c.format_fmt (hbody.trans c.width_fmt.symm)
    obtain ⟨v, hv, hargs'⟩ := unpack_holds hlen hargs c.width_fmt hfront hfields.symm
    rw [hu, Except.ok.injEq] at hv
    refine ⟨hfront, ?_⟩
    rw [← hfields, ← hargs', ← hv, hstored]
  · rintro ⟨hfront, hbody⟩
    exact unpack_holds hlen c.matches_args c.width_fmt hfront hbody

/-! ## 3. Programs -/

/-- A call of the running task, with what it leaves in the storage: a call of one of the three
functions, any other of the library, or any function of the program or of libc. -/
inductive IoOp (G W : Type) where
  | io (frame : StackFrame) (c : IoCall) (left : Left)
  | lib (op : Op (TaskFn G) (Pointer W)) (left : Left)
  | other (left : Left)

/-- The call that the library sees, if any. -/
def IoOp.toOp : IoOp G W → Option (Op (TaskFn G) (Pointer W))
  | .io frame c _ => some (.call c.impl (.argBuf frame))
  | .lib op _ => some op
  | .other _ => none

/-- The calls that the library sees, with their replies. -/
def libraryCalls (l : List (IoOp G W × Reply (TaskFn G) (Pointer W))) :
    List (Op (TaskFn G) (Pointer W) × Reply (TaskFn G) (Pointer W)) :=
  l.filterMap fun x => x.1.toOp.map fun op => (op, x.2)

/-- A program calls the functions of `io.c` through `async_recv`, `async_send`
and `async_accept`. -/
def UserCall (op : Op (TaskFn G) (Pointer W)) : Prop :=
  ∀ fn arg, op = .call fn arg → ∃ g, fn = .user g

section

variable [SchedulerVTable S]

/-- One call, and the reply.  When one of the three functions returns, the storage for its own frame
holds what it has packed, whatever the call leaves elsewhere. -/
inductive IoNext (m : IoRuntime S G W) :
    IoOp G W × Reply (TaskFn G) (Pointer W) → IoRuntime S G W → Prop
  | io {frame : StackFrame} {c : IoCall} {left : Left} {h : Handle} {t : IoRuntime S G W}
      (here : frame.task = m.lib.running) (run : c.run (m.leave left) frame = .ok (t, h)) :
      IoNext m (.io frame c left, .handle h) t
  | lib {op : Op (TaskFn G) (Pointer W)} (left : Left) {r : Reply (TaskFn G) (Pointer W)}
      {s : Runtime S (TaskFn G) (Pointer W)} (user : UserCall op) (next : Next m.lib (op, r) s) :
      IoNext m (.lib op left, r) { m.leave left with lib := s }
  | other (left : Left) : IoNext m (.other left, .done) (m.leave left)

/-- A call of one of the three functions, as the library sees it, and what it packs. -/
theorem run_eq_ok {m t : IoRuntime S G W} {frame : StackFrame} {c : IoCall} {h : Handle}
    (run : c.run m frame = .ok (t, h)) :
    Next m.lib (.call c.impl (.argBuf frame), .handle h) t.lib ∧
      t.argBuf = Function.update m.argBuf frame (packed (fields c.args)) := by
  rw [c.run_eq, IoRuntime.packAndCall, pack_packed c.matches_args c.width_fmt, ok_bind] at run
  obtain ⟨⟨lib, h'⟩, hcall, run⟩ := bind_eq_ok.mp run
  cases run
  refine ⟨?_, rfl⟩
  change step m.lib (.call c.impl (.argBuf frame)) = _
  unfold step asyncCall
  dsimp only
  rw [hcall, ok_bind]

/-- The call as the library sees it. -/
theorem IoNext.next {m t : IoRuntime S G W} {op : IoOp G W}
    {r : Reply (TaskFn G) (Pointer W)} (h : IoNext m (op, r) t) :
    match op.toOp with
    | some op => Next m.lib (op, r) t.lib
    | none => t.lib = m.lib := by
  cases h with
  | io _ run => exact (run_eq_ok run).1
  | lib _ _ next => exact next
  | other => rfl

end

/-! ## 4. Who has used the storage last -/

/-- What the call leaves in the storage for a frame, if it uses it. -/
def IoOp.leaves (frame : StackFrame) : IoOp G W → Option (List UInt8)
  | .io frame' c left =>
    if frame' = frame then some (packed (fields c.args)) else (left frame).map List.Vector.toList
  | .lib _ left => (left frame).map List.Vector.toList
  | .other left => (left frame).map List.Vector.toList

/-- The last call that has used the storage for a frame. -/
def lastUse (frame : StackFrame) (l : List (IoOp G W × Reply (TaskFn G) (Pointer W))) :
    Option (IoOp G W) :=
  ((l.map Prod.fst).filter fun op => (op.leaves frame).isSome).getLast?

/-- The call serves a task that the call `c` from `frame` has created: it is one of the three
functions, made from the same frame with the same argument bytes, or it has left in the storage the
length and the argument bytes of `c`. -/
def IoOp.Serves (frame : StackFrame) (c : IoCall) : IoOp G W → Prop
  | .io frame' c' left =>
    if frame' = frame then fields c'.args = fields c.args
    else ∀ bytes, left frame = some bytes → HoldsArgs bytes.toList c
  | .lib _ left => ∀ bytes, left frame = some bytes → HoldsArgs bytes.toList c
  | .other left => ∀ bytes, left frame = some bytes → HoldsArgs bytes.toList c

/-- The task that has slot `h` after the calls of `l` was created by the call `c` from `frame`. -/
def CreatedBy (l : List (IoOp G W × Reply (TaskFn G) (Pointer W))) (h : Handle) (frame : StackFrame)
    (c : IoCall) : Prop :=
  ∃ l₁ left l₂, l = l₁ ++ (.io frame c left, .handle h) :: l₂ ∧ ∀ x ∈ l₂, x.2 ≠ .handle h

section

variable {l : List (IoOp G W × Reply (TaskFn G) (Pointer W))}
  {x : IoOp G W × Reply (TaskFn G) (Pointer W)} {op : IoOp G W}
  {r : Reply (TaskFn G) (Pointer W)} {frame : StackFrame} {c : IoCall} {h : Handle}

theorem IoOp.length_leaves {bytes : List UInt8} (h : op.leaves frame = some bytes) :
    bytes.length = 256 := by
  have hleft : ∀ left : Left, (left frame).map List.Vector.toList = some bytes →
      bytes.length = 256 := by
    intro left hb
    obtain ⟨v, -, rfl⟩ := Option.map_eq_some_iff.mp hb
    exact v.toList_length
  cases op with
  | io frame' c' left =>
    by_cases hf : frame' = frame
    · rw [leaves, if_pos hf, Option.some.injEq] at h
      rw [← h]
      exact length_packed c'.length_fields_args
    · rw [leaves, if_neg hf] at h
      exact hleft left h
  | lib _ left => exact hleft left h
  | other left => exact hleft left h

/-- **A call serves a task exactly if it leaves the task's arguments.** -/
theorem IoOp.serves_iff {bytes : List UInt8} (h : op.leaves frame = some bytes) :
    op.Serves frame c ↔ HoldsArgs bytes c := by
  have hleft : ∀ left : Left, (left frame).map List.Vector.toList = some bytes →
      ((∀ v, left frame = some v → HoldsArgs v.toList c) ↔ HoldsArgs bytes c) := by
    intro left hb
    obtain ⟨v, hv, rfl⟩ := Option.map_eq_some_iff.mp hb
    rw [hv]
    exact ⟨fun hall => hall v rfl, fun hheld w hw => Option.some.inj hw ▸ hheld⟩
  cases op with
  | io frame' c' left =>
    by_cases hf : frame' = frame
    · rw [leaves, if_pos hf, Option.some.injEq] at h
      rw [Serves, if_pos hf, ← h]
      exact (holdsArgs_packed c'.length_fields_args).symm
    · rw [leaves, if_neg hf] at h
      rw [Serves, if_neg hf]
      exact hleft left h
  | lib _ left => exact hleft left h
  | other left => exact hleft left h

theorem lastUse_snoc : lastUse frame (l ++ [(op, r)]) =
    if (op.leaves frame).isSome then some op else lastUse frame l := by
  unfold lastUse
  rw [List.map_append, List.filter_append]
  cases hop : (op.leaves frame).isSome <;> simp [hop]

theorem createdBy_snoc : CreatedBy (l ++ [x]) h frame c ↔
    (∃ left, x = (.io frame c left, .handle h)) ∨ x.2 ≠ .handle h ∧ CreatedBy l h frame c := by
  constructor
  · rintro ⟨l₁, left, l₂, hl, hl₂⟩
    rcases List.eq_nil_or_concat l₂ with rfl | ⟨l₂, y, rfl⟩
    · exact .inl ⟨left, List.singleton_inj.mp (List.append_inj' hl rfl).2⟩
    · rw [List.concat_eq_append, ← List.cons_append, ← List.append_assoc] at hl
      obtain ⟨rfl, hx⟩ := List.append_inj' hl rfl
      obtain rfl := List.singleton_inj.mp hx
      exact .inr ⟨hl₂ x (by simp), l₁, left, l₂, rfl, fun z hz => hl₂ z (by simp [hz])⟩
  · rintro (⟨left, rfl⟩ | ⟨hx, l₁, left, l₂, rfl, hl₂⟩)
    · exact ⟨l, left, [], rfl, fun _ hz => absurd hz List.not_mem_nil⟩
    · refine ⟨l₁, left, l₂ ++ [x], by rw [List.append_assoc]; rfl, fun z hz => ?_⟩
      rcases List.mem_append.mp hz with hz | hz
      · exact hl₂ z hz
      · rwa [List.mem_singleton.mp hz]

/-- Then the storage for the frame has been used. -/
theorem CreatedBy.lastUse_append (hc : CreatedBy l h frame c)
    (l' : List (IoOp G W × Reply (TaskFn G) (Pointer W))) :
    ∃ op, lastUse frame (l ++ l') = some op := by
  obtain ⟨l₁, left, l₂, rfl, -⟩ := hc
  have hmem : IoOp.io frame c left ∈ (((l₁ ++ (.io frame c left, .handle h) :: l₂) ++ l').map
      Prod.fst).filter fun op => (op.leaves frame).isSome := by
    refine List.mem_filter.mpr ⟨by simp, ?_⟩
    rw [IoOp.leaves, if_pos rfl]
    rfl
  unfold lastUse
  cases hlast : List.getLast? _ with
  | some op => exact ⟨op, rfl⟩
  | none =>
    rw [List.getLast?_eq_none_iff.mp hlast] at hmem
    exact absurd hmem List.not_mem_nil

end

section

variable [SchedulerVTable S]

/-- **What a call does to the storage**: it is what the call leaves there, where it uses it. -/
theorem IoNext.argBuf {m t : IoRuntime S G W} {op : IoOp G W}
    {r : Reply (TaskFn G) (Pointer W)} (h : IoNext m (op, r) t) (frame : StackFrame) :
    t.argBuf frame = (op.leaves frame).getD (m.argBuf frame) := by
  cases h with
  | @io frame' c left h t _ run =>
    rw [(run_eq_ok run).2, IoOp.leaves]
    by_cases hf : frame' = frame
    · rw [if_pos hf, hf, Function.update_self]
      rfl
    · rw [if_neg hf, Function.update_of_ne (Ne.symm hf)]
      rfl
  | lib => rfl
  | other => rfl

end

/-! ## 5. A task before it starts -/

/-- **A task that has not started** has just been created, or it is as it was, but for its flag. -/
theorem Effect.init_task {s t : Runtime TaskGraph F V} {op : Op F V} {r : Reply F V} {h : Handle}
    {u : Task F V} (hs : Inv s) (heff : Effect s op r t) (hu : t.pool.slot h = some u)
    (hinit : u.state = .init) :
    (op = .call u.fn u.data ∧ r = .handle h) ∨
      r ≠ .handle h ∧
        ∃ w, s.pool.slot h = some w ∧ w.state = .init ∧ w.fn = u.fn ∧ w.data = u.data := by
  cases heff.slotBefore hs hu (by rw [hinit]; decide) with
  | kept same other => exact .inr ⟨other, u, same, hinit, rfl, rfl⟩
  | created call reply new => exact .inl ⟨by rw [new.fn, new.data, call], reply⟩
  | @finished data v f _ _ after =>
    rw [after] at hinit
    rcases v.finish_state data f with ⟨hstate, -⟩ | hstate
    · rw [hinit] at hstate
      cases hstate
    · rw [hinit] at hstate
      cases hstate
  | @orphaned v _ task after other =>
    subst after
    exact .inr ⟨other, v, task, hinit, rfl, rfl⟩
  | freed _ after =>
    rw [hinit] at after
    cases after

/-- **A task that starts** was `INIT`, and gets its function and its argument. -/
theorem Effect.started {s t : Runtime TaskGraph F V} {op : Op F V} {fn : F} {data : V} (hs : Inv s)
    (heff : Effect s op (.start fn data) t) :
    ∃ u, s.pool.slot t.running = some u ∧ u.state = .init ∧ u.fn = fn ∧ u.data = data := by
  have hresumed : ∀ {u : Task F V}, u.resumed = .start fn data →
      u.state = .init ∧ u.fn = fn ∧ u.data = data := by
    intro u hu
    unfold Task.resumed at hu
    split at hu
    · rename_i hinit
      cases hu
      exact ⟨hinit, rfl, rfl⟩
    · split at hu <;> cases hu
  have hswitch : ∀ {i : Handle} {x : Option (Task F V)} {next : Handle} {u : Task F V},
      SwitchedTo t (Function.update s.pool.slot i x) next u → next ≠ i →
      u.resumed = .start fn data →
      ∃ u, s.pool.slot t.running = some u ∧ u.state = .init ∧ u.fn = fn ∧ u.data = data := by
    intro i x next u hsw hne hu
    have htask := hsw.task
    rw [Function.update_of_ne hne] at htask
    rw [hsw.running]
    exact ⟨u, htask, hresumed hu⟩
  generalize hr : (Reply.start fn data : Reply F V) = r at heff
  cases heff with
  | call => cases hr
  | alone => cases hr
  | skip queue _ switched => exact hswitch switched (hs.next_ne queue) hr.symm
  | await queue _ _ _ _ _ switched => exact hswitch switched (hs.next_ne queue) hr.symm
  | ret _ queue _ _ _ _ switched => exact hswitch switched (hs.next_ne queue) hr.symm
  | wake => cases hr
  | orphan => cases hr
  | free => cases hr
  | poll => cases hr

/-! ## 6. Every run -/

/-- What holds after the calls of `l`. -/
structure IoInv (l : List (IoOp G W × Reply (TaskFn G) (Pointer W))) (m : IoRuntime Graph G W) :
    Prop where
  reached : Reached (libraryCalls l) m.lib
  argBuf : ∀ {frame op}, lastUse frame l = some op → op.leaves frame = some (m.argBuf frame)
  created : ∀ {h frame c t}, CreatedBy l h frame c → m.lib.pool.slot h = some t →
    t.state = .init → t.fn = c.impl ∧ t.data = .argBuf frame

theorem IoInv.start {m : IoRuntime Graph G W} (h₀ : Start m.lib) : IoInv [] m where
  reached := ⟨m.lib, h₀, .refl _⟩
  argBuf := by
    intro frame op hlast
    cases hlast
  created := by
    rintro h frame c t ⟨l₁, left, l₂, hl, -⟩
    simp at hl

/-- The library after one more call. -/
theorem Reached.libraryCalls_snoc {l : List (IoOp G W × Reply (TaskFn G) (Pointer W))}
    {op : IoOp G W} {r : Reply (TaskFn G) (Pointer W)} {m t : IoRuntime Graph G W}
    (hm : Reached (libraryCalls l) m.lib) (hst : IoNext m (op, r) t) :
    Reached (libraryCalls (l ++ [(op, r)])) t.lib := by
  have hnext := hst.next
  unfold libraryCalls at hm ⊢
  rw [List.filterMap_append]
  cases hop : op.toOp with
  | none =>
    rw [hop] at hnext
    rw [show t.lib = m.lib from hnext]
    simpa [hop] using hm
  | some lop =>
    rw [hop] at hnext
    simpa [hop] using hm.append (.single hnext)

/-- A task that the calls of `l` and one more have created, and that has not started. -/
theorem IoInv.created_next {l : List (IoOp G W × Reply (TaskFn G) (Pointer W))} {op : IoOp G W}
    {r : Reply (TaskFn G) (Pointer W)} {m t : IoRuntime Graph G W} (hm : IoInv l m)
    (hst : IoNext m (op, r) t) {h : Handle} {frame : StackFrame} {c : IoCall}
    {u : Task (TaskFn G) (Pointer W)} (hc : CreatedBy (l ++ [(op, r)]) h frame c)
    (hu : t.lib.pool.slot h = some u) (hinit : u.state = .init) :
    u.fn = c.impl ∧ u.data = .argBuf frame := by
  have hnext := hst.next
  cases hop : op.toOp with
  | none =>
    -- the library has not been called
    rw [hop] at hnext
    rw [show t.lib = m.lib from hnext] at hu
    rcases createdBy_snoc.mp hc with ⟨left, hx⟩ | ⟨-, hold⟩
    · rw [(Prod.mk.inj hx).1] at hop
      cases hop
    · exact hm.created hold hu hinit
  | some lop =>
    rw [hop] at hnext
    obtain ⟨a, b, hsa, htb, ha, heff, -⟩ := hm.reached.effect hnext
    rw [htb.pool] at hu
    rcases heff.init_task ha hu hinit with ⟨hcall, hr⟩ | ⟨hr, w, hw, hwinit, hfn, hdata⟩
    · -- the task has just been created
      rcases createdBy_snoc.mp hc with ⟨left, hx⟩ | ⟨hx, -⟩
      · rw [(Prod.mk.inj hx).1, IoOp.toOp, Option.some.injEq] at hop
        rw [← hop, Op.call.injEq] at hcall
        exact ⟨hcall.1.symm, hcall.2.symm⟩
      · exact absurd hr hx
    · rcases createdBy_snoc.mp hc with ⟨left, hx⟩ | ⟨-, hold⟩
      · exact absurd (Prod.mk.inj hx).2 hr
      · rw [← hsa.pool] at hw
        rw [← hfn, ← hdata]
        exact hm.created hold hw hwinit

theorem IoInv.next {l : List (IoOp G W × Reply (TaskFn G) (Pointer W))}
    {x : IoOp G W × Reply (TaskFn G) (Pointer W)} {m t : IoRuntime Graph G W} (hm : IoInv l m)
    (hst : IoNext m x t) : IoInv (l ++ [x]) t where
  reached := hm.reached.libraryCalls_snoc hst
  argBuf := by
    intro frame op hlast
    obtain ⟨op', r⟩ := x
    rw [lastUse_snoc] at hlast
    rw [hst.argBuf frame]
    cases hused : op'.leaves frame with
    | some bytes =>
      rw [hused, Option.isSome_some, if_pos rfl, Option.some.injEq] at hlast
      rw [← hlast, hused]
      rfl
    | none =>
      rw [hused, Option.isSome_none, if_neg Bool.false_ne_true] at hlast
      exact hm.argBuf hlast
  created := fun hc hu hinit => hm.created_next hst hc hu hinit

theorem IoInv.run {l : List (IoOp G W × Reply (TaskFn G) (Pointer W))} {m₀ m : IoRuntime Graph G W}
    (h₀ : Start m₀.lib) (hs : Steps IoNext m₀ l m) : IoInv l m :=
  hs.history (IoInv.start h₀) fun _ _ _ _ _ hm hst => hm.next hst

/-- **The task that starts works on the arguments of its own call**: if the call `c` of one of the
three functions has created it, then it starts in the function for `c`, and `unpack` stores the
arguments of `c`. -/
def OwnArgs (l : List (IoOp G W × Reply (TaskFn G) (Pointer W)))
    (r : Reply (TaskFn G) (Pointer W)) (m : IoRuntime S G W) : Prop :=
  ∀ frame c, CreatedBy l m.lib.running frame c → (∃ fn data, r = .start fn data) →
    ∃ u, r = .start c.impl (.argBuf frame) ∧
      m.unpackArgs c.impl (.argBuf frame) = some (.ok u) ∧ u.stored = c.args

/-- **One start.**  The task finds what the last call that has used the storage left there, be it
the call that starts the task. -/
theorem IoInv.ownArgs_iff {l : List (IoOp G W × Reply (TaskFn G) (Pointer W))} {op : IoOp G W}
    {fn : TaskFn G} {data : Pointer W} {m t : IoRuntime Graph G W} (hm : IoInv l m)
    (hst : IoNext m (op, .start fn data) t) :
    OwnArgs l (.start fn data) t ↔ ∀ frame c op', CreatedBy l t.lib.running frame c →
      lastUse frame (l ++ [(op, .start fn data)]) = some op' → op'.Serves frame c := by
  -- the task was `INIT` and has kept the function and the argument that the call gave it
  have hstarted : ∀ {frame c}, CreatedBy l t.lib.running frame c →
      fn = c.impl ∧ data = .argBuf frame := by
    intro frame c hc
    have hnext := hst.next
    cases hop : op.toOp with
    | none =>
      cases hst
      cases hop
    | some lop =>
      rw [hop] at hnext
      obtain ⟨a, b, hsa, htb, ha, heff, -⟩ := hm.reached.effect hnext
      obtain ⟨u, hu, hinit, rfl, rfl⟩ := heff.started ha
      rw [← hsa.pool, ← htb.running] at hu
      exact hm.created hc hu hinit
  have hnext := hm.next hst
  constructor
  · intro hown frame c op' hc hlast
    obtain ⟨u, -, hu, hstored⟩ := hown frame c hc ⟨_, _, rfl⟩
    rw [c.unpackArgs_impl, Option.some.injEq] at hu
    have hleft := hnext.argBuf hlast
    exact (IoOp.serves_iff hleft).mpr
      ((unpack_iff_holdsArgs (IoOp.length_leaves hleft)).mp ⟨u, hu, hstored⟩)
  · intro hserves frame c hc _
    obtain ⟨rfl, rfl⟩ := hstarted hc
    obtain ⟨op', hlast⟩ := hc.lastUse_append [(op, .start c.impl (.argBuf frame))]
    have hleft := hnext.argBuf hlast
    obtain ⟨u, hu, hstored⟩ := (unpack_iff_holdsArgs (IoOp.length_leaves hleft)).mpr
      ((IoOp.serves_iff hleft).mp (hserves frame c op' hc hlast))
    exact ⟨u, rfl, by rw [c.unpackArgs_impl, hu], hstored⟩

/-- **When I/O tasks work on their own arguments**, for every sequence of calls of a program over
the graph scheduler, and whatever these leave in the storage of `arg_buf`: each task that starts
finds the arguments of the call that has created it, if and only if for each task that starts, the
last call that has used the storage for the frame of that call, up to the call that starts the task,
serves it. -/
theorem own_args_iff {m₀ : IoRuntime Graph G W} (h₀ : Start m₀.lib)
    (l : List (IoOp G W × Reply (TaskFn G) (Pointer W))) :
    (∀ l₁ op r l₂ m, l = l₁ ++ (op, r) :: l₂ → Steps IoNext m₀ (l₁ ++ [(op, r)]) m →
      OwnArgs l₁ r m) ↔
    ∀ l₁ op fn data l₂ m, l = l₁ ++ (op, .start fn data) :: l₂ →
      Steps IoNext m₀ (l₁ ++ [(op, .start fn data)]) m →
      ∀ frame c op', CreatedBy l₁ m.lib.running frame c →
        lastUse frame (l₁ ++ [(op, .start fn data)]) = some op' → op'.Serves frame c := by
  constructor
  · intro hall l₁ op fn data l₂ m hl hs
    obtain ⟨s, hs₁, hst⟩ := Steps.append_iff.mp hs
    obtain ⟨m', hst, hnil⟩ := Steps.cons_iff.mp hst
    cases hnil
    exact ((IoInv.run h₀ hs₁).ownArgs_iff hst).mp (hall l₁ op _ l₂ m hl hs)
  · intro hall l₁ op r l₂ m hl hs frame c hc hr
    obtain ⟨fn, data, rfl⟩ := hr
    obtain ⟨s, hs₁, hst⟩ := Steps.append_iff.mp hs
    obtain ⟨m', hst, hnil⟩ := Steps.cons_iff.mp hst
    cases hnil
    exact ((IoInv.run h₀ hs₁).ownArgs_iff hst).mpr (hall l₁ op fn data l₂ m hl hs) frame c hc
      ⟨fn, data, rfl⟩

/-- One call of one of the three functions. -/
theorem IoNext.call {m : IoRuntime Graph G W} {frame : StackFrame} {c : IoCall} (left : Left)
    {s : Runtime Graph (TaskFn G) (Pointer W)} {h : Handle} (here : frame.task = m.lib.running)
    (hcall : Next m.lib (.call c.impl (.argBuf frame), .handle h) s) :
    IoNext m (.io frame c left, .handle h)
      { lib := s
        argBuf := Function.update (m.leave left).argBuf frame (packed (fields c.args)) } := by
  obtain ⟨⟨s', h'⟩, hstart, hnext⟩ := bind_eq_ok.mp (show step m.lib _ = _ from hcall)
  cases hnext
  refine .io here ?_
  rw [c.run_eq, IoRuntime.packAndCall, pack_packed c.matches_args c.width_fmt, ok_bind]
  unfold asyncCall at hstart
  dsimp only
  rw [IoRuntime.leave_lib, hstart, ok_bind]

/-- `main` calls `async_recv` and then a function of its own that does not reach the storage, and
switches to the task; `async_skip` comes as far down, but its frames end with the same bytes. -/
theorem own_args_recv : ∃ (m₀ m : IoRuntime Graph Nat Nat) (left : Left), Start m₀.lib ∧
    (∃ bytes, left ⟨⟨1⟩, 0⟩ = some bytes) ∧
    Steps IoNext m₀ [(.io ⟨⟨1⟩, 0⟩ (.recv 3 100 10 0) fun _ => none, .handle ⟨2⟩),
      (.other fun _ => none, .done),
      (.lib .skip left, .start .asyncRecvImpl (.argBuf ⟨⟨1⟩, 0⟩))] m ∧
    OwnArgs [(.io ⟨⟨1⟩, 0⟩ (.recv 3 100 10 0) fun _ => none, .handle ⟨2⟩),
      (.other fun _ => none, .done)] (.start .asyncRecvImpl (.argBuf ⟨⟨1⟩, 0⟩)) m := by
  obtain ⟨s₀, s₁, s₂, h₀, hs₁, hs₂, hr₀, hr₂⟩ :
      ∃ s₀ s₁ s₂ : Runtime Graph (TaskFn Nat) (Pointer Nat), Start s₀ ∧
      Next s₀ (.call .asyncRecvImpl (.argBuf ⟨⟨1⟩, 0⟩), .handle ⟨2⟩) s₁ ∧
      Next s₁ (.skip, .start .asyncRecvImpl (.argBuf ⟨⟨1⟩, 0⟩)) s₂ ∧ s₀.running = ⟨1⟩ ∧
      s₂.running = ⟨2⟩ := by
    exact ⟨_, _, _, ⟨.user 0, .user 0, rfl⟩, rfl, rfl, rfl, rfl⟩
  obtain ⟨left, hleft⟩ : ∃ left : Left, left ⟨⟨1⟩, 0⟩ =
      some ⟨packed (fields (IoCall.recv 3 100 10 0).args),
        length_packed (IoCall.length_fields_args _)⟩ := ⟨fun _ => some _, rfl⟩
  have hcall := IoNext.call (m := ⟨s₀, fun _ => []⟩) (c := .recv 3 100 10 0) (fun _ => none)
    hr₀.symm hs₁
  have hrun := Steps.cons hcall (.cons (.other fun _ => none)
    (.single (.lib left (fun _ _ he => by cases he) hs₂)))
  refine ⟨⟨s₀, fun _ => []⟩, _, left, h₀, ⟨_, hleft⟩, hrun,
    (own_args_iff h₀ _).mpr ?_ [_, _] _ _ [] _ rfl hrun⟩
  intro l₁ op fn data l₂ m hl _ frame c op' hc hlast
  -- a task can start in the third call only
  rcases l₁ with _ | ⟨x, _ | ⟨y, _ | ⟨z, l₁⟩⟩⟩
  · cases hl
  · cases hl
  · obtain ⟨hx, hl₂⟩ := List.cons.inj hl
    obtain ⟨hy, hl₃⟩ := List.cons.inj hl₂
    obtain ⟨hz, -⟩ := List.cons.inj hl₃
    obtain ⟨rfl, -⟩ := Prod.mk.inj hz
    subst hx hy
    -- the only task that a call has created is that of the first call
    rcases createdBy_snoc.mp (show CreatedBy ([_] ++ [_]) _ frame c from hc) with
      ⟨_, hx⟩ | ⟨-, hc⟩
    · cases hx
    rcases createdBy_snoc.mp (show CreatedBy ([] ++ [_]) _ frame c from hc) with
      ⟨_, hx⟩ | ⟨-, l₁, _, l₂, hnil, -⟩
    · cases (Prod.mk.inj hx).1
      have hused : (IoOp.leaves ⟨⟨1⟩, 0⟩ (.lib .skip left : IoOp Nat Nat)) = some _ :=
        congrArg (Option.map List.Vector.toList) hleft
      rw [lastUse_snoc (l := [_, _]), hused, Option.isSome_some, if_pos rfl,
        Option.some.injEq] at hlast
      rw [← hlast]
      exact (IoOp.serves_iff hused).mpr ((holdsArgs_packed (IoCall.length_fields_args _)).mpr rfl)
    · simp at hnil
  · simp at hl

/-- `main` calls `async_recv` twice: the first task finds the arguments of the second call. -/
theorem shared_arg_buf : ∃ (m₀ m : IoRuntime Graph Nat Nat)
    (l : List (IoOp Nat Nat × Reply (TaskFn Nat) (Pointer Nat))) (op : IoOp Nat Nat)
    (r : Reply (TaskFn Nat) (Pointer Nat)), Start m₀.lib ∧ Steps IoNext m₀ (l ++ [(op, r)]) m ∧
      ¬ OwnArgs l r m := by
  obtain ⟨s₀, s₁, s₂, s₃, h₀, hs₁, hs₂, hs₃, hr₀, hr₁, hr₃⟩ :
      ∃ s₀ s₁ s₂ s₃ : Runtime Graph (TaskFn Nat) (Pointer Nat), Start s₀ ∧
      Next s₀ (.call .asyncRecvImpl (.argBuf ⟨⟨1⟩, 0⟩), .handle ⟨2⟩) s₁ ∧
      Next s₁ (.call .asyncRecvImpl (.argBuf ⟨⟨1⟩, 0⟩), .handle ⟨3⟩) s₂ ∧
      Next s₂ (.skip, .start .asyncRecvImpl (.argBuf ⟨⟨1⟩, 0⟩)) s₃ ∧
      s₀.running = ⟨1⟩ ∧ s₁.running = ⟨1⟩ ∧ s₃.running = ⟨2⟩ := by
    exact ⟨_, _, _, _, ⟨.user 0, .user 0, rfl⟩, rfl, rfl, rfl, rfl, rfl, rfl⟩
  obtain ⟨m₂, hcalls, hm₂⟩ : ∃ m₂, Steps IoNext ⟨s₀, fun _ => []⟩
      [(.io ⟨⟨1⟩, 0⟩ (.recv 3 100 10 0) fun _ => none, .handle ⟨2⟩),
        (.io ⟨⟨1⟩, 0⟩ (.recv 4 200 10 0) fun _ => none, .handle ⟨3⟩)] m₂ ∧ m₂.lib = s₂ :=
    ⟨_, .cons (.call _ hr₀.symm hs₁) (.single (.call _ hr₁.symm hs₂)), rfl⟩
  rw [← hm₂] at hs₃
  have hskip := IoNext.lib (fun _ => none) (fun _ _ he => by cases he) hs₃
  refine ⟨_, _, _, _, _, h₀, hcalls.append (.single hskip), fun hown => ?_⟩
  have hbytes := ((IoInv.run h₀ hcalls).ownArgs_iff hskip).mp hown ⟨⟨1⟩, 0⟩ (.recv 3 100 10 0)
    (.io ⟨⟨1⟩, 0⟩ (.recv 4 200 10 0) fun _ => none) ⟨[], _, _, by rw [hr₃]; rfl, by rw [hr₃]; simp⟩
    rfl
  rw [IoOp.Serves, if_pos rfl] at hbytes
  revert hbytes
  decide

end CAsync
