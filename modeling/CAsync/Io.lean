/-
# Argument buffers (`io.c`)

`pack` writes its variable arguments to a buffer, one after the other behind a header of two
`int`s, the number of bytes used and the size of the buffer; `unpack` reads them back.  Both are
driven by a format string, a list of characters here, without its terminating NUL.

`int` is a 32-bit number, and `ptr += sizeof(...)` wraps around: it is computed in `unsigned long`
and converted back (`addSize`).  Memory is little-endian.  A buffer is the list of the bytes that
the program may touch, which can be more than the `size` it tells `pack`; a `memcpy` outside of it
is a fault.  `unpack` stores through pointers to variables of the right types, and its model
returns what it stores, with the stretches it reads the values from.
-/
import CAsync.Fault
import CAsync.Lib.Bytes

namespace CAsync

open Bytes

/-- An argument of `pack`. -/
inductive Arg where
  | i (n : BitVec 32)
  | u (n : BitVec 32)
  | p (n : BitVec 64)
  deriving DecidableEq, Repr

/-- The bytes of an `int`. -/
def intBytes (n : Int) : List UInt8 := le 4 (BitVec.ofInt 32 n).toNat

/-- The `int` that some bytes are. -/
def intOfBytes (bytes : List UInt8) : Int := (BitVec.ofNat 32 (ofLe bytes)).toInt

/-- `ptr += n`, for an `int` and a size. -/
def addSize (ptr : Int) (n : Nat) : Int := (BitVec.ofInt 32 (ptr + n)).toInt

/-- `memcpy(buf + ptr, bytes, ...)`. -/
def memcpyTo (buf : List UInt8) (ptr : Int) (bytes : List UInt8) : Except Fault (List UInt8) :=
  if 0 ≤ ptr ∧ ptr + bytes.length ≤ buf.length then .ok (overwrite buf ptr.toNat bytes)
  else .error .outOfBounds

/-- `memcpy(..., buf + ptr, n)`. -/
def memcpyFrom (buf : List UInt8) (ptr : Int) (n : Nat) : Except Fault (List UInt8) :=
  if 0 ≤ ptr ∧ ptr + n ≤ buf.length then .ok (slice buf ptr.toNat n) else .error .outOfBounds

/-! ## 1. `pack` -/

/-- The part that the cases of `pack` share, after `va_arg`. -/
def packField (size ptr : Int) (buf bytes : List UInt8) : Except Fault (Int × List UInt8) := do
  require (size ≥ ptr) .packFull
  let buf ← memcpyTo buf ptr bytes
  .ok (addSize ptr bytes.length, buf)

/-- The loop of `pack`: the last `ptr`, or nothing after an invalid character, and the buffer.  An
argument that is missing or of another type is undefined behaviour. -/
def packLoop (size : Int) :
    List Char → List Arg → Int → List UInt8 → Except Fault (Option Int × List UInt8)
  | [], _, ptr, buf => .ok (some ptr, buf)
  | 'i' :: fmt, .i n :: args, ptr, buf => do
    let (ptr, buf) ← packField size ptr buf (le 4 n.toNat)
    packLoop size fmt args ptr buf
  | 'u' :: fmt, .u n :: args, ptr, buf => do
    let (ptr, buf) ← packField size ptr buf (le 4 n.toNat)
    packLoop size fmt args ptr buf
  | 'p' :: fmt, .p n :: args, ptr, buf => do
    let (ptr, buf) ← packField size ptr buf (le 8 n.toNat)
    packLoop size fmt args ptr buf
  | c :: _, _, _, buf =>
    if c = 'i' ∨ c = 'u' ∨ c = 'p' then .error .vaArg else .ok (none, buf)

/-- `pack`.  In `size >= 2 * sizeof(int)` the `int` is converted to `unsigned long`. -/
def pack (buf : List UInt8) (size : Int) (fmt : List Char) (args : List Arg) :
    Except Fault (Int × List UInt8) := do
  require (size % 2 ^ 64 ≥ 8) .packNoHeader
  let (ptr, buf) ← packLoop size fmt args 8 buf
  match ptr with
  | none => .ok (-1, buf)
  | some ptr => do
    let buf ← memcpyTo buf 0 (intBytes ptr)
    let buf ← memcpyTo buf 4 (intBytes size)
    .ok (ptr, buf)

/-! ## 2. `unpack` -/

/-- What `unpack` returns, the values it has stored, and where it has read them: `ptr` and the
number of bytes. -/
structure Unpacked where
  ret : Int
  stored : List Arg
  reads : List (Int × Nat)
  deriving DecidableEq, Repr

/-- The loop of `unpack`: `ret` is the last `ptr`, or nothing after an invalid character. -/
def unpackLoop (buf : List UInt8) (len : Int) :
    List Char → Int → Except Fault (Option Int × List Arg × List (Int × Nat))
  | [], ptr => .ok (some ptr, [], [])
  | c :: fmt, ptr => do
    require (len > ptr) .unpackEnd
    match c with
    | 'i' => do
      let bytes ← memcpyFrom buf ptr 4
      let (last, stored, reads) ← unpackLoop buf len fmt (addSize ptr 4)
      .ok (last, .i (BitVec.ofNat 32 (ofLe bytes)) :: stored, (ptr, 4) :: reads)
    | 'u' => do
      let bytes ← memcpyFrom buf ptr 4
      let (last, stored, reads) ← unpackLoop buf len fmt (addSize ptr 4)
      .ok (last, .u (BitVec.ofNat 32 (ofLe bytes)) :: stored, (ptr, 4) :: reads)
    | 'p' => do
      let bytes ← memcpyFrom buf ptr 8
      let (last, stored, reads) ← unpackLoop buf len fmt (addSize ptr 8)
      .ok (last, .p (BitVec.ofNat 64 (ofLe bytes)) :: stored, (ptr, 8) :: reads)
    | _ => .ok (none, [], [])

/-- The end of `unpack`: `assert(ptr == len)`, unless the loop has returned. -/
def unpackEnd (len size : Int) (last : Option Int) (stored : List Arg)
    (reads : List (Int × Nat)) : Except Fault Unpacked :=
  match last with
  | none => .ok { ret := -1, stored := stored, reads := reads }
  | some ptr => do
    require (ptr = len) .unpackLength
    .ok { ret := size, stored := stored, reads := reads }

/-- `unpack`. -/
def unpack (buf : List UInt8) (fmt : List Char) : Except Fault Unpacked := do
  let lenBytes ← memcpyFrom buf 0 4
  let len := intOfBytes lenBytes
  let sizeBytes ← memcpyFrom buf 4 4
  let size := intOfBytes sizeBytes
  let (last, stored, reads) ← unpackLoop buf len fmt 8
  unpackEnd len size last stored reads

end CAsync
