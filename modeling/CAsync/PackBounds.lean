/-
# Where `pack` writes

`pack` checks `size >= ptr` before each field, and `ptr` is where the field starts.  So a field
that starts inside the buffer, or right at its end, and ends behind it passes the check: a format
that does not fit is never stopped before it has written beyond `size` (`packLoop_overruns`), and
the bounds hold for the formats that fit and for no other (`pack_stays_inside_iff`).
-/
import CAsync.PackUnpack

namespace CAsync

open Faulting Bytes

/-- An argument list for a format; C ignores the arguments behind those the format asks for. -/
def Supplies (fmt : List Char) (args : List Arg) : Prop := fmt <+: args.map Arg.spec

/-- **The bounds of `pack`.**  In a buffer of exactly `size` bytes no write is out of bounds,
whether `pack` runs to its end or is stopped by an assertion; and the length it returns is
`8 + width(f)` and at most `size`. -/
def StaysInside (size : Int) (fmt : List Char) (args : List Arg) : Prop :=
  ∀ buf : List UInt8, buf.length = size → pack buf size fmt args ≠ .error .outOfBounds ∧
    ∀ len out, pack buf size fmt args = .ok (len, out) → len = 8 + width fmt ∧ len ≤ size

/-! ## 1. Formats that fit -/

/-- The loop ends with the format. -/
theorem packLoop_append (size : Int) (args extra : List Arg) (ptr : Int) (buf : List UInt8) :
    packLoop size (args.map Arg.spec) (args ++ extra) ptr buf =
      packLoop size (args.map Arg.spec) args ptr buf := by
  induction args generalizing ptr buf with
  | nil =>
    cases extra with
    | nil => rfl
    | cons a extra => rfl
  | cons a args ih =>
    rw [List.map_cons, List.cons_append, packLoop_cons, packLoop_cons]
    cases packField size ptr buf a.bytes with
    | error e => rfl
    | ok x =>
      rw [ok_bind, ok_bind]
      exact ih x.1 x.2

theorem pack_append (buf : List UInt8) (size : Int) (args extra : List Arg) :
    pack buf size (args.map Arg.spec) (args ++ extra) = pack buf size (args.map Arg.spec) args := by
  unfold pack
  rw [packLoop_append]

/-- The arguments that the format asks for, and the rest. -/
theorem Supplies.split {fmt : List Char} {args : List Arg} (h : Supplies fmt args) :
    ∃ given extra, args = given ++ extra ∧ fmt = given.map Arg.spec := by
  obtain ⟨rest, hrest⟩ := h
  obtain ⟨given, extra, rfl, hgiven, -⟩ := List.map_eq_append_iff.mp hrest.symm
  exact ⟨given, extra, rfl, hgiven.symm⟩

theorem stays_inside_of_fits {fmt : List Char} {args : List Arg} {size : Int}
    (hargs : Supplies fmt args) (hint : size < 2 ^ 31) (hfits : 8 + width fmt ≤ size) :
    StaysInside size fmt args := by
  intro buf hbuf
  obtain ⟨given, extra, rfl, rfl⟩ := hargs.split
  rw [pack_append, pack_eq hfits hint (by omega)]
  refine ⟨by simp, fun len out h => ?_⟩
  cases h
  exact ⟨by push_cast; rfl, by push_cast; exact hfits⟩

/-! ## 2. Formats that do not fit -/

/-- A field that ends behind the buffer passes the check if it starts inside, or at the end. -/
theorem packField_overruns {size : Int} {n : Nat} {buf bytes : List UInt8}
    (hbuf : buf.length = size) (hstart : n ≤ size) (hend : size < n + bytes.length) :
    packField size n buf bytes = .error .outOfBounds := by
  unfold packField memcpyTo
  rw [require_of hstart, ok_bind, if_neg (by omega), error_bind]

/-- A field inside the buffer. -/
theorem packField_inside {size : Int} {n : Nat} {buf bytes : List UInt8}
    (hbuf : buf.length = size) (hint : size < 2 ^ 31) (hend : n + bytes.length ≤ size) :
    ∃ out, packField size n buf bytes = .ok (((n + bytes.length : Nat) : Int), out) ∧
      out.length = size := by
  unfold packField memcpyTo
  rw [require_of (by omega), ok_bind, if_pos (by omega), ok_bind, addSize_eq (by omega),
    Int.toNat_natCast]
  exact ⟨_, rfl, by rw [length_overwrite (by omega), hbuf]⟩

/-- **A format that does not fit** is not stopped: the first field that ends behind the buffer is
written. -/
theorem packLoop_overruns {size : Int} (args : List Arg) {n : Nat} {buf : List UInt8}
    (hbuf : buf.length = size) (hint : size < 2 ^ 31) (hstart : n ≤ size)
    (hover : size < n + width (args.map Arg.spec)) :
    packLoop size (args.map Arg.spec) args n buf = .error .outOfBounds := by
  induction args generalizing n buf with
  | nil =>
    rw [List.map_nil, width_nil] at hover
    omega
  | cons a args ih =>
    rw [List.map_cons, width_cons] at hover
    rw [List.map_cons, packLoop_cons]
    have hlen := a.length_bytes
    by_cases hend : size < n + a.bytes.length
    · rw [packField_overruns hbuf hstart hend, error_bind]
    · have hinside : n + a.bytes.length ≤ size := by omega
      obtain ⟨out, hok, hout⟩ := packField_inside hbuf hint hinside
      rw [hok, ok_bind]
      exact ih hout (by push_cast; omega) (by push_cast; omega)

theorem pack_overruns {fmt : List Char} {args : List Arg} {size : Int} {buf : List UInt8}
    (hargs : Supplies fmt args) (hsize : 8 ≤ size) (hint : size < 2 ^ 31)
    (hbuf : buf.length = size) (hover : size < 8 + width fmt) :
    pack buf size fmt args = .error .outOfBounds := by
  obtain ⟨given, extra, rfl, rfl⟩ := hargs.split
  have hloop := packLoop_overruns given (n := 8) hbuf hint hsize hover
  rw [pack_append]
  unfold pack
  rw [require_of (by omega), ok_bind]
  rw [show packLoop size (given.map Arg.spec) given 8 buf = _ from hloop, error_bind]

/-! ## 3. The condition -/

/-- **`pack` stays inside its buffer if and only if the format fits**, for every size that holds
the header, every format and every argument list for it. -/
theorem pack_stays_inside_iff {fmt : List Char} {args : List Arg} {size : Int}
    (hargs : Supplies fmt args) (hsize : 8 ≤ size) (hint : size < 2 ^ 31) :
    StaysInside size fmt args ↔ 8 + width fmt ≤ size := by
  constructor
  · intro hinside
    by_contra hover
    have hlen : ((List.replicate size.toNat (0 : UInt8)).length : Int) = size := by
      rw [List.length_replicate, Int.toNat_of_nonneg (by omega)]
    exact (hinside _ hlen).1 (pack_overruns hargs hsize hint hlen (by omega))
  · exact stays_inside_of_fits hargs hint

/-- One number does not fit behind the header of an 8-byte buffer. -/
theorem pack_stays_inside_iff_header :
    StaysInside 8 ['i'] [.i 1] ↔ 8 + (width ['i'] : Int) ≤ 8 :=
  pack_stays_inside_iff ⟨[], rfl⟩ (by decide) (by decide)

/-- `pack(buf, 8, "i", 1)` runs to its end, returns 12, and has written the byte at offset 8. -/
theorem pack_beyond_size : ¬ StaysInside 8 ['i'] [.i 1] ∧
    ∃ out, pack (List.replicate 12 0) 8 ['i'] [.i 1] = .ok (12, out) ∧ out[8]? = some 1 := by
  refine ⟨fun h => ?_, [12, 0, 0, 0, 8, 0, 0, 0, 1, 0, 0, 0], by decide, rfl⟩
  exact (h (List.replicate 8 0) rfl).1 (by decide)

end CAsync
