/-
# Numbers as bytes, and bytes in memory

`le w n` are the `w` bytes of `n`, the least significant first, and `ofLe` reads them back
(`ofLe_le`, `le_ofLe`).  A memory is a list: `overwrite` and `slice` write and read a stretch of it.
-/
import Mathlib.Data.Nat.Basic
import Mathlib.Tactic.NormNum

namespace Bytes

variable {α : Type}

/-! ## 1. Little-endian numbers -/

/-- The low `w` bytes of `n`. -/
def le : Nat → Nat → List UInt8
  | 0, _ => []
  | w + 1, n => UInt8.ofNat n :: le w (n / 256)

def ofLe : List UInt8 → Nat
  | [] => 0
  | b :: bs => b.toNat + 256 * ofLe bs

@[simp] theorem length_le (w n : Nat) : (le w n).length = w := by
  induction w generalizing n with
  | zero => rfl
  | succ w ih => rw [le, List.length_cons, ih]

/-- **The bytes of a number are that number**, up to its width. -/
theorem ofLe_le (w n : Nat) : ofLe (le w n) = n % 256 ^ w := by
  induction w generalizing n with
  | zero => simp [le, ofLe, Nat.mod_one]
  | succ w ih =>
    have hbyte : (UInt8.ofNat n).toNat = n % 256 := UInt8.toNat_ofNat'
    rw [le, ofLe, hbyte, ih, Nat.pow_succ', Nat.mod_mul]

/-- Reading a number that fits back. -/
theorem ofLe_le_of_lt {w n : Nat} (h : n < 256 ^ w) : ofLe (le w n) = n := by
  rw [ofLe_le, Nat.mod_eq_of_lt h]

theorem ofLe_lt (bs : List UInt8) : ofLe bs < 256 ^ bs.length := by
  induction bs with
  | nil => exact Nat.one_pos
  | cons b bs ih =>
    have hb : b.toNat < 256 := b.toNat_lt
    rw [ofLe, List.length_cons, Nat.pow_succ']
    omega

/-- **Any bytes are those of a number.** -/
theorem le_ofLe (bs : List UInt8) : le bs.length (ofLe bs) = bs := by
  induction bs with
  | nil => rfl
  | cons b bs ih =>
    have hb : b.toNat < 256 := b.toNat_lt
    have hbyte : UInt8.ofNat (b.toNat + 256 * ofLe bs) = b := by
      apply UInt8.toNat_inj.mp
      rw [UInt8.toNat_ofNat']
      omega
    have hrest : (b.toNat + 256 * ofLe bs) / 256 = ofLe bs := by omega
    rw [ofLe, List.length_cons, le, hbyte, hrest, ih]

/-! ## 2. Stretches of a memory -/

/-- The memory with `xs` written at `off`. -/
def overwrite (mem : List α) (off : Nat) (xs : List α) : List α :=
  mem.take off ++ (xs ++ mem.drop (off + xs.length))

/-- The `n` cells at `off`. -/
def slice (mem : List α) (off n : Nat) : List α := (mem.drop off).take n

/-- Writing behind a stretch leaves the stretch alone. -/
theorem overwrite_append {pre rest xs : List α} {off : Nat} (hoff : off = pre.length) :
    overwrite (pre ++ rest) off xs = pre ++ (xs ++ rest.drop xs.length) := by
  unfold overwrite
  rw [hoff, List.take_left', List.drop_append]
  · simp
  · rfl

/-- Writing inside a memory keeps its length. -/
theorem length_overwrite {mem xs : List α} {off : Nat} (h : off + xs.length ≤ mem.length) :
    (overwrite mem off xs).length = mem.length := by
  unfold overwrite
  rw [List.length_append, List.length_append, List.length_take_of_le (by omega),
    List.length_drop]
  omega

theorem slice_append {pre xs rest : List α} {off n : Nat} (hoff : off = pre.length)
    (hn : n = xs.length) : slice (pre ++ (xs ++ rest)) off n = xs := by
  unfold slice
  rw [hoff, hn, List.drop_left, List.take_left]

theorem overwrite_nil (mem : List α) (off : Nat) : overwrite mem off [] = mem :=
  List.take_append_drop off mem

/-- Two stretches, one behind the other. -/
theorem overwrite_overwrite {mem xs ys : List α} {off : Nat} (h : off + xs.length ≤ mem.length) :
    overwrite (overwrite mem off xs) (off + xs.length) ys = overwrite mem off (xs ++ ys) := by
  have hpre : (mem.take off ++ xs).length = off + xs.length := by
    rw [List.length_append, List.length_take_of_le (by omega)]
  have hsplit : overwrite mem off xs = (mem.take off ++ xs) ++ mem.drop (off + xs.length) := by
    rw [overwrite, List.append_assoc]
  rw [hsplit, overwrite_append hpre.symm, overwrite, List.drop_drop, List.length_append,
    List.append_assoc, List.append_assoc, Nat.add_assoc]

/-- A stretch from the start. -/
theorem slice_zero (mem : List α) (n : Nat) : slice mem 0 n = mem.take n := rfl

theorem length_slice {mem : List α} {off n : Nat} (h : off + n ≤ mem.length) :
    (slice mem off n).length = n := by
  rw [slice, List.length_take_of_le]
  rw [List.length_drop]
  omega

theorem take_slice {mem : List α} {off n k : Nat} (h : k ≤ n) :
    (slice mem off n).take k = slice mem off k := by
  rw [slice, slice, List.take_take, Nat.min_eq_left h]

theorem drop_slice (mem : List α) (off n k : Nat) :
    (slice mem off n).drop k = slice mem (off + k) (n - k) := by
  rw [slice, slice, List.drop_take, List.drop_drop]

end Bytes
