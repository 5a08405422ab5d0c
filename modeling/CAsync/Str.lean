/-
# Strings (`examples/str.c`)

A `String` is its storage and two `int`s.  The storage is the list of its bytes, none while `str`
is NULL, and a write outside of it is a fault, as is `int` arithmetic that overflows.  `realloc`
does not run out of memory; the bytes it adds are indeterminate, and 0 here: the functions below
write a byte before anything reads it.

`Str.Valid` is what the tests of the repository check after every operation.  `string_resize` keeps
it for some sizes only (`resizes_iff`): its `memset` begins behind the old text, and is as long as
the whole new storage.
-/
import CAsync.Io
import Mathlib.Data.List.Basic
import Mathlib.Tactic.Ring

namespace CAsync

open Bytes Faulting

/-! ## 1. The source -/

/-- `String`. -/
structure Str where
  str : List UInt8
  len : Int
  cap : Int
  deriving DecidableEq, Repr

/-- `s[i] = c`. -/
def setByte (s : List UInt8) (i : Int) (c : UInt8) : Except Fault (List UInt8) := memcpyTo s i [c]

/-- `realloc(s, size)`, and the assertion that it has returned a block.  A negative `int` is an
impossible size once it is converted to `size_t`, and there is no block of 0 bytes. -/
def reallocStr (s : List UInt8) (size : Int) : Except Fault (List UInt8) := do
  require (0 < size) .stringNull
  .ok (s.take size.toNat ++ List.replicate (size.toNat - s.length) 0)

/-- `string_init`. -/
def stringInit : Str := { str := [], len := 0, cap := 0 }

/-- The first part of `string_append`: room for two bytes. -/
def appendReserve (s : Str) : Except Fault Str :=
  if s.len + 2 ≥ s.cap then do
    let cap ← intOp (s.cap * 2 + 10)
    let str ← reallocStr s.str cap
    .ok { s with str := str, cap := cap }
  else .ok s

/-- `string_append`. -/
def stringAppend (s : Str) (c : UInt8) : Except Fault Str := do
  let s ← appendReserve s
  let str ← setByte s.str s.len c
  let str ← setByte str (s.len + 1) 0
  .ok { s with str := str, len := s.len + 1 }

/-- `string_clear`. -/
def stringClear (s : Str) : Except Fault Str :=
  if s.cap ≠ 0 then do
    let str ← setByte s.str 0 0
    .ok { s with str := str, len := 0 }
  else .ok { s with len := 0 }

/-- `string_resize`. -/
def stringResize (s : Str) (newSize : Int) (padChar : UInt8) : Except Fault Str :=
  if s.len = newSize then .ok s
  else if s.len > newSize then
    if s.cap ≠ 0 then do
      let str ← setByte s.str newSize 0
      .ok { s with str := str, len := newSize }
    else .ok { s with len := newSize }
  else do
    let cap ← intOp (newSize + 1)
    let str ← reallocStr s.str cap
    -- `cap` bytes from the old end on, and not from the start
    let str ← memcpyTo str s.len (List.replicate cap.toNat padChar)
    let str ← setByte str newSize 0
    .ok { str := str, len := newSize, cap := cap }

/-! ## 2. Writing in bounds -/

/-- The writes that succeed: those inside the storage. -/
theorem memcpyTo_eq_ok {mem mem' bytes : List UInt8} {ptr : Int} :
    memcpyTo mem ptr bytes = .ok mem' ↔
      (0 ≤ ptr ∧ ptr + bytes.length ≤ mem.length) ∧ mem' = overwrite mem ptr.toNat bytes := by
  unfold memcpyTo
  split
  · rename_i h
    simp [h, eq_comm]
  · rename_i h
    simp [h]

theorem memcpyTo_nat {mem bytes : List UInt8} {n : Nat} (h : n + bytes.length ≤ mem.length) :
    memcpyTo mem n bytes = .ok (overwrite mem n bytes) :=
  memcpyTo_eq_ok.mpr ⟨⟨by omega, by omega⟩, rfl⟩

theorem memcpyFrom_nat {mem : List UInt8} {off n : Nat} (h : off + n ≤ mem.length) :
    memcpyFrom mem off n = .ok (slice mem off n) := if_pos ⟨by omega, by omega⟩

theorem setByte_nat {mem : List UInt8} {n : Nat} (h : n < mem.length) (c : UInt8) :
    setByte mem n c = .ok (mem.set n c) := by
  unfold setByte
  rw [memcpyTo_nat (show n + [c].length ≤ mem.length from h)]
  unfold overwrite
  rw [List.set_eq_take_cons_drop c h]
  rfl

/-- A block of `n` bytes, whatever was in it before. -/
theorem reallocStr_nat (mem : List UInt8) {n : Nat} (h : 0 < n) :
    ∃ mem', reallocStr mem n = .ok mem' ∧ mem'.length = n := by
  refine ⟨mem.take n ++ List.replicate (n - mem.length) 0, ?_, ?_⟩
  · unfold reallocStr
    rw [require_of (by omega), ok_bind, Int.toNat_natCast]
  · rw [List.length_append, List.length_take, List.length_replicate]
    omega

theorem overwrite_all {mem bytes : List UInt8} (h : bytes.length = mem.length) :
    overwrite mem 0 bytes = bytes := by
  simp [overwrite, h]

/-! ## 3. Valid strings -/

/-- **A valid string** (`STRING_OK`): all zero, or a block with more bytes than the text, and a 0
behind the text. -/
inductive Str.Valid : Str → Prop
  | zero : Valid stringInit
  | block {str : List UInt8} {len cap : Nat} : len < cap → cap < 2 ^ 31 → str.length = cap →
      str[len]? = some 0 → Valid { str := str, len := len, cap := cap }

namespace Str.Valid

variable {s : Str}

theorem len_nonneg (h : s.Valid) : 0 ≤ s.len := by
  cases h with
  | zero => exact Int.le_refl 0
  | block _ _ _ _ => exact Int.natCast_nonneg _

theorem length_str (h : s.Valid) : (s.str.length : Int) = s.cap := by
  cases h with
  | zero => rfl
  | block _ _ hstr _ => exact congrArg _ hstr

/-- The text is inside the storage. -/
theorem len_le (h : s.Valid) : s.len ≤ s.str.length := by
  cases h with
  | zero => exact Int.le_refl 0
  | block hlen _ hstr _ =>
    simp only
    omega

/-- Without storage there is nothing. -/
theorem eq_zero (h : s.Valid) (hcap : s.cap = 0) : s = stringInit := by
  cases h with
  | zero => rfl
  | block hlen _ _ _ =>
    simp only at hcap
    omega

/-- Another text of the same length. -/
theorem text (h : s.Valid) {text : List UInt8} (ht : (text.length : Int) = s.len) :
    Str.Valid { s with str := overwrite s.str 0 text } := by
  cases h with
  | zero =>
    obtain rfl : text = [] := List.length_eq_zero_iff.mp (Int.ofNat_inj.mp ht)
    exact .zero
  | @block str len cap hlen hcap hstr hend =>
    obtain rfl : text.length = len := Int.ofNat_inj.mp ht
    have hin : 0 + text.length ≤ str.length := by omega
    refine .block hlen hcap (by rw [length_overwrite hin, hstr]) ?_
    rw [overwrite, List.take_zero, List.nil_append, Nat.zero_add,
      List.getElem?_append_right (Nat.le_refl _), Nat.sub_self, List.getElem?_drop, Nat.add_zero]
    exact hend

/-- `string_clear` keeps the storage, and a string without storage as it is. -/
theorem clear (h : s.Valid) : ∃ t, stringClear s = .ok t ∧ t.Valid ∧ t.len = 0 ∧ t.cap = s.cap := by
  cases h with
  | zero => exact ⟨stringInit, rfl, .zero, rfl, rfl⟩
  | @block str len cap hlen hcap hstr hend =>
    refine ⟨{ str := str.set 0 0, len := (0 : Nat), cap := cap }, ?_,
      .block (by omega) hcap (by simpa using hstr) ?_, rfl, rfl⟩
    · have hset : setByte str 0 0 = .ok (str.set 0 0) := setByte_nat (n := 0) (by omega) 0
      unfold stringClear
      rw [if_pos (show (cap : Int) ≠ 0 by omega), hset, ok_bind]
      rfl
    · rw [List.getElem?_set_self (by omega)]

end Str.Valid

/-! ## 4. `string_resize` -/

section

variable {s : Str} {n : Nat} {padChar : UInt8}

/-- **Growing an empty string**: the `memset` begins at 0, and fills the new block. -/
theorem stringResize_empty (hs : s.len = 0) (hn : 0 < n) (hint : n + 1 < 2 ^ 31) :
    stringResize s n padChar = .ok
      { str := (List.replicate (n + 1) padChar).set n 0, len := n, cap := (n + 1 : Nat) } := by
  obtain ⟨mem, hmem, hlen⟩ := reallocStr_nat s.str (n := n + 1) (by omega)
  have hcopy : memcpyTo mem (0 : Nat) (List.replicate (n + 1) padChar) =
      .ok (List.replicate (n + 1) padChar) := by
    rw [memcpyTo_nat (by simp [hlen]), overwrite_all (by simp [hlen])]
  have hcast : ((n : Int) + 1) = (n + 1 : Nat) := rfl
  unfold stringResize
  rw [if_neg (by omega), if_neg (by omega), hcast, intOp_eq (by omega) (by omega), ok_bind, hmem,
    ok_bind, hs, Int.toNat_natCast]
  rw [show (0 : Int) = (0 : Nat) from rfl, hcopy, ok_bind,
    setByte_nat (by simp), ok_bind]

/-- A cleared string takes any size from 0 on. -/
theorem stringResize_cleared (padChar : UInt8) (hs : s.Valid) (hlen : s.len = 0)
    (hint : n + 1 < 2 ^ 31) :
    ∃ t, stringResize s n padChar = .ok t ∧ t.Valid ∧ t.len = n ∧
      (t.cap ≠ 0 ↔ s.cap ≠ 0 ∨ 0 < n) := by
  cases n with
  | zero => exact ⟨s, if_pos hlen, hs, hlen, by simp⟩
  | succ n =>
    refine ⟨_, stringResize_empty hlen (Nat.succ_pos n) hint,
      .block (Nat.lt_succ_self _) hint (by simp) ?_, rfl, ?_⟩
    · rw [List.getElem?_set_self (by simp)]
    · simp only
      omega

/-- A size whose `new_size + 1` is no `int`. -/
theorem stringResize_overflow {n : Int} (hlen : s.len = 0) (hn : 2 ^ 31 - 1 ≤ n) :
    stringResize s n padChar = .error .intOverflow := by
  unfold stringResize
  rw [if_neg (by omega), if_neg (by omega), intOp, if_neg (by omega)]
  rfl

/-- Growing a string with some text: the `memset` passes the end of the block. -/
theorem stringResize_text {n : Int} (hs : 0 < s.len) (hn : s.len < n) :
    ∃ e, stringResize s n padChar = .error e := by
  unfold stringResize
  rw [if_neg (by omega), if_neg (by omega)]
  by_cases hint : n + 1 < 2 ^ 31
  · obtain ⟨k, rfl⟩ := Int.eq_ofNat_of_zero_le (show 0 ≤ n by omega)
    obtain ⟨mem, hmem, hlen⟩ := reallocStr_nat s.str (n := k + 1) (by omega)
    rw [intOp_eq (by omega) hint, ok_bind, show ((k : Int) + 1) = (k + 1 : Nat) from rfl, hmem,
      ok_bind, memcpyTo, if_neg (by simp [hlen]; omega)]
    exact ⟨_, rfl⟩
  · rw [intOp, if_neg (by omega)]
    exact ⟨_, rfl⟩

/-- Cutting a string with storage. -/
theorem stringResize_cut (hs : (n : Int) < s.len) (hcap : s.cap ≠ 0) (hn : n < s.str.length) :
    stringResize s n padChar = .ok { s with str := s.str.set n 0, len := n } := by
  unfold stringResize
  rw [if_neg (by omega), if_pos hs, if_pos hcap, setByte_nat hn, ok_bind]

/-- A negative size: the 0 would be written in front of the block. -/
theorem stringResize_neg {n : Int} (hs : 0 ≤ s.len) (hcap : s.cap ≠ 0) (hn : n < 0) :
    stringResize s n padChar = .error .outOfBounds := by
  unfold stringResize
  rw [if_neg (by omega), if_pos (by omega), if_pos hcap, setByte, memcpyTo, if_neg (by omega)]
  rfl

/-- ... or nowhere, if there is no block. -/
theorem stringResize_neg_zero {n : Int} (hn : n < 0) :
    stringResize stringInit n padChar = .ok { stringInit with len := n } := by
  unfold stringResize
  rw [if_neg (by simp only [stringInit]; omega), if_pos (by simpa [stringInit] using hn),
    if_neg (by simp [stringInit])]

/-- **A safe resize**: it writes inside the block, leaves a valid string, keeps the text up to the
shorter length, and pads the rest. -/
def Resizes (s : Str) (newSize : Int) (padChar : UInt8) : Prop :=
  ∃ t, stringResize s newSize padChar = .ok t ∧ t.Valid ∧ 0 ≤ t.len ∧ t.len = newSize ∧
    (∀ i : Nat, (i : Int) < s.len → (i : Int) < t.len → t.str[i]? = s.str[i]?) ∧
    ∀ i : Nat, s.len ≤ i → (i : Int) < t.len → t.str[i]? = some padChar

/-- **The sizes that are safe**: those up to the length, and for an empty string all whose
`new_size + 1` is an `int`. -/
theorem resizes_iff (hs : s.Valid) (newSize : Int) : Resizes s newSize padChar ↔
    0 ≤ newSize ∧ (newSize ≤ s.len ∨ s.len = 0 ∧ newSize < 2 ^ 31 - 1) := by
  have hlen := hs.len_nonneg
  constructor
  · rintro ⟨t, hok, hvalid, hnonneg, rfl, -⟩
    refine ⟨hnonneg, ?_⟩
    by_contra hnot
    rw [not_or, not_and] at hnot
    by_cases hzero : s.len = 0
    · -- `new_size + 1` overflows
      have hbig := hnot.2 hzero
      rw [stringResize_overflow hzero (by omega)] at hok
      cases hok
    · obtain ⟨e, he⟩ : ∃ e, stringResize s t.len padChar = .error e :=
        stringResize_text (by omega) (by omega)
      rw [hok] at he
      cases he
  · rintro ⟨hnonneg, hcase⟩
    obtain ⟨n, rfl⟩ := Int.eq_ofNat_of_zero_le hnonneg
    rcases Int.lt_trichotomy s.len n with hgrow | heq | hcut
    · -- growing an empty string
      have hzero : s.len = 0 := by omega
      have hn : (n : Int) < 2 ^ 31 - 1 := by omega
      refine ⟨_, stringResize_empty hzero (by omega) (by omega),
        .block (by omega) (by omega) (by simp) ?_, hnonneg, rfl, fun i hi => ?_, fun i _ hi => ?_⟩
      · rw [List.getElem?_set_self (by simp)]
      · omega
      · simp only at hi ⊢
        rw [List.getElem?_set_ne (by omega), List.getElem?_replicate, if_pos (by omega)]
    · -- the same size
      refine ⟨s, if_pos heq, hs, hlen, heq, fun _ _ _ => rfl, fun i hi hi' => ?_⟩
      omega
    · cases hs with
      | zero => exact absurd hcut (by simp only [stringInit]; omega)
      | @block str len cap hcap hint hstr hend =>
        simp only at hcut
        refine ⟨_, stringResize_cut hcut (by simp only; omega) (by simp only; omega),
          .block (show n < cap by omega) hint (by simpa using hstr) ?_, hnonneg, rfl,
          fun i _ hi => ?_, fun i hi hi' => ?_⟩
        · simp only
          rw [List.getElem?_set_self (by omega)]
        · simp only at hi ⊢
          rw [List.getElem?_set_ne (by omega)]
        · simp only at hi hi'
          omega

end

/-! ## 5. `string_append` -/

/-- **A string that `string_append` and `string_clear` have made**: it begins with its text, and
`cap` has been doubled, and 10 added, some number of times. -/
structure Str.Grown (s : Str) (text : List UInt8) : Prop where
  len : s.len = text.length
  text_eq : s.str.take text.length = text
  length_str : (s.str.length : Int) = s.cap
  cap : ∃ k : Nat, s.cap = 10 * (2 ^ k - 1)

namespace Str.Grown

variable {s : Str} {text : List UInt8}

theorem init : stringInit.Grown [] := ⟨rfl, rfl, rfl, 0, rfl⟩

theorem cap_nonneg (h : s.Grown text) : 0 ≤ s.cap := by
  rw [← h.length_str]
  exact Int.natCast_nonneg _

theorem le_length (h : s.Grown text) : text.length ≤ s.str.length := by
  have hlen := congrArg List.length h.text_eq
  rw [List.length_take] at hlen
  omega

/-- A doubling for a text below `2 ^ 30` does not overflow: `cap` is 671088630 at most before it. -/
theorem cap_le (h : s.Grown text) (hcap : s.cap ≤ 2 ^ 30) : s.cap * 2 + 10 < 2 ^ 31 := by
  obtain ⟨k, hk⟩ := h.cap
  rcases Nat.lt_or_ge 26 k with hbig | hsmall
  · have hpow : (2 : Int) ^ 27 ≤ 2 ^ k := by exact_mod_cast Nat.pow_le_pow_right (by decide) hbig
    omega
  · have hpow : (2 : Int) ^ k ≤ 2 ^ 26 := by exact_mod_cast Nat.pow_le_pow_right (by decide) hsmall
    omega

/-- There is room for a byte, and the 0 behind it. -/
theorem reserve (h : s.Grown text) (hint : text.length + 1 < 2 ^ 30) :
    ∃ t, appendReserve s = .ok t ∧ t.Grown text ∧ text.length + 1 < t.str.length := by
  unfold appendReserve
  have hlen := h.len
  have hstr := h.length_str
  have hle := h.le_length
  by_cases hfull : s.len + 2 ≥ s.cap
  · have hcap := h.cap_le (by omega)
    obtain ⟨n, hn⟩ := Int.eq_ofNat_of_zero_le h.cap_nonneg
    have hgrow : n ≤ 2 * n + 10 := by omega
    have hrealloc : reallocStr s.str (s.cap * 2 + 10) =
        .ok (s.str.take (2 * n + 10) ++ List.replicate (2 * n + 10 - s.str.length) 0) := by
      unfold reallocStr
      rw [require_of (by omega), ok_bind, show (s.cap * 2 + 10).toNat = 2 * n + 10 by omega]
    rw [if_pos hfull, intOp_eq (by omega) hcap, ok_bind, hrealloc, ok_bind]
    obtain ⟨k, hk⟩ := h.cap
    refine ⟨_, rfl, ⟨hlen, ?_, ?_, k + 1, ?_⟩, ?_⟩
    · simp only
      rw [List.take_of_length_le (show s.str.length ≤ 2 * n + 10 by omega),
        List.take_append_of_le_length hle, h.text_eq]
    · simp only [List.length_append, List.length_take, List.length_replicate]
      omega
    · simp only
      rw [hk, pow_succ]
      ring
    · simp only [List.length_append, List.length_take, List.length_replicate]
      omega
  · rw [if_neg hfull]
    exact ⟨s, rfl, h, by omega⟩

/-- **`string_append`** puts a byte behind the text. -/
theorem append (h : s.Grown text) (c : UInt8) (hint : text.length + 1 < 2 ^ 30) :
    ∃ t, stringAppend s c = .ok t ∧ t.Grown (text ++ [c]) := by
  obtain ⟨t, hreserve, ht, hroom⟩ := h.reserve hint
  have hfirst : setByte t.str t.len c = .ok (t.str.set text.length c) := by
    rw [ht.len]
    exact setByte_nat (by omega) c
  have hsecond : setByte (t.str.set text.length c) (t.len + 1) 0 =
      .ok ((t.str.set text.length c).set (text.length + 1) 0) := by
    rw [ht.len]
    exact setByte_nat (n := text.length + 1) (by rw [List.length_set]; exact hroom) 0
  refine ⟨{ t with str := (t.str.set text.length c).set (text.length + 1) 0, len := t.len + 1 },
    ?_, ?_, ?_, ?_, ht.cap⟩
  · unfold stringAppend
    rw [hreserve, ok_bind, hfirst, ok_bind, hsecond, ok_bind]
  · simp only [List.length_append, List.length_singleton]
    rw [ht.len]
    rfl
  · simp only [List.length_append, List.length_singleton]
    rw [List.take_set_of_le (Nat.le_refl _), List.take_add_one, List.take_set_of_le (Nat.le_refl _),
      ht.text_eq, List.getElem?_set_self (by omega)]
    rfl
  · simp only [List.length_set]
    exact ht.length_str

/-- **`string_clear`** takes the text away. -/
theorem clear (h : s.Grown text) : ∃ t, stringClear s = .ok t ∧ t.Grown [] := by
  by_cases hcap : s.cap = 0
  · refine ⟨_, if_neg (not_not.mpr hcap), rfl, rfl, h.length_str, h.cap⟩
  · have hstr := h.length_str
    have hset : setByte s.str 0 0 = .ok (s.str.set 0 0) := setByte_nat (n := 0) (by omega) 0
    refine ⟨{ s with str := s.str.set 0 0, len := 0 }, ?_, rfl, rfl, ?_, h.cap⟩
    · unfold stringClear
      rw [if_pos hcap, hset, ok_bind]
    · simpa using hstr

end Str.Grown

end CAsync
