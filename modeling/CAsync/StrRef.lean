/-
# References to strings (`examples/str.c`)

The rest of the functions on strings that the program uses: `string_clone` and `string_concat`,
which make room by doubling `cap` in a loop, and the functions on a `StringRef`.  A `StringRef` is
the list of the bytes that it refers to: the string behind it does not change while it is in use.

`Str.Holds s text` is what all of them keep (`Holds.append`, `Holds.concat`, `Holds.clone`,
`Holds.clear`).  The functions on references only cut the text: into the blanks in front of it and
the rest, and into its words (`stringRefTrimLeftWs_eq`, `stringRefSplitWsOnce_eq`).
-/
import CAsync.Str
import CAsync.PackUnpack
import CAsync.Lib.Fields

namespace CAsync

open Bytes Faulting Fields

/-! ## 1. The source -/

/-- The loop of `string_clone` and `string_concat` that doubles `new_cap`. -/
def growCap : Nat → Int → Int → Except Fault Int
  | 0, _, _ => .error .endlessChain
  | fuel + 1, need, cap =>
    if need ≥ cap then do
      let cap ← intOp (cap * 2 + 10)
      growCap fuel need cap
    else .ok cap

/-- The part that `string_clone` and `string_concat` share: a `cap` above `need`. -/
def growTo (s : Str) (need : Int) : Except Fault Str := do
  let cap ← growCap 32 need s.cap
  if s.cap ≠ cap then do
    let str ← reallocStr s.str cap
    .ok { s with str := str, cap := cap }
  else .ok s

/-- `string_clone`.  A `src` without storage is read at NULL. -/
def stringClone (src dst : Str) : Except Fault Str := do
  let need ← intOp (src.len + 2)
  let dst ← growTo dst need
  let len ← intOp (src.len + 1)
  require (src.str ≠ []) .nullDeref
  let bytes ← memcpyFrom src.str 0 (len % 2 ^ 64).toNat
  let str ← memcpyTo dst.str 0 bytes
  .ok { dst with str := str, len := src.len }

/-- `StringRef`. -/
abbrev StringRef := List UInt8

/-- `string_ref`. -/
def stringRef (s : Str) : StringRef := s.str.take s.len.toNat

/-- `string_ref_clone`. -/
def stringRefClone (ref : StringRef) (out : Str) : Except Fault Str := ref.foldlM stringAppend out

/-- `string_concat`. -/
def stringConcat (a : Str) (b : StringRef) : Except Fault Str := do
  let aLen ← intOp (a.len + 1)
  let bLen ← intOp (b.length + 1)
  let need ← intOp (aLen + bLen)
  let a ← growTo a need
  let str ← memcpyTo a.str a.len b
  let len ← intOp (a.len + b.length)
  let str ← setByte str len 0
  .ok { a with str := str, len := len }

/-- `string_ref_trim_left`: how many bytes it drops, and the reference behind them. -/
def stringRefTrimLeft (ref : StringRef) (c : UInt8) : Nat × StringRef :=
  ((ref.takeWhile (· == c)).length, ref.dropWhile (· == c))

theorem stringRefTrimLeft_length (ref : StringRef) (c : UInt8) :
    (stringRefTrimLeft ref c).1 + (stringRefTrimLeft ref c).2.length = ref.length := by
  have h := congrArg List.length (List.takeWhile_append_dropWhile (p := (· == c)) (l := ref))
  rwa [List.length_append] at h

/-- `string_ref_trim_left_ws`.  C does not say which operand of `+` is called first; the blanks are
all gone at the end either way. -/
def stringRefTrimLeftWs (ref : StringRef) : Nat × StringRef :=
  let spaces := stringRefTrimLeft ref 32
  let tabs := stringRefTrimLeft spaces.2 9
  if spaces.1 + tabs.1 = 0 then (0, tabs.2)
  else
    let more := stringRefTrimLeftWs tabs.2
    (spaces.1 + tabs.1 + more.1, more.2)
termination_by ref.length
decreasing_by
  have hspaces : spaces.1 + spaces.2.length = ref.length := stringRefTrimLeft_length ref 32
  have htabs : tabs.1 + tabs.2.length = spaces.2.length := stringRefTrimLeft_length spaces.2 9
  change tabs.2.length < ref.length
  omega

/-- `isspace`, in the locale that a C program starts in. -/
def isspace (c : UInt8) : Bool := c == 32 || (9 ≤ c && c ≤ 13)

/-- `string_ref_split_ws_once`: what it returns, the token, and the reference behind it. -/
def stringRefSplitWsOnce (original : StringRef) : Bool × StringRef × StringRef :=
  let word := original.dropWhile isspace
  let token := word.takeWhile fun c => !isspace c
  (token.length != 0, token, word.dropWhile fun c => !isspace c)

/-! ## 2. Room for a text -/

/-- What `cap` is after `k` doublings. -/
def grownCap (k : Nat) : Nat := 10 * (2 ^ k - 1)

theorem grownCap_succ (k : Nat) : grownCap (k + 1) = grownCap k * 2 + 10 := by
  unfold grownCap
  have hpos : 0 < 2 ^ k := Nat.two_pow_pos k
  rw [Nat.pow_succ]
  omega

theorem grownCap_mono {k m : Nat} (h : k ≤ m) : grownCap k ≤ grownCap m := by
  unfold grownCap
  have hpow : 2 ^ k ≤ 2 ^ m := Nat.pow_le_pow_right (by decide) h
  omega

theorem grownCap_lt {k : Nat} (h : k ≤ 27) : grownCap k < 2 ^ 31 := by
  have hlast : grownCap 27 < 2 ^ 31 := by decide
  exact Nat.lt_of_le_of_lt (grownCap_mono h) hlast

/-- A `cap` up to `2 ^ 30` can be doubled once more, and was doubled 26 times at most. -/
theorem grownCap_le {k : Nat} (h : grownCap k ≤ 2 ^ 30) : k ≤ 26 ∧ grownCap (k + 1) < 2 ^ 31 := by
  have hk : k ≤ 26 := by
    by_contra hbig
    have h27 := grownCap_mono (show 27 ≤ k by omega)
    have hlast : 2 ^ 30 < grownCap 27 := by decide
    omega
  exact ⟨hk, grownCap_lt (by omega)⟩

/-- **The loop** stops at the first `cap` above `need`. -/
theorem growCap_eq {need k : Nat} (hneed : need < 2 ^ 30) (hk : k ≤ 27) (fuel : Nat)
    (hfuel : 28 ≤ k + fuel) :
    ∃ m, growCap fuel need (grownCap k) = .ok (grownCap m : Nat) ∧ k ≤ m ∧ m ≤ 27 ∧
      need < grownCap m := by
  induction fuel generalizing k with
  | zero => omega
  | succ fuel ih =>
    rw [growCap]
    by_cases hfull : (need : Int) ≥ grownCap k
    · obtain ⟨hk, hint⟩ := grownCap_le (k := k) (by omega)
      have hcap : (grownCap k : Int) * 2 + 10 = (grownCap (k + 1) : Nat) := by
        rw [grownCap_succ]
        rfl
      rw [if_pos hfull, hcap, intOp_eq (Int.natCast_nonneg _) (by omega), ok_bind]
      obtain ⟨m, hm, hle, hsmall, hroom⟩ := ih (k := k + 1) (by omega) (by omega)
      exact ⟨m, hm, by omega, hsmall, hroom⟩
    · rw [if_neg hfull]
      exact ⟨k, rfl, Nat.le_refl k, hk, by omega⟩

theorem setByte_append (pre rest : List UInt8) (b c : UInt8) :
    setByte (pre ++ b :: rest) pre.length c = .ok (pre ++ c :: rest) :=
  memcpyTo_append pre (b :: rest) [c] rfl (Nat.succ_le_succ (Nat.zero_le _))

/-! ## 3. Strings that hold a text -/

/-- **A string holds a text**: it has no storage and the text is empty, or its block begins with the
text and a 0 behind it.  The block has been made by doubling. -/
inductive Str.Holds : Str → List UInt8 → Prop
  | zero : Holds stringInit []
  | block {text rest : List UInt8} {k : Nat} : k ≤ 27 → text.length + 1 + rest.length = grownCap k →
      Holds { str := text ++ 0 :: rest, len := text.length, cap := grownCap k } text

namespace Str.Holds

variable {s t : Str} {text : List UInt8}

theorem valid (h : s.Holds text) : s.Valid := by
  cases h with
  | zero => exact .zero
  | @block _ rest k hk hlen =>
    have hcap := grownCap_lt hk
    refine .block (by omega) (by omega) ?_ ?_
    · rw [List.length_append, List.length_cons]
      omega
    · rw [List.getElem?_append_right (Nat.le_refl _), Nat.sub_self]
      rfl

theorem len (h : s.Holds text) : s.len = text.length := by
  cases h with
  | zero => rfl
  | block => rfl

theorem stringRef_eq (h : s.Holds text) : stringRef s = text := by
  cases h with
  | zero => rfl
  | block hk hlen => exact List.take_left

theorem str_eq_nil_iff (h : s.Holds text) : s.str = [] ↔ s.cap = 0 := by
  cases h with
  | zero => exact ⟨fun _ => rfl, fun _ => rfl⟩
  | @block _ rest k hk hlen =>
    constructor
    · intro hnil
      simp at hnil
    · intro hcap
      simp only at hcap
      omega

/-- A larger block. -/
theorem realloc (h : s.Holds text) {m : Nat} (hcap : s.cap < grownCap m) (hm : m ≤ 27) :
    ∃ str, reallocStr s.str (grownCap m) = .ok str ∧
      Holds { s with str := str, cap := grownCap m } text := by
  have hreal : reallocStr s.str (grownCap m) =
      .ok (s.str.take (grownCap m) ++ List.replicate (grownCap m - s.str.length) 0) := by
    have hpos : (0 : Int) < grownCap m := Int.lt_of_le_of_lt (by
      rw [← h.valid.length_str]
      exact Int.natCast_nonneg _) hcap
    unfold reallocStr
    rw [require_of hpos, ok_bind, Int.toNat_natCast]
  refine ⟨_, hreal, ?_⟩
  cases h with
  | zero =>
    have hpos : 0 < grownCap m := by simpa [stringInit] using hcap
    have hblock : stringInit.str.take (grownCap m) ++
        List.replicate (grownCap m - stringInit.str.length) 0 =
        [] ++ 0 :: List.replicate (grownCap m - 1) 0 := by
      rw [show stringInit.str = [] from rfl, List.take_nil, List.length_nil, Nat.sub_zero,
        List.nil_append, List.nil_append, ← List.replicate_succ, Nat.sub_add_cancel hpos]
    rw [hblock]
    exact .block hm (by rw [List.length_replicate, List.length_nil]; omega)
  | @block _ rest k hk hlen =>
    simp only at hcap
    have hblock : (text ++ 0 :: rest).take (grownCap m) ++
        List.replicate (grownCap m - (text ++ 0 :: rest).length) 0 =
        text ++ 0 :: (rest ++ List.replicate (grownCap m - grownCap k) 0) := by
      have hall : (text ++ 0 :: rest).length = grownCap k := by
        rw [List.length_append, List.length_cons]
        omega
      rw [List.take_of_length_le (by omega), hall, List.append_assoc, List.cons_append]
    rw [hblock]
    refine .block hm ?_
    rw [List.length_append, List.length_replicate]
    omega

/-- `cap` is a number of doublings. -/
theorem exists_cap (h : s.Holds text) : ∃ k, k ≤ 27 ∧ s.cap = grownCap k := by
  cases h with
  | zero => exact ⟨0, by decide, rfl⟩
  | block hk hlen => exact ⟨_, hk, rfl⟩

/-- Room for `need` bytes and one more. -/
theorem growTo (h : s.Holds text) {need : Nat} (hneed : need < 2 ^ 30) :
    ∃ t, growTo s need = .ok t ∧ t.Holds text ∧ (need : Int) < t.cap := by
  obtain ⟨k, hk, hcap⟩ := h.exists_cap
  obtain ⟨m, hgrow, hle, hm, hroom⟩ := growCap_eq hneed hk 32 (by omega)
  unfold CAsync.growTo
  rw [hcap, hgrow, ok_bind]
  by_cases hsame : (grownCap k : Int) = grownCap m
  · rw [if_neg (not_not.mpr hsame)]
    exact ⟨s, rfl, h, by rw [hcap, hsame]; exact_mod_cast hroom⟩
  · rw [if_pos hsame]
    have hlt : s.cap < grownCap m := by
      have := grownCap_mono hle
      omega
    obtain ⟨str, hstr, ht⟩ := h.realloc hlt hm
    rw [hstr, ok_bind]
    exact ⟨_, rfl, ht, Int.ofNat_lt.mpr hroom⟩

/-- With storage, the block is the text, a 0, and the rest. -/
theorem exists_rest (h : s.Holds text) (hcap : s.cap ≠ 0) : ∃ rest,
    s.str = text ++ 0 :: rest ∧ (text.length + 1 + rest.length : Int) = s.cap ∧
      ∀ text' rest', text'.length + 1 + rest'.length = text.length + 1 + rest.length →
        Holds { s with str := text' ++ 0 :: rest', len := text'.length } text' := by
  cases h with
  | zero => exact absurd rfl hcap
  | @block _ rest k hk hlen =>
    exact ⟨rest, rfl, congrArg Nat.cast hlen, fun text' rest' heq => .block hk (heq.trans hlen)⟩

/-- There is room for a byte, and the 0 behind it. -/
theorem reserve (h : s.Holds text) (hint : text.length + 2 < 2 ^ 30) :
    ∃ t, appendReserve s = .ok t ∧ t.Holds text ∧ (text.length : Int) + 2 ≤ t.cap := by
  have hlen := h.len
  obtain ⟨k, -, hcap⟩ := h.exists_cap
  unfold appendReserve
  by_cases hfull : s.len + 2 ≥ s.cap
  · obtain ⟨hk, hsize⟩ := grownCap_le (k := k) (by omega)
    have hdouble : s.cap * 2 + 10 = (grownCap (k + 1) : Nat) := by
      rw [hcap, grownCap_succ]
      rfl
    obtain ⟨str, hstr, ht⟩ := h.realloc (m := k + 1) (by omega) (by omega)
    rw [if_pos hfull, hdouble, intOp_eq (by omega) (by omega), ok_bind, hstr, ok_bind]
    refine ⟨_, rfl, ht, ?_⟩
    have hblock := h.valid.len_le
    have hstr := h.valid.length_str
    simp only
    omega
  · rw [if_neg hfull]
    exact ⟨s, rfl, h, by omega⟩

/-- **`string_append`** puts a byte behind the text. -/
theorem append (h : s.Holds text) (c : UInt8) (hint : text.length + 2 < 2 ^ 30) :
    ∃ t, stringAppend s c = .ok t ∧ t.Holds (text ++ [c]) ∧ t.cap ≠ 0 := by
  obtain ⟨t, hreserve, ht, hroom⟩ := h.reserve hint
  obtain ⟨rest, hstr, hlen, hkeep⟩ := ht.exists_rest (by omega)
  cases rest with
  | nil =>
    rw [List.length_nil] at hlen
    omega
  | cons b rest =>
    have hfirst : setByte t.str t.len c = .ok (text ++ c :: b :: rest) := by
      rw [hstr, ht.len]
      exact setByte_append text (b :: rest) 0 c
    have hsecond : setByte (text ++ c :: b :: rest) (t.len + 1) 0 =
        .ok ((text ++ [c]) ++ 0 :: rest) := by
      have h := setByte_append (text ++ [c]) rest b 0
      rwa [List.length_append, List.append_assoc, Int.natCast_add, ← ht.len] at h
    have hnew := hkeep (text ++ [c]) rest (by
      simp only [List.length_append, List.length_cons, List.length_nil]
      omega)
    have hcount : ((text ++ [c]).length : Int) = t.len + 1 := by
      rw [List.length_append, ht.len]
      rfl
    rw [hcount] at hnew
    unfold stringAppend
    rw [hreserve, ok_bind, hfirst, ok_bind, hsecond, ok_bind]
    exact ⟨_, rfl, hnew, by simp only; omega⟩

/-- **`string_clear`** takes the text away. -/
theorem clear (h : s.Holds text) :
    ∃ t, stringClear s = .ok t ∧ t.Holds [] ∧ t.cap = s.cap := by
  by_cases hcap : s.cap = 0
  · refine ⟨_, if_neg (not_not.mpr hcap), ?_, rfl⟩
    cases h with
    | zero => exact .zero
    | @block _ rest k hk hlen =>
      simp only at hcap
      omega
  · obtain ⟨rest, hstr, hlen, hkeep⟩ := h.exists_rest hcap
    unfold stringClear
    rw [if_pos hcap, hstr]
    cases text with
    | nil =>
      have hset : setByte ([] ++ 0 :: rest) 0 0 = .ok (0 :: rest) :=
        setByte_nat (n := 0) (by simp) 0
      rw [hset, ok_bind]
      exact ⟨_, rfl, hkeep [] rest rfl, rfl⟩
    | cons b text =>
      have hset : setByte (b :: text ++ 0 :: rest) 0 0 = .ok (0 :: (text ++ 0 :: rest)) :=
        setByte_nat (n := 0) (by simp) 0
      rw [hset, ok_bind]
      refine ⟨_, rfl, hkeep [] (text ++ 0 :: rest) ?_, rfl⟩
      simp only [List.length_nil, List.length_append, List.length_cons]
      omega

/-- **`string_concat`** puts a text behind it. -/
theorem concat (h : s.Holds text) (b : StringRef) (hint : text.length + b.length + 2 < 2 ^ 30) :
    ∃ t, stringConcat s b = .ok t ∧ t.Holds (text ++ b) ∧ t.cap ≠ 0 := by
  have hneed : (text.length : Int) + 1 + (b.length + 1) = (text.length + b.length + 2 : Nat) := by
    push_cast
    ring
  obtain ⟨t, hgrow, ht, hroom⟩ := h.growTo hint
  obtain ⟨rest, hstr, hlen, hkeep⟩ := ht.exists_rest (by omega)
  have hcopy : memcpyTo t.str t.len b = .ok (text ++ (b ++ (0 :: rest).drop b.length)) := by
    rw [hstr, ht.len]
    exact memcpyTo_append text (0 :: rest) b rfl (by rw [List.length_cons]; omega)
  obtain ⟨c, tail, htail⟩ : ∃ c tail, (0 :: rest).drop b.length = c :: tail := by
    refine List.exists_cons_of_length_pos ?_
    rw [List.length_drop, List.length_cons]
    omega
  have hend : setByte (text ++ (b ++ (0 :: rest).drop b.length)) (t.len + b.length) 0 =
      .ok ((text ++ b) ++ 0 :: tail) := by
    have h := setByte_append (text ++ b) tail c 0
    rwa [List.length_append, Int.natCast_add, ← ht.len, List.append_assoc, ← htail] at h
  have hnew := hkeep (text ++ b) tail (by
    have htotal := congrArg List.length htail
    rw [List.length_drop, List.length_cons, List.length_cons] at htotal
    rw [List.length_append]
    omega)
  have hcount : ((text ++ b).length : Int) = t.len + b.length := by
    rw [List.length_append, ht.len]
    rfl
  rw [hcount] at hnew
  unfold stringConcat
  rw [h.len, intOp_eq (by omega) (by omega), ok_bind, intOp_eq (by omega) (by omega), ok_bind,
    hneed, intOp_eq (by omega) (by omega), ok_bind, hgrow, ok_bind, hcopy, ok_bind,
    intOp_eq (by rw [ht.len]; omega) (by rw [ht.len]; omega), ok_bind, hend, ok_bind]
  exact ⟨_, rfl, hnew, by simp only; omega⟩

/-- **`string_clone`** copies a text, from a string with storage. -/
theorem clone {dst : Str} {old : List UInt8} (h : s.Holds text) (hdst : dst.Holds old)
    (hcap : s.cap ≠ 0) (hint : text.length + 2 < 2 ^ 30) :
    ∃ t, stringClone s dst = .ok t ∧ t.Holds text := by
  obtain ⟨rest, hsrc, -, -⟩ := h.exists_rest hcap
  obtain ⟨t, hgrow, ht, hroom⟩ := hdst.growTo hint
  obtain ⟨more, hstr, hlen, hkeep⟩ := ht.exists_rest (by omega)
  have hbytes : memcpyFrom s.str 0 ((s.len + 1) % 2 ^ 64).toNat = .ok (text ++ [0]) := by
    have hcount : ((s.len + 1) % 2 ^ 64).toNat = text.length + 1 := by
      rw [h.len]
      omega
    have hread :
        memcpyFrom s.str (0 : Nat) (text.length + 1) = .ok (slice s.str 0 (text.length + 1)) :=
      memcpyFrom_nat (by
        rw [hsrc, List.length_append, List.length_cons]
        omega)
    rw [slice_zero, hsrc, List.take_length_add_append] at hread
    rw [hcount, hsrc]
    exact hread
  obtain ⟨c, tail, htail⟩ : ∃ c tail, t.str.drop text.length = c :: tail := by
    refine List.exists_cons_of_length_pos ?_
    rw [hstr, List.length_drop, List.length_append, List.length_cons]
    omega
  have hcopy : memcpyTo t.str 0 (text ++ [0]) = .ok (text ++ 0 :: tail) := by
    have hroom : (text ++ [0]).length ≤ t.str.length := by
      rw [hstr]
      simp only [List.length_append, List.length_cons, List.length_nil]
      omega
    have hwrite := memcpyTo_append [] t.str (text ++ [0]) rfl hroom
    rw [List.length_append, ← List.drop_drop, htail, List.nil_append, List.append_assoc] at hwrite
    exact hwrite
  have hnew := hkeep text tail (by
    have htotal := congrArg List.length htail
    rw [hstr, List.length_drop, List.length_append, List.length_cons, List.length_cons] at htotal
    omega)
  have hlen := h.len
  have hne : s.str ≠ [] := fun hnil => hcap (h.str_eq_nil_iff.mp hnil)
  have hneed : s.len + 2 = (text.length + 2 : Nat) := by
    rw [hlen]
    rfl
  unfold stringClone
  rw [hneed, intOp_eq (by omega) (by omega), ok_bind, hgrow, ok_bind,
    intOp_eq (by omega) (by omega), ok_bind, require_of hne, ok_bind, hbytes, ok_bind, hcopy,
    ok_bind, hlen]
  exact ⟨_, rfl, hnew⟩

/-- ... and without storage it reads at NULL. -/
theorem clone_null {dst : Str} {old : List UInt8} (hdst : dst.Holds old) :
    stringClone stringInit dst = .error .nullDeref := by
  have hroom : 2 < 2 ^ 30 := by decide
  obtain ⟨t, hgrow, -⟩ := hdst.growTo hroom
  have hneed : intOp (stringInit.len + 2) = .ok (2 : Nat) := rfl
  have hlen : intOp (stringInit.len + 1) = .ok 1 := rfl
  unfold stringClone
  rw [hneed, ok_bind, hgrow, ok_bind, hlen, ok_bind]
  rfl

end Str.Holds

/-! ## 4. Cutting a reference -/

theorem stringRefTrimLeft_self (c : UInt8) (ref : StringRef) : stringRefTrimLeft (c :: ref) c =
    ((stringRefTrimLeft ref c).1 + 1, (stringRefTrimLeft ref c).2) := by
  simp [stringRefTrimLeft]

theorem stringRefTrimLeft_of_head {ref : StringRef} {c : UInt8} (h : ref.head? ≠ some c) :
    stringRefTrimLeft ref c = (0, ref) := by
  cases ref with
  | nil => rfl
  | cons x ref =>
    have hx : x ≠ c := by simpa using h
    simp [stringRefTrimLeft, hx]

/-- If nothing is dropped, another byte is in front. -/
theorem stringRefTrimLeft_zero {ref : StringRef} {c : UInt8} (h : (stringRefTrimLeft ref c).1 = 0) :
    (stringRefTrimLeft ref c).2 = ref ∧ ref.head? ≠ some c := by
  have hhead : ref.head? ≠ some c := by
    intro hhead
    obtain ⟨l, rfl⟩ := List.head?_eq_some_iff.mp hhead
    rw [stringRefTrimLeft_self] at h
    cases h
  exact ⟨by rw [stringRefTrimLeft_of_head hhead], hhead⟩

/-- A blank: what `string_ref_trim_left_ws` drops. -/
def isBlank (c : UInt8) : Bool := c == 32 || c == 9

/-- Without one kind of blank in front, the blanks in front are dropped as before. -/
theorem dropWhile_stringRefTrimLeft (ref : StringRef) {c : UInt8} (hc : isBlank c = true) :
    (stringRefTrimLeft ref c).2.dropWhile isBlank = ref.dropWhile isBlank := by
  induction ref with
  | nil => rfl
  | cons x ref ih =>
    by_cases hx : x = c
    · rw [hx, stringRefTrimLeft_self, List.dropWhile_cons_of_pos hc]
      exact ih
    · rw [stringRefTrimLeft_of_head (by simpa using hx)]

/-- **`string_ref_trim_left_ws`** drops all the blanks in front. -/
theorem stringRefTrimLeftWs_eq (ref : StringRef) :
    (stringRefTrimLeftWs ref).2 = ref.dropWhile isBlank := by
  induction ref using stringRefTrimLeftWs.induct with
  | case1 ref spaces tabs hzero =>
    obtain ⟨hspaces, hnospace⟩ := stringRefTrimLeft_zero (show spaces.1 = 0 by omega)
    obtain ⟨htabs, hnotab⟩ := stringRefTrimLeft_zero (show tabs.1 = 0 by omega)
    have hkeep : tabs.2 = ref := htabs.trans hspaces
    rw [stringRefTrimLeftWs, if_pos hzero]
    cases ref with
    | nil => exact hkeep
    | cons x ref =>
      have hx : isBlank x = false := by
        have htab : x ≠ 9 := by
          rw [show spaces.2 = x :: ref from hspaces] at hnotab
          simpa using hnotab
        have hspace : x ≠ 32 := by simpa using hnospace
        simp [isBlank, hspace, htab]
      rw [List.dropWhile_cons_of_neg (by simp [hx])]
      exact hkeep
  | case2 ref spaces tabs hmore ih =>
    rw [stringRefTrimLeftWs, if_neg hmore]
    calc (stringRefTrimLeftWs tabs.2).2
      _ = tabs.2.dropWhile isBlank := ih
      _ = spaces.2.dropWhile isBlank := dropWhile_stringRefTrimLeft spaces.2 rfl
      _ = ref.dropWhile isBlank := dropWhile_stringRefTrimLeft ref rfl

/-- **`string_ref_split_ws_once`** takes the first word off. -/
theorem stringRefSplitWsOnce_eq (ref : StringRef) :
    (tokens isspace ref = [] ∧ (stringRefSplitWsOnce ref).1 = false) ∨
      ∃ token rest, stringRefSplitWsOnce ref = (true, token, rest) ∧ token ≠ [] ∧
        token.length + rest.length ≤ ref.length ∧
        tokens isspace ref = token :: tokens isspace rest := by
  have hhead := List.head?_dropWhile_not isspace ref
  have hlen : (ref.dropWhile isspace).length ≤ ref.length :=
    (List.dropWhile_suffix isspace).length_le
  unfold stringRefSplitWsOnce
  rw [← tokens_dropWhile fun _ hx => hx]
  generalize ref.dropWhile isspace = word at hhead hlen
  cases word with
  | nil => exact .inl ⟨rfl, rfl⟩
  | cons c word =>
    right
    have hc : isspace c = false := hhead
    have htake : (c :: word).takeWhile (fun c => !isspace c) =
        c :: word.takeWhile fun c => !isspace c := by simp [hc]
    have hdrop : (c :: word).dropWhile (fun c => !isspace c) =
        word.dropWhile fun c => !isspace c := by simp [hc]
    have hsplit : word.takeWhile (fun c => !isspace c) ++ word.dropWhile (fun c => !isspace c) =
        word := List.takeWhile_append_dropWhile
    have hnext := List.head?_dropWhile_not (fun c => !isspace c) word
    have hplain : ∀ x ∈ word.takeWhile fun c => !isspace c, isspace x = false := by
      intro x hx
      have hx :=
        List.all_eq_true.mp (List.all_takeWhile (p := fun c => !isspace c) (l := word)) x hx
      simpa using hx
    dsimp only
    rw [htake, hdrop]
    generalize word.takeWhile (fun c => !isspace c) = token at hsplit hplain
    generalize word.dropWhile (fun c => !isspace c) = rest at hsplit hnext
    refine ⟨c :: token, rest, rfl, List.cons_ne_nil _ _, ?_, ?_⟩
    · rw [← hsplit, List.length_cons, List.length_append] at hlen
      rw [List.length_cons]
      omega
    · rw [← hsplit, ← List.cons_append]
      refine tokens_append (List.forall_mem_cons.mpr ⟨hc, hplain⟩) (List.cons_ne_nil _ _) ?_
      cases rest with
      | nil => exact .inl rfl
      | cons sep rest => exact .inr ⟨sep, rest, by simpa using hnext, rfl⟩

end CAsync
