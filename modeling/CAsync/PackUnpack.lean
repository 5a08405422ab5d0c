/-
# `unpack` undoes `pack`

The buffer that `pack` writes is its header, the bytes of the arguments, and what was behind them
(`pack_eq`), so `unpack` with the same format reads the arguments back, and with another format of
the same width it reads the same bytes.  A format of another width does not get through
(`unpackLoop_sound`): it stops short, or it runs past the packed bytes, and then the next
assertion fails.  That is so also where `ptr` overflows, because the next `memcpy` is then far
outside of the buffer.
-/
import CAsync.Io

namespace CAsync

open Faulting Bytes

/-! ## 1. Formats -/

/-- The character that asks for an argument. -/
def Arg.spec : Arg → Char
  | .i _ => 'i'
  | .u _ => 'u'
  | .p _ => 'p'

/-- What `pack` writes for an argument. -/
def Arg.bytes : Arg → List UInt8
  | .i n => le 4 n.toNat
  | .u n => le 4 n.toNat
  | .p n => le 8 n.toNat

/-- The argument that `unpack` reads from some bytes. -/
def Arg.ofBytes (c : Char) (bytes : List UInt8) : Arg :=
  match c with
  | 'i' => .i (BitVec.ofNat 32 (ofLe bytes))
  | 'u' => .u (BitVec.ofNat 32 (ofLe bytes))
  | _ => .p (BitVec.ofNat 64 (ofLe bytes))

/-- `width(i) = width(u) = 4` and `width(p) = 8`. -/
def charWidth (c : Char) : Nat := if c = 'p' then 8 else 4

/-- The width of a format. -/
def width (fmt : List Char) : Nat := (fmt.map charWidth).sum

/-- A format string over `i`, `u` and `p`. -/
def Format (fmt : List Char) : Prop := ∀ c ∈ fmt, c = 'i' ∨ c = 'u' ∨ c = 'p'

/-- The arguments are those that the format asks for. -/
def Matches (fmt : List Char) (args : List Arg) : Prop := fmt = args.map Arg.spec

@[simp] theorem width_nil : width [] = 0 := rfl

@[simp] theorem width_cons (c : Char) (fmt : List Char) :
    width (c :: fmt) = charWidth c + width fmt := List.sum_cons

theorem charWidth_pos (c : Char) : 0 < charWidth c := by
  unfold charWidth
  split <;> decide

theorem charWidth_le (c : Char) : charWidth c ≤ 8 := by
  unfold charWidth
  split <;> decide

@[simp] theorem Arg.length_bytes (a : Arg) : a.bytes.length = charWidth a.spec := by
  cases a <;> exact length_le _ _

/-- A machine word is read back as it was written. -/
theorem ofNat_ofLe_le {v w : Nat} (h : 2 ^ v = 256 ^ w) (n : BitVec v) :
    BitVec.ofNat v (ofLe (le w n.toNat)) = n := by
  have hlt : n.toNat < 256 ^ w := h ▸ n.isLt
  rw [ofLe_le_of_lt hlt, BitVec.ofNat_toNat, BitVec.setWidth_eq]

/-- So is every argument. -/
theorem Arg.ofBytes_bytes (a : Arg) : Arg.ofBytes a.spec a.bytes = a := by
  cases a with
  | i n => exact congrArg Arg.i (ofNat_ofLe_le rfl n)
  | u n => exact congrArg Arg.u (ofNat_ofLe_le rfl n)
  | p n => exact congrArg Arg.p (ofNat_ofLe_le rfl n)

/-- The bytes of an argument list. -/
def fields (args : List Arg) : List UInt8 := args.flatMap Arg.bytes

theorem length_fields (args : List Arg) : (fields args).length = width (args.map Arg.spec) := by
  induction args with
  | nil => rfl
  | cons a args ih =>
    rw [fields, List.flatMap_cons, List.length_append, a.length_bytes, List.map_cons, width_cons]
    exact congrArg _ ih

/-- Any bytes of the right number are an argument. -/
theorem Arg.bytes_ofBytes {c : Char} {bytes : List UInt8} (hc : c = 'i' ∨ c = 'u' ∨ c = 'p')
    (hlen : bytes.length = charWidth c) :
    (Arg.ofBytes c bytes).spec = c ∧ (Arg.ofBytes c bytes).bytes = bytes := by
  have hword : ∀ {v w : Nat}, 2 ^ v = 256 ^ w → bytes.length = w →
      le w (BitVec.ofNat v (ofLe bytes)).toNat = bytes := by
    intro v w h hw
    have hlt := ofLe_lt bytes
    rw [BitVec.toNat_ofNat, h, Nat.mod_eq_of_lt (by rwa [hw] at hlt), ← hw, le_ofLe]
  rcases hc with rfl | rfl | rfl
  · exact ⟨rfl, hword rfl hlen⟩
  · exact ⟨rfl, hword rfl hlen⟩
  · exact ⟨rfl, hword rfl hlen⟩

/-- Any bytes of the width of a format are the bytes of arguments for it. -/
theorem exists_fields : ∀ {fmt : List Char} {bytes : List UInt8}, Format fmt →
    bytes.length = width fmt → ∃ args, Matches fmt args ∧ fields args = bytes
  | [], bytes, _, hlen => ⟨[], rfl, (List.length_eq_zero_iff.mp hlen).symm⟩
  | c :: fmt, bytes, hfmt, hlen => by
    rw [width_cons] at hlen
    have hrest : (bytes.drop (charWidth c)).length = width fmt := by
      rw [List.length_drop]
      omega
    have hfirst : (bytes.take (charWidth c)).length = charWidth c :=
      List.length_take_of_le (by omega)
    obtain ⟨args, hargs, hfields⟩ := exists_fields
      (fun d hd => hfmt d (List.mem_cons_of_mem _ hd)) hrest
    obtain ⟨hspec, hbytes⟩ := Arg.bytes_ofBytes (hfmt c List.mem_cons_self) hfirst
    refine ⟨Arg.ofBytes c (bytes.take (charWidth c)) :: args, ?_, ?_⟩
    · rw [Matches, List.map_cons, hspec, ← hargs]
    · rw [fields, List.flatMap_cons, hbytes]
      change _ ++ fields args = bytes
      rw [hfields, List.take_append_drop]

/-! ## 2. `int` arithmetic -/

/-- An `int` that does not overflow. -/
theorem toInt_ofInt {n : Int} (h₀ : -2 ^ 31 ≤ n) (h : n < 2 ^ 31) :
    (BitVec.ofInt 32 n).toInt = n := by
  rw [BitVec.toInt_ofInt]
  exact Int.bmod_eq_of_le (by omega) (by omega)

theorem addSize_eq {n w : Nat} (h : n + w < 2 ^ 31) : addSize n w = (n + w : Nat) := by
  unfold addSize
  rw [toInt_ofInt (by omega) (by omega)]
  rfl

/-- Beyond the largest `int`, `ptr` becomes negative. -/
theorem addSize_neg {n w : Nat} (h : 2 ^ 31 ≤ n + w) (hn : n < 2 ^ 31) (hw : w ≤ 8) :
    addSize n w < 0 := by
  unfold addSize
  rw [BitVec.toInt_ofInt, Int.bmod_def]
  split <;> omega

@[simp] theorem length_intBytes (n : Int) : (intBytes n).length = 4 := length_le _ _

theorem intOfBytes_intBytes {n : Int} (h₀ : -2 ^ 31 ≤ n) (h : n < 2 ^ 31) :
    intOfBytes (intBytes n) = n := by
  unfold intOfBytes intBytes
  rw [ofNat_ofLe_le rfl, toInt_ofInt h₀ h]

/-- Four bytes are those of the `int` that they are. -/
theorem intBytes_intOfBytes {bytes : List UInt8} (h : bytes.length = 4) :
    intBytes (intOfBytes bytes) = bytes := by
  have hlt := ofLe_lt bytes
  rw [h] at hlt
  unfold intBytes intOfBytes
  rw [BitVec.ofInt_toInt, BitVec.toNat_ofNat, Nat.mod_eq_of_lt (by omega), ← h, le_ofLe]

theorem intOfBytes_range (bytes : List UInt8) :
    -2 ^ 31 ≤ intOfBytes bytes ∧ intOfBytes bytes < 2 ^ 31 := by
  unfold intOfBytes
  exact ⟨BitVec.le_toInt _, BitVec.toInt_lt⟩

/-! ## 3. `pack` -/

theorem memcpyTo_append (pre rest bytes : List UInt8) {n : Nat} (hn : n = pre.length)
    (hroom : bytes.length ≤ rest.length) :
    memcpyTo (pre ++ rest) n bytes = .ok (pre ++ (bytes ++ rest.drop bytes.length)) := by
  unfold memcpyTo
  rw [if_pos, Int.toNat_natCast, overwrite_append hn]
  rw [List.length_append]
  omega

theorem memcpyFrom_append (pre : List UInt8) {xs rest : List UInt8} {n w : Nat}
    (hn : n = pre.length) (hw : w = xs.length) : memcpyFrom (pre ++ (xs ++ rest)) n w = .ok xs := by
  unfold memcpyFrom
  rw [if_pos, Int.toNat_natCast, slice_append hn hw]
  rw [List.length_append, List.length_append]
  omega

/-- One round of the loop, whatever the argument. -/
theorem packLoop_cons (size ptr : Int) (a : Arg) (args : List Arg) (fmt : List Char)
    (buf : List UInt8) : packLoop size (a.spec :: fmt) (a :: args) ptr buf = (do
      let x ← packField size ptr buf a.bytes
      packLoop size fmt args x.1 x.2) := by
  cases a <;> rfl

/-- **The loop of `pack`** writes the arguments one after the other. -/
theorem packLoop_eq {size : Int} (args : List Arg) {n : Nat} (pre rest : List UInt8)
    (hn : n = pre.length) (hsize : n + width (args.map Arg.spec) ≤ size) (hint : size < 2 ^ 31)
    (hroom : width (args.map Arg.spec) ≤ rest.length) :
    packLoop size (args.map Arg.spec) args n (pre ++ rest) =
      .ok (some ((n + width (args.map Arg.spec) : Nat) : Int),
        pre ++ (fields args ++ rest.drop (width (args.map Arg.spec)))) := by
  induction args generalizing n pre rest with
  | nil => rfl
  | cons a args ih =>
    rw [List.map_cons, width_cons] at hsize hroom ⊢
    have hlen := a.length_bytes
    have hfield : packField size n (pre ++ rest) a.bytes =
        .ok (((n + charWidth a.spec : Nat) : Int),
          (pre ++ a.bytes) ++ rest.drop (charWidth a.spec)) := by
      unfold packField
      rw [require_of (by omega), ok_bind, memcpyTo_append pre rest a.bytes hn (by omega), ok_bind,
        addSize_eq (by omega), hlen, List.append_assoc]
    rw [packLoop_cons, hfield, ok_bind]
    dsimp only
    rw [ih (pre ++ a.bytes) _ (by rw [List.length_append, hlen, hn]) (by push_cast; omega)
      (by rw [List.length_drop]; omega)]
    rw [List.drop_drop, Nat.add_assoc, fields, fields, List.flatMap_cons, List.append_assoc,
      List.append_assoc]

/-- **What `pack` writes.** -/
theorem pack_eq {size : Int} {args : List Arg} {buf : List UInt8}
    (hsize : 8 + width (args.map Arg.spec) ≤ size) (hint : size < 2 ^ 31)
    (hbuf : size ≤ buf.length) :
    pack buf size (args.map Arg.spec) args = .ok (((8 + width (args.map Arg.spec) : Nat) : Int),
      intBytes ((8 + width (args.map Arg.spec) : Nat) : Int) ++ (intBytes size ++
        (fields args ++ buf.drop (8 + width (args.map Arg.spec))))) := by
  have hhead : (buf.take 8).length = 8 := List.length_take_of_le (by omega)
  have hloop := packLoop_eq args (buf.take 8) (buf.drop 8) hhead.symm hsize hint
    (by rw [List.length_drop]; omega)
  rw [List.take_append_drop, List.drop_drop] at hloop
  -- the header overwrites the first eight bytes
  have hlen : ∀ mem : List UInt8, memcpyTo (buf.take 8 ++ mem) 0
      (intBytes ((8 + width (args.map Arg.spec) : Nat) : Int)) =
      .ok (intBytes ((8 + width (args.map Arg.spec) : Nat) : Int) ++
        ((buf.take 8).drop 4 ++ mem)) := by
    intro mem
    have h := memcpyTo_append [] (buf.take 8 ++ mem)
      (intBytes ((8 + width (args.map Arg.spec) : Nat) : Int)) (n := 0) rfl (by
        rw [List.length_append, hhead, length_intBytes]
        omega)
    rw [length_intBytes, List.drop_append_of_le_length (by omega)] at h
    exact h
  have hsz : ∀ mem : List UInt8, memcpyTo (intBytes ((8 + width (args.map Arg.spec) : Nat) : Int) ++
      ((buf.take 8).drop 4 ++ mem)) 4 (intBytes size) =
      .ok (intBytes ((8 + width (args.map Arg.spec) : Nat) : Int) ++ (intBytes size ++ mem)) := by
    intro mem
    have h := memcpyTo_append (intBytes ((8 + width (args.map Arg.spec) : Nat) : Int))
      ((buf.take 8).drop 4 ++ mem) (intBytes size) (n := 4) (length_intBytes _).symm (by
        rw [List.length_append, List.length_drop, hhead, length_intBytes]
        omega)
    rw [length_intBytes, List.drop_left' (by rw [List.length_drop, hhead])] at h
    exact h
  unfold pack
  rw [require_of (by omega), ok_bind]
  have hstart : packLoop size (args.map Arg.spec) args 8 buf = _ := hloop
  rw [hstart, ok_bind]
  dsimp only
  rw [hlen, ok_bind, hsz, ok_bind]

/-! ## 4. `unpack` -/

section

variable {buf : List UInt8} {fmt : List Char} {n L : Nat} {ptr : Int}

/-- One round of the loop, whatever the character. -/
theorem unpackLoop_cons {c : Char} (hc : c = 'i' ∨ c = 'u' ∨ c = 'p') (len : Int) :
    unpackLoop buf len (c :: fmt) ptr = (do
      require (len > ptr) .unpackEnd
      let bytes ← memcpyFrom buf ptr (charWidth c)
      let x ← unpackLoop buf len fmt (addSize ptr (charWidth c))
      .ok (x.1, Arg.ofBytes c bytes :: x.2.1, (ptr, charWidth c) :: x.2.2)) := by
  rcases hc with rfl | rfl | rfl <;> rfl

/-- The loop reads back what `pack` wrote. -/
theorem unpackLoop_fields (args : List Arg) (pre rest : List UInt8) (hn : n = pre.length)
    (hL : n + width (args.map Arg.spec) ≤ L) (hint : L < 2 ^ 31) :
    ∃ reads, unpackLoop (pre ++ (fields args ++ rest)) L (args.map Arg.spec) n =
      .ok (some ((n + width (args.map Arg.spec) : Nat) : Int), args, reads) := by
  induction args generalizing n pre with
  | nil => exact ⟨[], rfl⟩
  | cons a args ih =>
    rw [List.map_cons, width_cons] at hL ⊢
    have hlen := a.length_bytes
    have hpos := charWidth_pos a.spec
    have hspec : a.spec = 'i' ∨ a.spec = 'u' ∨ a.spec = 'p' := by
      cases a <;> simp [Arg.spec]
    obtain ⟨reads, hrest⟩ := ih (pre ++ a.bytes) (n := n + charWidth a.spec)
      (by rw [List.length_append, hlen, hn]) (by omega)
    have hsplit : pre ++ (fields (a :: args) ++ rest) =
        pre ++ (a.bytes ++ (fields args ++ rest)) := by
      rw [fields, fields, List.flatMap_cons, List.append_assoc]
    have hsplit' : pre ++ (fields (a :: args) ++ rest) =
        (pre ++ a.bytes) ++ (fields args ++ rest) := by
      rw [hsplit, List.append_assoc]
    refine ⟨(n, charWidth a.spec) :: reads, ?_⟩
    rw [unpackLoop_cons hspec, require_of (by omega), ok_bind, hsplit,
      memcpyFrom_append pre hn hlen.symm, ok_bind, ← hsplit, addSize_eq (by omega), hsplit',
      hrest, ok_bind, Arg.ofBytes_bytes, Nat.add_assoc]

/-- Another format of the right width gets through. -/
theorem unpackLoop_complete (hfmt : Format fmt) (hL : n + width fmt = L) (hbuf : L ≤ buf.length)
    (hint : L < 2 ^ 31) : ∃ x, unpackLoop buf L fmt n = .ok (some (L : Int), x) := by
  induction fmt generalizing n with
  | nil =>
    obtain rfl : n = L := hL
    exact ⟨([], []), rfl⟩
  | cons c fmt ih =>
    rw [width_cons] at hL
    have hpos := charWidth_pos c
    obtain ⟨x, hx⟩ := ih (n := n + charWidth c) (fun d hd => hfmt d (List.mem_cons_of_mem _ hd))
      (by omega)
    have hread : memcpyFrom buf n (charWidth c) = .ok (slice buf n (charWidth c)) := by
      unfold memcpyFrom
      rw [if_pos (by omega), Int.toNat_natCast]
    refine ⟨(Arg.ofBytes c (slice buf n (charWidth c)) :: x.1, (n, charWidth c) :: x.2), ?_⟩
    rw [unpackLoop_cons (hfmt c List.mem_cons_self), require_of (by omega), ok_bind, hread,
      ok_bind, addSize_eq (by omega), hx, ok_bind]

/-- Once `ptr` is beyond the packed bytes, or has overflowed, the loop does not end at `L`. -/
theorem unpackLoop_past (hfmt : Format fmt) (hptr : ptr < 0 ∨ (L : Int) < ptr)
    {x : Option Int × List Arg × List (Int × Nat)} (hok : unpackLoop buf L fmt ptr = .ok x) :
    ∃ last, x.1 = some last ∧ last ≠ L := by
  cases fmt with
  | nil =>
    cases hok
    exact ⟨ptr, rfl, by omega⟩
  | cons c fmt =>
    rw [unpackLoop_cons (hfmt c List.mem_cons_self)] at hok
    obtain ⟨_, hlt, hok⟩ := bind_eq_ok.mp hok
    rw [require_eq_ok] at hlt
    obtain ⟨bytes, hread, -⟩ := bind_eq_ok.mp hok
    unfold memcpyFrom at hread
    split at hread
    · omega
    · cases hread

/-- Whatever the bytes are, a loop that ends has gone the width of the format. -/
theorem unpackLoop_last (hfmt : Format fmt) (hint : n + width fmt < 2 ^ 31) {len : Int}
    {x : Option Int × List Arg × List (Int × Nat)} (hok : unpackLoop buf len fmt n = .ok x) :
    x.1 = some ((n + width fmt : Nat) : Int) := by
  induction fmt generalizing n x with
  | nil =>
    cases hok
    rfl
  | cons c fmt ih =>
    have hrest : Format fmt := fun d hd => hfmt d (List.mem_cons_of_mem _ hd)
    rw [width_cons] at hint ⊢
    rw [unpackLoop_cons (hfmt c List.mem_cons_self), addSize_eq (by omega)] at hok
    obtain ⟨_, -, hok⟩ := bind_eq_ok.mp hok
    obtain ⟨bytes, -, hok⟩ := bind_eq_ok.mp hok
    obtain ⟨y, hy, hok⟩ := bind_eq_ok.mp hok
    cases hok
    rw [← Nat.add_assoc]
    exact ih (x := y) hrest (by omega) hy

/-- The stretches lie between the two offsets. -/
def Within (lo hi : Int) (reads : List (Int × Nat)) : Prop :=
  ∀ r ∈ reads, lo ≤ r.1 ∧ r.1 + r.2 ≤ hi

/-- **What gets through has the right width**, and has read packed bytes only. -/
theorem unpackLoop_sound (hfmt : Format fmt) (hn : n ≤ L) (hint : L < 2 ^ 31)
    {x : Option Int × List Arg × List (Int × Nat)} (hok : unpackLoop buf L fmt n = .ok x) :
    ∃ last, x.1 = some last ∧ (last = L → n + width fmt = L ∧ Within n L x.2.2) := by
  induction fmt generalizing n x with
  | nil =>
    cases hok
    refine ⟨n, rfl, fun h => ⟨by rw [width_nil]; omega, ?_⟩⟩
    intro r hr
    cases hr
  | cons c fmt ih =>
    have hrest : Format fmt := fun d hd => hfmt d (List.mem_cons_of_mem _ hd)
    rw [unpackLoop_cons (hfmt c List.mem_cons_self)] at hok
    obtain ⟨_, hlt, hok⟩ := bind_eq_ok.mp hok
    rw [require_eq_ok] at hlt
    obtain ⟨bytes, hread, hok⟩ := bind_eq_ok.mp hok
    obtain ⟨y, hy, hok⟩ := bind_eq_ok.mp hok
    cases hok
    dsimp only
    have hw := charWidth_le c
    by_cases hin : n + charWidth c ≤ L
    · rw [addSize_eq (by omega)] at hy
      obtain ⟨last, hlast, hwidth⟩ := ih hrest hin hy
      refine ⟨last, hlast, fun heq => ?_⟩
      obtain ⟨h, hwithin⟩ := hwidth heq
      refine ⟨by rw [width_cons]; omega, fun r hr => ?_⟩
      rcases List.mem_cons.mp hr with rfl | hr
      · exact ⟨Int.le_refl _, by dsimp only; omega⟩
      · obtain ⟨h1, h2⟩ := hwithin r hr
        exact ⟨by omega, h2⟩
    · -- the field ends behind the packed bytes
      have hptr : addSize n (charWidth c) < 0 ∨ (L : Int) < addSize n (charWidth c) := by
        by_cases hover : n + charWidth c < 2 ^ 31
        · rw [addSize_eq hover]
          omega
        · exact .inl (addSize_neg (by omega) (by omega) hw)
      obtain ⟨last, hlast, hne⟩ := unpackLoop_past hrest hptr hy
      exact ⟨last, hlast, fun h => absurd h hne⟩

theorem unpackEnd_some (len size ptr : Int) (stored : List Arg) (reads : List (Int × Nat)) :
    unpackEnd len size (some ptr) stored reads = (do
      require (ptr = len) .unpackLength
      .ok { ret := size, stored := stored, reads := reads }) := rfl

/-- `unpack` after its header. -/
theorem unpack_eq (fmt : List Char) {size : Int} {body : List UInt8} (hint : L < 2 ^ 31)
    (h₀ : -2 ^ 31 ≤ size) (hsize : size < 2 ^ 31)
    (hbuf : buf = intBytes L ++ (intBytes size ++ body)) :
    unpack buf fmt = (do
      let x ← unpackLoop buf L fmt 8
      unpackEnd L size x.1 x.2.1 x.2.2) := by
  have hlen : memcpyFrom buf 0 4 = .ok (intBytes L) := by
    rw [hbuf]
    exact memcpyFrom_append [] (n := 0) rfl (length_intBytes _).symm
  have hsz : memcpyFrom buf 4 4 = .ok (intBytes size) := by
    rw [hbuf]
    exact memcpyFrom_append (intBytes L) (n := 4) (length_intBytes _).symm (length_intBytes _).symm
  have hL : intOfBytes (intBytes L) = L := intOfBytes_intBytes (by omega) (by omega)
  unfold unpack
  rw [hlen, ok_bind, hsz, ok_bind, hL, intOfBytes_intBytes h₀ hsize]

end

/-- **What `unpack` compares**: where the loop ends and the length that it has read. -/
theorem unpack_length {fmt : List Char} {buf : List UInt8} (hfmt : Format fmt)
    (hint : 8 + width fmt < 2 ^ 31) {u : Unpacked} (hok : unpack buf fmt = .ok u) :
    intOfBytes (slice buf 0 4) = ((8 + width fmt : Nat) : Int) := by
  obtain ⟨lenBytes, hlen, hok⟩ := bind_eq_ok.mp (show unpack buf fmt = .ok u from hok)
  obtain ⟨sizeBytes, -, hok⟩ := bind_eq_ok.mp hok
  obtain ⟨⟨last, stored, reads⟩, hloop, hok⟩ := bind_eq_ok.mp hok
  have hlast : last = _ := unpackLoop_last (n := 8) hfmt hint hloop
  dsimp only at hok
  rw [hlast, unpackEnd_some] at hok
  obtain ⟨_, hend, -⟩ := bind_eq_ok.mp hok
  rw [require_eq_ok] at hend
  unfold memcpyFrom at hlen
  split at hlen
  · rw [← Except.ok.inj hlen] at hend
    exact hend.symm
  · cases hlen

/-! ## 5. The round trip -/

/-- **`pack` and `unpack`.**  For a format, its arguments and a buffer with room for them, `pack`
returns `8 + width(f)` and changes no byte from there on; `unpack` with the same format stores
the arguments and returns `size`; and `unpack` with any format `g` gets through if and only if
`width(g) = width(f)`, having read argument bytes in `[8, 8 + width(f))` only. -/
theorem unpack_pack {fmt : List Char} {args : List Arg} {buf : List UInt8} {size : Int}
    (hargs : Matches fmt args) (hsize : 8 + width fmt ≤ size) (hint : size < 2 ^ 31)
    (hbuf : size ≤ buf.length) :
    ∃ out, pack buf size fmt args = .ok (((8 + width fmt : Nat) : Int), out) ∧
      out.length = buf.length ∧ (∀ i, 8 + width fmt ≤ i → out[i]? = buf[i]?) ∧
      (∃ reads, unpack out fmt = .ok { ret := size, stored := args, reads := reads }) ∧
      ∀ g, Format g → ((∃ x, unpack out g = .ok x) ↔ width g = width fmt) ∧
        ∀ x, unpack out g = .ok x → Within 8 ((8 + width fmt : Nat) : Int) x.reads := by
  unfold Matches at hargs
  subst hargs
  have hpack := pack_eq hsize hint hbuf
  have hfields := length_fields args
  generalize hW : width (args.map Arg.spec) = W at *
  generalize hout : intBytes ((8 + W : Nat) : Int) ++ (intBytes size ++
    (fields args ++ buf.drop (8 + W))) = out at hpack
  have hpre : (intBytes ((8 + W : Nat) : Int) ++ intBytes size).length = 8 := by
    rw [List.length_append, length_intBytes, length_intBytes]
  have hout' : out = (intBytes ((8 + W : Nat) : Int) ++ intBytes size) ++
      (fields args ++ buf.drop (8 + W)) := by
    rw [← hout, List.append_assoc]
  have houtlen : out.length = buf.length := by
    rw [hout', List.length_append, hpre, List.length_append, hfields, List.length_drop]
    omega
  have hL : (8 + W : Nat) < 2 ^ 31 := by omega
  have hunpack := fun g => unpack_eq g hL (by omega) hint hout.symm
  refine ⟨out, hpack, houtlen, fun i hi => ?_, ?_, fun g hg => ⟨⟨?_, ?_⟩, ?_⟩⟩
  · rw [hout', List.getElem?_append_right (by omega), List.getElem?_append_right (by omega),
      List.getElem?_drop, hpre, hfields]
    congr 1
    omega
  · obtain ⟨reads, hloop⟩ := unpackLoop_fields args _ (buf.drop (8 + W)) (n := 8)
      (L := 8 + W) hpre.symm (by rw [hW]) hL
    rw [hW, ← hout'] at hloop
    refine ⟨reads, ?_⟩
    rw [hunpack, show unpackLoop out _ _ 8 = _ from hloop, ok_bind, unpackEnd_some,
      require_of rfl, ok_bind]
  · rintro ⟨x, hx⟩
    rw [hunpack] at hx
    obtain ⟨y, hy, hx⟩ := bind_eq_ok.mp hx
    obtain ⟨last, hlast, hwidth⟩ := unpackLoop_sound (n := 8) (L := 8 + W) hg (by omega) hL hy
    rw [hlast] at hx
    obtain ⟨_, heq, -⟩ := bind_eq_ok.mp hx
    rw [require_eq_ok] at heq
    have := (hwidth heq).1
    omega
  · intro hgW
    obtain ⟨x, hx⟩ := unpackLoop_complete (n := 8) (L := 8 + W) hg (by omega)
      (show 8 + W ≤ out.length by omega) hL
    refine ⟨{ ret := size, stored := x.1, reads := x.2 }, ?_⟩
    rw [hunpack, show unpackLoop out _ _ 8 = _ from hx, ok_bind, unpackEnd_some,
      require_of rfl, ok_bind]
  · intro x hx
    rw [hunpack] at hx
    obtain ⟨y, hy, hx⟩ := bind_eq_ok.mp hx
    obtain ⟨last, hlast, hwidth⟩ := unpackLoop_sound (n := 8) (L := 8 + W) hg (by omega) hL hy
    rw [hlast] at hx
    obtain ⟨_, heq, hx⟩ := bind_eq_ok.mp hx
    rw [require_eq_ok] at heq
    cases hx
    exact (hwidth heq).2

/-- Two numbers, in a buffer with room to spare. -/
theorem unpack_pack_add : ∃ out, pack (List.replicate 20 0) 16 ['i', 'i'] [.i 1, .i 2] =
    .ok (16, out) ∧ out.length = 20 := by
  obtain ⟨out, hpack, hlen, -⟩ := @unpack_pack ['i', 'i'] [.i 1, .i 2] (List.replicate 20 0) 16 rfl
    (by decide) (by decide) (by decide)
  exact ⟨out, hpack, hlen⟩

end CAsync
