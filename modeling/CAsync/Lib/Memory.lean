/-
# Byte-addressed memory with 64-bit words

A memory gives a byte for every 64-bit address, and a word is eight bytes, the least
significant first.  Addresses are compared as numbers: `AgreeOn lo hi` says that two
memories have the same bytes from `lo` up to `hi`, and `WordsAt m a vs` that the words `vs`
lie at `a`, one behind the other.  `AgreeOff W lo hi` leaves out the addresses of a set `W`: it is
what is left of a stretch when someone else may have written there.

Arithmetic on addresses wraps around; the lemmas are about stretches that do not.
-/
import CAsync.Lib.Bytes
import Mathlib.Data.List.GetD
import Mathlib.Data.Set.Basic

namespace Memory

open Bytes

abbrev Word := BitVec 64

/-- A byte for every address. -/
abbrev Mem := Word → UInt8

/-! ## 1. Words -/

/-- The eight bytes at `a`, as a number. -/
def readWord (m : Mem) (a : Word) : Word :=
  BitVec.ofNat 64 (ofLe ((List.range 8).map fun i => m (a + BitVec.ofNat 64 i)))

/-- The memory with the word `v` at `a`. -/
def writeWord (m : Mem) (a v : Word) : Mem := fun b =>
  (le 8 v.toNat).getD (b - a).toNat (m b)

variable {m m' m'' : Mem} {a b v : Word} {lo hi : Nat}

theorem add_sub_toNat (a : Word) {i : Nat} (hi : i < 8) :
    (a + BitVec.ofNat 64 i - a).toNat = i := by
  bv_omega

/-- A word that was just written. -/
theorem readWord_writeWord (m : Mem) (a v : Word) : readWord (writeWord m a v) a = v := by
  have hbytes : ((List.range 8).map fun i => writeWord m a v (a + BitVec.ofNat 64 i)) =
      le 8 v.toNat := by
    refine List.ext_getElem (by simp) fun i h₁ h₂ => ?_
    rw [List.getElem_map, List.getElem_range]
    rw [length_le] at h₂
    unfold writeWord
    rw [add_sub_toNat a h₂, List.getD_eq_getElem _ _ (by rwa [length_le])]
  unfold readWord
  rw [hbytes, ofLe_le_of_lt (by have := v.isLt; omega), BitVec.ofNat_toNat, BitVec.setWidth_eq]

/-- Bytes outside of a word that was written. -/
theorem writeWord_of_outside (ha : a.toNat + 8 ≤ 2 ^ 64)
    (hb : b.toNat < a.toNat ∨ a.toNat + 8 ≤ b.toNat) : writeWord m a v b = m b := by
  unfold writeWord
  refine List.getD_eq_default _ _ ?_
  rw [length_le]
  have hlt := b.isLt
  bv_omega

/-! ## 2. Stretches of two memories -/

/-- The same bytes from `lo` up to `hi`. -/
def AgreeOn (lo hi : Nat) (m m' : Mem) : Prop :=
  ∀ a : Word, lo ≤ a.toNat → a.toNat < hi → m' a = m a

namespace AgreeOn

theorem refl (lo hi : Nat) (m : Mem) : AgreeOn lo hi m m := fun _ _ _ => rfl

theorem trans (h : AgreeOn lo hi m m') (h' : AgreeOn lo hi m' m'') : AgreeOn lo hi m m'' :=
  fun a h₁ h₂ => (h' a h₁ h₂).trans (h a h₁ h₂)

theorem mono {lo' hi' : Nat} (h : AgreeOn lo hi m m') (hlo : lo ≤ lo') (hhi : hi' ≤ hi) :
    AgreeOn lo' hi' m m' :=
  fun a h₁ h₂ => h a (by omega) (by omega)

/-- A word inside of the stretch. -/
theorem readWord (h : AgreeOn lo hi m m') (hlo : lo ≤ a.toNat) (hhi : a.toNat + 8 ≤ hi)
    (hwrap : a.toNat + 8 ≤ 2 ^ 64) : Memory.readWord m' a = Memory.readWord m a := by
  have hbytes : ((List.range 8).map fun i => m' (a + BitVec.ofNat 64 i)) =
      (List.range 8).map fun i => m (a + BitVec.ofNat 64 i) := by
    refine List.map_congr_left fun i hi' => ?_
    have hlt := List.mem_range.mp hi'
    exact h _ (by bv_omega) (by bv_omega)
  unfold Memory.readWord
  rw [hbytes]

end AgreeOn

/-- The same bytes from `lo` up to `hi`, but for the addresses of `W`. -/
def AgreeOff (W : Set Word) (lo hi : Nat) (m m' : Mem) : Prop :=
  ∀ a : Word, lo ≤ a.toNat → a.toNat < hi → a ∉ W → m' a = m a

theorem AgreeOn.off (h : AgreeOn lo hi m m') (W : Set Word) : AgreeOff W lo hi m m' :=
  fun a h₁ h₂ _ => h a h₁ h₂

namespace AgreeOff

variable {W W' : Set Word}

theorem trans (h : AgreeOff W lo hi m m') (h' : AgreeOff W' lo hi m' m'') :
    AgreeOff (W ∪ W') lo hi m m'' :=
  fun a h₁ h₂ ha => (h' a h₁ h₂ fun hW => ha (.inr hW)).trans (h a h₁ h₂ fun hW => ha (.inl hW))

theorem mono {lo' hi' : Nat} (h : AgreeOff W lo hi m m') (hlo : lo ≤ lo') (hhi : hi' ≤ hi) :
    AgreeOff W lo' hi' m m' :=
  fun a h₁ h₂ ha => h a (by omega) (by omega) ha

/-- Nobody else has written to the stretch. -/
theorem agreeOn (h : AgreeOff W lo hi m m')
    (hW : ∀ a : Word, lo ≤ a.toNat → a.toNat < hi → a ∉ W) : AgreeOn lo hi m m' :=
  fun a h₁ h₂ => h a h₁ h₂ (hW a h₁ h₂)

end AgreeOff

/-- Writing a word outside of a stretch. -/
theorem agreeOn_writeWord (ha : a.toNat + 8 ≤ 2 ^ 64) (h : hi ≤ a.toNat ∨ a.toNat + 8 ≤ lo) :
    AgreeOn lo hi m (writeWord m a v) :=
  fun _ h₁ h₂ => writeWord_of_outside ha (by omega)

/-- Two words that do not overlap. -/
theorem readWord_writeWord_of_disjoint (ha : a.toNat + 8 ≤ 2 ^ 64) (hb : b.toNat + 8 ≤ 2 ^ 64)
    (h : b.toNat + 8 ≤ a.toNat ∨ a.toNat + 8 ≤ b.toNat) :
    readWord (writeWord m a v) b = readWord m b :=
  (agreeOn_writeWord ha (by omega)).readWord (Nat.le_refl _) (Nat.le_refl _) hb

/-! ## 3. Words in a row -/

/-- The words `vs` lie at `a`, one behind the other. -/
def WordsAt (m : Mem) (a : Word) : List Word → Prop
  | [] => True
  | v :: vs => readWord m a = v ∧ WordsAt m (a + 8) vs

theorem toNat_add_eight (h : a.toNat + 8 < 2 ^ 64) : (a + 8).toNat = a.toNat + 8 := by bv_omega

theorem toNat_sub_eight (h : 8 ≤ a.toNat) : (a - 8).toNat = a.toNat - 8 := by bv_omega

namespace WordsAt

variable {vs ws : List Word}

theorem left (h : WordsAt m a (vs ++ ws)) : WordsAt m a vs := by
  induction vs generalizing a with
  | nil => trivial
  | cons v vs ih => exact ⟨h.1, ih h.2⟩

theorem right (h : WordsAt m a (vs ++ ws)) :
    WordsAt m (a + BitVec.ofNat 64 (8 * vs.length)) ws := by
  induction vs generalizing a with
  | nil => simpa using h
  | cons v vs ih =>
    have haddr : a + 8 + BitVec.ofNat 64 (8 * vs.length) =
        a + BitVec.ofNat 64 (8 * (v :: vs).length) := by
      rw [List.length_cons]
      bv_omega
    rw [← haddr]
    exact ih h.2

/-- Words depend on the bytes they are made of. -/
theorem congr (hagree : AgreeOn lo hi m m') (h : WordsAt m a vs) (hlo : lo ≤ a.toNat)
    (hhi : a.toNat + 8 * vs.length ≤ hi) (hwrap : hi < 2 ^ 64) : WordsAt m' a vs := by
  induction vs generalizing a with
  | nil => trivial
  | cons v vs ih =>
    rw [List.length_cons] at hhi
    have hnext := toNat_add_eight (a := a) (by omega)
    exact ⟨(hagree.readWord hlo (by omega) (by omega)).trans h.1,
      ih h.2 (by omega) (by omega)⟩

/-- A word more in front. -/
theorem push (h : WordsAt m a vs) (ha : 8 ≤ a.toNat) (hwrap : a.toNat + 8 * vs.length < 2 ^ 64)
    (v : Word) : WordsAt (writeWord m (a - 8) v) (a - 8) (v :: vs) := by
  have hsub := toNat_sub_eight ha
  refine ⟨readWord_writeWord _ _ _, ?_⟩
  rw [BitVec.sub_add_cancel]
  have hagree : AgreeOn a.toNat (a.toNat + 8 * vs.length) m (writeWord m (a - 8) v) :=
    agreeOn_writeWord (by omega) (.inr (by omega))
  exact h.congr hagree (Nat.le_refl _) (Nat.le_refl _) hwrap

end WordsAt

end Memory
