/-
# Length-prefixed frames

A frame is a header of a fixed length, and behind it as many symbols as the header announces.
`frames` cuts a stream into its frames, up to the first one that is not there as a whole, and `rest`
is what remains.  A header may announce a negative size, which begins no frame.

The cut is the only one (`frames_flatten_append`), so what a stream holds does not depend on how it
arrives.  A fact about all streams is proved along it: for streams that begin with no whole frame,
and for a frame in front of a stream (`induct`).
-/
import Mathlib.Data.List.Basic

/-- A format of frames: the length of a header, and the size that it announces. -/
structure Framing (α : Type) where
  header : Nat
  pos : 0 < header
  size : List α → Int

namespace Framing

variable {α : Type} (F : Framing α)

/-- The size announced by the header that a stream begins with. -/
def announced (s : List α) : Int := F.size (s.take F.header)

/-- The length of the frame that a stream begins with. -/
def frameLen (s : List α) : Nat := F.header + (F.announced s).toNat

/-- The stream begins with a whole frame. -/
def Whole (s : List α) : Prop :=
  F.header ≤ s.length ∧ 0 ≤ F.announced s ∧ F.frameLen s ≤ s.length

instance (s : List α) : Decidable (F.Whole s) := inferInstanceAs (Decidable (_ ∧ _ ∧ _))

/-- The stream is one whole frame. -/
def IsFrame (f : List α) : Prop :=
  F.header ≤ f.length ∧ 0 ≤ F.announced f ∧ f.length = F.frameLen f

/-- The first frames of a stream, at most as many as the fuel. -/
def framesAux : Nat → List α → List (List α)
  | 0, _ => []
  | fuel + 1, s =>
    if F.Whole s then s.take (F.frameLen s) :: framesAux fuel (s.drop (F.frameLen s)) else []

/-- The frames of a stream. -/
def frames (s : List α) : List (List α) := F.framesAux s.length s

/-- What is behind the frames. -/
def rest (s : List α) : List α := s.drop (F.frames s).flatten.length

/-- All sizes that are announced: by the frames, and by a header behind them. -/
def sizes (s : List α) : List Int :=
  (F.frames s).map F.announced ++
    if F.header ≤ (F.rest s).length then [F.announced (F.rest s)] else []

variable {F} {f s : List α} {fs : List (List α)}

/-! ## 1. One frame -/

theorem IsFrame.ne_nil (hf : F.IsFrame f) : 0 < f.length :=
  Nat.lt_of_lt_of_le F.pos hf.1

/-- What is announced by a header that is there. -/
theorem announced_append (hs : F.header ≤ s.length) (t : List α) :
    F.announced (s ++ t) = F.announced s := by
  unfold announced
  rw [List.take_append_of_le_length hs]

/-- The header does not see what is behind the frame. -/
theorem IsFrame.announced_append (hf : F.IsFrame f) (s : List α) :
    F.announced (f ++ s) = F.announced f :=
  Framing.announced_append hf.1 s

theorem IsFrame.frameLen_append (hf : F.IsFrame f) (s : List α) :
    F.frameLen (f ++ s) = f.length := by
  rw [frameLen, hf.announced_append, hf.2.2, frameLen]

theorem IsFrame.whole_append (hf : F.IsFrame f) (s : List α) : F.Whole (f ++ s) := by
  refine ⟨Nat.le_trans hf.1 (by simp), ?_, ?_⟩
  · rw [hf.announced_append]
    exact hf.2.1
  · rw [hf.frameLen_append, List.length_append]
    omega

theorem Whole.isFrame_take (hs : F.Whole s) : F.IsFrame (s.take (F.frameLen s)) := by
  have hle : F.header ≤ F.frameLen s := Nat.le_add_right _ _
  have hann : F.announced (s.take (F.frameLen s)) = F.announced s := by
    unfold announced
    rw [List.take_take, Nat.min_eq_left hle]
  have hlen : (s.take (F.frameLen s)).length = F.frameLen s := List.length_take_of_le hs.2.2
  refine ⟨by omega, ?_, ?_⟩
  · rw [hann]
    exact hs.2.1
  · have hsame : F.frameLen (s.take (F.frameLen s)) = F.frameLen s := by
      rw [frameLen, hann, frameLen]
    rw [hlen, hsame]

/-- A stream that begins with a whole frame is that frame and another stream. -/
theorem Whole.exists_append (hs : F.Whole s) : ∃ f t, F.IsFrame f ∧ s = f ++ t :=
  ⟨_, _, hs.isFrame_take, (List.take_append_drop _ s).symm⟩

/-! ## 2. The cut -/

/-- Enough fuel is enough. -/
theorem framesAux_eq (n m : Nat) (s : List α) (hn : s.length ≤ n) (hm : s.length ≤ m) :
    F.framesAux n s = F.framesAux m s := by
  induction n generalizing m s with
  | zero =>
    cases m with
    | zero => rfl
    | succ m =>
      have hnot : ¬ F.Whole s := fun hs => by
        have := F.pos
        have := hs.1
        omega
      rw [framesAux, framesAux, if_neg hnot]
  | succ n ih =>
    cases m with
    | zero =>
      have hnot : ¬ F.Whole s := fun hs => by
        have := F.pos
        have := hs.1
        omega
      rw [framesAux, framesAux, if_neg hnot]
    | succ m =>
      rw [framesAux, framesAux]
      split
      · have hpos : 0 < F.frameLen s := Nat.lt_of_lt_of_le F.pos (Nat.le_add_right _ _)
        rw [ih m _ (by rw [List.length_drop]; omega) (by rw [List.length_drop]; omega)]
      · rfl

/-- **No whole frame, no frames.** -/
theorem frames_of_not_whole (hs : ¬ F.Whole s) : F.frames s = [] := by
  unfold frames
  cases s.length with
  | zero => rfl
  | succ n => rw [framesAux, if_neg hs]

/-- **A frame in front of a stream is its first one.** -/
theorem frames_append (hf : F.IsFrame f) (s : List α) : F.frames (f ++ s) = f :: F.frames s := by
  obtain ⟨n, hn⟩ : ∃ n, (f ++ s).length = n + 1 := by
    have := hf.ne_nil
    exact ⟨f.length + s.length - 1, by rw [List.length_append]; omega⟩
  unfold frames
  rw [hn, framesAux, if_pos (hf.whole_append s), hf.frameLen_append, List.take_left, List.drop_left]
  rw [List.length_append] at hn
  have := hf.ne_nil
  rw [framesAux_eq n s.length s (by omega) (Nat.le_refl _)]

/-- Two streams that are equal begin with the same frame. -/
theorem IsFrame.append_inj {g t : List α} (hf : F.IsFrame f) (hg : F.IsFrame g)
    (h : f ++ s = g ++ t) : f = g ∧ s = t := by
  have hlen : f.length = g.length := by rw [← hf.frameLen_append s, h, hg.frameLen_append t]
  exact List.append_inj h hlen

theorem rest_of_not_whole (hs : ¬ F.Whole s) : F.rest s = s := by
  rw [rest, frames_of_not_whole hs]
  rfl

theorem rest_append (hf : F.IsFrame f) (s : List α) : F.rest (f ++ s) = F.rest s := by
  rw [rest, frames_append hf, List.flatten_cons, List.length_append, List.drop_append]
  simp [rest]

/-- **Induction along a stream.** -/
theorem induct {P : List α → Prop} (stop : ∀ s, ¬ F.Whole s → P s)
    (frame : ∀ f s, F.IsFrame f → P s → P (f ++ s)) (s : List α) : P s := by
  induction hn : s.length using Nat.strongRecOn generalizing s with
  | ind n ih =>
    by_cases hs : F.Whole s
    · obtain ⟨f, t, hf, rfl⟩ := hs.exists_append
      have := hf.ne_nil
      rw [List.length_append] at hn
      exact frame f t hf (ih t.length (by omega) t rfl)
    · exact stop s hs

/-- **The cut is unique**: frames in front of a stream are its first frames. -/
theorem frames_flatten_append (hfs : ∀ f ∈ fs, F.IsFrame f) (s : List α) :
    F.frames (fs.flatten ++ s) = fs ++ F.frames s := by
  induction fs with
  | nil => rfl
  | cons f fs ih =>
    rw [List.flatten_cons, List.append_assoc, frames_append (hfs f List.mem_cons_self),
      ih fun g hg => hfs g (List.mem_cons_of_mem _ hg), List.cons_append]

/-! ## 3. The sizes -/

theorem sizes_append (hf : F.IsFrame f) (s : List α) :
    F.sizes (f ++ s) = F.announced f :: F.sizes s := by
  rw [sizes, frames_append hf, rest_append hf, List.map_cons, List.cons_append, sizes]

/-- A header that begins no whole frame, but is there. -/
theorem sizes_of_not_whole (hs : ¬ F.Whole s) :
    F.sizes s = if F.header ≤ s.length then [F.announced s] else [] := by
  rw [sizes, frames_of_not_whole hs, rest_of_not_whole hs, List.map_nil, List.nil_append]

/-- The sizes of a stream of frames. -/
theorem sizes_flatten (hfs : ∀ f ∈ fs, F.IsFrame f) : F.sizes fs.flatten = fs.map F.announced := by
  induction fs with
  | nil =>
    have hpos : ¬ F.header ≤ ([] : List α).length := Nat.not_le.mpr F.pos
    rw [List.flatten_nil, sizes_of_not_whole fun h => hpos h.1, if_neg hpos, List.map_nil]
  | cons f fs ih =>
    rw [List.flatten_cons, sizes_append (hfs f List.mem_cons_self),
      ih fun g hg => hfs g (List.mem_cons_of_mem _ hg), List.map_cons]

theorem frames_flatten (hfs : ∀ f ∈ fs, F.IsFrame f) : F.frames fs.flatten = fs := by
  have hall := frames_flatten_append hfs []
  have hnil : F.frames [] = [] := rfl
  rwa [List.append_nil, hnil, List.append_nil] at hall

/-- Only no frames are no bytes. -/
theorem flatten_eq_nil (hfs : ∀ f ∈ fs, F.IsFrame f) (h : fs.flatten = []) : fs = [] := by
  rw [← frames_flatten hfs, h]
  rfl

end Framing
