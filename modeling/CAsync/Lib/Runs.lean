/-
# Runs of a labelled transition relation

`Steps step s l t` is a run from `s` to `t` that takes one step for each label of `l`, in
order.  The rules below are the ones every safety or progress argument about a run needs, each
proved once:

* `Steps.append_iff`: a run can be cut anywhere, and `Steps.unique`: its labels determine it;
* `Steps.invariant`: what every step keeps, every run keeps;
* `Steps.history`: the same for a fact about a state and the labels that led to it;
* `Steps.simulate`: a relation that every step of one system can answer in another;
* `Steps.exists_visit`: a measure that some labels lower and no label raises runs out, so a run
  with enough of those labels passes the states where it is 0.
-/
import Mathlib.Data.List.Basic

variable {σ τ ι : Type}

/-- A run from one state to another, one step for each label. -/
inductive Steps (step : σ → ι → σ → Prop) : σ → List ι → σ → Prop
  | refl (s : σ) : Steps step s [] s
  | cons {s t u : σ} {i : ι} {l : List ι} : step s i t → Steps step t l u → Steps step s (i :: l) u

namespace Steps

variable {step step' : σ → ι → σ → Prop} {s t u : σ} {l l' : List ι} {i : ι}

theorem append (h : Steps step s l t) (h' : Steps step t l' u) : Steps step s (l ++ l') u := by
  induction h with
  | refl _ => exact h'
  | cons hst _ ih => exact .cons hst (ih h')

theorem single (h : step s i t) : Steps step s [i] t := .cons h (.refl t)

theorem cons_iff : Steps step s (i :: l) u ↔ ∃ t, step s i t ∧ Steps step t l u := by
  constructor
  · intro h
    cases h with
    | cons hst h => exact ⟨_, hst, h⟩
  · rintro ⟨t, hst, h⟩
    exact .cons hst h

/-- A run can be cut anywhere. -/
theorem append_iff : Steps step s (l ++ l') u ↔ ∃ t, Steps step s l t ∧ Steps step t l' u := by
  constructor
  · intro h
    induction l generalizing s with
    | nil => exact ⟨s, .refl s, h⟩
    | cons i l ih =>
      obtain ⟨t, hst, h⟩ := cons_iff.mp h
      obtain ⟨v, h₁, h₂⟩ := ih h
      exact ⟨v, .cons hst h₁, h₂⟩
  · rintro ⟨t, h₁, h₂⟩
    exact h₁.append h₂

/-- The labels of a run determine where it ends, if each label determines its step. -/
theorem unique (hstep : ∀ s i t t', step s i t → step s i t' → t = t')
    (h : Steps step s l t) : Steps step s l u → t = u := by
  induction h with
  | refl _ =>
    intro h
    cases h
    rfl
  | cons hst _ ih =>
    intro h
    obtain ⟨v, hst', h⟩ := cons_iff.mp h
    obtain rfl := hstep _ _ _ _ hst hst'
    exact ih h

/-- A run under a guard is a run. -/
theorem mono (hmono : ∀ s i t, step s i t → step' s i t) (h : Steps step s l t) :
    Steps step' s l t := by
  induction h with
  | refl s => exact .refl s
  | cons hst _ ih => exact .cons (hmono _ _ _ hst) ih

/-- **What every step keeps, every run keeps.** -/
theorem invariant {I : σ → Prop} (hI : ∀ s i t, I s → step s i t → I t)
    (h : Steps step s l t) : I s → I t := by
  induction h with
  | refl _ => exact id
  | cons hst _ ih => exact fun hs => ih (hI _ _ _ hs hst)

/-- **What holds at the start and is kept by every step holds at the end**, for facts about a
state and the labels that led to it. -/
theorem history {P : List ι → σ → Prop} {s₀ : σ} (h₀ : P [] s₀)
    (hP : ∀ l s i t, Steps step s₀ l s → P l s → step s i t → P (l ++ [i]) t)
    (h : Steps step s₀ l t) : P l t := by
  have hmain : ∀ {s l t}, Steps step s l t →
      ∀ l₀, Steps step s₀ l₀ s → P l₀ s → P (l₀ ++ l) t := by
    intro s l t h
    induction h with
    | refl _ =>
      intro l₀ _ hs
      rwa [List.append_nil]
    | @cons s t u i l hst _ ih =>
      intro l₀ hrun hs
      have hnext := ih (l₀ ++ [i]) (hrun.append (single hst)) (hP _ _ _ _ hrun hs hst)
      rwa [List.append_assoc] at hnext
  exact hmain h [] (.refl s₀) h₀

/-- **Forward simulation.**  If each step from related states is answered by a step with the
same label into related states, so is each run. -/
theorem simulate {stepτ : τ → ι → τ → Prop} {R : σ → τ → Prop}
    (hR : ∀ s a i t, R s a → step s i t → ∃ b, stepτ a i b ∧ R t b)
    (h : Steps step s l t) : ∀ {a}, R s a → ∃ b, Steps stepτ a l b ∧ R t b := by
  induction h with
  | refl _ => exact fun ha => ⟨_, .refl _, ha⟩
  | cons hst _ ih =>
    intro a ha
    obtain ⟨b, hab, hb⟩ := hR _ _ _ _ ha hst
    obtain ⟨c, hbc, hc⟩ := ih hb
    exact ⟨c, .cons hab hbc, hc⟩

/-- **A measure that runs out.**  Inside `I` and outside `G`, no step raises the measure and
those with a label in `P` lower it; where it is 0, `G` holds.  Then a run with as many labels in
`P` as the measure was at its start has passed a state of `G`. -/
theorem exists_visit {I G : σ → Prop} {P : ι → Bool} {m : σ → Nat}
    (hI : ∀ s i t, I s → ¬ G s → step s i t → I t)
    (hdown : ∀ s i t, I s → ¬ G s → step s i t → P i = true → m t < m s)
    (hflat : ∀ s i t, I s → ¬ G s → step s i t → m t ≤ m s) (hzero : ∀ s, I s → m s = 0 → G s)
    (h : Steps step s l t) : I s → m s ≤ l.countP P →
      ∃ l₁ l₂ u, l = l₁ ++ l₂ ∧ Steps step s l₁ u ∧ Steps step u l₂ t ∧ G u := by
  induction h with
  | refl s =>
    intro hs hm
    exact ⟨[], [], s, rfl, .refl s, .refl s, hzero s hs (Nat.le_zero.mp hm)⟩
  | @cons s t u i l hst hrest ih =>
    intro hs hm
    by_cases hG : G s
    · exact ⟨[], i :: l, s, rfl, .refl s, .cons hst hrest, hG⟩
    have hm' : m t ≤ l.countP P := by
      have hle := hflat _ _ _ hs hG hst
      rw [List.countP_cons] at hm
      split at hm
      · rename_i hi
        have hlt := hdown _ _ _ hs hG hst hi
        omega
      · omega
    obtain ⟨l₁, l₂, v, rfl, h₁, h₂, hv⟩ := ih (hI _ _ _ hs hG hst) hm'
    exact ⟨i :: l₁, l₂, v, rfl, .cons hst h₁, h₂, hv⟩

end Steps
