/-
# Computations with extra checks

A computation `x` that is another one, `y`, with checks put in: the checks change nothing, and all
of them stop with one fault `e`.  `Instrumented e w R x y` says when they do: `w` is the condition
under which some check fails, wherever `y` would finish; otherwise the two computations are equal,
and what they finish with is in `R`.

`w` is a condition on where the computation starts.  A sequence has the one of the part that can
fail its checks (`first`, `second`); the other part then has the condition `False`.
-/
import CAsync.Lib.Faulting

namespace Faulting

variable {ε α β : Type}

/-- `x` is `y` with checks that fail, with the fault `e`, exactly if `w`. -/
structure Instrumented (e : ε) (w : Prop) (R : α → Prop) (x y : Except ε α) : Prop where
  passes : ¬ w → x = y
  result : ¬ w → ∀ a, y = .ok a → R a
  rejects : w → ∀ a, y = .ok a → x = .error e

namespace Instrumented

variable {e : ε} {w w' : Prop} {R : α → Prop} {S : β → Prop} {x y : Except ε α}

/-- A part without checks. -/
theorem same (h : ∀ a, x = .ok a → R a) : Instrumented e False R x x :=
  ⟨fun _ => rfl, fun _ => h, fun hw => hw.elim⟩

theorem ok {a : α} (h : R a) : Instrumented e False R (.ok a) (.ok a) :=
  same fun b hb => by
    cases hb
    exact h

/-- The computation without the checks stops, and so does the other one. -/
theorem error (e' : ε) : Instrumented e w R (.error e') (.error e') :=
  ⟨fun _ => rfl, fun _ => nofun, fun _ => nofun⟩

/-- Checks that all pass. -/
theorem of_eq (heq : x = y) (h : ∀ a, y = .ok a → R a) : Instrumented e False R x y :=
  ⟨fun _ => heq, fun _ => h, fun hw => hw.elim⟩

theorem congr (h : Instrumented e w R x y) (hw : w ↔ w') : Instrumented e w' R x y :=
  ⟨fun hn => h.passes fun hp => hn (hw.mp hp), fun hn => h.result fun hp => hn (hw.mp hp),
    fun hp => h.rejects (hw.mpr hp)⟩

/-- What comes after a part without checks. -/
theorem after {z : Except ε β} {f g : β → Except ε α}
    (hf : ∀ b, z = .ok b → Instrumented e w R (f b) (g b)) :
    Instrumented e w R (z >>= f) (z >>= g) := by
  cases z with
  | error e' => exact error e'
  | ok b => exact hf b rfl

/-- An assertion of both computations. -/
theorem require_bind {p : Prop} [Decidable p] {e' : ε} {f g : Unit → Except ε α}
    (hf : p → Instrumented e w R (f ()) (g ())) :
    Instrumented e w R (Faulting.require p e' >>= f) (Faulting.require p e' >>= g) :=
  after fun _ hp => hf (require_eq_ok.mp hp)

/-- **The checks that can fail are in the first part.** -/
theorem first {f g : α → Except ε β} (hx : Instrumented e w R x y)
    (hf : ∀ a, R a → Instrumented e False S (f a) (g a)) :
    Instrumented e w S (x >>= f) (y >>= g) := by
  refine ⟨fun hw => ?_, fun hw b hb => ?_, fun hw b hb => ?_⟩
  · rw [hx.passes hw]
    cases hy : y with
    | error e' => rfl
    | ok a => exact (hf a (hx.result hw a hy)).passes id
  · obtain ⟨a, ha, hb⟩ := bind_eq_ok.mp hb
    exact (hf a (hx.result hw a ha)).result id b hb
  · obtain ⟨a, ha, -⟩ := bind_eq_ok.mp hb
    rw [hx.rejects hw a ha, error_bind]

/-- **The checks that can fail are in the second part.** -/
theorem second {f g : α → Except ε β} (hx : Instrumented e False R x y)
    (hf : ∀ a, R a → Instrumented e w S (f a) (g a)) :
    Instrumented e w S (x >>= f) (y >>= g) := by
  rw [hx.passes id]
  exact after fun a ha => hf a (hx.result id a ha)

end Instrumented
end Faulting
