/-
# Computations that can fault, and two of them in lockstep

`Except ε α` models code whose assertions stop the program: a failed check is an error, and
everything after it is skipped.  This file fixes the check itself (`require`), the inversion
of a sequence of computations (`bind_eq_ok`), the relation `Lockstep R` between two such
computations: both fault, and with the same fault, or both finish with results related by `R`;
and the faults that a computation cannot stop with (`Avoids`).

`Lockstep` is the notion of refinement between two implementations of one interface: it is
kept by sequencing (`Lockstep.bind`), so an operation composed of related parts is related.

Section 4 is about sequences of operations on one state, each of which may fault and answers
something (`runOps`).
-/
import Mathlib.Data.List.Induction
import Mathlib.Logic.Basic

namespace Faulting

variable {ε α β γ δ : Type}

/-! ## 1. Checks and sequences -/

/-- An assertion: continue if `p` holds, stop with the fault `e` otherwise. -/
def require (p : Prop) [Decidable p] (e : ε) : Except ε Unit :=
  if p then .ok () else .error e

@[simp] theorem ok_bind (a : α) (f : α → Except ε β) : (Except.ok a >>= f) = f a := rfl

@[simp] theorem error_bind (e : ε) (f : α → Except ε β) :
    ((Except.error e : Except ε α) >>= f) = .error e := rfl

theorem require_of {p : Prop} [Decidable p] {e : ε} (h : p) : require p e = .ok () := if_pos h

theorem require_of_not {p : Prop} [Decidable p] {e : ε} (h : ¬ p) :
    require p e = .error e := if_neg h

@[simp] theorem require_eq_ok {p : Prop} [Decidable p] {e : ε} {u : Unit} :
    require p e = .ok u ↔ p := by
  unfold require
  split <;> simp_all

/-- A sequence finishes exactly when both of its parts do. -/
theorem bind_eq_ok {x : Except ε α} {f : α → Except ε β} {b : β} :
    (x >>= f) = .ok b ↔ ∃ a, x = .ok a ∧ f a = .ok b := by
  cases x with
  | error e => simp
  | ok a => simp

/-! ## 2. Lockstep -/

/-- Both computations stop with the same fault, or both finish with related results. -/
inductive Lockstep (R : α → β → Prop) : Except ε α → Except ε β → Prop
  | ok {a : α} {b : β} : R a b → Lockstep R (.ok a) (.ok b)
  | error (e : ε) : Lockstep R (.error e) (.error e)

namespace Lockstep

variable {R : α → β → Prop} {S : γ → δ → Prop} {x : Except ε α} {y : Except ε β}

/-- **Sequencing keeps lockstep.** -/
theorem bind {f : α → Except ε γ} {g : β → Except ε δ} (h : Lockstep R x y)
    (hf : ∀ a b, R a b → Lockstep S (f a) (g b)) : Lockstep S (x >>= f) (y >>= g) := by
  cases h with
  | ok hab => exact hf _ _ hab
  | error e => exact .error e

theorem mono {R' : α → β → Prop} (h : Lockstep R x y) (hR : ∀ a b, R a b → R' a b) :
    Lockstep R' x y := by
  cases h with
  | ok hab => exact .ok (hR _ _ hab)
  | error e => exact .error e

/-- One check, made on both sides under equivalent conditions. -/
theorem require {p q : Prop} [Decidable p] [Decidable q] (e : ε) (h : p ↔ q) :
    Lockstep (fun _ _ : Unit => p) (Faulting.require p e) (Faulting.require q e) := by
  by_cases hp : p
  · rw [require_of hp, require_of (h.mp hp)]
    exact .ok hp
  · rw [require_of_not hp, require_of_not (fun hq => hp (h.mpr hq))]
    exact .error e

/-- A check followed by the rest of the computation. -/
theorem require_bind {p q : Prop} [Decidable p] [Decidable q] {e : ε} (h : p ↔ q)
    {f : Unit → Except ε γ} {g : Unit → Except ε δ} (hf : p → Lockstep S (f ()) (g ())) :
    Lockstep S (Faulting.require p e >>= f) (Faulting.require q e >>= g) :=
  (require e h).bind fun _ _ hp => hf hp

theorem ok_left {a : α} (h : Lockstep R (.ok a) y) : ∃ b, y = .ok b ∧ R a b := by
  cases h with
  | ok hab => exact ⟨_, rfl, hab⟩

theorem ok_right {b : β} (h : Lockstep R x (.ok b)) : ∃ a, x = .ok a ∧ R a b := by
  cases h with
  | ok hab => exact ⟨_, rfl, hab⟩

/-- The two sides stop with the same faults. -/
theorem error_iff (h : Lockstep R x y) {e : ε} : x = .error e ↔ y = .error e := by
  cases h with
  | ok _ => simp
  | error e' => simp

end Lockstep

/-! ## 3. A fault that does not happen -/

/-- The computation does not stop with the fault `e`. -/
def Avoids (e : ε) (x : Except ε α) : Prop := x ≠ .error e

namespace Avoids

variable {e e' : ε} {x : Except ε α}

theorem ok (a : α) : Avoids e (.ok a : Except ε α) := fun h => by cases h

theorem error (h : e' ≠ e) : Avoids e (.error e' : Except ε α) := fun heq => by
  cases heq
  exact h rfl

/-- **Sequencing.**  The second part may use that the first one finished. -/
theorem bind {f : α → Except ε β} (hx : Avoids e x) (hf : ∀ a, x = .ok a → Avoids e (f a)) :
    Avoids e (x >>= f) := by
  cases x with
  | error e' => exact fun h => hx (by cases h; rfl)
  | ok a => exact hf a rfl

/-- An assertion with another fault. -/
theorem require {p : Prop} [Decidable p] (h : e' ≠ e) : Avoids e (Faulting.require p e') := by
  by_cases hp : p
  · rw [require_of hp]
    exact ok ()
  · rw [require_of_not hp]
    exact error h

theorem require_bind {p : Prop} [Decidable p] {f : Unit → Except ε β} (h : e' ≠ e)
    (hf : p → Avoids e (f ())) : Avoids e (Faulting.require p e' >>= f) :=
  (require h).bind fun _ hp => hf (require_eq_ok.mp hp)

end Avoids

/-! ## 4. Sequences of operations -/

section

variable {σ τ ι ω : Type}

/-- The operations of `l`, one after the other: the last state and the answers. -/
def runOps (op : σ → ι → Except ε (σ × ω)) : σ → List ι → Except ε (σ × List ω)
  | s, [] => .ok (s, [])
  | s, i :: l => do
    let x ← op s i
    let y ← runOps op x.1 l
    .ok (y.1, x.2 :: y.2)

variable {op : σ → ι → Except ε (σ × ω)} {s t : σ} {i : ι} {l l' : List ι} {o : ω} {os : List ω}

/-- A sequence from one state to another, operation by operation. -/
theorem runOps_cons_ok : runOps op s (i :: l) = .ok (t, os) ↔
    ∃ u o os', op s i = .ok (u, o) ∧ runOps op u l = .ok (t, os') ∧ os = o :: os' := by
  rw [runOps, bind_eq_ok]
  constructor
  · rintro ⟨⟨u, o⟩, hop, hrest⟩
    obtain ⟨⟨t', os'⟩, hrun, heq⟩ := bind_eq_ok.mp hrest
    cases heq
    exact ⟨u, o, os', hop, hrun, rfl⟩
  · rintro ⟨u, o, os', hop, hrun, rfl⟩
    refine ⟨(u, o), hop, ?_⟩
    rw [hrun, ok_bind]

theorem runOps_append (s : σ) (l l' : List ι) : runOps op s (l ++ l') = (do
    let x ← runOps op s l
    let y ← runOps op x.1 l'
    .ok (y.1, x.2 ++ y.2)) := by
  induction l generalizing s with
  | nil =>
    rw [List.nil_append, runOps, ok_bind]
    cases runOps op s l' with
    | error e => rfl
    | ok y => rfl
  | cons i l ih =>
    rw [List.cons_append, runOps, runOps]
    cases op s i with
    | error e => rfl
    | ok x =>
      rw [ok_bind, ok_bind, ih]
      cases runOps op x.1 l with
      | error e => rfl
      | ok y =>
        rw [ok_bind, ok_bind, ok_bind]
        cases runOps op y.1 l' with
        | error e => rfl
        | ok z => rfl

/-- One operation more. -/
theorem runOps_snoc_ok : runOps op s (l ++ [i]) = .ok (t, os) ↔
    ∃ u o os', runOps op s l = .ok (u, os') ∧ op u i = .ok (t, o) ∧ os = os' ++ [o] := by
  rw [runOps_append, bind_eq_ok]
  constructor
  · rintro ⟨⟨u, os'⟩, hrun, hrest⟩
    obtain ⟨⟨t', os''⟩, hone, heq⟩ := bind_eq_ok.mp hrest
    cases heq
    obtain ⟨v, o, os₃, hop, hnil, rfl⟩ := runOps_cons_ok.mp hone
    cases hnil
    exact ⟨u, o, os', hrun, hop, rfl⟩
  · rintro ⟨u, o, os', hrun, hop, rfl⟩
    refine ⟨(u, os'), hrun, ?_⟩
    have hone : runOps op u [i] = .ok (t, [o]) := runOps_cons_ok.mpr ⟨t, o, [], hop, rfl, rfl⟩
    rw [hone, ok_bind]

/-- **What every operation keeps, every sequence keeps.** -/
theorem runOps_invariant {I : σ → Prop} (hI : ∀ s i t o, I s → op s i = .ok (t, o) → I t)
    (hs : I s) (hrun : runOps op s l = .ok (t, os)) : I t := by
  induction l generalizing s os with
  | nil =>
    cases hrun
    exact hs
  | cons i l ih =>
    obtain ⟨u, o, os', hop, hrun, -⟩ := runOps_cons_ok.mp hrun
    exact ih (hI _ _ _ _ hs hop) hrun

/-- **What holds at the start and is kept by every operation holds at the end**, for facts about
the operations so far, their answers and the state. -/
theorem runOps_history {P : List ι → List ω → σ → Prop} (h₀ : P [] [] s)
    (hP : ∀ l os u i t o, P l os u → op u i = .ok (t, o) → P (l ++ [i]) (os ++ [o]) t)
    (hrun : runOps op s l = .ok (t, os)) : P l os t := by
  induction l using List.reverseRecOn generalizing t os with
  | nil =>
    cases hrun
    exact h₀
  | append_singleton l i ih =>
    obtain ⟨u, o, os', hfront, hop, rfl⟩ := runOps_snoc_ok.mp hrun
    exact hP _ _ _ _ _ _ (ih hfront) hop

/-- **A sequence that never fails.**  If every operation of `l` succeeds after those before it, and
keeps what is known about the operations so far, their answers and the state, so does `l`. -/
theorem runOps_total {P : List ι → List ω → σ → Prop} (h₀ : P [] [] s)
    (hP : ∀ front i back os u, l = front ++ i :: back → P front os u →
      ∃ t o, op u i = .ok (t, o) ∧ P (front ++ [i]) (os ++ [o]) t) :
    ∃ t os, runOps op s l = .ok (t, os) ∧ P l os t := by
  have hmain : ∀ back front os u, l = front ++ back → P front os u →
      ∃ t os', runOps op u back = .ok (t, os') ∧ P l (os ++ os') t := by
    intro back
    induction back with
    | nil =>
      rintro front os u rfl hu
      refine ⟨u, [], rfl, ?_⟩
      rwa [List.append_nil, List.append_nil]
    | cons i back ih =>
      intro front os u hl hu
      obtain ⟨t, o, hop, ht⟩ := hP front i back os u hl hu
      obtain ⟨v, os', hrun, hv⟩ := ih (front ++ [i]) (os ++ [o]) t
        (by rw [hl, List.append_assoc]; rfl) ht
      refine ⟨v, o :: os', runOps_cons_ok.mpr ⟨t, o, os', hop, hrun, rfl⟩, ?_⟩
      rwa [List.append_assoc] at hv
  obtain ⟨t, os, hrun, ht⟩ := hmain l [] [] s rfl h₀
  exact ⟨t, os, hrun, ht⟩

/-- **Operations in lockstep** make sequences in lockstep, with the same answers. -/
theorem Lockstep.runOps {opτ : τ → ι → Except ε (τ × ω)} {R : σ → τ → Prop}
    (hop : ∀ s a i, R s a → Lockstep (fun x y => R x.1 y.1 ∧ x.2 = y.2) (op s i) (opτ a i))
    {s : σ} {a : τ} (hs : R s a) (l : List ι) :
    Lockstep (fun x y => R x.1 y.1 ∧ x.2 = y.2) (runOps op s l) (Faulting.runOps opτ a l) := by
  induction l generalizing s a with
  | nil => exact .ok ⟨hs, rfl⟩
  | cons i l ih =>
    refine (hop s a i hs).bind fun x y hxy => ?_
    refine (ih hxy.1).bind fun z w hzw => ?_
    exact .ok ⟨hzw.1, by rw [hxy.2, hzw.2]⟩

end

end Faulting
