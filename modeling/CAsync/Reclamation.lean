/-
# Which orphaned tasks are reclaimed

`async_return` frees a task that is orphaned when it returns.  `async_orphan` only sets the flag, so
a task that has returned before stays `READY` with the flag set, and nothing frees it: this is the
one call that leads to such a slot (`Effect.noReadyOrphan`).  `orphans_reclaimed_iff` is about runs:
all finished orphans are on the free list, in every state, exactly if no task is orphaned after it
has finished.
-/
import CAsync.FreeList
import CAsync.Orphans

namespace CAsync

open Faulting TaskPool

variable {F V S : Type}

/-! ## 1. `READY` and orphaned -/

/-- No slot is `READY` with the flag set. -/
def NoReadyOrphan (slots : Handle → Option (Task F V)) : Prop :=
  ∀ h t, slots h = some t → t.state = .ready → t.orphaned = false

/-- The call does not orphan a task that has finished. -/
def OrphansUnfinished (s : Runtime S F V) (op : Op F V) : Prop :=
  ∀ h, op = .orphan h → s.pool.stateOf h ≠ some .ready

/-- **Only `async_orphan` of a finished task** makes a slot `READY` with the flag set. -/
theorem Effect.noReadyOrphan {s t : Runtime TaskGraph F V} {op : Op F V} {r : Reply F V}
    (hi : Inv s) (heff : Effect s op r t) (hop : OrphansUnfinished s op)
    (hs : NoReadyOrphan s.pool.slot) : NoReadyOrphan t.pool.slot := by
  intro h w hw hready
  cases heff.slotBefore hi hw (by rw [hready]; decide) with
  | kept same => exact hs h w same hready
  | created _ _ new =>
    rw [new.state] at hready
    cases hready
  | @finished data v f _ _ after =>
    rw [after] at hready ⊢
    rcases v.finish_state data f with ⟨-, -, hor⟩ | hfree
    · exact hor
    · rw [hready] at hfree
      cases hfree
  | orphaned call task after =>
    rw [after] at hready
    exact absurd (stateOf_eq_some.mpr ⟨_, task, hready⟩) (hop h call)
  | freed _ after =>
    rw [hready] at after
    cases after

/-! ## 2. Calls of `async_orphan` -/

section

variable [SchedulerVTable S] {s t : Runtime S F V} {h : Handle} {r : Reply F V}

/-- `async_orphan` sets the flag and leaves the state as it is. -/
theorem Next.orphan (hst : Next s (.orphan h, r) t) :
    t.pool.flag h = some true ∧ t.pool.stateOf h = s.pool.stateOf h := by
  obtain ⟨s', horph, hst⟩ := bind_eq_ok.mp (show step s (.orphan h) = _ from hst)
  cases hst
  obtain ⟨u, hu, horph⟩ := bind_eq_ok.mp horph
  cases horph
  rw [getTask_eq_ok] at hu
  refine ⟨?_, ?_⟩
  · dsimp only
    rw [flag_setTask hu, Function.update_self]
  · dsimp only
    rw [stateOf_update (slot_setTask hu _), Function.update_self, stateOf_eq hu]

/-- The flag of a slot is never cleared. -/
theorem Next.flag_true [KeepsFlags S] {op : Op F V} (hst : Next s (op, r) t)
    (hs : s.pool.flag h = some true) : t.pool.flag h = some true := by
  by_cases hop : op = .orphan h
  · subst hop
    exact hst.orphan.1
  · rcases hst.flag hop with hflag | ⟨-, hflag⟩
    · rw [hflag, hs]
    · rw [hflag, hs]
      rfl

/-- Once orphaned, always flagged. -/
theorem orphaned_flag [KeepsFlags S] {l : List (Op F V × Reply F V)} (hst : Steps Next s l t)
    (hl : (.orphan h, r) ∈ l) : t.pool.flag h = some true := by
  obtain ⟨l₁, l₂, rfl⟩ := List.append_of_mem hl
  obtain ⟨u, -, hst⟩ := Steps.append_iff.mp hst
  obtain ⟨v, horph, hst⟩ := Steps.cons_iff.mp hst
  exact hst.invariant (I := fun s => s.pool.flag h = some true)
    (fun _ _ _ hs hst => Next.flag_true hst hs) horph.orphan.1

/-- **Every orphan that has finished is reclaimed.**  After the calls of `l`: a task that
`async_orphan` was called on, and whose slot was not used again since, is unfinished, or it is
`FREE` and on the free list. -/
def OrphansReclaimed (l : List (Op F V × Reply F V)) (s : Runtime S F V) : Prop :=
  ∀ l₁ h r l₂, l = l₁ ++ (.orphan h, r) :: l₂ → (∀ x ∈ l₂, x.2 ≠ .handle h) →
    s.pool.Unfinished h ∨
      s.pool.stateOf h = some .free ∧ ∃ slots, s.pool.FreeList slots ∧ h ∈ slots

end

/-! ## 3. Every run -/

/-- A run in which no task is orphaned after it has finished. -/
theorem noReadyOrphan_run {s₀ s : Runtime Graph F V} {l : List (Op F V × Reply F V)} (h₀ : Start s₀)
    (hs : Steps Next s₀ l s)
    (hl : ∀ l₁ h r l₂ u, l = l₁ ++ (.orphan h, r) :: l₂ → Steps Next s₀ l₁ u →
      u.pool.stateOf h ≠ some .ready) : NoReadyOrphan s.pool.slot := by
  refine hs.history (P := fun l s => (∀ l₁ h r l₂ u, l = l₁ ++ (.orphan h, r) :: l₂ →
    Steps Next s₀ l₁ u → u.pool.stateOf h ≠ some .ready) → NoReadyOrphan s.pool.slot) ?_ ?_ hl
  · intro _ h t ht hready
    obtain ⟨a, ha, hsa⟩ := graphRefines.start h₀
    obtain ⟨mainFn, arg, rfl⟩ := ha.eq_started
    rw [hsa.pool] at ht
    rw [(started_slot mainFn arg ht).2.1] at hready
    cases hready
  · rintro l s ⟨op, r⟩ t hs ih hst hl
    obtain ⟨a, b, hsa, htb, ha, heff, -⟩ := Reached.effect ⟨s₀, h₀, hs⟩ hst
    have hs' := ih fun l₁ h r' l₂ u he hu =>
      hl l₁ h r' (l₂ ++ [(op, r)]) u (by rw [he, List.append_assoc]; rfl) hu
    rw [hsa.pool] at hs'
    rw [htb.pool]
    refine heff.noReadyOrphan ha (fun h hop => ?_) hs'
    subst hop
    rw [← hsa.pool]
    exact hl l h r [] s rfl hs

/-- **Finished orphans are reclaimed exactly if no task is orphaned after it has finished**, in
every run over the graph scheduler: in every state that the run has passed each finished orphan is
on the free list, or no slot is `READY` with the flag set, if and only if every call of
`async_orphan` was made on a task that was not `READY`. -/
theorem orphans_reclaimed_iff {s₀ s : Runtime Graph F V} {l : List (Op F V × Reply F V)}
    (h₀ : Start s₀) (hs : Steps Next s₀ l s) :
    ((∀ l₁ l₂ u, l = l₁ ++ l₂ → Steps Next s₀ l₁ u → OrphansReclaimed l₁ u) ↔
      ∀ l₁ h r l₂ u, l = l₁ ++ (.orphan h, r) :: l₂ → Steps Next s₀ l₁ u →
        u.pool.stateOf h ≠ some .ready) ∧
    ((∀ l₁ l₂ u, l = l₁ ++ l₂ → Steps Next s₀ l₁ u → NoReadyOrphan u.pool.slot) ↔
      ∀ l₁ h r l₂ u, l = l₁ ++ (.orphan h, r) :: l₂ → Steps Next s₀ l₁ u →
        u.pool.stateOf h ≠ some .ready) := by
  -- the state after a call of `async_orphan` on a finished task
  have hafter : ∀ {l₁ h r l₂ u}, l = l₁ ++ (.orphan h, r) :: l₂ → Steps Next s₀ l₁ u →
      u.pool.stateOf h = some .ready → ∃ v, Steps Next s₀ (l₁ ++ [(.orphan h, r)]) v ∧
        v.pool.flag h = some true ∧ v.pool.stateOf h = some .ready := by
    rintro l₁ h r l₂ u rfl hu hready
    obtain ⟨u', hu', hst⟩ := Steps.append_iff.mp hs
    obtain rfl := Next.steps_unique hu hu'
    obtain ⟨v, hst, -⟩ := Steps.cons_iff.mp hst
    obtain ⟨hflag, hstate⟩ := hst.orphan
    exact ⟨v, hu.append (.single hst), hflag, hstate.trans hready⟩
  -- without such a call no prefix ends with a finished orphan that is not free
  have hkept : (∀ l₁ h r l₂ u, l = l₁ ++ (.orphan h, r) :: l₂ → Steps Next s₀ l₁ u →
      u.pool.stateOf h ≠ some .ready) →
      ∀ l₁ l₂ u, l = l₁ ++ l₂ → Steps Next s₀ l₁ u → NoReadyOrphan u.pool.slot := by
    intro hl l₁ l₂ u he hu
    refine noReadyOrphan_run h₀ hu fun l₃ h r l₄ v he' hv => ?_
    exact hl l₃ h r (l₄ ++ l₂) v (by rw [he, he', List.append_assoc]; rfl) hv
  refine ⟨⟨fun hall l₁ h r l₂ u he hu hready => ?_, fun hl l₁ l₂ u he hu l₃ h r l₄ he' _ => ?_⟩,
    ⟨fun hall l₁ h r l₂ u he hu hready => ?_, hkept⟩⟩
  · obtain ⟨v, hv, -, hstate⟩ := hafter he hu hready
    have hreclaimed := hall (l₁ ++ [(.orphan h, r)]) l₂ v (by rw [he, List.append_assoc]; rfl) hv
      l₁ h r [] rfl fun _ hx => absurd hx List.not_mem_nil
    rw [TaskPool.Unfinished, hstate] at hreclaimed
    simp at hreclaimed
  · have hready := hkept hl l₁ l₂ u he hu
    have hflag : u.pool.flag h = some true := orphaned_flag (r := r) hu (by rw [he']; simp)
    obtain ⟨t, ht, hor⟩ := Option.map_eq_some_iff.mp hflag
    have hstate := stateOf_eq ht
    cases hcase : t.state with
    | init => exact .inl (.inl (by rw [hstate, hcase]))
    | running => exact .inl (.inr (by rw [hstate, hcase]))
    | ready =>
      rw [hready h t ht hcase] at hor
      cases hor
    | free =>
      obtain ⟨slots, hslots, -⟩ := (free_list h₀ hu).1
      rw [hcase] at hstate
      exact .inr ⟨hstate, slots, hslots, (hslots.2 h).mpr hstate⟩
  · obtain ⟨v, hv, hflag, hstate⟩ := hafter he hu hready
    obtain ⟨t, ht, hor⟩ := Option.map_eq_some_iff.mp hflag
    rw [stateOf_eq ht, Option.some.injEq] at hstate
    rw [hall (l₁ ++ [(.orphan h, r)]) l₂ v (by rw [he, List.append_assoc]; rfl) hv h t ht hstate]
      at hor
    cases hor

/-- The task that `tests/orphan.c` orphans right after its call. -/
theorem orphans_reclaimed_test : ∃ s : Runtime Graph Nat Nat,
    s.pool.stateOf ⟨2⟩ = some .free ∧
      OrphansReclaimed [(.call 7 0, .handle ⟨2⟩), (.orphan ⟨2⟩, .done), (.skip, .start 7 0),
        (.ret 5, .skip)] s := by
  obtain ⟨s, ⟨s₀, h₀, hs⟩, hfree⟩ : ∃ s : Runtime Graph Nat Nat,
      Reached [(.call 7 0, .handle ⟨2⟩), (.orphan ⟨2⟩, .done), (.skip, .start 7 0),
        (.ret 5, .skip)] s ∧ s.pool.stateOf ⟨2⟩ = some .free :=
    ⟨_, ⟨_, ⟨0, 0, rfl⟩, .cons rfl (.cons rfl (.cons rfl (.cons rfl (.refl _))))⟩, rfl⟩
  refine ⟨s, hfree, (orphans_reclaimed_iff h₀ hs).1.mpr ?_ _ [] s (List.append_nil _).symm hs⟩
  intro l₁ h r l₂ u he hu
  rcases l₁ with _ | ⟨x, _ | ⟨y, l₁⟩⟩
  · cases he
  · cases he
    obtain ⟨u', hcall, hnil⟩ := Steps.cons_iff.mp hu
    cases hnil
    rw [Reached.call_state ⟨s₀, h₀, .refl _⟩ hcall]
    decide
  · obtain ⟨-, he⟩ := List.cons.inj he
    obtain ⟨-, he⟩ := List.cons.inj he
    have hmem : (Op.orphan h, r) ∈ [((.skip : Op Nat Nat), (.start 7 0 : Reply Nat Nat)),
        (.ret 5, .skip)] := by
      rw [he]
      simp
    simp at hmem

/-- `main` calls a task and skips, the task returns, and `main` orphans it: it stays `READY`. -/
theorem orphan_after_return : ∃ (l : List (Op Nat Nat × Reply Nat Nat)) (s : Runtime Graph Nat Nat),
    Reached l s ∧ ¬ OrphansReclaimed l s ∧ ¬ NoReadyOrphan s.pool.slot := by
  obtain ⟨s, hs, hstate, hflag⟩ : ∃ s : Runtime Graph Nat Nat,
      Reached [(.call 7 0, .handle ⟨2⟩), (.skip, .start 7 0), (.ret 5, .skip),
        (.orphan ⟨2⟩, .done)] s ∧ s.pool.stateOf ⟨2⟩ = some .ready ∧
      s.pool.flag ⟨2⟩ = some true :=
    ⟨_, ⟨_, ⟨0, 0, rfl⟩, .cons rfl (.cons rfl (.cons rfl (.cons rfl (.refl _))))⟩, rfl, rfl⟩
  refine ⟨_, s, hs, fun hall => ?_, fun hall => ?_⟩
  · have hreclaimed := hall [(.call 7 0, .handle ⟨2⟩), (.skip, .start 7 0), (.ret 5, .skip)] ⟨2⟩
      .done [] rfl fun _ hx => absurd hx List.not_mem_nil
    rw [TaskPool.Unfinished, hstate] at hreclaimed
    simp at hreclaimed
  · obtain ⟨t, ht, hor⟩ := Option.map_eq_some_iff.mp hflag
    rw [stateOf_eq ht, Option.some.injEq] at hstate
    rw [hall _ t ht hstate] at hor
    cases hor

end CAsync
