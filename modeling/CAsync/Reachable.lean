/-
# Runs of a program

`Inv.effect` inverts any call of any program.  The states that the library can reach satisfy the
invariant: `main` starts in one that does, and every call keeps it.
-/
import CAsync.Awaiting
import CAsync.Calls
import CAsync.Refinement
import CAsync.Returning

namespace CAsync

open Faulting TaskPool

variable {F V : Type}

namespace Inv

variable {s t : Runtime TaskGraph F V} {h i next : Handle} {u v : Task F V} {c : Nat} {k : Handle}

/-! ## 1. Every call of a run -/

theorem getTask_fails {p : TaskPool F V} (hn : p.slot h = none) : ∃ e, getTask p h = .error e := by
  cases hg : getTask p h with
  | error e => exact ⟨e, rfl⟩
  | ok t =>
    rw [getTask_eq_ok, hn] at hg
    cases hg

/-- **Every call that passes has its effect, and keeps the invariant.** -/
theorem effect (hs : Inv s) {op : Op F V} {r : Reply F V} (hst : Next s (op, r) t) :
    Effect s op r t ∧ Inv t := by
  have hsame : ∀ {r' : Reply F V} {t' : Runtime TaskGraph F V},
      step s op = .ok (.next t' r') → Effect s op r' t' ∧ Inv t' → Effect s op r t ∧ Inv t := by
    intro r' t' hok heff
    have hst' : step s op = .ok (.next t r) := hst
    rw [hok] at hst'
    cases hst'
    exact heff
  have hnever : (∃ e, step s op = .error e) → Effect s op r t ∧ Inv t := by
    rintro ⟨e, he⟩
    have hst' : step s op = .ok (.next t r) := hst
    rw [he] at hst'
    cases hst'
  cases op with
  | call fn arg =>
    obtain ⟨h, t', hok, heff⟩ := hs.step_call fn arg
    exact hsame hok heff
  | skip =>
    obtain ⟨r', t', hok, heff⟩ := hs.step_skip
    exact hsame hok heff
  | await h =>
    by_cases hgood : ∃ c, s.sched.nodeOf h.idx = some c ∧ s.sched.parent c = none ∧
        h ∈ s.sched.tasks ∧ h ≠ s.running
    · obtain ⟨c, hc, hpar, hmem, hself⟩ := hgood
      obtain ⟨r', t', hok, heff⟩ := hs.step_await hc hpar hmem hself
      exact hsame hok heff
    · exact hnever (hs.step_await_fails hgood)
  | ret data =>
    by_cases hmain : s.running.idx = 1
    · have hst' : step s (.ret data) = .ok (.next t r) := hst
      rw [hs.step_ret_main hmain] at hst'
      cases hst'
    obtain ⟨v, hv, -⟩ := hs.running_task
    obtain ⟨p, q, hq, hp, hnode, h0, hpq, htasks⟩ := hs.exists_queue
    cases hpar : s.sched.parent p with
    | none =>
      by_cases hmore : s.sched.tasks = [s.running]
      · exact hnever (hs.step_ret_fails hmain hnode hv (by rw [hpar]; exact hmore) data)
      · obtain ⟨r', t', hok, heff⟩ := hs.step_ret hmain hnode hpar hmore data
        exact hsame hok heff
    | some d =>
      by_cases hbad : s.sched.handle d = 0 ∨ v.orphaned = true
      · exact hnever (hs.step_ret_fails hmain hnode hv (by rw [hpar]; exact hbad) data)
      · rw [not_or] at hbad
        obtain ⟨t', hok, heff⟩ := hs.step_wake hmain hnode hpar hbad.1 hv
          (by simpa using hbad.2) data
        exact hsame hok heff
  | orphan h =>
    cases hu : s.pool.slot h with
    | none =>
      obtain ⟨e, he⟩ := getTask_fails hu
      refine hnever ⟨e, ?_⟩
      unfold step asyncOrphan
      dsimp only
      rw [he, error_bind, error_bind]
    | some u =>
      obtain ⟨t', hok, heff⟩ := hs.step_orphan hu
      exact hsame hok heff
  | free h =>
    by_cases hgood : ∃ r, s.sched.nodeOf h.idx = some r ∧ h ∉ s.sched.tasks
    · obtain ⟨r', hr, haway⟩ := hgood
      obtain ⟨t', hok, heff⟩ := hs.step_free hr haway
      exact hsame hok heff
    · exact hnever (hs.step_free_fails hgood)
  | poll h =>
    cases hu : s.pool.slot h with
    | none =>
      obtain ⟨e, he⟩ := getTask_fails hu
      have hcur : SchedulerOps.currentTask s.sched = .ok s.running := hs.currentTask
      refine hnever ?_
      unfold step pollState
      simp only [hcur, he, ok_bind]
      cases SchedulerOps.pollTask s.sched s.pool h with
      | error e' => exact ⟨e', rfl⟩
      | ok st => exact ⟨e, rfl⟩
    | some u => exact hsame (hs.step_poll hu) ⟨.poll hu rfl, hs⟩

end Inv

/-! ## 2. The first state -/

/-- The state in which `main` starts: one task, running, in slot 1. -/
def started (mainFn : F) (arg : V) : Runtime TaskGraph F V where
  pool := {
    tasks := [{
      stackBase := some 0, stackPtr := some .entry, fn := mainFn, data := arg, state := .running,
      orphaned := false, handle := ⟨1⟩ }]
    cap := 10
    freeTask := ⟨0⟩ }
  sched := {
    queue := [0]
    nodeOf := Function.update (fun _ => none) 1 (some 0)
    parent := Function.update (fun _ => none) 0 none
    handle := Function.update (fun _ => 0) 0 1
    fresh := 1 }
  running := ⟨1⟩

/-- `run_async_main` never fails. -/
theorem runAsyncMain_eq (mainFn : F) (arg : V) :
    runAsyncMain mainFn arg = .ok (.next (started mainFn arg) (.start mainFn arg)) := rfl

theorem started_slot (mainFn : F) (arg : V) {h : Handle} {t : Task F V}
    (ht : (started mainFn arg).pool.slot h = some t) :
    h = ⟨1⟩ ∧ t.state = .running ∧ t.orphaned = false := by
  obtain ⟨hpos, hlen⟩ := slot_bounds ht
  obtain rfl : h = ⟨1⟩ := Handle.eq_of_idx (Nat.le_antisymm hlen hpos)
  have ht' : some _ = some t := ht
  cases ht'
  exact ⟨rfl, rfl, rfl⟩

/-- `main` starts in a state that satisfies the invariant. -/
theorem started_inv (mainFn : F) (arg : V) : Inv (started mainFn arg) where
  pool := by
    refine ⟨⟨[], Links.nil, fun h => ?_⟩, fun {h t} ht => ?_, fun {h t} ht _ => ?_⟩
    · simp only [List.not_mem_nil, false_iff]
      intro hst
      obtain ⟨t, ht, htf⟩ := stateOf_eq_some.mp hst
      rw [(started_slot mainFn arg ht).2.1] at htf
      cases htf
    · obtain ⟨rfl, -⟩ := started_slot mainFn arg ht
      cases ht
      simp
    · obtain ⟨rfl, -⟩ := started_slot mainFn arg ht
      cases ht
      rfl
  graph := TaskGraph.WellFormed.zero.registered (h := ⟨1⟩) (by decide) rfl
  front := rfl
  running := rfl
  mapped := by
    intro h hh
    have h1 : h.idx = 1 := by
      by_contra h1
      simp [started, h1] at hh
    obtain rfl : h = ⟨1⟩ := Handle.eq_of_idx h1
    rfl
  phase := fun ht => by
    obtain ⟨rfl, hrun, -⟩ := started_slot mainFn arg ht
    exact .current hrun rfl
  parent := fun _ _ hp => by
    simp only [started] at hp
    rw [Function.update_eq_self_iff.mpr rfl] at hp
    cases hp

theorem Start.eq_started {s : Runtime TaskGraph F V} (hs : Start s) :
    ∃ mainFn arg, s = started mainFn arg := by
  obtain ⟨mainFn, arg, hmain⟩ := hs
  rw [runAsyncMain_eq] at hmain
  cases hmain
  exact ⟨mainFn, arg, rfl⟩

/-! ## 3. Every state of a run -/

/-- A run of a program from its start: `s` is reached by the calls of `l`. -/
def Reached {S : Type} [SchedulerVTable S] (l : List (Op F V × Reply F V)) (s : Runtime S F V) :
    Prop :=
  ∃ s₀, Start s₀ ∧ Steps Next s₀ l s

/-- The same for a run each of whose calls `P` allows. -/
def ReachedBy {S : Type} [SchedulerVTable S] (P : Runtime S F V → Op F V → Prop)
    (l : List (Op F V × Reply F V)) (s : Runtime S F V) : Prop :=
  ∃ s₀, Start s₀ ∧ Steps (Guarded P) s₀ l s

/-- The calls of a run determine where it ends. -/
theorem Next.steps_unique {S : Type} [SchedulerVTable S] {l : List (Op F V × Reply F V)}
    {s t u : Runtime S F V} (h : Steps Next s l t) (h' : Steps Next s l u) : t = u := by
  refine Steps.unique ?_ h h'
  exact fun _ _ _ _ h₁ h₂ => Next.unique h₁ h₂

theorem ReachedBy.append {S : Type} [SchedulerVTable S] {P : Runtime S F V → Op F V → Prop}
    {l l' : List (Op F V × Reply F V)} {s t : Runtime S F V} (hs : ReachedBy P l s)
    (hst : Steps (Guarded P) s l' t) : ReachedBy P (l ++ l') t := by
  obtain ⟨s₀, h₀, hrun⟩ := hs
  exact ⟨s₀, h₀, hrun.append hst⟩

/-- **What `main` starts with and every allowed call keeps** holds of the model of every state
reached. -/
theorem ReachedBy.model {P : Runtime Graph F V → Op F V → Prop}
    {Q : Runtime TaskGraph F V → Op F V → Prop} {I : Runtime TaskGraph F V → Prop}
    (hPQ : ∀ {s a} op, SameRuntime TaskGraph.Represents s a → P s op → Q a op)
    (hstart : ∀ mainFn arg, I (started mainFn arg))
    (hstep : ∀ a x b, I a → Guarded Q a x b → I b)
    {l : List (Op F V × Reply F V)} {s : Runtime Graph F V} (hs : ReachedBy P l s) :
    ∃ a : Runtime TaskGraph F V, I a ∧ SameRuntime TaskGraph.Represents s a := by
  obtain ⟨s₀, h₀, hst⟩ := hs
  obtain ⟨a₀, ha₀, hsame⟩ := graphRefines.start h₀
  obtain ⟨mainFn, arg, rfl⟩ := ha₀.eq_started
  obtain ⟨a, ha, hsame⟩ := graphRefines.guarded hPQ hsame hst
  exact ⟨a, ha.invariant hstep (hstart mainFn arg), hsame⟩

/-- **The invariant holds in every state of every run.** -/
theorem Reached.inv {l : List (Op F V × Reply F V)} {s : Runtime TaskGraph F V}
    (hs : Reached l s) : Inv s := by
  obtain ⟨s₀, h₀, hst⟩ := hs
  obtain ⟨mainFn, arg, rfl⟩ := h₀.eq_started
  exact hst.invariant (fun _ _ _ hi hst => (hi.effect hst).2) (started_inv mainFn arg)

/-- **A run over the graph scheduler is a run over its model.** -/
theorem Reached.model {l : List (Op F V × Reply F V)} {s : Runtime Graph F V} (hs : Reached l s) :
    ∃ a : Runtime TaskGraph F V, Reached l a ∧ Inv a ∧ SameRuntime TaskGraph.Represents s a := by
  obtain ⟨s₀, h₀, hst⟩ := hs
  obtain ⟨a₀, ha₀, hsame⟩ := graphRefines.start h₀
  obtain ⟨a, ha, hsame⟩ := graphRefines.steps hsame hst
  have hreached : Reached l a := ⟨a₀, ha₀, ha⟩
  exact ⟨a, hreached, hreached.inv, hsame⟩

/-- Every call of a run over the graph scheduler, seen in the model. -/
theorem Reached.effect {l : List (Op F V × Reply F V)} {s t : Runtime Graph F V} {op : Op F V}
    {r : Reply F V} (hs : Reached l s) (hst : Next s (op, r) t) :
    ∃ a b : Runtime TaskGraph F V, SameRuntime TaskGraph.Represents s a ∧
      SameRuntime TaskGraph.Represents t b ∧ Inv a ∧ Effect a op r b ∧ Inv b := by
  obtain ⟨a, -, ha, hsa⟩ := hs.model
  obtain ⟨b, hab, htb⟩ := graphRefines.next hsa hst
  obtain ⟨heff, hb⟩ := ha.effect hab
  exact ⟨a, b, hsa, htb, ha, heff, hb⟩

/-- The task of a call that has just been made. -/
theorem Reached.call_state {l : List (Op F V × Reply F V)} {s t : Runtime Graph F V} {fn : F}
    {arg : V} {h : Handle} (hs : Reached l s) (hst : Next s (.call fn arg, .handle h) t) :
    t.pool.stateOf h = some .init := by
  obtain ⟨a, b, -, htb, -, heff, -⟩ := hs.effect hst
  rw [htb.pool]
  cases heff with
  | call new slot => rw [stateOf_update slot, Function.update_self, new.state]

theorem Reached.append {S : Type} [SchedulerVTable S] {l l' : List (Op F V × Reply F V)}
    {s t : Runtime S F V} (hs : Reached l s) (hst : Steps Next s l' t) : Reached (l ++ l') t := by
  obtain ⟨s₀, h₀, hrun⟩ := hs
  exact ⟨s₀, h₀, hrun.append hst⟩

/-- A task waits in the code exactly if it does in the model. -/
theorem SameRuntime.suspended {S A : Type} {Rep : S → A → Prop} {s : Runtime S F V}
    {a : Runtime A F V} (h : SameRuntime Rep s a) {i k : Handle} {c : Nat} :
    Suspended s i c k ↔ Suspended a i c k := by
  constructor
  · rintro ⟨h1, h2⟩
    exact ⟨h.running ▸ h1, h.pool ▸ h2⟩
  · rintro ⟨h1, h2⟩
    exact ⟨h.running ▸ h1, h.pool ▸ h2⟩

end CAsync
