/-
# Awaiting a task that has finished

`graph_wait_ready` does not look at the state of the child.  A child that has finished and was
never awaited is not in the queue, so it is pushed to the front, and `async_switch` refuses to
enter a `READY` task (`await_finished`).  Under the queue scheduler the same call returns the
child's value and changes nothing (`busy_wait_finished`).
-/
import CAsync.Reachable

namespace CAsync

open Faulting TaskPool RingQueue

variable {F V : Type}

/-! ## 1. A task that nobody awaited has no parent -/

/-- No node that the map has under `h` has a parent. -/
def Unawaited (s : Runtime TaskGraph F V) (h : Handle) : Prop :=
  ∀ c, s.sched.nodeOf h.idx = some c → s.sched.parent c = none

/-- Only `await(h)` gives the node of `h` a parent. -/
theorem Effect.unawaited {s t : Runtime TaskGraph F V} {op : Op F V} {r : Reply F V} {h : Handle}
    (hs : Inv s) (heff : Effect s op r t) (hop : op ≠ .await h) (hu : Unawaited s h) :
    Unawaited t h := by
  intro c hc
  cases heff with
  | @call fn arg i u t _ _ _ _ _ _ nodeOf parent =>
    rw [parent]
    rw [nodeOf] at hc
    by_cases hi : h.idx = i.idx
    · rw [hi, Function.update_self, Option.some.injEq] at hc
      rw [← hc, Function.update_self]
    · rw [Function.update_of_ne hi] at hc
      rw [Function.update_of_ne (Nat.ne_of_lt (hs.graph.node hc).2.2)]
      exact hu c hc
  | alone _ same =>
    subst same
    exact hu c hc
  | skip _ _ _ _ nodeOf parent =>
    rw [nodeOf] at hc
    rw [parent]
    exact hu c hc
  | @await i next rest p d u t _ _ node _ _ _ _ _ nodeOf parent =>
    rw [nodeOf] at hc
    have hcd : c ≠ d := by
      rintro rfl
      exact hop (congrArg Op.await (hs.graph.node_inj node hc))
    rw [parent, Function.update_of_ne hcd]
    exact hu c hc
  | ret _ _ _ _ _ _ _ _ nodeOf parent =>
    rw [parent]
    rw [nodeOf] at hc
    split at hc
    · by_cases hi : h.idx = s.running.idx
      · rw [hi, Function.update_self] at hc
        cases hc
      · rw [Function.update_of_ne hi] at hc
        exact hu c hc
    · exact hu c hc
  | wake _ _ _ _ _ _ _ _ _ _ _ nodeOf parent =>
    rw [nodeOf] at hc
    rw [parent]
    exact hu c hc
  | orphan _ _ _ _ sched =>
    rw [sched] at hc ⊢
    exact hu c hc
  | @free i u t _ _ _ _ _ _ _ nodeOf parent =>
    rw [parent]
    rw [nodeOf] at hc
    by_cases hi : h.idx = i.idx
    · rw [hi, Function.update_self] at hc
      cases hc
    · rw [Function.update_of_ne hi] at hc
      exact hu c hc
  | poll _ same =>
    subst same
    exact hu c hc

theorem steps_unawaited {s t : Runtime TaskGraph F V} {l : List (Op F V × Reply F V)}
    {h : Handle} (hst : Steps Next s l t) : Inv s → Unawaited s h →
      (∀ x ∈ l, x.1 ≠ .await h) → Inv t ∧ Unawaited t h := by
  induction hst with
  | refl _ => exact fun hs hu _ => ⟨hs, hu⟩
  | cons hst _ ih =>
    intro hs hu hl
    obtain ⟨heff, ht⟩ := hs.effect hst
    exact ih ht (heff.unawaited hs (hl _ List.mem_cons_self) hu)
      fun x hx => hl x (List.mem_cons_of_mem _ hx)

/-! ## 2. The two schedulers -/

/-- One round of `busy_wait_ready` is enough for a finished task. -/
theorem busy_wait_finished {s : Runtime HandleQueue F V} {cur h : Handle} {u : Task F V}
    (hcur : queuePeekFront s.sched = .ok cur) (hu : s.pool.slot h = some u)
    (hready : u.state = .ready) : step s (.await h) = .ok (.next s (.await u.data)) := by
  have hcur' : SchedulerOps.currentTask s.sched = .ok cur := hcur
  have hpoll : SchedulerOps.pollTask s.sched s.pool h = .ok u.state := by
    change HandleQueue.pollTask _ s.pool h = _
    unfold HandleQueue.pollTask
    rw [require_of (by have := slot_bounds hu; omega), ok_bind, load_slot hu, ok_bind]
  have hwait : SchedulerVTable.waitReady s h = .ok (s, .returned) := by
    change HandleQueue.busyWaitReady s h = _
    unfold HandleQueue.busyWaitReady pollState
    simp only [hcur', hpoll, getTask_eq hu, ok_bind, if_pos hready]
  unfold step await
  simp only [hwait, ok_bind, getTask_eq hu]

/-- **Awaiting a finished task for the first time fails** under the graph scheduler, in every run:
`h` was created by the call in the middle, nobody has awaited it since, and it is `READY`.  Under
the queue scheduler, from any state with a task to run, the call returns the value and leaves
everything as it is. -/
theorem await_finished {s₁ s₂ s : Runtime Graph F V} {l₁ l₂ : List (Op F V × Reply F V)}
    {fn : F} {arg : V} {h : Handle} (h₁ : Reached l₁ s₁)
    (hcall : Next s₁ (.call fn arg, .handle h) s₂) (h₂ : Steps Next s₂ l₂ s)
    (hunawaited : ∀ x ∈ l₂, x.1 ≠ .await h) (hready : s.pool.stateOf h = some .ready) :
    step s (.await h) = .error .switchToReady ∧
      ∀ (q : Runtime HandleQueue F V) (cur : Handle) (u : Task F V),
        queuePeekFront q.sched = .ok cur → q.pool.slot h = some u → u.state = .ready →
        step q (.await h) = .ok (.next q (.await u.data)) := by
  refine ⟨?_, fun q cur u hcur hu hur => busy_wait_finished hcur hu hur⟩
  obtain ⟨a, b, hsa, htb, ha, heff, hb⟩ := h₁.effect hcall
  have hnew : Unawaited b h := by
    cases heff with
    | call _ _ _ _ _ _ nodeOf parent =>
      intro c hc
      rw [nodeOf, Function.update_self, Option.some.injEq] at hc
      rw [parent, ← hc, Function.update_self]
  obtain ⟨c, hbc, hsc⟩ := graphRefines.steps htb h₂
  obtain ⟨hc, hun⟩ := steps_unawaited hbc hb hnew hunawaited
  rw [hsc.pool] at hready
  obtain ⟨u, hu, hur⟩ := stateOf_eq_some.mp hready
  obtain ⟨n, hn⟩ := Option.isSome_iff_exists.mp
    (hc.nodeOf_isSome.mpr ⟨u, hu, by rw [hur]; decide⟩)
  have hfail := hc.step_await_ready hn (hun n hn) hready
  exact (graphRefines.step hsc (.await h)).error_iff.mpr hfail

/-- `main` calls a task, skips, the task returns, and `main` awaits it. -/
theorem await_finished_after_skip : ∃ (l : List (Op Nat Nat × Reply Nat Nat))
    (s : Runtime Graph Nat Nat), Reached l s ∧ s.pool.stateOf ⟨2⟩ = some .ready ∧
      (∀ x ∈ l, x.1 ≠ .await ⟨2⟩) ∧ (∀ x ∈ l, x.1 ≠ .free ⟨2⟩) ∧
      step s (.await ⟨2⟩) = .error .switchToReady :=
  ⟨[(.call 7 0, .handle ⟨2⟩), (.skip, .start 7 0), (.ret 5, .skip)], _,
    ⟨_, ⟨0, 0, rfl⟩, .cons rfl (.cons rfl (.cons rfl (.refl _)))⟩, rfl, by simp, by simp, rfl⟩

/-- The general statement at that run. -/
theorem await_finished_run : ∃ s : Runtime Graph Nat Nat,
    step s (.await ⟨2⟩) = .error .switchToReady :=
  ⟨_, (await_finished ⟨_, ⟨0, 0, rfl⟩, .refl _⟩
    (show Next _ (.call 7 0, .handle ⟨2⟩) _ from rfl)
    (show Steps Next _ [(.skip, .start 7 0), (.ret 5, .skip)] _ from
      .cons rfl (.cons rfl (.refl _))) (by simp) rfl).1⟩

end CAsync
