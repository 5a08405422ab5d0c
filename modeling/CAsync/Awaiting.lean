/-
# `await`

`await(h)` passes exactly if `h` is queued, is not the running task, and nobody awaits it
(`Inv.step_await`, `Inv.step_await_fails`).  Otherwise `graph_wait_ready` pushes the child to the
front and switches to it, whatever its state: a finished child is refused by `async_switch`
(`Inv.step_await_ready`), and a child that waits itself is resumed before its own child has
finished.
-/
import CAsync.Effect

namespace CAsync

open Faulting TaskPool

variable {F V : Type}

namespace Inv

variable {s t : Runtime TaskGraph F V} {h i next : Handle} {u v : Task F V} {c : Nat} {k : Handle}

/-! ## 1. A queued child -/

/-- `graph_wait_ready` up to its switch, for a registered task that nobody awaits. -/
theorem block_eq (hs : Inv s) {p n : Nat} {q q' : List Nat} (hq : s.sched.queue = p :: q)
    (hc : s.sched.nodeOf h.idx = some c) (hpar : s.sched.parent c = none)
    (hq' : (if c ∈ q then q else c :: q) = n :: q') :
    s.sched.block h = .ok ({ s.sched with
      queue := n :: q', parent := Function.update s.sched.parent c (some p) },
      s.running, c, ⟨s.sched.handle n⟩) := by
  obtain ⟨p', q₁, hq₁, hp, -, h0, -⟩ := hs.exists_queue
  rw [hq] at hq₁
  cases hq₁
  have hn : s.sched.handle n ≠ 0 := by
    have hmem : n ∈ s.sched.queue ∨ n = c := by
      have : n ∈ n :: q' := List.mem_cons_self
      rw [← hq'] at this
      rw [hq]
      split at this
      · exact .inl (List.mem_cons_of_mem _ this)
      · rcases List.mem_cons.mp this with h | h
        · exact .inr h
        · exact .inl (List.mem_cons_of_mem _ h)
    rcases hmem with hmem | rfl
    · exact hs.graph.handle_ne hmem
    · rw [(hs.graph.node hc).1]
      exact (hs.graph.node hc).2.1
  obtain ⟨h1, h2, -⟩ := hs.graph.node hc
  unfold TaskGraph.block
  rw [hq]
  dsimp only
  rw [require_of h0, ok_bind, hc]
  dsimp only
  rw [require_of hpar, ok_bind, require_of h1, ok_bind, require_of (by rw [h1]; exact h2), ok_bind,
    hq']
  unfold TaskGraph.front
  dsimp only
  rw [require_of hn, ok_bind, ok_bind, hp]

/-- **`await` of a queued task that nobody awaits passes.** -/
theorem step_await (hs : Inv s) (hc : s.sched.nodeOf h.idx = some c)
    (hpar : s.sched.parent c = none) (hmem : h ∈ s.sched.tasks) (hself : h ≠ s.running) :
    ∃ r t, step s (.await h) = .ok (.next t r) ∧ Effect s (.await h) r t ∧ Inv t := by
  obtain ⟨p, q, hq, hp, hnode, h0, hpq, htasks⟩ := hs.exists_queue
  obtain ⟨w, hw, hwrun⟩ := hs.running_task
  have hcq : c ∈ q := by
    have := (hs.graph.mem_tasks_iff hc).mp hmem
    rw [hq, List.mem_cons] at this
    refine this.resolve_left ?_
    rintro rfl
    exact hself (hs.graph.node_inj hc hnode)
  obtain ⟨n, q', rfl⟩ := List.exists_cons_of_ne_nil (List.ne_nil_of_mem hcq)
  have hblock := hs.block_eq hq hc hpar (if_pos hcq)
  have hne : (⟨s.sched.handle n⟩ : Handle) ≠ s.running := by
    intro heq
    have hnd := hs.graph.tasks_nodup
    rw [htasks, List.map_cons, heq] at hnd
    simp at hnd
  have hmemn : (⟨s.sched.handle n⟩ : Handle) ∈ s.sched.tasks := by
    rw [htasks]
    simp
  obtain ⟨u, top, hu, hrunnable⟩ := hs.runnable hmemn hne
  let a : TaskGraph := { s.sched with
    queue := n :: q', parent := Function.update s.sched.parent c (some p) }
  obtain ⟨pool, hok, hslot, hwf, hlen⟩ := asyncSwitch_eq (s := { s with sched := a })
    (.graphWaitReady s.running c h) (.inr (by rw [hw]; rfl)) hu (Ne.symm hne)
    hrunnable.state hrunnable.1
  have hatasks : a.tasks = (n :: q').map fun r => ⟨s.sched.handle r⟩ := rfl
  have hchild : h ∈ (n :: q').map fun r => (⟨s.sched.handle r⟩ : Handle) := by
    rw [htasks] at hmem
    exact (List.mem_cons.mp hmem).resolve_left hself
  let t : Runtime TaskGraph F V :=
    { s with pool := pool, sched := a, running := ⟨s.sched.handle n⟩ }
  have hsw : SwitchedTo t (leave s (.graphWaitReady s.running c h)) ⟨s.sched.handle n⟩ u :=
    ⟨(Function.update_of_ne hne _ _).trans hu, hslot, rfl⟩
  refine ⟨u.resumed, t, ?_, .await htasks hchild hc hpar hnode hatasks hsw hlen rfl rfl, ?_⟩
  · have hwait : SchedulerVTable.waitReady s h = .ok (t,
        if u.state = .init then .entered u.fn u.data else .resumed top) := by
      change TaskGraph.waitReady s h = _
      unfold TaskGraph.waitReady
      rw [hblock, ok_bind]
      exact hok
    have hreply := replyOf_runnable (s := t) hrunnable .skip
    unfold step await
    simp only [hwait, ok_bind]
    split
    · rename_i hret
      split at hret
      · cases hret
      · cases hret
    · rw [hreply, ok_bind]
  · rw [leave_eq hw] at hsw
    have hnotin : s.running ∉ a.tasks := by
      have hnd := hs.graph.tasks_nodup
      rw [htasks, List.nodup_cons] at hnd
      exact hnd.1
    have hold : pool.slot s.running = some (w.suspend (.graphWaitReady s.running c h)) := by
      have hsl : pool.slot = _ := hsw.slot
      rw [hsl, Function.update_of_ne (Ne.symm hne), Function.update_self]
    have hunf : ∀ i, s.pool.Unfinished i → pool.Unfinished i := by
      intro i hi
      have hsl : pool.slot = _ := hsw.slot
      unfold Unfinished at hi ⊢
      by_cases h1 : i = ⟨s.sched.handle n⟩
      · rw [stateOf_eq (by rw [hsl, h1, Function.update_self])]
        exact .inr rfl
      · by_cases h2 : i = s.running
        · rw [h2, stateOf_eq hold]
          exact .inr (congrArg some hwrun)
        · unfold stateOf at hi ⊢
          rw [hsl, Function.update_of_ne h1, Function.update_of_ne h2]
          exact hi
    have hqueue : ∀ i, i ≠ s.running → (i ∈ a.tasks ↔ i ∈ s.sched.tasks) := by
      intro i hi
      rw [hatasks, htasks, List.mem_cons]
      exact ⟨.inr, fun h => h.resolve_left hi⟩
    have hplt := (hs.graph.node hnode).2.2
    have hclt := (hs.graph.node hc).2.2
    have hgraph : a.WellFormed := by
      have hnd := hs.graph.nodup
      rw [hq, List.nodup_cons] at hnd
      exact (hs.graph.withParent hclt hplt).withQueue hnd.2 fun r hr =>
        hs.graph.queued (by rw [hq]; exact List.mem_cons_of_mem _ hr)
    have hsus : Suspended t s.running c h := ⟨Ne.symm hne, _, hold, hwrun, rfl⟩
    have hunh : s.pool.Unfinished h := by
      obtain ⟨v, _, hv, hvr⟩ := hs.runnable hmem hself
      unfold Unfinished
      rw [stateOf_eq hv]
      exact hvr.state.imp (congrArg some) (congrArg some)
    refine hs.switched (hwf hs.pool) hgraph hsw hne rfl hrunnable.state ?_ (fun _ _ => rfl)
      (fun _ h => h) (fun i hi _ => hqueue i hi) (fun d r hd => ?_) (fun _ h => h)
      (fun _ _ _ _ _ _ _ => ⟨rfl, hunf _ (.inr hs.running)⟩)
      (fun d k hsus => absurd hsus (hs.not_suspended hmemn)) (fun d r hd => ?_)
    · exact .suspended hwrun hnotin (Ne.symm hne) rfl hnode (Function.update_self _ _ _)
        (.inr ⟨hc, hunf h hunh⟩)
    · have hdc : d ≠ c := by
        rintro rfl
        rw [hpar] at hd
        cases hd
      exact (Function.update_of_ne hdc _ _).trans hd
    · by_cases hdc : d = c
      · subst hdc
        have hr : p = r := by
          have hd' : Function.update s.sched.parent d (some p) d = some r := hd
          simpa using hd'
        subst hr
        refine .inr fun i hi => ⟨s.running, hnode, hnotin, ?_⟩
        obtain rfl := hs.graph.node_inj hi hc
        exact hsus
      · exact .inl ((Function.update_of_ne hdc _ _).symm.trans hd)

/-! ## 2. Any other child -/

/-- `await` of a registered task that nobody awaits and that is not queued, or is the running
task itself: the processor is to go to that task. -/
theorem await_unqueued (hs : Inv s) {p : Nat} {q : List Nat} (hq : s.sched.queue = p :: q)
    (hc : s.sched.nodeOf h.idx = some c) (hpar : s.sched.parent c = none) (hcq : c ∉ q) :
    SchedulerVTable.waitReady s h = asyncSwitch
      { s with sched := { s.sched with
        queue := c :: q, parent := Function.update s.sched.parent c (some p) } }
      s.running h (.graphWaitReady s.running c h) := by
  have hh : (⟨s.sched.handle c⟩ : Handle) = h := Handle.eq_of_idx (hs.graph.node hc).1
  change TaskGraph.waitReady s h = _
  unfold TaskGraph.waitReady
  rw [hs.block_eq hq hc hpar (if_neg hcq), ok_bind]
  dsimp only
  rw [hh]

/-- **`await` of a finished task that nobody awaited fails**: it goes to the front of the queue
like any other, and `async_switch` refuses to enter it. -/
theorem step_await_ready (hs : Inv s) (hc : s.sched.nodeOf h.idx = some c)
    (hpar : s.sched.parent c = none) (hready : s.pool.stateOf h = some .ready) :
    step s (.await h) = .error .switchToReady := by
  obtain ⟨p, q, hq, -, hnode, -⟩ := hs.exists_queue
  obtain ⟨u, hu, hur⟩ := stateOf_eq_some.mp hready
  obtain ⟨w, hw, -⟩ := hs.running_task
  have hself : s.running ≠ h := by
    rintro rfl
    rw [hs.running] at hready
    cases hready
  have hcq : c ∉ q := by
    intro hmem
    have hh : h ∈ s.sched.tasks := (hs.graph.mem_tasks_iff hc).mpr (by
      rw [hq]
      exact List.mem_cons_of_mem _ hmem)
    obtain ⟨v, top, hv, hrun⟩ := hs.runnable hh (Ne.symm hself)
    rw [hu] at hv
    cases hv
    rcases hrun.state with h | h <;> rw [hur] at h <;> cases h
  have hsrc : getTaskOrNull s.pool s.running = .ok (some w) := by
    unfold getTaskOrNull
    have := slot_bounds hw
    rw [if_neg (by omega), getTask_eq hw, ok_bind]
  have hidx : s.running.idx ≠ h.idx := fun heq => hself (Handle.eq_of_idx heq)
  unfold step await
  dsimp only
  rw [hs.await_unqueued hq hc hpar hcq]
  unfold asyncSwitch
  dsimp only
  rw [require_of (Nat.ne_of_gt (slot_bounds hu).1), ok_bind, require_of hidx, ok_bind, hsrc,
    ok_bind, getTask_eq hu, ok_bind, require_of (by rw [hur]; decide), ok_bind,
    require_of_not (by rw [hur]; decide)]
  rfl

/-- **No other `await` passes.**  If the child is suspended itself, it is resumed too early and
its own assertions fail. -/
theorem step_await_fails (hs : Inv s) (hbad : ¬ ∃ c, s.sched.nodeOf h.idx = some c ∧
    s.sched.parent c = none ∧ h ∈ s.sched.tasks ∧ h ≠ s.running) :
    ∃ e, step s (.await h) = .error e := by
  obtain ⟨p, q, hq, hp, hnode, h0, hpq, htasks⟩ := hs.exists_queue
  have hfail : ∀ {e}, s.sched.block h = .error e → step s (.await h) = .error e := by
    intro e he
    unfold step await
    have hwait : SchedulerVTable.waitReady s h = .error e := by
      change TaskGraph.waitReady s h = _
      unfold TaskGraph.waitReady
      rw [he, error_bind]
    simp only [hwait, error_bind]
  cases hn : s.sched.nodeOf h.idx with
  | none =>
    refine ⟨_, hfail (e := .notRegistered) ?_⟩
    unfold TaskGraph.block
    rw [hq]
    dsimp only
    rw [require_of h0, ok_bind, hn]
  | some c =>
    by_cases hpar : s.sched.parent c = none
    swap
    · refine ⟨_, hfail (e := .alreadyAwaited) ?_⟩
      unfold TaskGraph.block
      rw [hq]
      dsimp only
      rw [require_of h0, ok_bind, hn]
      dsimp only
      rw [require_of_not hpar, error_bind]
    obtain ⟨w, hw, hwrun⟩ := hs.running_task
    obtain ⟨u, hu, hlive⟩ := hs.nodeOf_isSome.mp
      (show (s.sched.nodeOf h.idx).isSome by rw [hn]; rfl)
    by_cases hself : h = s.running
    · subst hself
      rw [hn] at hnode
      cases hnode
      refine ⟨.switchToSelf, ?_⟩
      unfold step await
      dsimp only
      rw [hs.await_unqueued hq hn hpar hpq]
      unfold asyncSwitch
      rw [require_of (by have := slot_bounds hu; omega), ok_bind, require_of_not (by simp)]
      rfl
    have hmem : h ∉ s.sched.tasks := fun hmem => hbad ⟨c, hn, hpar, hmem, hself⟩
    have hcq : c ∉ q := fun hc => hmem ((hs.graph.mem_tasks_iff hn).mpr (by
      rw [hq]
      exact List.mem_cons_of_mem _ hc))
    cases hs.phase hu with
    | free h1 _ => exact absurd h1 hlive
    | init _ h2 => exact absurd h2 hmem
    | current _ h2 => exact absurd h2 hself
    | skipped _ h2 => exact absurd h2 hmem
    | ready h1 => exact ⟨_, hs.step_await_ready hn hpar ((stateOf_eq hu).trans (congrArg _ h1))⟩
    | @suspended r d k h1 _ _ hframe hr hd hchild =>
      -- the switch passes, and the child finds that its own child has not finished
      obtain ⟨pool, hok, hslot, -⟩ := asyncSwitch_eq
        (s := { s with sched := { s.sched with
          queue := c :: q, parent := Function.update s.sched.parent c (some p) } })
        (.graphWaitReady s.running c h) (.inr (by rw [hw]; rfl)) hu (Ne.symm hself)
        (.inr h1) hframe
      rw [← hs.await_unqueued hq hn hpar hcq, if_neg (by rw [h1]; decide)] at hok
      let t : Runtime TaskGraph F V := {
        pool := pool
        sched := { s.sched with
          queue := c :: q, parent := Function.update s.sched.parent c (some p) }
        running := h }
      obtain ⟨hidx, hpos, -⟩ := hs.graph.node hn
      have hcur : t.sched.front t.sched.queue = .ok h := by
        change TaskGraph.front _ (c :: q) = _
        unfold TaskGraph.front
        dsimp only
        rw [hidx, require_of hpos, ok_bind]
      have hwaits : ∃ e, TaskGraph.waitResume t h d = .error e := by
        unfold TaskGraph.waitResume
        rw [hcur, ok_bind, require_of rfl, ok_bind, if_pos (hs.graph.parent_lt hd).1]
        have hcur' : SchedulerOps.currentTask t.sched = .ok h := hcur
        unfold pollState
        rw [hcur', ok_bind]
        rcases hchild with h0 | ⟨hk, hunk⟩
        · refine ⟨.pollNull, ?_⟩
          have hpoll : SchedulerOps.pollTask t.sched t.pool ⟨t.sched.handle d⟩ =
              .error .pollNull := by
            change TaskGraph.pollTask _ t.pool ⟨s.sched.handle d⟩ = _
            unfold TaskGraph.pollTask
            rw [require_of_not (by simp [h0]), error_bind]
          rw [hpoll]
          rfl
        · have hkd : (⟨t.sched.handle d⟩ : Handle) = k := Handle.eq_of_idx (hs.graph.node hk).1
          obtain ⟨v, hv, hvr⟩ : ∃ v, t.pool.slot k = some v ∧ v.state ≠ .ready := by
            have hsl : t.pool.slot = _ := hslot
            rw [hsl]
            by_cases hkh : k = h
            · subst hkh
              exact ⟨_, Function.update_self _ _ _, by simp [Task.run]⟩
            rw [Function.update_of_ne hkh]
            by_cases hkr : k = s.running
            · subst hkr
              rw [Function.update_self]
              dsimp only
              rw [hw]
              exact ⟨_, rfl, by simp [Task.suspend, hwrun]⟩
            · rw [Function.update_of_ne hkr]
              rcases hunk with hst | hst <;> obtain ⟨v, hv, hst⟩ := stateOf_eq_some.mp hst <;>
                exact ⟨v, hv, by rw [hst]; decide⟩
          refine ⟨.awaitedNotReady, ?_⟩
          have hpoll : SchedulerOps.pollTask t.sched t.pool ⟨t.sched.handle d⟩ = .ok v.state := by
            rw [hkd]
            change TaskGraph.pollTask _ t.pool k = _
            unfold TaskGraph.pollTask
            rw [require_of (by have := slot_bounds hv; omega), ok_bind, load_slot hv, ok_bind]
          rw [hpoll, hkd]
          simp only [ok_bind, getTask_eq hv, require_of_not hvr]
      obtain ⟨e, he⟩ := hwaits
      refine ⟨e, ?_⟩
      unfold step await
      simp only [hok, ok_bind]
      unfold replyOf resume
      dsimp only
      have he' : SchedulerVTable.waitResume t h d = .error e := he
      rw [he', error_bind, error_bind]

end Inv
end CAsync
