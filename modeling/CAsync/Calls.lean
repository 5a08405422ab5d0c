/-
# The calls that wait for nobody

`async_call` and `async_skip` never fail from a state that satisfies the invariant.
`async_orphan` and `poll_state` only need a slot of the pool, and `async_free` a task that is in
the map and not in the queue; it does not look at the state of the task.
-/
import CAsync.Effect

namespace CAsync

open Faulting TaskPool

variable {F V : Type}

namespace Inv

variable {s t : Runtime TaskGraph F V} {h i next : Handle} {u v : Task F V} {c : Nat} {k : Handle}

/-! ## 1. `async_call` -/

/-- **`async_call` never fails.** -/
theorem step_call (hs : Inv s) (fn : F) (arg : V) : ∃ h t,
    step s (.call fn arg) = .ok (.next t (.handle h)) ∧
      Effect s (.call fn arg) (.handle h) t ∧ Inv t := by
  obtain ⟨q, h, u, halloc, hnew, hslot, hwf, hroom⟩ := hs.pool.allocTask fn arg
  have huq : q.slot h = some u := by
    rw [hslot, Function.update_self]
  have hpos : h.idx ≠ 0 := by
    have := slot_bounds huq
    omega
  have hfresh : s.sched.nodeOf h.idx = none := by
    rw [← Option.not_isSome_iff_eq_none, hs.nodeOf_isSome]
    rintro ⟨w, hw, hlive⟩
    rcases hroom with ⟨hfree, -⟩ | ⟨hlen, -⟩
    · rw [stateOf_eq hw, Option.some.injEq] at hfree
      exact hlive hfree
    · have := slot_bounds hw
      omega
  have hnever : ∀ {i : Handle}, (s.sched.nodeOf i.idx).isSome → i ≠ h := by
    rintro i hi rfl
    rw [hfresh] at hi
    cases hi
  have hgraph := hs.graph.registered hpos hfresh
  have hlt : ∀ {i : Handle} {r : Nat}, s.sched.nodeOf i.idx = some r → r ≠ s.sched.fresh :=
    fun hr => Nat.ne_of_lt (hs.graph.node hr).2.2
  -- the new scheduler, and what the queue is in it
  let a : TaskGraph := {
    queue := s.sched.queue ++ [s.sched.fresh]
    nodeOf := Function.update s.sched.nodeOf h.idx (some s.sched.fresh)
    parent := Function.update s.sched.parent s.sched.fresh none
    handle := Function.update s.sched.handle s.sched.fresh h.idx
    fresh := s.sched.fresh + 1 }
  have htasks : a.tasks = s.sched.tasks ++ [h] := by
    have hold : (s.sched.queue.map fun r => (⟨a.handle r⟩ : Handle)) = s.sched.tasks := by
      refine List.map_congr_left fun r hr => congrArg Handle.mk ?_
      exact Function.update_of_ne (hlt (i := ⟨s.sched.handle r⟩) (hs.graph.queued hr)) _ _
    unfold TaskGraph.tasks
    rw [List.map_append, hold, List.map_singleton]
    congr 2
    exact congrArg Handle.mk (Function.update_self _ _ _)
  have hnodeOf : ∀ i : Handle, i ≠ h → a.nodeOf i.idx = s.sched.nodeOf i.idx := fun i hi =>
    Function.update_of_ne (fun heq => hi (Handle.eq_of_idx heq)) _ _
  have hparent : ∀ c, c ≠ s.sched.fresh → a.parent c = s.sched.parent c := fun c hc =>
    Function.update_of_ne hc _ _
  have hhandle : ∀ c, c ≠ s.sched.fresh → a.handle c = s.sched.handle c := fun c hc =>
    Function.update_of_ne hc _ _
  have hrun : s.running ≠ h := by
    obtain ⟨p, _, _, _, hp, _⟩ := hs.exists_queue
    exact hnever (by rw [hp]; rfl)
  have hslot' : ∀ i, i ≠ h → q.slot i = s.pool.slot i := fun i hi => by
    rw [hslot, Function.update_of_ne hi]
  have hunf : ∀ i, i ≠ h → (q.Unfinished i ↔ s.pool.Unfinished i) := fun i hi => by
    unfold Unfinished stateOf
    rw [hslot' i hi]
  refine ⟨h, { s with pool := q, sched := a }, ?_,
    .call hnew hslot hroom hfresh htasks rfl rfl rfl, ?_⟩
  · have hreg : SchedulerOps.registerTask s.sched h = .ok a := by
      change s.sched.registerTask h = .ok a
      unfold TaskGraph.registerTask
      rw [require_of hpos, ok_bind, hfresh]
    unfold step asyncCall startNewTask
    simp only [halloc, ok_bind, hreg]
  refine ⟨hwf, hgraph, ?_, ?_, fun {i} hi => ?_, fun {i w} hw => ?_, fun {c p i} hc hu hp => ?_⟩
  · obtain ⟨rest, hq⟩ := hs.exists_rest
    change a.tasks.head? = some s.running
    rw [htasks, hq]
    rfl
  · change q.stateOf s.running = _
    unfold stateOf
    rw [hslot' _ hrun]
    exact hs.running
  · dsimp only at hi ⊢
    by_cases hih : i = h
    · subst hih
      rw [huq]
      rfl
    · rw [hnodeOf i hih] at hi
      rw [hslot' i hih]
      exact hs.mapped hi
  · dsimp only at hw
    by_cases hih : i = h
    · subst hih
      rw [huq] at hw
      cases hw
      refine .init hnew.state ?_ (Ne.symm hrun) hnew.stackPtr
      rw [htasks]
      simp
    · rw [hslot' i hih] at hw
      refine (hs.phase hw).mono (hnodeOf i hih) ?_ Iff.rfl ?_
      · dsimp only
        rw [htasks]
        simp [hih]
      · intro r c k hr hp hframe _ _ hc
        have hcf : c ≠ s.sched.fresh := Nat.ne_of_lt (hs.graph.parent_lt hp).1
        refine ⟨(hparent c hcf).trans hp, hc.imp (hhandle c hcf).trans ?_⟩
        rintro ⟨hk, hunk⟩
        have hkh : k ≠ h := hnever (by rw [hk]; rfl)
        exact ⟨(hnodeOf k hkh).trans hk, (hunf k hkh).mpr hunk⟩
  · dsimp only at hc hp hu ⊢
    have hcf : c ≠ s.sched.fresh := by
      rintro rfl
      simp [a] at hp
    have hih : i ≠ h := by
      rintro rfl
      simp [a] at hc
      exact hcf hc.symm
    rw [hnodeOf i hih] at hc
    rw [hparent c hcf] at hp
    have hpf : p ≠ s.sched.fresh := Nat.ne_of_lt (hs.graph.parent_lt hp).2
    refine (hs.parent hc ((hunf i hih).mp hu) hp).imp (hhandle p hpf).trans ?_
    rintro ⟨j, hj, haway, hsus⟩
    have hjh : j ≠ h := hnever (by rw [hj]; rfl)
    refine ⟨j, (hnodeOf j hjh).trans hj, ?_, hsus.away, ?_⟩
    · rw [htasks]
      simp [haway, hjh]
    · dsimp only
      rw [hslot' j hjh]
      exact hsus.frame

/-! ## 2. `async_skip` -/

/-- The rotated queue. -/
theorem rotated (hs : Inv s) {p : Nat} {q : List Nat} (hq : s.sched.queue = p :: q) :
    TaskGraph.WellFormed { s.sched with queue := q ++ [p] } := by
  have hperm : (q ++ [p]).Perm s.sched.queue := by
    rw [hq]
    exact List.perm_append_singleton p q
  exact hs.graph.withQueue (hperm.nodup_iff.mpr hs.graph.nodup) fun r hr =>
    hs.graph.queued (hperm.mem_iff.mp hr)

/-- **`async_skip` never fails.** -/
theorem step_skip (hs : Inv s) :
    ∃ r t, step s .skip = .ok (.next t r) ∧ Effect s .skip r t ∧ Inv t := by
  obtain ⟨p, q, hq, hp, hnode, h0, hpq, htasks⟩ := hs.exists_queue
  obtain ⟨w, hw, hwrun⟩ := hs.running_task
  have hcur : SchedulerOps.currentTask s.sched = .ok s.running := hs.currentTask
  cases q with
  | nil =>
    have hsame : ({ s.sched with queue := [p] } : TaskGraph) = s.sched := by rw [← hq]
    have hnext : SchedulerOps.nextTask s.sched = .ok (s.sched, s.running) := by
      change s.sched.nextTask = _
      unfold TaskGraph.nextTask
      rw [hq]
      dsimp only
      rw [require_of h0, ok_bind, List.nil_append, hsame, List.headD_cons, ← hp]
    refine ⟨.skip, s, ?_, .alone htasks rfl, hs⟩
    unfold step skip asyncSkip
    simp only [hcur, hnext, ok_bind, getTask_eq hw, ne_eq, not_true, if_false]
    rfl
  | cons n q =>
    have hn : n ∈ s.sched.queue := by simp [hq]
    have hne : (⟨s.sched.handle n⟩ : Handle) ≠ s.running := by
      intro heq
      have hnd := hs.graph.tasks_nodup
      rw [htasks, List.map_cons, heq] at hnd
      simp at hnd
    have hmem : (⟨s.sched.handle n⟩ : Handle) ∈ s.sched.tasks := by
      rw [htasks]
      simp
    obtain ⟨u, top, hu, hrunnable⟩ := hs.runnable hmem hne
    have hnext : SchedulerOps.nextTask s.sched =
        .ok ({ s.sched with queue := n :: q ++ [p] }, ⟨s.sched.handle n⟩) := by
      change s.sched.nextTask = _
      unfold TaskGraph.nextTask
      rw [hq]
      dsimp only
      rw [require_of h0, ok_bind]
      rfl
    obtain ⟨pool, hok, hslot, hwf, hlen⟩ := asyncSwitch_eq
      (s := { s with sched := { s.sched with queue := n :: q ++ [p] } }) .asyncSkip
      (.inr (by rw [hw]; rfl)) hu (Ne.symm hne) hrunnable.state hrunnable.1
    have hidx : s.running.idx ≠ s.sched.handle n := fun heq => hne (Handle.eq_of_idx heq.symm)
    have htasks' : TaskGraph.tasks { s.sched with queue := n :: q ++ [p] } =
        (n :: q).map (fun r => ⟨s.sched.handle r⟩) ++ [s.running] := by
      unfold TaskGraph.tasks
      rw [List.map_append, List.map_singleton, hp]
    have hsw : SwitchedTo { s with
        pool := pool, sched := { s.sched with queue := n :: q ++ [p] },
        running := ⟨s.sched.handle n⟩ } (leave s .asyncSkip) ⟨s.sched.handle n⟩ u :=
      ⟨(Function.update_of_ne hne _ _).trans hu, hslot, rfl⟩
    refine ⟨u.resumed, _, ?_, .skip htasks htasks' hsw hlen rfl rfl, ?_⟩
    · unfold step skip asyncSkip
      simp only [hcur, hnext, ok_bind, getTask_eq hw]
      rw [if_pos hidx, hok, ok_bind]
      dsimp only
      rw [replyOf_runnable hrunnable, ok_bind]
    · rw [leave_eq hw] at hsw
      have hmem' : ∀ h, h ∈ TaskGraph.tasks { s.sched with queue := n :: q ++ [p] } ↔
          h ∈ s.sched.tasks := by
        intro h
        rw [htasks', htasks, List.mem_append, List.mem_singleton, List.mem_cons]
        exact or_comm
      refine hs.switched (hwf hs.pool) (hs.rotated hq) hsw hne (by rw [htasks']; rfl)
        hrunnable.state ?_ (fun _ _ => rfl) (fun _ h => h) (fun h _ _ => hmem' h)
        (fun _ _ h => h) (fun _ h => h) (fun _ _ _ _ _ _ _ => ⟨rfl, .inr ?_⟩)
        (fun c k hsus => absurd hsus (hs.not_suspended hmem)) (fun c p h => .inl h)
      · exact .skipped hwrun ((hmem' _).mpr hs.running_mem) (Ne.symm hne) rfl
      · have hslot' : pool.slot s.running = some (w.suspend .asyncSkip) := by
          have := hsw.slot
          dsimp only at this
          rw [this, Function.update_of_ne (Ne.symm hne), Function.update_self]
        dsimp only
        rw [stateOf_eq hslot']
        exact congrArg some hwrun

/-! ## 3. `async_free`, `async_orphan` and `poll_state` -/

/-- **`async_free` passes for any registered task that is not queued**, whatever its state. -/
theorem step_free (hs : Inv s) {r : Nat} (hr : s.sched.nodeOf h.idx = some r)
    (haway : h ∉ s.sched.tasks) :
    ∃ t, step s (.free h) = .ok (.next t .done) ∧ Effect s (.free h) .done t ∧ Inv t := by
  obtain ⟨u, hu, hlive⟩ := hs.nodeOf_isSome.mp (show (s.sched.nodeOf h.idx).isSome by rw [hr]; rfl)
  obtain ⟨h1, h0, -⟩ := hs.graph.node hr
  have hrq : r ∉ s.sched.queue := fun hmem => haway ((hs.graph.mem_tasks_iff hr).mpr hmem)
  have hself : h ≠ s.running := by
    rintro rfl
    exact haway hs.running_mem
  let a : TaskGraph := { s.sched with
    nodeOf := Function.update s.sched.nodeOf h.idx none
    handle := Function.update s.sched.handle r 0 }
  let pool : TaskPool F V :=
    { s.pool.setTask h { u with state := .free, handle := s.pool.freeTask } with freeTask := h }
  let t : Runtime TaskGraph F V := { s with pool := pool, sched := a }
  have hslot : pool.slot = Function.update s.pool.slot h
      (some { u with state := .free, handle := s.pool.freeTask }) := slot_setTask hu _
  have htasks : a.tasks = s.sched.tasks :=
    TaskGraph.WellFormed.tasks_congr rfl fun d hd => Function.update_of_ne (by
      rintro rfl
      exact hrq hd) _ _
  have hslot' : ∀ i, i ≠ h → pool.slot i = s.pool.slot i := fun i hi => by
    rw [hslot, Function.update_of_ne hi]
  have hnodeOf : ∀ i : Handle, i ≠ h → a.nodeOf i.idx = s.sched.nodeOf i.idx := fun i hi =>
    Function.update_of_ne (fun heq => hi (Handle.eq_of_idx heq)) _ _
  have hunf : ∀ i, i ≠ h → (pool.Unfinished i ↔ s.pool.Unfinished i) := fun i hi => by
    unfold Unfinished stateOf
    rw [hslot' i hi]
  have hdead : ∀ c, s.sched.handle c = 0 → a.handle c = 0 := by
    intro c hc
    by_cases hcr : c = r
    · rw [hcr]
      exact Function.update_self _ _ _
    · exact (Function.update_of_ne hcr _ _).trans hc
  have hgone : a.handle r = 0 := Function.update_self _ _ _
  have hstage : u.state = .ready ∨ ∃ c k, Suspended s h c k := by
    cases hs.phase hu with
    | free h2 => exact absurd h2 hlive
    | init _ h2 => exact absurd h2 haway
    | current _ h2 => exact absurd h2 hself
    | skipped _ h2 => exact absurd h2 haway
    | suspended h2 _ h3 h4 => exact .inr ⟨_, _, h3, u, hu, h2, h4⟩
    | ready h2 => exact .inl h2
  refine ⟨t, ?_, .free hu hstage haway hslot setTask_len rfl htasks rfl rfl, ?_⟩
  · have hfree : SchedulerOps.freeTask s.sched h = .ok a := by
      change s.sched.freeTask h = _
      unfold TaskGraph.freeTask
      rw [hr]
      dsimp only
      rw [require_of hrq, ok_bind, require_of (by rw [h1]; exact h0), ok_bind]
    unfold step asyncFree CAsync.freeTask
    dsimp only
    rw [require_of h0, ok_bind, hfree, ok_bind, getTask_eq hu, ok_bind, ok_bind]
  refine ⟨hs.pool.freeTask hu hlive, hs.graph.freed hr hrq, ?_, ?_, fun {i} hi => ?_,
    fun {i w} hw => ?_, fun {c p i} hc hun hp => ?_⟩
  · change a.tasks.head? = some s.running
    rw [htasks]
    exact hs.front
  · change pool.stateOf s.running = _
    unfold stateOf
    rw [hslot' _ (Ne.symm hself)]
    exact hs.running
  · change (a.nodeOf i.idx).isSome at hi
    have hih : i ≠ h := by
      rintro rfl
      simp [a] at hi
    rw [hnodeOf i hih] at hi
    change (pool.slot i).isSome
    rw [hslot' i hih]
    exact hs.mapped hi
  · change pool.slot i = some w at hw
    by_cases hih : i = h
    · subst hih
      rw [hslot, Function.update_self] at hw
      cases hw
      exact .free rfl (Function.update_self _ _ _)
    · rw [hslot' i hih] at hw
      refine (hs.phase hw).mono (hnodeOf i hih) (by change _ ∈ a.tasks ↔ _; rw [htasks]) Iff.rfl ?_
      intro d c k hd hp hframe _ _ hc
      refine ⟨hp, ?_⟩
      rcases hc with hc | ⟨hk, hunk⟩
      · exact .inl (hdead c hc)
      · by_cases hkh : k = h
        · subst hkh
          rw [hr] at hk
          cases hk
          exact .inl hgone
        · exact .inr ⟨(hnodeOf k hkh).trans hk, (hunf k hkh).mpr hunk⟩
  · change a.nodeOf i.idx = some c at hc
    change s.sched.parent c = some p at hp
    change pool.Unfinished i at hun
    have hih : i ≠ h := by
      rintro rfl
      simp [a] at hc
    rw [hnodeOf i hih] at hc
    by_cases hpr : p = r
    · rw [hpr]
      exact .inl hgone
    refine (hs.parent hc ((hunf i hih).mp hun) hp).imp (hdead p) ?_
    rintro ⟨j, hj, haway', hsus⟩
    have hjh : j ≠ h := by
      rintro rfl
      rw [hr] at hj
      cases hj
      exact hpr rfl
    refine ⟨j, (hnodeOf j hjh).trans hj, ?_, hsus.away, ?_⟩
    · change j ∉ a.tasks
      rw [htasks]
      exact haway'
    · change ∃ t, pool.slot j = some t ∧ _
      rw [hslot' j hjh]
      exact hsus.frame

/-- `async_free` fails for a task that is queued or not registered. -/
theorem step_free_fails (hs : Inv s)
    (hbad : ¬ ∃ r, s.sched.nodeOf h.idx = some r ∧ h ∉ s.sched.tasks) :
    ∃ e, step s (.free h) = .error e := by
  have hfail : ∀ {e}, h.idx ≠ 0 → s.sched.freeTask h = .error e →
      step s (.free h) = .error e := by
    intro e h0 he
    have he' : SchedulerOps.freeTask s.sched h = .error e := he
    unfold step asyncFree CAsync.freeTask
    dsimp only
    rw [require_of h0, ok_bind, he', error_bind, error_bind]
  by_cases h0 : h.idx = 0
  · refine ⟨.handleNull, ?_⟩
    unfold step asyncFree CAsync.freeTask
    dsimp only
    rw [require_of_not (by simp [h0]), error_bind, error_bind]
  cases hr : s.sched.nodeOf h.idx with
  | none =>
    refine ⟨_, hfail (e := .notRegistered) h0 ?_⟩
    unfold TaskGraph.freeTask
    rw [hr]
  | some r =>
    refine ⟨_, hfail (e := .stillQueued) h0 ?_⟩
    have hmem : h ∈ s.sched.tasks := by
      by_contra hmem
      exact hbad ⟨r, hr, hmem⟩
    have hrq := (hs.graph.mem_tasks_iff hr).mp hmem
    unfold TaskGraph.freeTask
    rw [hr]
    dsimp only
    rw [require_of_not (by simp [hrq]), error_bind]

/-- `async_orphan` passes for any slot of the pool, also a `FREE` one. -/
theorem step_orphan (hs : Inv s) (hu : s.pool.slot h = some u) :
    ∃ t, step s (.orphan h) = .ok (.next t .done) ∧ Effect s (.orphan h) .done t ∧ Inv t := by
  let pool : TaskPool F V := s.pool.setTask h { u with orphaned := true }
  have hslot : pool.slot = Function.update s.pool.slot h (some { u with orphaned := true }) :=
    slot_setTask hu _
  have hstate : ∀ i, pool.stateOf i = s.pool.stateOf i := by
    intro i
    rw [stateOf_update hslot]
    by_cases hi : i = h
    · rw [hi, Function.update_self, stateOf_eq hu]
    · rw [Function.update_of_ne hi]
  have hframe : ∀ i (P : Task F V → Prop), (∀ w : Task F V, P w → P { w with orphaned := true }) →
      (∃ w, s.pool.slot i = some w ∧ P w) → ∃ w, pool.slot i = some w ∧ P w := by
    rintro i P hP ⟨w, hw, hPw⟩
    rw [hslot]
    by_cases hi : i = h
    · subst hi
      rw [hu] at hw
      cases hw
      exact ⟨_, Function.update_self _ _ _, hP _ hPw⟩
    · exact ⟨w, (Function.update_of_ne hi _ _).trans hw, hPw⟩
  have hunf : ∀ i, pool.Unfinished i ↔ s.pool.Unfinished i := fun i => by
    unfold Unfinished
    rw [hstate]
  refine ⟨{ s with pool := pool }, ?_, .orphan hu hslot setTask_len rfl rfl, ?_⟩
  · unfold step asyncOrphan
    dsimp only
    rw [getTask_eq hu, ok_bind, ok_bind]
  refine ⟨hs.pool.setTask hu Iff.rfl rfl rfl, hs.graph, hs.front, (hstate _).trans hs.running,
    fun {i} hi => ?_, fun {i w} hw => ?_, fun {c p i} hc hun hp => ?_⟩
  · obtain ⟨w, hw⟩ := Option.isSome_iff_exists.mp (hs.mapped hi)
    obtain ⟨w', hw', -⟩ := hframe i (fun _ => True) (fun _ _ => trivial) ⟨w, hw, trivial⟩
    change (pool.slot i).isSome
    rw [hw']
    rfl
  · have hold : ∃ v, s.pool.slot i = some v ∧ v.state = w.state ∧ v.stackPtr = w.stackPtr := by
      change pool.slot i = some w at hw
      rw [hslot] at hw
      by_cases hi : i = h
      · subst hi
        rw [Function.update_self] at hw
        cases hw
        exact ⟨u, hu, rfl, rfl⟩
      · rw [Function.update_of_ne hi] at hw
        exact ⟨w, hw, rfl, rfl⟩
    obtain ⟨v, hv, hst, hptr⟩ := hold
    cases hs.phase hv with
    | free h1 h2 => exact .free (hst ▸ h1) h2
    | init h1 h2 h3 h4 => exact .init (hst ▸ h1) h2 h3 (hptr ▸ h4)
    | current h1 h2 => exact .current (hst ▸ h1) h2
    | skipped h1 h2 h3 h4 => exact .skipped (hst ▸ h1) h2 h3 (hptr ▸ h4)
    | suspended h1 h2 h3 h4 h5 h6 h7 =>
      exact .suspended (hst ▸ h1) h2 h3 (hptr ▸ h4) h5 h6
        (h7.imp_right (And.imp_right (hunf _).mpr))
    | ready h1 h2 h3 => exact .ready (hst ▸ h1) h2 h3
  · refine (hs.parent hc ((hunf i).mp hun) hp).imp_right ?_
    rintro ⟨j, hj, haway, hsus⟩
    refine ⟨j, hj, haway, hsus.away, ?_⟩
    exact hframe j (fun w => w.state = .running ∧ w.stackPtr = some (.graphWaitReady j c i))
      (fun _ hw => hw) hsus.frame

/-- `poll_state` reads the state of any slot of the pool. -/
theorem step_poll (hs : Inv s) (hu : s.pool.slot h = some u) :
    step s (.poll h) = .ok (.next s (.state u.state)) := by
  have hcur : SchedulerOps.currentTask s.sched = .ok s.running := hs.currentTask
  have hpoll : SchedulerOps.pollTask s.sched s.pool h = .ok u.state := by
    change TaskGraph.pollTask _ s.pool h = _
    unfold TaskGraph.pollTask
    rw [require_of (by have := slot_bounds hu; omega), ok_bind, load_slot hu, ok_bind]
  unfold step pollState
  simp only [hcur, ok_bind, hpoll, getTask_eq hu]

end Inv
end CAsync
