/-
# The life cycle of a slot

`INIT -> RUNNING -> READY -> FREE -> INIT` is what every writer of `Task.state` follows, except
`async_free` of a task that waits in `await`: such a task is in the map and not in the queue,
which is all that `graph_free_task` looks at, so a `RUNNING` task becomes `FREE`.

`life_cycle` says that this is the only exception.  A run that never frees a waiting task follows
the cycle, frees only `READY` tasks, and leaves slot 1 to `main`.

There are four writers: `start_new_task`, `async_switch`, `async_return` and `free_task`.  What a
call writes is in its effect, so section 2 is one case for each effect, and most of them write one
slot.  Two write more: a switch writes the slot of the next task too, which was `INIT` or
`RUNNING` because it was queued (`Inv.queued_state`); and `async_return` of an orphan sets
`READY`, then `FREE`, in one call, so the cycle is stated over the state in between
(`KeepsLifeCycle`).

The other direction is short: the call that frees a waiting task frees one that is `RUNNING`
(`Effect.freesNoWaiter`).  Section 3 is the run, and the slot of `main` is an invariant of it
(`main_slot`), since `main` never finishes and waits or runs all the time.
-/
import CAsync.Reachable

namespace CAsync

open Faulting TaskPool

variable {F V S : Type}

/-! ## 1. The cycle -/

/-- The edges of the cycle.  `none` is a slot that the pool does not have yet. -/
inductive Edge : Option State → Option State → Prop
  | create : Edge none (some .init)
  | start : Edge (some .init) (some .running)
  | finish : Edge (some .running) (some .ready)
  | release : Edge (some .ready) (some .free)
  | reuse : Edge (some .free) (some .init)

/-- Every slot keeps its state or takes one edge. -/
def Follows (p q : TaskPool F V) : Prop :=
  ∀ h, p.stateOf h = q.stateOf h ∨ Edge (p.stateOf h) (q.stateOf h)

theorem Follows.refl (p : TaskPool F V) : Follows p p := fun _ => .inl rfl

/-- The call `op` from `s` to `t` follows the cycle, and if it frees a task, that task was
`READY`.  `async_return` writes the state twice, so it is looked at where it has set `READY`. -/
def KeepsLifeCycle [SchedulerVTable S] (s : Runtime S F V) (op : Op F V) (t : Runtime S F V) :
    Prop :=
  (∃ mid : Runtime S F V, Follows s.pool mid.pool ∧ Follows mid.pool t.pool ∧
    (mid = s ∨ ∃ data fin next, op = .ret data ∧
      asyncReturnReady s data = .ok (.ready mid fin next))) ∧
  ∀ h, op = .free h → s.pool.stateOf h = some .ready

/-- The call does not free a task that waits in `await`. -/
def FreesNoWaiter (s : Runtime S F V) (op : Op F V) : Prop :=
  ∀ h, op = .free h → ¬ ∃ c k, Suspended s h c k

/-! ## 2. One call -/

theorem SwitchedTo.task_of_ne {t : Runtime S F V} {f : Handle → Option (Task F V)}
    {i next : Handle} {x : Option (Task F V)} {u : Task F V}
    (hsw : SwitchedTo t (Function.update f i x) next u) (hne : next ≠ i) : f next = some u := by
  have htask := hsw.task
  rwa [Function.update_of_ne hne] at htask

/-- A switch starts the next task, or finds it running. -/
theorem SwitchedTo.follows {p : TaskPool F V} {t : Runtime S F V}
    {slots : Handle → Option (Task F V)} {next : Handle} {u : Task F V}
    (hsw : SwitchedTo t slots next u) (hu : u.state = .init ∨ u.state = .running)
    (hnext : p.slot next = some u)
    (hp : ∀ i, i ≠ next → p.stateOf i = (slots i).map Task.state ∨
      Edge (p.stateOf i) ((slots i).map Task.state)) : Follows p t.pool := by
  intro i
  rw [hsw.stateOf]
  by_cases hi : i = next
  · rw [if_pos hi, hi, stateOf_eq hnext]
    rcases hu with h | h <;> rw [h]
    · exact .inr .start
    · exact .inl rfl
  · rw [if_neg hi]
    exact hp i hi

theorem leave_stateOf (s : Runtime S F V) (frame : Frame) (i : Handle) :
    (leave s frame i).map Task.state = s.pool.stateOf i := by
  unfold leave TaskPool.stateOf
  by_cases hi : i = s.running
  · rw [hi, Function.update_self, Option.map_map]
    rfl
  · rw [Function.update_of_ne hi]

/-- A task that the processor can go on with. -/
theorem Inv.queued_state {s : Runtime TaskGraph F V} (hs : Inv s) {h : Handle} {u : Task F V}
    (hh : h ∈ s.sched.tasks) (hne : h ≠ s.running) (hu : s.pool.slot h = some u) :
    u.state = .init ∨ u.state = .running := by
  obtain ⟨w, top, hw, hrun⟩ := hs.runnable hh hne
  rw [hu] at hw
  cases hw
  exact hrun.state

/-- **A call that frees no waiting task follows the cycle.** -/
theorem Effect.keepsLifeCycle {s t : Runtime TaskGraph F V} {op : Op F V} {r : Reply F V}
    (hs : Inv s) (heff : Effect s op r t) (hst : Next s (op, r) t) (hg : FreesNoWaiter s op) :
    KeepsLifeCycle s op t := by
  have hone : ∀ {op : Op F V}, Follows s.pool t.pool →
      (∀ h, op = .free h → s.pool.stateOf h = some .ready) → KeepsLifeCycle s op t :=
    fun hf hr => ⟨⟨s, .refl _, hf, .inl rfl⟩, hr⟩
  cases heff with
  | @call fn arg h u t new slot room =>
    refine hone (fun i => ?_) fun h hh => by cases hh
    rw [stateOf_update slot]
    by_cases hi : i = h
    · subst hi
      rw [Function.update_self, new.state]
      rcases room with ⟨hfree, -⟩ | ⟨hlen, -⟩
      · rw [hfree]
        exact .inr .reuse
      · have hnone : s.pool.slot i = none := slot_eq_none (hlen ▸ Nat.lt_succ_self _)
        unfold TaskPool.stateOf
        rw [hnone]
        exact .inr .create
    · rw [Function.update_of_ne hi]
      exact .inl rfl
  | alone _ same =>
    subst same
    exact hone (.refl _) fun h hh => by cases hh
  | @skip next rest u t queue _ switched =>
    have hne := hs.next_ne queue
    have hu := switched.task_of_ne hne
    refine hone (switched.follows (hs.queued_state (by simp [queue]) hne hu) hu fun i _ => ?_)
      fun h hh => by cases hh
    exact .inl (leave_stateOf s _ i).symm
  | @await h next rest p c u t queue _ _ _ _ _ switched =>
    have hne := hs.next_ne queue
    have hu := switched.task_of_ne hne
    refine hone (switched.follows (hs.queued_state (by simp [queue]) hne hu) hu fun i _ => ?_)
      fun h hh => by cases hh
    exact .inl (leave_stateOf s _ i).symm
  | @ret data next rest p v u t _ queue task _ _ _ switched =>
    have hne := hs.next_ne queue
    have hu := switched.task_of_ne hne
    obtain ⟨mid, fin, next', hmid⟩ := Inv.ready_of_next hst
    obtain ⟨-, w, -, hw, hslot, -⟩ := hs.asyncReturnReady_spec hmid
    rw [task] at hw
    cases hw
    have hrun := hs.running_state task
    refine ⟨⟨mid, fun i => ?_, ?_, .inr ⟨data, fin, next', rfl, hmid⟩⟩, fun h hh => by cases hh⟩
    · rw [stateOf_update hslot]
      by_cases hi : i = s.running
      · rw [hi, Function.update_self, stateOf_eq task, hrun]
        exact .inr .finish
      · rw [Function.update_of_ne hi]
        exact .inl rfl
    · refine switched.follows (hs.queued_state (by simp [queue]) hne hu)
        (by rw [hslot, Function.update_of_ne hne, hu]) fun i _ => ?_
      rw [stateOf_update hslot]
      by_cases hi : i = s.running
      · rw [hi, Function.update_self, Function.update_self, Option.map_some]
        unfold Task.finish
        split
        · exact .inr .release
        · exact .inl rfl
      · rw [Function.update_of_ne hi, Function.update_of_ne hi]
        exact .inl rfl
  | @wake data i rest c v t _ _ task _ _ _ _ _ slot =>
    have hrun := hs.running_state task
    refine hone (fun j => ?_) fun h hh => by cases hh
    rw [stateOf_update slot]
    by_cases hj : j = s.running
    · rw [hj, Function.update_self, stateOf_eq task, hrun]
      exact .inr .finish
    · rw [Function.update_of_ne hj]
      exact .inl rfl
  | @orphan h u t task slot =>
    refine hone (fun i => ?_) fun h hh => by cases hh
    rw [stateOf_update slot]
    by_cases hi : i = h
    · rw [hi, Function.update_self, stateOf_eq task]
      exact .inl rfl
    · rw [Function.update_of_ne hi]
      exact .inl rfl
  | @free h u t task stage _ slot =>
    have hready := stage.resolve_right (hg h rfl)
    refine hone (fun i => ?_) fun i hh => ?_
    · rw [stateOf_update slot]
      by_cases hi : i = h
      · rw [hi, Function.update_self, stateOf_eq task, hready]
        exact .inr .release
      · rw [Function.update_of_ne hi]
        exact .inl rfl
    · cases hh
      rw [stateOf_eq task, hready]
  | poll _ same =>
    subst same
    exact hone (.refl _) fun h hh => by cases hh

/-- Freeing a waiting task leaves the cycle. -/
theorem Effect.freesNoWaiter {s t : Runtime S F V} [SchedulerVTable S] {op : Op F V}
    (hk : KeepsLifeCycle s op t) : FreesNoWaiter s op := by
  rintro h rfl ⟨c, k, -, u, hu, hrun, -⟩
  have hready := hk.2 h rfl
  rw [stateOf_eq hu, hrun] at hready
  cases hready

/-- The slot of `main`, by a call that frees no waiting task. -/
theorem Effect.main {s t : Runtime TaskGraph F V} {op : Op F V} {r : Reply F V} (hs : Inv s)
    (heff : Effect s op r t) (hg : FreesNoWaiter s op) {u : Task F V}
    (hu : s.pool.slot ⟨1⟩ = some u) (hrun : u.state = .running) :
    ∃ w, t.pool.slot ⟨1⟩ = some w ∧ w.state = .running ∧ w.fn = u.fn := by
  have hswitch : ∀ {slots : Handle → Option (Task F V)} {next : Handle} {v w : Task F V},
      SwitchedTo t slots next v → slots ⟨1⟩ = some w → w.state = .running → w.fn = u.fn →
      ∃ w, t.pool.slot ⟨1⟩ = some w ∧ w.state = .running ∧ w.fn = u.fn := by
    intro slots next v w hsw hw hwr hwf
    rw [hsw.slot]
    by_cases h1 : (⟨1⟩ : Handle) = next
    · rw [← h1, Function.update_self]
      have htask := hsw.task
      rw [← h1, hw] at htask
      cases htask
      exact ⟨_, rfl, rfl, hwf⟩
    · rw [Function.update_of_ne h1]
      exact ⟨w, hw, hwr, hwf⟩
  have hleave : ∀ frame, ∃ w, leave s frame ⟨1⟩ = some w ∧ w.state = .running ∧ w.fn = u.fn := by
    intro frame
    unfold leave
    by_cases h1 : (⟨1⟩ : Handle) = s.running
    · rw [← h1, Function.update_self, hu]
      exact ⟨_, rfl, hrun, rfl⟩
    · rw [Function.update_of_ne h1]
      exact ⟨u, hu, hrun, rfl⟩
  have hkeep : ∀ {h : Handle} {x : Option (Task F V)},
      t.pool.slot = Function.update s.pool.slot h x → h ≠ ⟨1⟩ →
      ∃ w, t.pool.slot ⟨1⟩ = some w ∧ w.state = .running ∧ w.fn = u.fn := by
    intro h x hslot h1
    rw [hslot, Function.update_of_ne (Ne.symm h1)]
    exact ⟨u, hu, hrun, rfl⟩
  cases heff with
  | @call fn arg h u' t _ slot _ fresh =>
    refine hkeep slot ?_
    rintro rfl
    have hsome := hs.nodeOf_isSome.mpr ⟨u, hu, by rw [hrun]; decide⟩
    rw [fresh] at hsome
    cases hsome
  | alone _ same =>
    subst same
    exact ⟨u, hu, hrun, rfl⟩
  | skip _ _ switched =>
    obtain ⟨w, hw, hwr, hwf⟩ := hleave .asyncSkip
    exact hswitch switched hw hwr hwf
  | await _ _ _ _ _ _ switched =>
    obtain ⟨w, hw, hwr, hwf⟩ := hleave _
    exact hswitch switched hw hwr hwf
  | ret notMain _ _ _ _ _ switched =>
    refine hswitch switched ?_ hrun rfl
    rw [Function.update_of_ne (fun h => notMain (congrArg Handle.idx h.symm)), hu]
  | wake notMain _ _ _ _ _ _ _ slot =>
    exact hkeep slot fun h => notMain (congrArg Handle.idx h)
  | @orphan h u' t task slot =>
    by_cases h1 : h = ⟨1⟩
    · subst h1
      rw [hu] at task
      cases task
      rw [slot, Function.update_self]
      exact ⟨_, rfl, hrun, rfl⟩
    · exact hkeep slot h1
  | @free h u' t task stage _ slot =>
    refine hkeep slot ?_
    rintro rfl
    rw [hu] at task
    cases task
    rw [hrun] at stage
    rcases stage with hst | hst
    · cases hst
    · exact hg _ rfl hst
  | poll _ same =>
    subst same
    exact ⟨u, hu, hrun, rfl⟩

/-! ## 3. Every run -/

/-- Slot 1 is `main`'s for the whole run. -/
theorem main_slot {mainFn : F} {arg : V} {l : List (Op F V × Reply F V)}
    {s : Runtime TaskGraph F V}
    (hs : Steps (Guarded FreesNoWaiter) (started mainFn arg) l s) :
    Inv s ∧ ∃ w, s.pool.slot ⟨1⟩ = some w ∧ w.state = .running ∧ w.fn = mainFn := by
  refine hs.invariant (I := fun s => Inv s ∧
    ∃ w, s.pool.slot ⟨1⟩ = some w ∧ w.state = .running ∧ w.fn = mainFn)
    (fun s x t hi hst => ?_) ⟨started_inv mainFn arg, _, rfl, rfl, rfl⟩
  obtain ⟨hinv, u, hu, hrun, hfn⟩ := hi
  obtain ⟨heff, hinv'⟩ := hinv.effect hst.1
  obtain ⟨w, hw, hwr, hwf⟩ := heff.main hinv hst.2 hu hrun
  exact ⟨hinv', w, hw, hwr, hwf.trans hfn⟩

/-- **The life cycle.**  In a run that has not freed a waiting task, slot 1 is `main`'s, and the
next call follows the cycle, and frees a task only if it is `READY`, if and only if it does not
free a waiting task either. -/
theorem life_cycle (mainFn : F) (arg : V) {s₀ s t : Runtime Graph F V}
    {l : List (Op F V × Reply F V)} {op : Op F V} {r : Reply F V}
    (h₀ : runAsyncMain mainFn arg = .ok (.next s₀ (.start mainFn arg)))
    (hs : Steps (Guarded FreesNoWaiter) s₀ l s) (hst : Next s (op, r) t) :
    (KeepsLifeCycle s op t ↔ FreesNoWaiter s op) ∧
      ∃ w, s.pool.slot ⟨1⟩ = some w ∧ w.state = .running ∧ w.fn = mainFn := by
  have hrun := graphRefines.runAsyncMain mainFn arg
  rw [h₀, runAsyncMain_eq] at hrun
  have hsame : SameRuntime TaskGraph.Represents s₀ (started mainFn arg) := by
    cases hrun with
    | ok h =>
      cases h with
      | next _ h => exact h
  have hguard : ∀ {s : Runtime Graph F V} {a : Runtime TaskGraph F V} (op : Op F V),
      SameRuntime TaskGraph.Represents s a → FreesNoWaiter s op → FreesNoWaiter a op := by
    intro s a op hsa hg h hh hsus
    obtain ⟨c, k, hsus⟩ := hsus
    exact hg h hh ⟨c, k, hsa.suspended.mpr hsus⟩
  obtain ⟨a, ha, hsa⟩ := graphRefines.guarded hguard hsame hs
  obtain ⟨hinv, w, hw, hwr, hwf⟩ := main_slot ha
  obtain ⟨b, hab, htb⟩ := graphRefines.next hsa hst
  obtain ⟨heff, -⟩ := hinv.effect hab
  refine ⟨⟨Effect.freesNoWaiter, fun hg => ?_⟩, w, by rw [hsa.pool]; exact hw, hwr, hwf⟩
  obtain ⟨⟨mid, hf₁, hf₂, hmid⟩, hready⟩ := heff.keepsLifeCycle hinv hab (hguard op hsa hg)
  refine ⟨?_, fun h hh => by rw [hsa.pool]; exact hready h hh⟩
  rcases hmid with rfl | ⟨data, fin, next, rfl, hok⟩
  · refine ⟨s, .refl _, ?_, .inl rfl⟩
    rw [hsa.pool, htb.pool]
    exact hf₂
  · have hlock := graphRefines.asyncReturnReady hsa data
    rw [hok] at hlock
    obtain ⟨x, hx, hrel⟩ := hlock.ok_right
    cases hrel with
    | @ready mid' _ _ _ hmid' =>
      refine ⟨mid', ?_, ?_, .inr ⟨data, fin, next, rfl, hx⟩⟩
      · rw [hsa.pool, hmid'.pool]
        exact hf₁
      · rw [htb.pool, hmid'.pool]
        exact hf₂

/-- `main` calls a task, awaits it and frees it. -/
theorem life_cycle_freed : ∃ s₀ s t : Runtime Graph Nat Nat,
    Steps (Guarded FreesNoWaiter) s₀ [(.call 7 0, .handle ⟨2⟩), (.await ⟨2⟩, .start 7 0),
      (.ret 5, .await 5)] s ∧ Next s (.free ⟨2⟩, .done) t ∧
    s.pool.stateOf ⟨2⟩ = some .ready ∧ t.pool.stateOf ⟨2⟩ = some .free ∧
    KeepsLifeCycle s (.free ⟨2⟩) t ∧
    ∃ w, s.pool.slot ⟨1⟩ = some w ∧ w.state = .running ∧ w.fn = 0 := by
  obtain ⟨s₀, s, t, h₀, hs, hst, hready, hfree⟩ : ∃ s₀ s t : Runtime Graph Nat Nat,
      runAsyncMain 0 0 = .ok (.next s₀ (.start 0 0)) ∧
      Steps (Guarded FreesNoWaiter) s₀ [(.call 7 0, .handle ⟨2⟩), (.await ⟨2⟩, .start 7 0),
        (.ret 5, .await 5)] s ∧ Next s (.free ⟨2⟩, .done) t ∧
      s.pool.stateOf ⟨2⟩ = some .ready ∧ t.pool.stateOf ⟨2⟩ = some .free := by
    refine ⟨_, _, _, rfl, .cons ⟨rfl, ?_⟩ (.cons ⟨rfl, ?_⟩ (.single ⟨rfl, ?_⟩)), rfl, rfl, rfl⟩
    · intro h he
      cases he
    · intro h he
      cases he
    · intro h he
      cases he
  obtain ⟨hiff, hmain⟩ := life_cycle 0 0 h₀ hs hst
  refine ⟨s₀, s, t, hs, hst, hready, hfree, hiff.mpr ?_, hmain⟩
  rintro h he ⟨c, k, -, u, hu, hrun, -⟩
  cases he
  rw [stateOf_eq hu, hrun] at hready
  cases hready

/-- `main` calls a task and awaits it, and the task frees `main`, which is `RUNNING`. -/
theorem free_of_waiting_main : ∃ (l : List (Op Nat Nat × Reply Nat Nat))
    (s t : Runtime Graph Nat Nat), Reached l s ∧ Next s (.free ⟨1⟩, .done) t ∧
      s.pool.stateOf ⟨1⟩ = some .running ∧ t.pool.stateOf ⟨1⟩ = some .free :=
  ⟨[(.call 7 0, .handle ⟨2⟩), (.await ⟨2⟩, .start 7 0)], _, _,
    ⟨_, ⟨0, 0, rfl⟩, .cons rfl (.cons rfl (.refl _))⟩, rfl, rfl, rfl⟩

end CAsync
