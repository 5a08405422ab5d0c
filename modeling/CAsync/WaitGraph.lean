/-
# Who waits for whom

A run that frees finished tasks only is a run of a queue with waiting (`WaitQueue`): a task waits
for the child it is suspended on, and every call is one event of the queue.  So the waiting tasks
form a forest over the run queue, in every state of such a run (`Tame`).

The graph of the scheduler is in two places, and the invariant has to tie them together.  `parent`
is the graph of the nodes, which only `graph_wait_ready` writes; `Waits` is the graph of the
stacks: the task `i` left the processor in `graph_wait_ready`, waiting for `k`.
`graph_finish_task` follows the first, and what the code means is the second.

* §1 says what one call does to the second graph.  Who waits after a call is who waited before it
  and was not resumed, and the running task if the call was `await` (`Effect.suspended`); a
  suspended task is resumed by the end of the task it waits for, and by nothing else
  (`Effect.resumed`).  The nodes stay with their tasks meanwhile: the task it waits for is
  unfinished, so its node is not freed (`Effect.keeps`, `Effect.kept`), and a parent is the
  running task's or an old one (`Effect.parent_of`).
* §2 puts the two graphs together in `Tame`: every suspended task waits for an unfinished child,
  and the parent of the node of an unfinished task is suspended and waits for it.  With that, each
  call is one event of the queue (`Tame.event`): a task arrives at the end, or goes there, or
  leaves to wait for one behind it, or ends, and the one that waits for it takes its place.  What
  the forest is, and that each event keeps it, is a theorem about such queues (`WaitQueue.step`).

A call that frees a task which waits would take its node away and leave its stack, and the
invariant is lost with it: the child's parent is a node that belongs to nobody.  That is the
condition of `FreesFinished`, and the reason why it is about the call and not about what the call
does.
-/
import CAsync.LifeCycle
import CAsync.Lib.WaitQueue

namespace CAsync

open Faulting TaskPool

variable {F V S : Type}

/-- The task `i` is suspended in `graph_wait_ready`, waiting for `k`. -/
def Waits (s : Runtime S F V) (i k : Handle) : Prop := ∃ c, Suspended s i c k

theorem SameRuntime.waits {S' : Type} {Rep : S → S' → Prop} {s : Runtime S F V}
    {a : Runtime S' F V} (h : SameRuntime Rep s a) : Waits s = Waits a := by
  funext i k
  exact propext (exists_congr fun _ => h.suspended)

/-- The call frees a task only if it has finished. -/
def FreesFinished (s : Runtime S F V) (op : Op F V) : Prop :=
  ∀ h, op = .free h → s.pool.stateOf h = some .ready

/-- A call by which the running task gives up the front of the queue. -/
def Op.schedules : Op F V → Bool
  | .skip | .await _ | .ret _ => true
  | .call _ _ | .orphan _ | .free _ | .poll _ => false

theorem FreesFinished.freesNoWaiter {s : Runtime S F V} {op : Op F V} (hg : FreesFinished s op) :
    FreesNoWaiter s op := by
  rintro h rfl ⟨c, k, -, u, hu, hrun, -⟩
  have hready := hg h rfl
  rw [stateOf_eq hu, hrun] at hready
  cases hready

/-! ## 1. What a call does to the waiting tasks -/

/-- Whether a task waits depends on its state and its saved stack. -/
theorem suspended_of_update {s t : Runtime S F V} {h : Handle} {v : Task F V}
    (slot : t.pool.slot = Function.update s.pool.slot h (some v)) (running : t.running = s.running)
    (hv : ∀ c k, Suspended s h c k ↔ h ≠ s.running ∧ v.state = .running ∧
      v.stackPtr = some (.graphWaitReady h c k)) {i k : Handle} {c : Nat} :
    Suspended t i c k ↔ Suspended s i c k := by
  by_cases hi : i = h
  · subst hi
    rw [hv]
    constructor
    · rintro ⟨haway, u, hu, hrun, hframe⟩
      rw [slot, Function.update_self] at hu
      cases hu
      exact ⟨by rwa [running] at haway, hrun, hframe⟩
    · rintro ⟨haway, hrun, hframe⟩
      exact ⟨by rwa [running], v, by rw [slot, Function.update_self], hrun, hframe⟩
  · constructor
    · rintro ⟨haway, hframe⟩
      rw [slot, Function.update_of_ne hi] at hframe
      exact ⟨by rwa [running] at haway, hframe⟩
    · rintro ⟨haway, hframe⟩
      refine ⟨by rwa [running], ?_⟩
      rwa [slot, Function.update_of_ne hi]

/-- After a switch the running task, left as `v`, may wait; the next one does not. -/
theorem SwitchedTo.suspended {s t : Runtime S F V} {next : Handle} {u v : Task F V}
    (hsw : SwitchedTo t (Function.update s.pool.slot s.running (some v)) next u)
    (hne : next ≠ s.running) {i k : Handle} {c : Nat} :
    Suspended t i c k ↔ Suspended s i c k ∧ i ≠ t.running ∨
      i = s.running ∧ v.state = .running ∧ v.stackPtr = some (.graphWaitReady i c k) := by
  have hrun := hsw.running
  by_cases hi : i = s.running
  · subst hi
    have hslot : t.pool.slot s.running = some v := by
      rw [hsw.slot, Function.update_of_ne (Ne.symm hne), Function.update_self]
    constructor
    · rintro ⟨-, w, hw, hstate, hframe⟩
      rw [hslot] at hw
      cases hw
      exact .inr ⟨rfl, hstate, hframe⟩
    · rintro (⟨⟨haway, -⟩, -⟩ | ⟨-, hstate, hframe⟩)
      · exact absurd rfl haway
      · exact ⟨by rw [hrun]; exact Ne.symm hne, v, hslot, hstate, hframe⟩
  · constructor
    · rintro ⟨haway, hframe⟩
      have hin : i ≠ next := by rwa [hrun] at haway
      rw [hsw.slot, Function.update_of_ne hin, Function.update_of_ne hi] at hframe
      exact .inl ⟨⟨hi, hframe⟩, haway⟩
    · rintro (⟨⟨-, hframe⟩, haway⟩ | ⟨h, -⟩)
      · have hin : i ≠ next := by rwa [hrun] at haway
        refine ⟨haway, ?_⟩
        rwa [hsw.slot, Function.update_of_ne hin, Function.update_of_ne hi]
      · exact absurd h hi

/-- Going on with a suspended task is a switch to it. -/
theorem Suspended.switchedTo {s t : Runtime S F V} {j k : Handle} {d : Nat} {v : Task F V}
    (hj : Suspended s j d k) (slot : t.pool.slot = Function.update s.pool.slot s.running (some v))
    (running : t.running = j) :
    ∃ w, SwitchedTo t (Function.update s.pool.slot s.running (some v)) j w := by
  obtain ⟨haway, w, hw, hrun, -⟩ := hj
  have hslot : Function.update s.pool.slot s.running (some v) j = some w := by
    rw [Function.update_of_ne haway, hw]
  refine ⟨w, hslot, ?_, running⟩
  rw [slot, Task.run_eq hrun, eq_comm, Function.update_eq_self_iff, hslot]

/-- A suspended task is not queued, and it is the parent of the node it waits for. -/
theorem Inv.of_suspended {s : Runtime TaskGraph F V} (hs : Inv s) {i k : Handle} {c : Nat}
    (h : Suspended s i c k) :
    i ∉ s.sched.tasks ∧ ∃ r, s.sched.nodeOf i.idx = some r ∧ s.sched.parent c = some r := by
  refine ⟨fun hi => hs.not_suspended hi h, ?_⟩
  obtain ⟨haway, u, hu, hrun, hframe⟩ := h
  cases hs.phase hu with
  | free h1 => simp [h1] at hrun
  | init h1 => simp [h1] at hrun
  | current _ h2 => exact absurd h2 haway
  | skipped _ _ _ h4 => simp [h4] at hframe
  | suspended _ _ _ h4 h5 h6 =>
    rw [h4] at hframe
    cases hframe
    exact ⟨_, h5, h6⟩
  | ready h1 => simp [h1] at hrun

namespace Effect

variable {s t : Runtime TaskGraph F V} {op : Op F V} {r : Reply F V} {i h k : Handle} {c p : Nat}

/-- **Who waits after a call**: those who waited and were not resumed, and the running task if
the call was `await`. -/
theorem suspended (hs : Inv s) (heff : Effect s op r t) (hg : FreesFinished s op) :
    Suspended t i c k ↔ Suspended s i c k ∧ i ≠ t.running ∨
      op = .await k ∧ i = s.running ∧ s.sched.nodeOf k.idx = some c := by
  have hkeep : (∀ k, op ≠ .await k) → t.running = s.running →
      (Suspended t i c k ↔ Suspended s i c k) →
      (Suspended t i c k ↔ Suspended s i c k ∧ i ≠ t.running ∨
        op = .await k ∧ i = s.running ∧ s.sched.nodeOf k.idx = some c) := by
    intro hop hrun hiff
    rw [hiff, hrun]
    exact ⟨fun h => .inl ⟨h, h.away⟩, fun h => h.elim And.left fun h => absurd h.1 (hop k)⟩
  cases heff with
  | @call fn arg h u t new slot room fresh _ running =>
    refine hkeep (fun k => by simp) running (suspended_of_update slot running fun c k => ?_)
    constructor
    · intro hsus
      obtain ⟨-, r, hr, -⟩ := hs.of_suspended hsus
      rw [fresh] at hr
      cases hr
    · rintro ⟨-, hrun, -⟩
      rw [new.state] at hrun
      cases hrun
  | alone _ same =>
    subst same
    exact hkeep (fun k => by simp) rfl Iff.rfl
  | @skip next rest u t queue tasks switched =>
    obtain ⟨w, hw, hwr⟩ := hs.running_task
    rw [leave_eq hw] at switched
    rw [switched.suspended (hs.next_ne queue)]
    refine or_congr Iff.rfl ⟨?_, ?_⟩
    · rintro ⟨-, -, hframe⟩
      cases hframe
    · rintro ⟨hop, -⟩
      cases hop
  | @await h next rest p d u t queue child node _ _ _ switched =>
    obtain ⟨w, hw, hwr⟩ := hs.running_task
    rw [leave_eq hw] at switched
    rw [switched.suspended (hs.next_ne queue)]
    refine or_congr Iff.rfl ⟨?_, ?_⟩
    · rintro ⟨rfl, -, hframe⟩
      cases hframe
      exact ⟨rfl, rfl, node⟩
    · rintro ⟨hop, rfl, hc⟩
      cases hop
      rw [node] at hc
      cases hc
      exact ⟨rfl, hwr, rfl⟩
  | @ret data next rest p v u t notMain queue task _ _ _ switched =>
    rw [switched.suspended (hs.next_ne queue)]
    refine or_congr Iff.rfl ⟨?_, ?_⟩
    · rintro ⟨-, hrun, -⟩
      unfold Task.finish at hrun
      split at hrun <;> cases hrun
    · rintro ⟨hop, -⟩
      cases hop
  | @wake data j rest d v t _ _ task _ _ waiting _ _ slot running =>
    obtain ⟨w, hsw⟩ := waiting.switchedTo slot running
    rw [hsw.suspended waiting.away]
    refine or_congr Iff.rfl ⟨?_, ?_⟩
    · rintro ⟨-, hrun, -⟩
      cases hrun
    · rintro ⟨hop, -⟩
      cases hop
  | @orphan h u t task slot _ running =>
    refine hkeep (fun k => by simp) running (suspended_of_update slot running fun c k => ?_)
    constructor
    · rintro ⟨haway, u', hu', hframe⟩
      rw [task] at hu'
      cases hu'
      exact ⟨haway, hframe⟩
    · rintro ⟨haway, hframe⟩
      exact ⟨haway, u, task, hframe⟩
  | @free h u t task _ _ slot _ running =>
    refine hkeep (fun k => by simp) running (suspended_of_update slot running fun c k => ?_)
    constructor
    · rintro ⟨-, u', hu', hrun, -⟩
      have hready := hg h rfl
      rw [stateOf_eq hu', hrun] at hready
      cases hready
    · rintro ⟨-, hrun, -⟩
      cases hrun
  | poll _ same =>
    subst same
    exact hkeep (fun k => by simp) rfl Iff.rfl

/-- **A suspended task is resumed by the end of the task it waits for**, and by nothing else. -/
theorem resumed (hs : Inv s) (heff : Effect s op r t) (h : Suspended s i c k)
    (hi : t.running = i) :
    ∃ data v rest, op = .ret data ∧ r = .await data ∧ k = s.running ∧
      s.pool.slot k = some v ∧ t.pool.slot k = some { v with data := data, state := .ready } ∧
      s.sched.tasks = s.running :: rest ∧ t.sched.tasks = i :: rest := by
  have haway := h.away
  have hnotin := (hs.of_suspended h).1
  cases heff with
  | call _ _ _ _ _ running => exact absurd (hi.symm.trans running) haway
  | alone _ same =>
    subst same
    exact absurd hi.symm haway
  | skip queue _ switched =>
    rw [← switched.running, hi] at queue
    exact absurd (by simp [queue]) hnotin
  | await queue _ _ _ _ _ switched =>
    rw [← switched.running, hi] at queue
    exact absurd (by simp [queue]) hnotin
  | ret _ queue _ _ _ _ switched =>
    rw [← switched.running, hi] at queue
    exact absurd (by simp [queue]) hnotin
  | @wake data j rest d v t _ queue task _ _ waiting _ tasks slot running =>
    obtain rfl : i = j := hi.symm.trans running
    obtain ⟨-, u, hu, -, hframe⟩ := h
    obtain ⟨-, u', hu', -, hframe'⟩ := waiting
    rw [hu] at hu'
    cases hu'
    rw [hframe] at hframe'
    cases hframe'
    exact ⟨data, v, rest, rfl, rfl, rfl, task, by rw [slot, Function.update_self], queue, tasks⟩
  | orphan _ _ _ running => exact absurd (hi.symm.trans running) haway
  | free _ _ _ _ _ running => exact absurd (hi.symm.trans running) haway
  | poll _ same =>
    subst same
    exact absurd hi.symm haway

/-- A call other than `async_return` changes the state of no unfinished task but to start it, and
keeps its node. -/
theorem keeps (hs : Inv s) (heff : Effect s op r t) (hg : FreesFinished s op)
    (hk : s.pool.Unfinished k) (hret : k = s.running → ∀ data, op ≠ .ret data) :
    t.pool.Unfinished k ∧ t.sched.nodeOf k.idx = s.sched.nodeOf k.idx := by
  have hsome : (s.sched.nodeOf k.idx).isSome := by
    refine hs.nodeOf_isSome.mpr ?_
    rcases hk with hk | hk <;> obtain ⟨u, hu, hst⟩ := stateOf_eq_some.mp hk <;>
      exact ⟨u, hu, by rw [hst]; decide⟩
  -- the state after a switch from slots with the old states
  have hswitch : ∀ {slots : Handle → Option (Task F V)} {next : Handle} {u : Task F V},
      SwitchedTo t slots next u → (slots k).map Task.state = s.pool.stateOf k →
      t.pool.Unfinished k := by
    intro slots next u hsw hslots
    unfold Unfinished
    rw [hsw.stateOf, hslots]
    split
    · exact .inr rfl
    · exact hk
  have hother : ∀ {i : Handle} {x : Option (Task F V)}, k ≠ i →
      (Function.update s.pool.slot i x k).map Task.state = s.pool.stateOf k := by
    intro i x hki
    rw [Function.update_of_ne hki]
    rfl
  cases heff with
  | @call fn arg h u t _ slot _ fresh _ _ nodeOf =>
    have hkh : k ≠ h := by
      rintro rfl
      rw [fresh] at hsome
      cases hsome
    refine ⟨?_, by rw [nodeOf, Function.update_of_ne fun e => hkh (Handle.eq_of_idx e)]⟩
    unfold Unfinished
    rw [stateOf_update slot, Function.update_of_ne hkh]
    exact hk
  | alone _ same =>
    subst same
    exact ⟨hk, rfl⟩
  | skip _ _ switched _ nodeOf =>
    exact ⟨hswitch switched (leave_stateOf s _ k), by rw [nodeOf]⟩
  | await _ _ _ _ _ _ switched _ nodeOf =>
    exact ⟨hswitch switched (leave_stateOf s _ k), by rw [nodeOf]⟩
  | @ret data next rest p v u t _ _ _ _ _ _ switched _ nodeOf =>
    have hkr : k ≠ s.running := fun h => hret h data rfl
    refine ⟨hswitch switched (hother hkr), ?_⟩
    rw [nodeOf]
    split
    · rw [Function.update_of_ne fun e => hkr (Handle.eq_of_idx e)]
    · rfl
  | @wake data j rest d v t _ _ _ _ _ _ _ _ slot _ _ nodeOf =>
    have hkr : k ≠ s.running := fun h => hret h data rfl
    refine ⟨?_, by rw [nodeOf]⟩
    unfold Unfinished
    rw [stateOf_update slot, Function.update_of_ne hkr]
    exact hk
  | @orphan h u t task slot _ _ sched =>
    refine ⟨?_, by rw [sched]⟩
    unfold Unfinished
    rw [stateOf_update slot]
    by_cases hkh : k = h
    · rw [hkh, Function.update_self]
      unfold Unfinished at hk
      rwa [hkh, stateOf_eq task] at hk
    · rw [Function.update_of_ne hkh]
      exact hk
  | @free h u t task _ _ slot _ _ _ nodeOf =>
    have hkh : k ≠ h := by
      rintro rfl
      have hready := hg k rfl
      rcases hk with hk | hk <;> rw [hready] at hk <;> cases hk
    refine ⟨?_, by rw [nodeOf, Function.update_of_ne fun e => hkh (Handle.eq_of_idx e)]⟩
    unfold Unfinished
    rw [stateOf_update slot, Function.update_of_ne hkh]
    exact hk
  | poll _ same =>
    subst same
    exact ⟨hk, rfl⟩

/-- An unfinished task after a call was there before it, or is new and has a node without a
parent. -/
theorem kept (hs : Inv s) (heff : Effect s op r t) (hk : t.pool.Unfinished k)
    (hc : t.sched.nodeOf k.idx = some c) :
    s.pool.Unfinished k ∧ s.sched.nodeOf k.idx = some c ∧
        (k = s.running → ∀ data, op ≠ .ret data) ∨ t.sched.parent c = none := by
  have hswitch : ∀ {slots : Handle → Option (Task F V)} {next : Handle} {rest : List Handle}
      {u : Task F V}, s.sched.tasks = s.running :: next :: rest → SwitchedTo t slots next u →
      (slots k).map Task.state = s.pool.stateOf k → s.pool.Unfinished k := by
    intro slots next rest u hq hsw hslots
    unfold Unfinished at hk
    rw [hsw.stateOf, hslots] at hk
    split at hk
    · rename_i h
      rw [h]
      exact hs.unfinished (by rw [hq]; simp)
    · exact hk
  cases heff with
  | @call fn arg h u t _ slot _ _ _ _ nodeOf parent =>
    by_cases hkh : k = h
    · rw [nodeOf, hkh, Function.update_self, Option.some.injEq] at hc
      exact .inr (by rw [parent, ← hc, Function.update_self])
    · rw [nodeOf, Function.update_of_ne fun e => hkh (Handle.eq_of_idx e)] at hc
      unfold Unfinished at hk
      rw [stateOf_update slot, Function.update_of_ne hkh] at hk
      exact .inl ⟨hk, hc, fun _ _ h => by cases h⟩
  | alone _ same =>
    subst same
    exact .inl ⟨hk, hc, fun _ _ h => by cases h⟩
  | skip queue _ switched _ nodeOf =>
    rw [nodeOf] at hc
    exact .inl ⟨hswitch queue switched (leave_stateOf s _ k), hc, fun _ _ h => by cases h⟩
  | await queue _ _ _ _ _ switched _ nodeOf =>
    rw [nodeOf] at hc
    exact .inl ⟨hswitch queue switched (leave_stateOf s _ k), hc, fun _ _ h => by cases h⟩
  | @ret data next rest p v u t _ queue task _ _ _ switched _ nodeOf =>
    have hkr : k ≠ s.running := by
      rintro rfl
      unfold Unfinished at hk
      rw [switched.stateOf, if_neg (Ne.symm (hs.next_ne queue)), Function.update_self] at hk
      unfold Task.finish at hk
      split at hk <;> simp at hk
    refine .inl ⟨hswitch queue switched ?_, ?_, fun h => absurd h hkr⟩
    · rw [Function.update_of_ne hkr]
      rfl
    · rw [nodeOf] at hc
      split at hc
      · rwa [Function.update_of_ne fun e => hkr (Handle.eq_of_idx e)] at hc
      · exact hc
  | @wake data j rest d v t _ _ _ _ _ _ _ _ slot _ _ nodeOf =>
    unfold Unfinished at hk
    rw [stateOf_update slot] at hk
    have hkr : k ≠ s.running := by
      rintro rfl
      rw [Function.update_self] at hk
      simp at hk
    rw [Function.update_of_ne hkr] at hk
    exact .inl ⟨hk, by rwa [nodeOf] at hc, fun h => absurd h hkr⟩
  | @orphan h u t task slot _ _ sched =>
    unfold Unfinished at hk
    rw [stateOf_update slot] at hk
    refine .inl ⟨?_, by rwa [sched] at hc, fun _ _ h => by cases h⟩
    by_cases hkh : k = h
    · rw [hkh, Function.update_self] at hk
      unfold Unfinished
      rw [hkh, stateOf_eq task]
      exact hk
    · rwa [Function.update_of_ne hkh] at hk
  | @free h u t task _ _ slot _ _ _ nodeOf =>
    unfold Unfinished at hk
    rw [stateOf_update slot] at hk
    have hkh : k ≠ h := by
      rintro rfl
      rw [Function.update_self] at hk
      simp at hk
    rw [Function.update_of_ne hkh] at hk
    rw [nodeOf, Function.update_of_ne fun e => hkh (Handle.eq_of_idx e)] at hc
    exact .inl ⟨hk, hc, fun _ _ h => by cases h⟩
  | poll _ same =>
    subst same
    exact .inl ⟨hk, hc, fun _ _ h => by cases h⟩

/-- A node gets its parent by the `await` of its task. -/
theorem parent_of (heff : Effect s op r t) (hp : t.sched.parent c = some p) :
    s.sched.parent c = some p ∨ ∃ h, op = .await h ∧ s.sched.nodeOf h.idx = some c ∧
      s.sched.nodeOf s.running.idx = some p := by
  cases heff with
  | @call fn arg h u t _ _ _ _ _ _ _ parent =>
    rw [parent] at hp
    by_cases hc : c = s.sched.fresh
    · rw [hc, Function.update_self] at hp
      cases hp
    · rw [Function.update_of_ne hc] at hp
      exact .inl hp
  | alone _ same =>
    subst same
    exact .inl hp
  | skip _ _ _ _ _ parent => exact .inl (by rwa [parent] at hp)
  | @await h next rest q d u t _ _ node _ waiter _ _ _ _ parent =>
    rw [parent] at hp
    by_cases hc : c = d
    · rw [hc, Function.update_self, Option.some.injEq] at hp
      rw [← hp, hc]
      exact .inr ⟨h, rfl, node, waiter⟩
    · rw [Function.update_of_ne hc] at hp
      exact .inl hp
  | ret _ _ _ _ _ _ _ _ _ parent => exact .inl (by rwa [parent] at hp)
  | wake _ _ _ _ _ _ _ _ _ _ _ _ parent => exact .inl (by rwa [parent] at hp)
  | orphan _ _ _ _ sched => exact .inl (by rwa [sched] at hp)
  | free _ _ _ _ _ _ _ _ parent => exact .inl (by rwa [parent] at hp)
  | poll _ same =>
    subst same
    exact .inl hp

end Effect

/-! ## 2. The forest -/

/-- The run queue and the waiting tasks. -/
def waitQueue (s : Runtime TaskGraph F V) : WaitQueue Handle := ⟨s.sched.tasks, Waits s⟩

/-- **The invariant of a run that frees finished tasks only**: every suspended task waits for an
unfinished child, every parent of an unfinished task waits for it, and the waiting tasks form a
forest over the run queue. -/
structure Tame (s : Runtime TaskGraph F V) : Prop where
  inv : Inv s
  child : ∀ {i c k}, Suspended s i c k → s.sched.nodeOf k.idx = some c ∧ s.pool.Unfinished k
  parent : ∀ {c p h}, s.sched.nodeOf h.idx = some c → s.pool.Unfinished h →
    s.sched.parent c = some p → ∃ i, s.sched.nodeOf i.idx = some p ∧ Suspended s i c h
  forest : (waitQueue s).WellFormed

namespace Tame

variable {s t : Runtime TaskGraph F V} {op : Op F V} {r : Reply F V} {i h k : Handle} {c : Nat}

/-- Nobody waits for a task whose node has no parent. -/
theorem unawaited (hs : Tame s) (hc : s.sched.nodeOf h.idx = some c)
    (hp : s.sched.parent c = none) (i : Handle) : ¬ Waits s i h := by
  rintro ⟨d, hsus⟩
  obtain ⟨-, q, -, hq⟩ := hs.inv.of_suspended hsus
  have hd := (hs.child hsus).1
  rw [hc] at hd
  cases hd
  rw [hp] at hq
  cases hq

/-- **Every call is an event of the queue.** -/
theorem event (hs : Tame s) (heff : Effect s op r t) (hg : FreesFinished s op) :
    WaitQueue.Step (waitQueue s) op.schedules (waitQueue t) := by
  have hsus := fun i c k => heff.suspended hs.inv hg (i := i) (c := c) (k := k)
  -- no task is resumed, and none begins to wait
  have hsame : (∀ k, op ≠ .await k) → (∀ i k, Waits s i k → i ≠ t.running) →
      ∀ i k, Waits t i k ↔ Waits s i k := by
    intro hop hres i k
    unfold Waits
    constructor
    · rintro ⟨c, h⟩
      exact ⟨c, ((hsus _ _ _).mp h).elim And.left fun h => absurd h.1 (hop k)⟩
    · rintro ⟨c, h⟩
      exact ⟨c, (hsus _ _ _).mpr (.inl ⟨h, hres i k ⟨c, h⟩⟩)⟩
  have hstay : t.running = s.running → ∀ i k, Waits s i k → i ≠ t.running := by
    rintro hrun i k ⟨c, h⟩
    rw [hrun]
    exact h.away
  have hqueued : t.running ∈ s.sched.tasks → ∀ i k, Waits s i k → i ≠ t.running := by
    rintro hrun i k ⟨c, h⟩ rfl
    exact hs.inv.not_suspended hrun h
  cases heff with
  | @call fn arg h u t new slot room fresh tasks running =>
    refine .enqueue h (fun hmem => ?_) (fun k => ?_) (fun i => ?_) tasks
      (hsame (fun k => by simp) (hstay running))
    · obtain ⟨r, hr, -⟩ := hs.inv.graph.mem_tasks.mp hmem
      rw [fresh] at hr
      cases hr
    · rintro ⟨c, hw⟩
      obtain ⟨-, r, hr, -⟩ := hs.inv.of_suspended hw
      rw [fresh] at hr
      cases hr
    · rintro ⟨c, hw⟩
      have hc := (hs.child hw).1
      rw [fresh] at hc
      cases hc
  | alone alone same =>
    subst same
    exact .rotate t.running [] alone alone fun _ _ => Iff.rfl
  | @skip next rest u t queue tasks switched =>
    exact .rotate s.running (next :: rest) queue tasks (hsame (fun k => by simp)
      (hqueued (by rw [switched.running, queue]; simp)))
  | @await h next rest p c u t queue child node unawaited waiter tasks switched =>
    refine .wait s.running h (next :: rest) queue child (hs.unawaited node unawaited) tasks
      fun i k => ⟨?_, ?_⟩
    · rintro ⟨d, hw⟩
      rcases (hsus _ _ _).mp hw with ⟨hw, -⟩ | ⟨hop, hi, -⟩
      · exact .inl ⟨d, hw⟩
      · cases hop
        exact .inr ⟨hi, rfl⟩
    · rintro (⟨d, hw⟩ | ⟨rfl, rfl⟩)
      · have hne := hqueued (by rw [switched.running, queue]; simp) i k ⟨d, hw⟩
        exact ⟨d, (hsus _ _ _).mpr (.inl ⟨hw, hne⟩)⟩
      · exact ⟨c, (hsus _ _ _).mpr (.inr ⟨rfl, rfl, node⟩)⟩
  | @ret data next rest p v u t notMain queue task node unawaited tasks switched =>
    exact .finish s.running (next :: rest) queue (hs.unawaited node unawaited) tasks
      (hsame (fun k => by simp) (hqueued (by rw [switched.running, queue]; simp)))
  | @wake data j rest c v t notMain queue task node kept waiting away tasks slot running =>
    refine .wake s.running j rest queue ⟨c, waiting⟩ tasks fun i k => ⟨?_, ?_⟩
    · rintro ⟨d, hw⟩
      rcases (hsus _ _ _).mp hw with ⟨hw, hne⟩ | ⟨hop, -⟩
      · exact ⟨⟨d, hw⟩, by rwa [running] at hne⟩
      · cases hop
    · rintro ⟨⟨d, hw⟩, hne⟩
      exact ⟨d, (hsus _ _ _).mpr (.inl ⟨hw, by rwa [running]⟩)⟩
  | orphan _ _ _ running sched =>
    exact .idle (congrArg TaskGraph.tasks sched) (hsame (fun k => by simp) (hstay running))
  | free _ _ _ _ _ running tasks =>
    exact .idle tasks (hsame (fun k => by simp) (hstay running))
  | poll _ same =>
    subst same
    exact .idle rfl fun _ _ => Iff.rfl

/-- **Every call that frees finished tasks only keeps the forest.** -/
theorem next (hs : Tame s) (hst : Guarded FreesFinished s (op, r) t) : Tame t := by
  obtain ⟨hst, hg⟩ := hst
  obtain ⟨heff, ht⟩ := hs.inv.effect hst
  have hsus := fun i c k => heff.suspended hs.inv hg (i := i) (c := c) (k := k)
  -- the child of a task that goes on waiting has not finished
  have hwait : ∀ {i c k}, Suspended s i c k → i ≠ t.running →
      k = s.running → ∀ data, op ≠ .ret data := by
    rintro i c k hw hne rfl data rfl
    cases heff with
    | @ret _ _ _ p _ _ _ _ _ _ node unawaited => exact hs.unawaited node unawaited i ⟨c, hw⟩
    | wake _ _ _ _ _ waiting _ _ _ running =>
      exact hne ((hs.forest.injective (z := s.running) ⟨c, hw⟩ ⟨_, waiting⟩).trans running.symm)
  refine ⟨ht, fun {i c k} hw => ?_, fun {c p h} hc hu hp => ?_, hs.forest.step (hs.event heff hg)⟩
  · rcases (hsus _ _ _).mp hw with ⟨hw, hne⟩ | ⟨rfl, rfl, hc⟩
    · obtain ⟨hk, hu⟩ := hs.child hw
      obtain ⟨hu', hk'⟩ := heff.keeps hs.inv hg hu (hwait hw hne)
      exact ⟨hk'.trans hk, hu'⟩
    · have hu : s.pool.Unfinished k := by
        cases heff with
        | await queue child =>
          refine hs.inv.unfinished ?_
          rw [queue]
          exact List.mem_cons_of_mem _ child
      obtain ⟨hu', hk'⟩ := heff.keeps hs.inv hg hu fun _ _ h => by cases h
      exact ⟨hk'.trans hc, hu'⟩
  · rcases heff.kept hs.inv hu hc with ⟨hu₀, hc₀, hret⟩ | hnone
    swap
    · rw [hp] at hnone
      cases hnone
    rcases heff.parent_of hp with hp | ⟨h', rfl, hc', hp⟩
    · obtain ⟨i, hi, hw⟩ := hs.parent hc₀ hu₀ hp
      have hne : i ≠ t.running := by
        rintro rfl
        obtain ⟨data, -, -, rfl, -, hk, -⟩ := heff.resumed hs.inv hw rfl
        exact hret hk data rfl
      have hiu : s.pool.Unfinished i := by
        obtain ⟨-, u, hu, hrun, -⟩ := hw
        unfold Unfinished
        rw [stateOf_eq hu, hrun]
        exact .inr rfl
      refine ⟨i, ?_, (hsus _ _ _).mpr (.inl ⟨hw, hne⟩)⟩
      rw [(heff.keeps hs.inv hg hiu fun h => absurd h hw.away).2]
      exact hi
    · obtain rfl := hs.inv.graph.node_inj hc₀ hc'
      refine ⟨s.running, ?_, (hsus _ _ _).mpr (.inr ⟨rfl, rfl, hc₀⟩)⟩
      rw [(heff.keeps hs.inv hg (.inr hs.inv.running) fun _ _ h => by cases h).2]
      exact hp

end Tame

/-- `main` starts alone. -/
theorem started_tame (mainFn : F) (arg : V) : Tame (started mainFn arg) := by
  have hnone : ∀ {i c k}, ¬ Suspended (started mainFn arg) i c k := by
    rintro i c k ⟨haway, u, hu, -⟩
    exact haway (started_slot mainFn arg hu).1
  refine ⟨started_inv mainFn arg, fun h => absurd h hnone, fun {c p h} _ _ hp => ?_, ?_⟩
  · simp only [started] at hp
    rw [Function.update_eq_self_iff.mpr rfl] at hp
    cases hp
  · have hidle : ∀ {i k}, ¬ Waits (started mainFn arg) i k := by
      rintro i k ⟨c, h⟩
      exact hnone h
    exact ⟨List.nodup_singleton _, fun _ => hidle, fun h => absurd h hidle,
      fun h => absurd h hidle, fun h => absurd h hidle⟩

theorem FreesFinished.same {S' : Type} {Rep : S → S' → Prop} {s : Runtime S F V}
    {a : Runtime S' F V} {op : Op F V} (h : SameRuntime Rep s a) (hg : FreesFinished s op) :
    FreesFinished a op := by
  rintro i rfl
  rw [← h.pool]
  exact hg i rfl

/-- **The model of every state that such a run reaches.** -/
theorem ReachedBy.tame {l : List (Op F V × Reply F V)} {s : Runtime Graph F V}
    (hs : ReachedBy FreesFinished l s) :
    ∃ a : Runtime TaskGraph F V, Tame a ∧ SameRuntime TaskGraph.Represents s a :=
  hs.model (P := FreesFinished) (Q := FreesFinished) (fun _ => FreesFinished.same) started_tame
    fun _ _ _ => Tame.next

end CAsync
