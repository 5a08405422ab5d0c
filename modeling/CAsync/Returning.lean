/-
# `async_return`

A task that nobody awaits leaves the processor to the next one in the queue (`Inv.step_ret`), a
task that is awaited to the one that waits (`Inv.step_wake`).  `Inv.finish_eq` is the part that
both share, up to the switch: the task is `READY`, or `FREE` if its flag `orphaned` is set.
-/
import CAsync.Effect

namespace CAsync

open Faulting TaskPool

variable {F V : Type}

namespace Inv

variable {s t : Runtime TaskGraph F V} {h i next : Handle} {u v : Task F V} {c : Nat} {k : Handle}

/-! ## 1. Up to the switch -/

/-- The scheduler's data after `async_return`, with `q` as the new queue. -/
def finishSched (s : Runtime TaskGraph F V) (p : Nat) (q : List Nat) (orphaned : Bool) :
    TaskGraph :=
  if orphaned = true then { s.sched with
    queue := q, nodeOf := Function.update s.sched.nodeOf s.running.idx none,
    handle := Function.update s.sched.handle p 0 }
  else { s.sched with queue := q }

/-- **`async_return` up to its switch.**  The task is `READY`; then, if it was orphaned, it is
freed. -/
theorem finish_eq (hs : Inv s) (hmain : s.running.idx ≠ 1) {p : Nat} {q : List Nat}
    (hnode : s.sched.nodeOf s.running.idx = some p) (hpq : p ∉ q)
    (hv : s.pool.slot s.running = some v) (data : V)
    (hfin : s.sched.finishTask = .ok ({ s.sched with queue := q }, s.running, next)) :
    ∃ mid pool, asyncReturnReady s data = .ok (.ready mid s.running next) ∧
      mid.pool.slot = Function.update s.pool.slot s.running
        (some { v with data := data, state := .ready }) ∧
      freeOrphan mid s.running =
        .ok { s with pool := pool, sched := finishSched s p q v.orphaned } ∧
      pool.slot = Function.update s.pool.slot s.running (some (v.finish data s.pool.freeTask)) ∧
      pool.WellFormed ∧ pool.len = s.pool.len := by
  have hcur : SchedulerOps.currentTask s.sched = .ok s.running := hs.currentTask
  have hfin' : SchedulerOps.finishTask s.sched = .ok (_, s.running, next) := hfin
  have hlive : v.state = .running := by
    have hrun := hs.running
    rw [stateOf_eq hv] at hrun
    exact Option.some.inj hrun
  obtain ⟨h1, h0, -⟩ := hs.graph.node hnode
  have hready := slot_setTask hv { v with data := data, state := .ready }
  have hwf : (s.pool.setTask s.running { v with data := data, state := .ready }).WellFormed :=
    hs.pool.setTask hv (by simp [hlive]) rfl rfl
  have hv' : (s.pool.setTask s.running { v with data := data, state := .ready }).slot s.running =
      some { v with data := data, state := .ready } := by
    rw [hready, Function.update_self]
  let mid : Runtime TaskGraph F V := { s with
    pool := s.pool.setTask s.running { v with data := data, state := .ready }
    sched := { s.sched with queue := q } }
  have hmid : asyncReturnReady s data = .ok (.ready mid s.running next) := by
    unfold asyncReturnReady
    rw [hcur, ok_bind, if_neg hmain, hfin', ok_bind]
    dsimp only
    rw [if_neg hmain, getTask_eq hv, ok_bind]
  by_cases horph : v.orphaned = true
  · have hfree : SchedulerOps.freeTask ({ s.sched with queue := q } : TaskGraph) s.running =
        .ok (finishSched s p q true) := by
      change TaskGraph.freeTask _ _ = _
      unfold TaskGraph.freeTask
      dsimp only
      rw [hnode]
      dsimp only
      rw [require_of hpq, ok_bind, require_of (by rw [h1]; exact h0), ok_bind]
      rfl
    have hslot := slot_setTask hv' { v with
      data := data, state := .free, handle := s.pool.freeTask }
    refine ⟨mid, _, hmid, hready, ?_, ?_, hwf.freeTask hv' (by simp), ?_⟩
    · unfold freeOrphan
      rw [getTask_eq hv', ok_bind, if_pos horph]
      unfold asyncFree CAsync.freeTask
      rw [require_of h0, ok_bind]
      dsimp only [mid]
      rw [hfree, ok_bind, getTask_eq hv', ok_bind, horph]
    · refine hslot.trans ?_
      rw [hready, Function.update_idem]
      unfold Task.finish
      rw [if_pos horph]
    · exact setTask_len.trans setTask_len
  · refine ⟨mid, _, hmid, hready, ?_, ?_, hwf, setTask_len⟩
    · unfold freeOrphan finishSched
      rw [getTask_eq hv', ok_bind, if_neg horph, if_neg horph]
    · unfold Task.finish
      rw [if_neg horph]
      exact hready

/-- `graph_finish_task` takes the running task out of the queue. -/
theorem finishTask_spec (hs : Inv s) {p : Nat} (hnode : s.sched.nodeOf s.running.idx = some p)
    {a : TaskGraph} {fin : Handle} (hfin : s.sched.finishTask = .ok (a, fin, next)) :
    fin = s.running ∧ ∃ q, a = { s.sched with queue := q } ∧ p ∉ q := by
  obtain ⟨p', q, hq, hp, hnode', h0, hpq, -⟩ := hs.exists_queue
  rw [hnode] at hnode'
  cases hnode'
  unfold TaskGraph.finishTask at hfin
  rw [hq] at hfin
  dsimp only at hfin
  rw [require_of h0, ok_bind] at hfin
  have hfront : ∀ {x : TaskGraph × Handle × Handle}, (do
      let next ← s.sched.front q
      Except.ok (({ s.sched with queue := q } : TaskGraph), (⟨s.sched.handle p⟩ : Handle), next)) =
        Except.ok x → x.1 = { s.sched with queue := q } ∧ x.2.1 = s.running := by
    intro x hx
    obtain ⟨n, -, hx⟩ := bind_eq_ok.mp hx
    cases hx
    exact ⟨rfl, hp.symm⟩
  cases hpar : s.sched.parent p with
  | none =>
    rw [hpar] at hfin
    obtain ⟨h1, h2⟩ := hfront hfin
    exact ⟨h2, q, h1, hpq⟩
  | some r =>
    rw [hpar] at hfin
    dsimp only at hfin
    split at hfin
    · cases hfin
      refine ⟨hp.symm, r :: q, rfl, ?_⟩
      rw [List.mem_cons]
      rintro (rfl | hmem)
      · -- a task does not wait for itself: the one that waits is not queued
        obtain ⟨i, hi, haway, -⟩ := (hs.parent hnode (.inr hs.running) hpar).resolve_left h0
        exact haway (hs.graph.node_inj hi hnode ▸ hs.running_mem)
      · exact hpq hmem
    · obtain ⟨h1, h2⟩ := hfront hfin
      exact ⟨h2, q, h1, hpq⟩

/-- **Whatever `async_return` does after that**: when it has set the state, the finished task is
the running one, it is `READY`, and it is freed exactly if its flag is set. -/
theorem asyncReturnReady_spec (hs : Inv s) {data : V} {mid : Runtime TaskGraph F V} {fin : Handle}
    (hok : asyncReturnReady s data = .ok (.ready mid fin next)) :
    fin = s.running ∧ ∃ v s', s.pool.slot s.running = some v ∧
      mid.pool.slot = Function.update s.pool.slot s.running
        (some { v with data := data, state := .ready }) ∧
      freeOrphan mid fin = .ok s' ∧ s'.pool.slot =
        Function.update s.pool.slot s.running (some (v.finish data s.pool.freeTask)) := by
  have hcur : SchedulerOps.currentTask s.sched = .ok s.running := hs.currentTask
  obtain ⟨v, hv, -⟩ := hs.running_task
  obtain ⟨p, -, -, -, hnode, -⟩ := hs.exists_queue
  have hok' := hok
  unfold asyncReturnReady at hok
  rw [hcur, ok_bind] at hok
  by_cases hmain : s.running.idx = 1
  · rw [if_pos hmain] at hok
    cases hok
  rw [if_neg hmain] at hok
  obtain ⟨⟨a, fin', next'⟩, hfin, -⟩ := bind_eq_ok.mp hok
  obtain ⟨rfl, q, rfl, hpq⟩ := hs.finishTask_spec hnode hfin
  obtain ⟨mid', pool, hok₁, hmid, hfree, hslot, -⟩ := hs.finish_eq hmain hnode hpq hv data hfin
  rw [hok₁] at hok'
  cases hok'
  exact ⟨rfl, v, _, hv, hmid, hfree, hslot⟩

/-- An `async_return` that passes has been through `READY`. -/
theorem ready_of_next {data : V} {r : Reply F V} (hst : Next s (.ret data, r) t) :
    ∃ mid fin next, asyncReturnReady s data = .ok (.ready mid fin next) := by
  have hst' : asyncReturn s data = .ok (.next t r) := hst
  unfold asyncReturn at hst'
  obtain ⟨x, hx, hrest⟩ := bind_eq_ok.mp hst'
  cases x with
  | exit d => cases hrest
  | ready mid fin next => exact ⟨mid, fin, next, hx⟩

/-- What is left of `async_return` once the task is finished. -/
theorem asyncReturn_eq {data : V} {mid s' : Runtime TaskGraph F V} {fin : Handle}
    (hready : asyncReturnReady s data = .ok (.ready mid fin next))
    (hfree : freeOrphan mid fin = .ok s') : step s (.ret data) = (do
      let (s, control) ← asyncSwitch s' ⟨0⟩ next .entry
      let reply ← replyOf s .skip control
      .ok (.next s reply)) := by
  unfold step asyncReturn
  dsimp only
  rw [hready, ok_bind]
  dsimp only
  rw [hfree, ok_bind]

/-- `async_return` of `main` ends the process. -/
theorem step_ret_main (hs : Inv s) (hmain : s.running.idx = 1) (data : V) :
    step s (.ret data) = .ok (.exit data) := by
  have hcur : SchedulerOps.currentTask s.sched = .ok s.running := hs.currentTask
  unfold step asyncReturn asyncReturnReady
  simp only [hcur, ok_bind, if_pos hmain]

theorem finishSched_nodeOf {p : Nat} {q : List Nat} {b : Bool} :
    (finishSched s p q b).nodeOf = if b = true then
      Function.update s.sched.nodeOf s.running.idx none else s.sched.nodeOf := by
  unfold finishSched
  cases b <;> rfl

theorem finishSched_parent {p : Nat} {q : List Nat} {b : Bool} :
    (finishSched s p q b).parent = s.sched.parent := by
  unfold finishSched
  cases b <;> rfl

theorem finishSched_dead {p d : Nat} {q : List Nat} {b : Bool} (hd : s.sched.handle d = 0) :
    (finishSched s p q b).handle d = 0 := by
  unfold finishSched
  cases b with
  | false => exact hd
  | true =>
    change Function.update s.sched.handle p 0 d = 0
    by_cases hdp : d = p
    · rw [hdp, Function.update_self]
    · rw [Function.update_of_ne hdp]
      exact hd

theorem finishSched_tasks {p : Nat} {q : List Nat} {b : Bool} (hpq : p ∉ q) :
    (finishSched s p q b).tasks = q.map fun r => ⟨s.sched.handle r⟩ := by
  unfold finishSched
  cases b with
  | false => rfl
  | true =>
    refine List.map_congr_left fun r hr => congrArg Handle.mk (Function.update_of_ne ?_ _ _)
    rintro rfl
    exact hpq hr

theorem finishSched_wellFormed (hs : Inv s) {p : Nat} {q : List Nat} {b : Bool}
    (hnode : s.sched.nodeOf s.running.idx = some p) (hpq : p ∉ q) (hnd : q.Nodup)
    (hq : ∀ r ∈ q, s.sched.nodeOf (s.sched.handle r) = some r) :
    (finishSched s p q b).WellFormed := by
  have hqueue := hs.graph.withQueue hnd hq
  unfold finishSched
  cases b with
  | false => exact hqueue
  | true => exact hqueue.freed hnode hpq

/-! ## 2. Nobody waits -/

/-- **`async_return` of a task that nobody awaits**, when another task is queued. -/
theorem step_ret (hs : Inv s) (hmain : s.running.idx ≠ 1) {p : Nat}
    (hnode : s.sched.nodeOf s.running.idx = some p) (hpar : s.sched.parent p = none)
    (hmore : s.sched.tasks ≠ [s.running]) (data : V) :
    ∃ r t, step s (.ret data) = .ok (.next t r) ∧ Effect s (.ret data) r t ∧ Inv t := by
  obtain ⟨p', q, hq, hp, hnode', h0, hpq, htasks⟩ := hs.exists_queue
  rw [hnode] at hnode'
  cases hnode'
  obtain ⟨v, hv, hvrun⟩ := hs.running_task
  have hqne : q ≠ [] := by
    rintro rfl
    exact hmore htasks
  obtain ⟨n, q', rfl⟩ := List.exists_cons_of_ne_nil hqne
  have hmemn : (⟨s.sched.handle n⟩ : Handle) ∈ s.sched.tasks := by
    rw [htasks]
    simp
  have hnd := hs.graph.tasks_nodup
  rw [htasks, List.nodup_cons] at hnd
  have hne : (⟨s.sched.handle n⟩ : Handle) ≠ s.running := by
    rintro heq
    exact hnd.1 (by rw [← heq]; simp)
  obtain ⟨u, top, hu, hrunnable⟩ := hs.runnable hmemn hne
  have hfin : s.sched.finishTask =
      .ok ({ s.sched with queue := n :: q' }, s.running, ⟨s.sched.handle n⟩) := by
    have hn : s.sched.handle n ≠ 0 := hs.graph.handle_ne (by rw [hq]; simp)
    unfold TaskGraph.finishTask TaskGraph.front
    rw [hq]
    dsimp only
    rw [require_of h0, ok_bind, hpar]
    dsimp only
    rw [require_of hn, ok_bind, ok_bind, ← hp]
  obtain ⟨mid, pool, hok₁, -, hok, hslot, hwf, hlen⟩ := hs.finish_eq hmain hnode hpq hv data hfin
  have hu' : pool.slot ⟨s.sched.handle n⟩ = some u := by
    rw [hslot, Function.update_of_ne hne, hu]
  obtain ⟨pool', hok', hslot', hwf', hlen'⟩ := asyncSwitch_null
    (s := { s with pool := pool, sched := finishSched s p (n :: q') v.orphaned })
    .entry hu' hrunnable.state hrunnable.1
  have hsw : SwitchedTo
      { s with
        pool := pool', sched := finishSched s p (n :: q') v.orphaned,
        running := ⟨s.sched.handle n⟩ }
      (Function.update s.pool.slot s.running (some (v.finish data s.pool.freeTask)))
      ⟨s.sched.handle n⟩ u := by
    refine ⟨by rw [← hslot, hu'], ?_, rfl⟩
    rw [← hslot]
    exact hslot'
  have htasks' := finishSched_tasks (s := s) (b := v.orphaned) hpq
  have hstate : (v.finish data s.pool.freeTask).state =
      if v.orphaned = true then .free else .ready := by
    unfold Task.finish
    split <;> rfl
  refine ⟨u.resumed, _, ?_, .ret hmain htasks hv hnode hpar htasks' hsw (hlen'.trans hlen)
    finishSched_nodeOf finishSched_parent, ?_⟩
  · rw [asyncReturn_eq hok₁ hok, hok', ok_bind]
    dsimp only
    rw [replyOf_runnable hrunnable, ok_bind]
  · have hgraph := hs.finishSched_wellFormed (b := v.orphaned) hnode hpq
      (by
        have := hs.graph.nodup
        rw [hq, List.nodup_cons] at this
        exact this.2)
      fun r hr => hs.graph.queued (by rw [hq]; exact List.mem_cons_of_mem _ hr)
    refine hs.switched (hwf' hwf) hgraph hsw hne (by rw [htasks']; rfl) hrunnable.state ?_
      (fun h hh => ?_) (fun c hc => ?_) (fun h hh _ => ?_) (fun c r hc => ?_)
      (fun c hc => finishSched_dead hc) (fun i c r _ hc hr _ => ?_)
      (fun c k hsus => absurd hsus (hs.not_suspended hmemn)) (fun c r hc => .inl ?_)
    · by_cases horph : v.orphaned = true
      · refine .free (by rw [hstate, if_pos horph]) ?_
        dsimp only
        rw [finishSched_nodeOf, if_pos horph, Function.update_self]
      · refine .ready (by rw [hstate, if_neg horph]) ?_ ?_
        · dsimp only
          rw [finishSched_nodeOf, if_neg horph, hnode]
          rfl
        · dsimp only
          rw [htasks']
          exact hnd.1
    · dsimp only
      rw [finishSched_nodeOf]
      split
      · exact Function.update_of_ne (fun heq => hh (Handle.eq_of_idx heq)) _ _
      · rfl
    · dsimp only at hc
      rw [finishSched_nodeOf] at hc
      split at hc
      · rw [Function.update_self] at hc
        cases hc
      · exact hc
    · dsimp only
      rw [htasks', htasks, List.mem_cons]
      exact ⟨.inr, fun h => h.resolve_left hh⟩
    · dsimp only
      rw [finishSched_parent]
      exact hc
    · rw [hnode] at hc
      cases hc
      rw [hpar] at hr
      cases hr
    · dsimp only at hc
      rwa [finishSched_parent] at hc

/-! ## 3. A task waits -/

/-- `graph_finish_task` when a task waits: it goes to the front of the queue. -/
theorem finishTask_awaited (hs : Inv s) {p r : Nat} {q : List Nat} (hq : s.sched.queue = p :: q)
    (hpar : s.sched.parent p = some r) (hrq : r ∉ q) : s.sched.finishTask =
      .ok ({ s.sched with queue := r :: q }, s.running, ⟨s.sched.handle r⟩) := by
  obtain ⟨p', q', hq', hp, -, h0, -⟩ := hs.exists_queue
  rw [hq] at hq'
  cases hq'
  unfold TaskGraph.finishTask
  rw [hq]
  dsimp only
  rw [require_of h0, ok_bind, hpar]
  dsimp only
  rw [if_pos hrq, ← hp]

/-- The task that waits for the running one. -/
theorem waiter (hs : Inv s) {p r : Nat} (hnode : s.sched.nodeOf s.running.idx = some p)
    (hpar : s.sched.parent p = some r) (hlive : s.sched.handle r ≠ 0) :
    ∃ i, s.sched.nodeOf i.idx = some r ∧ i ∉ s.sched.tasks ∧ Suspended s i p s.running :=
  (hs.parent hnode (.inr hs.running) hpar).resolve_left hlive

/-- A node that is not queued can take the place of the front. -/
theorem front_replaced (hs : Inv s) {p r : Nat} {q : List Nat} (hq : s.sched.queue = p :: q)
    (hrq : r ∉ s.sched.queue) : r ∉ q ∧ p ≠ r ∧ p ∉ r :: q := by
  have hnd := hs.graph.nodup
  rw [hq, List.nodup_cons] at hnd
  rw [hq, List.mem_cons, not_or] at hrq
  obtain ⟨hrp, hrq⟩ := hrq
  refine ⟨hrq, Ne.symm hrp, ?_⟩
  rw [List.mem_cons, not_or]
  exact ⟨Ne.symm hrp, hnd.1⟩

/-- What the woken task finds: it is the current task, and it polls its child. -/
theorem resume_woken (a : TaskGraph) (pool : TaskPool F V) {c r : Nat} {q : List Nat}
    (hq : a.queue = r :: q) (hr : a.handle r = i.idx) (hpos : i.idx ≠ 0) (hc : c < a.fresh)
    (hu : a.handle c ≠ 0 → ∃ u, pool.slot ⟨a.handle c⟩ = some u ∧ u.state = .ready) :
    TaskGraph.waitResume { pool := pool, sched := a, running := i } i c =
      if a.handle c = 0 then .error .pollNull else .ok () := by
  have hcur : a.front a.queue = .ok i := by
    rw [hq]
    unfold TaskGraph.front
    dsimp only
    rw [hr, require_of hpos, ok_bind]
  unfold TaskGraph.waitResume pollState
  have hcur' : SchedulerOps.currentTask a = .ok i := hcur
  dsimp only
  rw [hcur, ok_bind, require_of rfl, ok_bind, if_pos hc, hcur', ok_bind]
  change ((TaskGraph.pollTask a pool ⟨a.handle c⟩ >>= _) >>= _) = _
  unfold TaskGraph.pollTask
  by_cases h0 : a.handle c = 0
  · rw [require_of_not (by simp [h0]), if_pos h0]
    rfl
  · obtain ⟨u, hu, hur⟩ := hu h0
    rw [require_of h0, ok_bind, load_slot hu, if_neg h0]
    simp only [ok_bind, getTask_eq hu, require_of hur]

/-- **`async_return` of a task that `i` awaits wakes `i`**, with the value returned. -/
theorem step_wake (hs : Inv s) (hmain : s.running.idx ≠ 1) {c r : Nat}
    (hnode : s.sched.nodeOf s.running.idx = some c) (hpar : s.sched.parent c = some r)
    (hlive : s.sched.handle r ≠ 0) (hv : s.pool.slot s.running = some v)
    (hkept : v.orphaned = false) (data : V) :
    ∃ t, step s (.ret data) = .ok (.next t (.await data)) ∧
      Effect s (.ret data) (.await data) t ∧ Inv t := by
  obtain ⟨p', q, hq, hp, hnode', h0, hpq, htasks⟩ := hs.exists_queue
  rw [hnode] at hnode'
  cases hnode'
  obtain ⟨i, hi, haway, hsus⟩ := hs.waiter hnode hpar hlive
  obtain ⟨hne, w, hw, hwrun, hframe⟩ := hsus
  have hri : (⟨s.sched.handle r⟩ : Handle) = i := Handle.eq_of_idx (hs.graph.node hi).1
  have hrq : r ∉ s.sched.queue := fun hmem => haway ((hs.graph.mem_tasks_iff hi).mpr hmem)
  obtain ⟨hrq', hcr, hpq'⟩ := hs.front_replaced hq hrq
  obtain ⟨mid, pool, hok₁, -, hok, hslot, hwf, hlen⟩ := hs.finish_eq hmain hnode hpq' hv data
    (hs.finishTask_awaited hq hpar hrq')
  have hfinish : v.finish data s.pool.freeTask = { v with data := data, state := .ready } := by
    unfold Task.finish
    rw [if_neg (by simp [hkept])]
  have hsched : finishSched s c (r :: q) v.orphaned = { s.sched with queue := r :: q } := by
    unfold finishSched
    rw [if_neg (by simp [hkept])]
  rw [hfinish] at hslot
  rw [hsched] at hok
  have hw' : pool.slot i = some w := by
    rw [hslot, Function.update_of_ne hne, hw]
  obtain ⟨pool', hok', hslot', hwf', hlen'⟩ := asyncSwitch_null
    (s := { s with pool := pool, sched := { s.sched with queue := r :: q } })
    .entry hw' (.inr hwrun) hframe
  rw [if_neg (by rw [hwrun]; decide)] at hok'
  rw [Task.run_eq hwrun, Function.update_eq_self_iff.mpr hw'.symm] at hslot'
  have hslot'' := hslot'.trans hslot
  let t : Runtime TaskGraph F V :=
    { pool := pool', sched := { s.sched with queue := r :: q }, running := i }
  have htasks' : t.sched.tasks = i :: q.map fun r => ⟨s.sched.handle r⟩ := by
    rw [← hri]
    rfl
  obtain ⟨hidx, -, hclt⟩ := hs.graph.node hnode
  have hv' : pool'.slot s.running = some { v with data := data, state := .ready } := by
    rw [hslot'', Function.update_self]
  have hresume : resume t (.graphWaitReady i c s.running) = .ok (.await data) := by
    have hwait : SchedulerVTable.waitResume t i c = .ok () := by
      have := resume_woken (i := i) t.sched pool' rfl
        (congrArg Handle.idx hri) (hs.graph.node hi).2.1 hclt fun _ => ⟨_, by
          change pool'.slot ⟨s.sched.handle c⟩ = _
          rw [hidx]
          exact hv', rfl⟩
      rwa [if_neg (by change s.sched.handle c ≠ 0; rw [hidx, hp]; exact h0)] at this
    unfold resume
    dsimp only
    rw [hwait, ok_bind, getTask_eq hv', ok_bind]
  refine ⟨t, ?_, .wake hmain htasks hv hnode hkept ⟨hne, w, hw, hwrun, hframe⟩ haway htasks'
    hslot'' rfl (hlen'.trans hlen) rfl rfl, ?_⟩
  · rw [asyncReturn_eq hok₁ hok, hri, hok', ok_bind]
    change (resume t (.graphWaitReady i c s.running) >>= _) = _
    rw [hresume, ok_bind]
  · have hsw : SwitchedTo t (Function.update s.pool.slot s.running
        (some { v with data := data, state := .ready })) i w := by
      have hi' : Function.update s.pool.slot s.running
          (some { v with data := data, state := .ready }) i = some w := by
        rw [Function.update_of_ne hne, hw]
      refine ⟨hi', ?_, rfl⟩
      rw [Task.run_eq hwrun, Function.update_eq_self_iff.mpr hi'.symm]
      exact hslot''
    have hnd := hs.graph.nodup
    rw [hq, List.nodup_cons] at hnd
    have hgraph : t.sched.WellFormed := by
      refine hs.graph.withQueue (List.nodup_cons.mpr ⟨hrq', hnd.2⟩) fun d hd => ?_
      rcases List.mem_cons.mp hd with rfl | hd
      · rw [(hs.graph.node hi).1]
        exact hi
      · exact hs.graph.queued (by rw [hq]; exact List.mem_cons_of_mem _ hd)
    have hnotin : s.running ∉ q.map fun r => (⟨s.sched.handle r⟩ : Handle) := by
      have := hs.graph.tasks_nodup
      rw [htasks, List.nodup_cons] at this
      exact this.1
    refine hs.switched (hwf' hwf) hgraph hsw hne (by rw [htasks']; rfl) (.inr hwrun) ?_
      (fun _ _ => rfl) (fun _ h => h) (fun h hh hhi => ?_) (fun _ _ h => h) (fun _ h => h)
      (fun j d e hj hd he hje => ?_) (fun d k hd => ?_) (fun _ _ h => .inl h)
    · refine .ready rfl ?_ ?_
      · change (s.sched.nodeOf s.running.idx).isSome
        rw [hnode]
        rfl
      · rw [htasks', List.mem_cons]
        exact fun h => h.elim (Ne.symm hne) hnotin
    · rw [htasks', htasks, List.mem_cons, List.mem_cons]
      exact ⟨fun h => .inr (h.resolve_left hhi), fun h => .inr (h.resolve_left hh)⟩
    · rw [hnode] at hd
      cases hd
      rw [hpar] at he
      cases he
      exact absurd (hs.graph.node_inj hje hi) hj
    · obtain ⟨-, w', hw', -, hframe'⟩ := hd
      rw [hw] at hw'
      cases hw'
      rw [hframe] at hframe'
      cases hframe'
      unfold Unfinished
      rw [stateOf_eq hv']
      simp

/-! ## 4. Failure -/

/-- **No other `async_return` passes**: the queue runs empty, the waiting task was freed, or the
flag `orphaned` made `async_return` free a task that is awaited. -/
theorem step_ret_fails (hs : Inv s) (hmain : s.running.idx ≠ 1) {c : Nat}
    (hnode : s.sched.nodeOf s.running.idx = some c) (hv : s.pool.slot s.running = some v)
    (hbad : match s.sched.parent c with
      | none => s.sched.tasks = [s.running]
      | some r => s.sched.handle r = 0 ∨ v.orphaned = true) (data : V) :
    ∃ e, step s (.ret data) = .error e := by
  obtain ⟨p', q, hq, hp, hnode', h0, hpq, htasks⟩ := hs.exists_queue
  rw [hnode] at hnode'
  cases hnode'
  have hcur : SchedulerOps.currentTask s.sched = .ok s.running := hs.currentTask
  cases hpar : s.sched.parent c with
  | none =>
    rw [hpar] at hbad
    dsimp only at hbad
    rw [hbad] at htasks
    have hnil : q = [] := by simpa using htasks.symm
    subst hnil
    refine ⟨.queueUnderflow, ?_⟩
    have hfin : SchedulerOps.finishTask s.sched = .error .queueUnderflow := by
      change s.sched.finishTask = _
      unfold TaskGraph.finishTask TaskGraph.front
      rw [hq]
      dsimp only
      rw [require_of h0, ok_bind, hpar]
      rfl
    unfold step asyncReturn asyncReturnReady
    simp only [hcur, ok_bind, if_neg hmain, hfin, error_bind]
  | some r =>
    rw [hpar] at hbad
    dsimp only at hbad
    by_cases hdead : s.sched.handle r = 0
    · obtain ⟨hrq', -, hpq'⟩ := hs.front_replaced hq fun hmem => hs.graph.handle_ne hmem hdead
      obtain ⟨mid, pool, hok₁, -, hok, -⟩ := hs.finish_eq hmain hnode hpq' hv data
        (hs.finishTask_awaited hq hpar hrq')
      refine ⟨.switchToNull, ?_⟩
      rw [asyncReturn_eq hok₁ hok]
      unfold asyncSwitch
      dsimp only
      rw [hdead, require_of_not (by simp), error_bind]
      rfl
    · have horph := hbad.resolve_left hdead
      obtain ⟨i, hi, haway, hne, w, hw, hwrun, hframe⟩ := hs.waiter hnode hpar hdead
      have hri : (⟨s.sched.handle r⟩ : Handle) = i := Handle.eq_of_idx (hs.graph.node hi).1
      have hrq : r ∉ s.sched.queue := fun hmem => haway ((hs.graph.mem_tasks_iff hi).mpr hmem)
      obtain ⟨hrq', hcr, hpq'⟩ := hs.front_replaced hq hrq
      obtain ⟨mid, pool, hok₁, -, hok, hslot, -⟩ := hs.finish_eq hmain hnode hpq' hv data
        (hs.finishTask_awaited hq hpar hrq')
      have hw' : pool.slot i = some w := by
        rw [hslot, Function.update_of_ne hne, hw]
      obtain ⟨pool', hok', -⟩ := asyncSwitch_null
        (s := { s with pool := pool, sched := finishSched s c (r :: q) v.orphaned })
        .entry hw' (.inr hwrun) hframe
      rw [if_neg (by rw [hwrun]; decide)] at hok'
      have hdc : (finishSched s c (r :: q) v.orphaned).handle c = 0 := by
        rw [horph]
        exact Function.update_self _ _ _
      have hwait := resume_woken (i := i) (r := r) (q := q)
        (finishSched s c (r :: q) v.orphaned) pool' (by rw [horph]; rfl) (by
          rw [horph]
          exact (Function.update_of_ne (Ne.symm hcr) _ _).trans (congrArg Handle.idx hri))
        (hs.graph.node hi).2.1 (c := c) (by rw [horph]; exact (hs.graph.node hnode).2.2)
        (fun h => absurd hdc h)
      rw [if_pos hdc] at hwait
      refine ⟨.pollNull, ?_⟩
      rw [asyncReturn_eq hok₁ hok, hri, hok', ok_bind]
      dsimp only
      unfold replyOf resume
      dsimp only
      have hwait' : SchedulerVTable.waitResume ({
        pool := pool', sched := finishSched s c (r :: q) v.orphaned,
        running := i } : Runtime TaskGraph F V) i c = .error .pollNull := hwait
      rw [hwait', error_bind, error_bind]

end Inv
end CAsync
