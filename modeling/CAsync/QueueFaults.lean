/-
# The faults of the run queue

A call can find the run queue empty (`Underflow`), and in the `DEBUG` build `verify_queue` can
reject the queue.  In the model of the scheduler no call stops with one of these faults, as long as
the last queued task to end is awaited (`Inv.step_avoids`).
-/
import CAsync.Reachable

namespace CAsync

open Faulting TaskPool

variable {F V : Type}

/-- The faults of the run queue: it is empty, or its check fails. -/
inductive Fault.OfQueue : Fault → Prop
  | underflow : OfQueue .queueUnderflow
  | verify : OfQueue .verifyQueue

theorem Fault.OfQueue.ne {e e' : Fault} (he : e.OfQueue)
    (h : e' ≠ .queueUnderflow ∧ e' ≠ .verifyQueue) : e' ≠ e := by
  cases he with
  | underflow => exact h.1
  | verify => exact h.2

/-! ## 1. The parts of a call -/

/-- `async_free` leaves the queue alone. -/
theorem freeTask_queue {s t : Runtime TaskGraph F V} {h : Handle}
    (hok : CAsync.freeTask s h = .ok t) :
    t.sched.queue = s.sched.queue := by
  unfold CAsync.freeTask at hok
  obtain ⟨-, -, hok⟩ := bind_eq_ok.mp hok
  obtain ⟨a, ha, hok⟩ := bind_eq_ok.mp hok
  obtain ⟨u, -, hok⟩ := bind_eq_ok.mp hok
  cases hok
  change TaskGraph.freeTask _ h = .ok a at ha
  unfold TaskGraph.freeTask at ha
  split at ha
  · cases ha
  · obtain ⟨-, -, ha⟩ := bind_eq_ok.mp ha
    obtain ⟨-, -, ha⟩ := bind_eq_ok.mp ha
    cases ha
    rfl

section

variable {e : Fault} {p : TaskPool F V} {s : Runtime TaskGraph F V} {h src dst : Handle}
  {frame : Frame} (he : e.OfQueue)

include he

theorem load_avoids {α : Type} (mem : List α) (i : Nat) : Avoids e (load mem i) := by
  unfold load
  split
  · exact .ok _
  · exact .error (he.ne (by decide))

theorem getTask_avoids : Avoids e (getTask p h) :=
  .require_bind (he.ne (by decide)) fun _ => .require_bind (he.ne (by decide)) fun _ =>
    load_avoids he _ _

theorem front_avoids {a : TaskGraph} {q : List Nat} (hq : q ≠ []) : Avoids e (a.front q) := by
  cases q with
  | nil => exact absurd rfl hq
  | cons r q => exact .require_bind (he.ne (by decide)) fun _ => .ok _

theorem pollState_avoids (hq : s.sched.queue ≠ []) : Avoids e (pollState s h) := by
  refine .bind (front_avoids he hq) fun _ _ => .bind ?_ fun _ _ =>
    .bind (getTask_avoids he) fun _ _ => .ok _
  exact .require_bind (he.ne (by decide)) fun _ => .bind (load_avoids he _ _) fun _ _ => .ok _

/-- The task that is switched to finds a queue that is not empty. -/
theorem replyOf_avoids (hq : s.sched.queue ≠ []) (r : Reply F V) (c : Control F V) :
    Avoids e (replyOf s r c) := by
  cases c with
  | returned => exact .ok _
  | entered fn data => exact .ok _
  | resumed frame =>
    cases frame with
    | entry => exact .error (he.ne (by decide))
    | asyncSkip => exact .ok _
    | busyWaitReady h => exact .ok _
    | graphWaitReady parent child k =>
      refine .bind ?_ fun _ _ => .bind (getTask_avoids he) fun _ _ => .ok _
      refine .bind (front_avoids he hq) fun _ _ => .require_bind (he.ne (by decide)) fun _ => ?_
      split
      · exact .bind (pollState_avoids he hq) fun _ _ => .require (he.ne (by decide))
      · exact .error (he.ne (by decide))

theorem getTaskOrNull_avoids : Avoids e (getTaskOrNull p src) := by
  unfold getTaskOrNull
  split
  · exact .ok _
  · exact .bind (getTask_avoids he) fun _ _ => .ok _

theorem asyncSwitch_avoids : Avoids e (asyncSwitch s src dst frame) := by
  refine .require_bind (he.ne (by decide)) fun _ => .require_bind (he.ne (by decide)) fun _ =>
    .bind (getTaskOrNull_avoids he) fun _ _ => .bind (getTask_avoids he) fun f2 _ =>
    .require_bind (he.ne (by decide)) fun _ => .require_bind (he.ne (by decide)) fun _ => ?_
  split
  · exact .error (he.ne (by decide))
  · split
    · exact .ok _
    · exact .ok _

/-- The end of every call that switches. -/
theorem switch_avoids (hq : s.sched.queue ≠ []) (r : Reply F V) :
    Avoids e (do
      let (t, c) ← asyncSwitch s src dst frame
      let reply ← replyOf t r c
      .ok (Outcome.next t reply)) := by
  refine .bind (asyncSwitch_avoids he) ?_
  rintro ⟨t, c⟩ hok
  exact .bind (replyOf_avoids he (by rwa [asyncSwitch_sched hok]) r c) fun _ _ => .ok _

theorem freeTask_avoids : Avoids e (CAsync.freeTask s h) := by
  refine .require_bind (he.ne (by decide)) fun _ => .bind ?_ fun _ _ =>
    .bind (getTask_avoids he) fun _ _ => .ok _
  change Avoids e (s.sched.freeTask h)
  unfold TaskGraph.freeTask
  split
  · exact .error (he.ne (by decide))
  · exact .require_bind (he.ne (by decide)) fun _ =>
      .require_bind (he.ne (by decide)) fun _ => .ok _

/-- `graph_finish_task` finds a next task if the queue has one, or if the task is awaited, and
leaves a queue that is not empty. -/
theorem finishTask_avoids {a : TaskGraph} {c : Nat} {q : List Nat} (hq : a.queue = c :: q)
    (hmore : q ≠ [] ∨ a.parent c ≠ none) :
    Avoids e a.finishTask ∧ ∀ x, a.finishTask = .ok x → x.1.queue ≠ [] := by
  have hfront : ∀ {q'}, q' ≠ [] → Avoids e (do
      let next ← a.front q'
      .ok (({ a with queue := q' } : TaskGraph), (⟨a.handle c⟩ : Handle), next)) ∧
      ∀ x, (do
        let next ← a.front q'
        .ok (({ a with queue := q' } : TaskGraph), (⟨a.handle c⟩ : Handle), next)) = Except.ok x →
        x.1.queue ≠ [] := by
    intro q' hq'
    refine ⟨.bind (front_avoids he hq') fun _ _ => .ok _, fun x hx => ?_⟩
    obtain ⟨next, -, hx⟩ := bind_eq_ok.mp hx
    cases hx
    exact hq'
  unfold TaskGraph.finishTask
  rw [hq]
  dsimp only
  by_cases hdead : a.handle c ≠ 0
  swap
  · rw [require_of_not hdead]
    exact ⟨.error (he.ne (by decide)), fun _ h => by cases h⟩
  rw [require_of hdead, ok_bind]
  split
  · rename_i hnone
    exact hfront (hmore.resolve_right (not_not_intro hnone))
  · rename_i r hr
    split
    · exact ⟨.ok _, fun _ h => by cases h; simp⟩
    · rename_i hmem
      refine hfront ?_
      rintro rfl
      exact hmem (by simp)

/-- `graph_wait_ready` up to its switch: the child, or a task behind the waiting one, is at the
front of the queue. -/
theorem block_avoids {a : TaskGraph} {p : Nat} {q : List Nat} (hq : a.queue = p :: q)
    (h : Handle) : Avoids e (a.block h) ∧ ∀ x, a.block h = .ok x → x.1.queue ≠ [] := by
  have hchild : ∀ c, (if c ∈ q then q else c :: q) ≠ [] := by
    intro c
    split
    · rename_i hmem
      exact List.ne_nil_of_mem hmem
    · exact List.cons_ne_nil c q
  unfold TaskGraph.block
  rw [hq]
  dsimp only
  constructor
  · refine .require_bind (he.ne (by decide)) fun _ => ?_
    split
    · exact .error (he.ne (by decide))
    · rename_i c _
      exact .require_bind (he.ne (by decide)) fun _ => .require_bind (he.ne (by decide)) fun _ =>
        .require_bind (he.ne (by decide)) fun _ =>
        .bind (front_avoids he (hchild c)) fun _ _ => .ok _
  · intro x hx
    obtain ⟨-, -, hx⟩ := bind_eq_ok.mp hx
    split at hx
    · cases hx
    · rename_i c _
      obtain ⟨-, -, hx⟩ := bind_eq_ok.mp hx
      obtain ⟨-, -, hx⟩ := bind_eq_ok.mp hx
      obtain ⟨-, -, hx⟩ := bind_eq_ok.mp hx
      obtain ⟨next, -, hx⟩ := bind_eq_ok.mp hx
      cases hx
      exact hchild c

/-- `async_return` up to `t->state = READY`, over a `finish_task` that passes. -/
theorem asyncReturnReady_avoids {s : Runtime TaskGraph F V} (hne : s.sched.queue ≠ [])
    (hfin : Avoids e s.sched.finishTask ∧ ∀ x, s.sched.finishTask = .ok x → x.1.queue ≠ [])
    (data : V) : Avoids e (asyncReturnReady s data) ∧
      ∀ mid fin next, asyncReturnReady s data = .ok (.ready mid fin next) →
        mid.sched.queue ≠ [] := by
  constructor
  · refine .bind (front_avoids he hne) fun _ _ => ?_
    split
    · exact .ok _
    · refine .bind hfin.1 ?_
      rintro ⟨a, fin, next⟩ -
      dsimp only
      split
      · exact .ok _
      · exact .bind (getTask_avoids he) fun _ _ => .ok _
  · intro mid fin next hok
    unfold asyncReturnReady at hok
    obtain ⟨cur, -, hok⟩ := bind_eq_ok.mp hok
    split at hok
    · cases hok
    · obtain ⟨⟨a, fin', next'⟩, ha, hok⟩ := bind_eq_ok.mp hok
      dsimp only at hok
      split at hok
      · cases hok
      · obtain ⟨u, -, hok⟩ := bind_eq_ok.mp hok
        cases hok
        exact hfin.2 _ ha

/-! ## 2. One call -/

/-- **A call stops with no fault of the run queue**, unless it is an `async_return` of the last
queued task and nobody awaits that task. -/
theorem Inv.step_avoids {s : Runtime TaskGraph F V} (hs : Inv s) (op : Op F V)
    (hret : ∀ {c}, s.running.idx ≠ 1 → s.sched.tasks = [s.running] →
      s.sched.nodeOf s.running.idx = some c → s.sched.parent c ≠ none) :
    Avoids e (step s op) := by
  obtain ⟨p, q, hq, -, hnode, -, -, htasks⟩ := hs.exists_queue
  have hne : s.sched.queue ≠ [] := by
    rw [hq]
    exact List.cons_ne_nil p q
  cases op with
  | call fn arg =>
    obtain ⟨h, t, hok, -⟩ := hs.step_call fn arg
    rw [hok]
    exact .ok _
  | skip =>
    obtain ⟨r, t, hok, -⟩ := hs.step_skip
    rw [hok]
    exact .ok _
  | await h =>
    have hwait := block_avoids he hq h
    have hready : Avoids e (SchedulerVTable.waitReady s h) :=
      .bind hwait.1 fun _ _ => asyncSwitch_avoids he
    refine .bind hready ?_
    rintro ⟨t, control⟩ hok
    obtain ⟨⟨a, parent, child, next⟩, ha, hok⟩ := bind_eq_ok.mp hok
    have hqt : t.sched.queue ≠ [] := by
      rw [asyncSwitch_sched hok]
      exact hwait.2 _ ha
    dsimp only
    split
    · exact .bind (getTask_avoids he) fun _ _ => .ok _
    · exact .bind (replyOf_avoids he hqt _ _) fun _ _ => .ok _
  | ret data =>
    by_cases hmain : s.running.idx = 1
    · rw [hs.step_ret_main hmain]
      exact .ok _
    have hfin := finishTask_avoids he hq (by
      by_cases hnil : q = []
      · subst hnil
        exact .inr (hret hmain htasks hnode)
      · exact .inl hnil)
    have hready := asyncReturnReady_avoids he hne hfin data
    refine .bind hready.1 fun returning hok => ?_
    cases returning with
    | exit data => exact .ok _
    | ready mid fin next =>
      have hmid := hready.2 mid fin next hok
      have hfree : Avoids e (freeOrphan mid fin) := by
        refine .bind (getTask_avoids he) fun _ _ => ?_
        split
        · exact freeTask_avoids he
        · exact .ok _
      refine .bind hfree fun t ht => switch_avoids he ?_ _
      unfold freeOrphan at ht
      obtain ⟨u, -, ht⟩ := bind_eq_ok.mp ht
      split at ht
      · rwa [freeTask_queue ht]
      · cases ht
        exact hmid
  | orphan h =>
    exact .bind (.bind (getTask_avoids he) fun _ _ => .ok _) fun _ _ => .ok _
  | free h => exact .bind (freeTask_avoids he) fun _ _ => .ok _
  | poll h => exact .bind (pollState_avoids he hne) fun _ _ => .ok _

end

end CAsync
