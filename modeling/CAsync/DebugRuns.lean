/-
# Which runs pass the checks of the `DEBUG` build

A queue that stays flat never reuses the front of its memory, so the end of the queue counts the
pushes to its back: one for `main`, one for each `async_call` and each `async_skip`.  The memory
grows only as long as `start` is 0, that is before the first call that pops.  Hence the checks pass
as long as the pushes fit into the memory of that moment (`StaysFlat`), and the next push fails one.
-/
import CAsync.DebugSteps
import CAsync.NoTaskLost
import Mathlib.Data.List.TakeWhile

namespace CAsync

open Faulting RingQueue

variable {F V : Type}

/-! ## 1. The pushes of a run -/

/-- `async_call` and `async_skip` push to the back of the queue. -/
def Op.pushes : Op F V → Bool
  | .call _ _ | .skip => true
  | _ => false

/-- The number of pushes to the back, with the one of `main`. -/
def pushed (ops : List (Op F V)) : Nat := 1 + ops.countP Op.pushes

/-- The number of pushes to the back before the first pop. -/
def pushedFirst (ops : List (Op F V)) : Nat := pushed (ops.takeWhile fun op => !op.schedules)

/-- The size of the memory after `n` pushes to the back and no pop. -/
def roomFor : Nat → Nat
  | 0 => 0
  | n + 1 => RingQueue.capAfter (roomFor n) n

/-- The pushes of the calls fit into the memory that the queue has at the first pop. -/
def StaysFlat (ops : List (Op F V)) : Prop := pushed ops < roomFor (pushedFirst ops)

instance (ops : List (Op F V)) : Decidable (StaysFlat ops) := inferInstanceAs (Decidable (_ < _))

variable {ops : List (Op F V)} {op : Op F V}

theorem lt_roomFor {n : Nat} (hn : n ≠ 0) : n < roomFor n := by
  induction n with
  | zero => exact absurd rfl hn
  | succ n ih =>
    unfold roomFor RingQueue.capAfter
    split
    · assumption
    · rcases Nat.eq_zero_or_pos n with rfl | hpos
      · decide
      · have := ih (Nat.ne_of_gt hpos)
        omega

theorem pushed_append : pushed (ops ++ [op]) = op.endAfter (pushed ops) := by
  unfold pushed
  rw [List.countP_append]
  cases op <;> rfl

theorem any_schedules_append :
    (ops ++ [op]).any Op.schedules = (ops.any Op.schedules || op.schedules) := by
  rw [List.any_append, List.any_cons, List.any_nil, Bool.or_false]

/-- Before the first pop the queue has all its elements. -/
theorem takeWhile_of_not_any (h : ops.any Op.schedules = false) :
    (ops.takeWhile fun op => !op.schedules) = ops := by
  refine List.takeWhile_eq_self_iff.mpr fun op hop => ?_
  rw [List.any_eq_false] at h
  simpa using h op hop

/-- After the first pop nothing counts any more. -/
theorem takeWhile_append_of_any {ops' : List (Op F V)} (h : ops.any Op.schedules = true) :
    ((ops ++ ops').takeWhile fun op => !op.schedules) = ops.takeWhile fun op => !op.schedules := by
  induction ops with
  | nil => cases h
  | cons o ops ih =>
    rw [List.cons_append, List.takeWhile_cons, List.takeWhile_cons]
    by_cases ho : o.schedules = true
    · rw [ho]
      rfl
    · rw [List.any_cons, Bool.eq_false_iff.mpr ho, Bool.false_or] at h
      rw [ih h]

theorem pushedFirst_of_not_any (h : ops.any Op.schedules = false) :
    pushedFirst ops = pushed ops := by
  unfold pushedFirst
  rw [takeWhile_of_not_any h]

theorem pushedFirst_append_of_any {ops' : List (Op F V)} (h : ops.any Op.schedules = true) :
    pushedFirst (ops ++ ops') = pushedFirst ops := by
  unfold pushedFirst
  rw [takeWhile_append_of_any h]

/-- A call that pops first does not count either. -/
theorem pushedFirst_append_of_schedules (h : op.schedules = true) :
    pushedFirst (ops ++ [op]) = pushedFirst ops := by
  by_cases hany : ops.any Op.schedules = true
  · exact pushedFirst_append_of_any hany
  · rw [Bool.not_eq_true] at hany
    unfold pushedFirst
    rw [List.takeWhile_append_of_pos, List.takeWhile_cons, h, takeWhile_of_not_any hany]
    · simp
    · rw [List.any_eq_false] at hany
      simpa using hany

theorem pushedFirst_append_of_not_pushes (h : op.pushes = false) :
    pushedFirst (ops ++ [op]) = pushedFirst ops := by
  by_cases hop : op.schedules = true
  · exact pushedFirst_append_of_schedules hop
  by_cases hany : ops.any Op.schedules = true
  · exact pushedFirst_append_of_any hany
  rw [Bool.not_eq_true] at hop hany
  rw [pushedFirst_of_not_any (by rw [any_schedules_append, hany, hop]; rfl),
    pushedFirst_of_not_any hany]
  unfold pushed
  rw [List.countP_append, List.countP_singleton, h]
  rfl

/-- A run that has stayed flat did so all the time. -/
theorem StaysFlat.of_append (h : StaysFlat (ops ++ [op])) : StaysFlat ops := by
  unfold StaysFlat at h ⊢
  by_cases hany : ops.any Op.schedules = true
  · rw [pushedFirst_append_of_any hany, pushed_append] at h
    cases op <;> simp only [Op.endAfter] at h <;> omega
  · rw [pushedFirst_of_not_any (Bool.eq_false_iff.mpr hany)]
    refine lt_roomFor ?_
    unfold pushed
    omega

/-! ## 2. The queue of a run -/

/-- What the calls so far say about the queue: where it ends, how large its memory is, and whether
`start` has moved. -/
structure Rolled (ops : List (Op F V)) (s : Runtime Graph F V) : Prop where
  flatAt : s.sched.FlatAt (pushed ops) (roomFor (pushedFirst ops))
  start : s.sched.queue.start = 0 ↔ ops.any Op.schedules = false
  main : ops.any Op.schedules = false → s.running.idx = 1

/-- A flat queue starts its length before its end. -/
theorem start_add_length {s : Runtime Graph F V} {a : Runtime TaskGraph F V} {n cap : Nat}
    (hsa : SameRuntime TaskGraph.Represents s a) (hg : s.sched.FlatAt n cap) :
    s.sched.queue.start + a.sched.tasks.length = n ∧ (n < cap ∨ cap = 0 ∧ n = 0) := by
  obtain ⟨⟨l, hl⟩, rfl, rfl⟩ := hg
  obtain ⟨hend, hroom, -⟩ := hsa.sched.queue.flat hl.flat
  refine ⟨?_, hroom⟩
  unfold TaskGraph.tasks
  rw [hend, List.length_map, List.length_map]

/-- A call that does not pop. -/
theorem Effect.idle {s t : Runtime TaskGraph F V} {r : Reply F V} (heff : Effect s op r t)
    (hop : op.schedules = false) : t.running = s.running ∧
      ∀ n, op.endAfter n + s.sched.tasks.length = n + t.sched.tasks.length := by
  cases heff with
  | call _ _ _ _ tasks running =>
    refine ⟨running, fun n => ?_⟩
    rw [tasks, List.length_append, List.length_singleton]
    dsimp only [Op.endAfter]
    omega
  | alone => cases hop
  | skip => cases hop
  | await => cases hop
  | ret => cases hop
  | wake => cases hop
  | orphan _ _ _ running sched =>
    rw [sched]
    exact ⟨running, fun n => rfl⟩
  | free _ _ _ _ _ running tasks =>
    rw [tasks]
    exact ⟨running, fun n => rfl⟩
  | poll _ same =>
    rw [same]
    exact ⟨rfl, fun n => rfl⟩

/-- A call that pops: the queue loses an element, or gets one behind it, or `async_return` puts
one in its place. -/
theorem Effect.popped {s t : Runtime TaskGraph F V} {r : Reply F V} (heff : Effect s op r t)
    (hop : op.schedules = true) :
    (∀ n, n + t.sched.tasks.length < op.endAfter n + s.sched.tasks.length) ∨
      s.running.idx ≠ 1 ∧ ∀ n, n + t.sched.tasks.length = op.endAfter n + s.sched.tasks.length := by
  cases heff with
  | call => cases hop
  | alone _ same =>
    rw [same]
    exact .inl fun n => Nat.add_lt_add_right (Nat.lt_succ_self n) _
  | skip queue tasks =>
    rw [queue, tasks]
    refine .inl fun n => ?_
    simp only [Op.endAfter, List.length_append, List.length_cons, List.length_nil]
    omega
  | await queue _ _ _ _ tasks =>
    rw [queue, tasks]
    exact .inl fun n => Nat.lt_succ_self _
  | ret _ queue _ _ _ tasks =>
    rw [queue, tasks]
    exact .inl fun n => Nat.lt_succ_self _
  | wake notMain queue _ _ _ _ _ tasks =>
    rw [queue, tasks]
    exact .inr ⟨notMain, fun n => rfl⟩
  | orphan => cases hop
  | free => cases hop
  | poll => cases hop

namespace Rolled

variable {s t : Runtime Graph F V} {a b : Runtime TaskGraph F V} {r : Reply F V}

/-- **The next push fits exactly if it does not wrap.** -/
theorem staysFlat_iff (hr : Rolled ops s) (hsa : SameRuntime TaskGraph.Represents s a) :
    StaysFlat (ops ++ [op]) ↔ ¬ op.Overruns s.sched.queue := by
  obtain ⟨-, hroom⟩ := start_add_length hsa hr.flatAt
  have hend := hr.flatAt.2.1
  have hcap := hr.flatAt.2.2
  have hpos : pushed ops ≠ 0 := by
    unfold pushed
    omega
  unfold StaysFlat
  rw [pushed_append]
  cases op with
  | call fn arg =>
    unfold Op.endAfter Op.Overruns Wraps
    by_cases hany : ops.any Op.schedules = true
    · have hs : s.sched.queue.start ≠ 0 := fun h => by
        rw [hr.start.mp h] at hany
        cases hany
      rw [pushedFirst_append_of_any hany, hend, hcap]
      constructor
      · rintro h ⟨h', -⟩
        exact Nat.ne_of_lt h h'
      · intro h
        have hne : pushed ops + 1 ≠ roomFor (pushedFirst ops) := fun h' => h ⟨h', hs⟩
        dsimp only
        omega
    · rw [Bool.not_eq_true] at hany
      refine iff_of_true ?_ fun h => h.2 (hr.start.mpr hany)
      rw [pushedFirst_of_not_any (by rw [any_schedules_append, hany]; rfl), pushed_append]
      exact lt_roomFor (Nat.succ_ne_zero _)
  | skip =>
    unfold Op.endAfter Op.Overruns
    rw [pushedFirst_append_of_schedules rfl, hend, hcap]
    dsimp only
    omega
  | await _ | ret _ | orphan _ | free _ | poll _ =>
    rw [pushedFirst_append_of_not_pushes rfl]
    refine iff_of_true ?_ id
    dsimp only [Op.endAfter]
    omega

/-- The size of the memory after a call that fits. -/
theorem capAfter_eq (hr : Rolled ops s) (hsa : SameRuntime TaskGraph.Represents s a)
    (hfit : ¬ op.Overruns s.sched.queue) :
    op.capAfter (pushed ops) (roomFor (pushedFirst ops)) = roomFor (pushedFirst (ops ++ [op])) := by
  cases op with
  | call fn arg =>
    dsimp only [Op.capAfter]
    by_cases hany : ops.any Op.schedules = true
    · have hflat := (hr.staysFlat_iff hsa).mpr hfit
      unfold StaysFlat at hflat
      rw [pushedFirst_append_of_any hany, pushed_append] at hflat
      rw [pushedFirst_append_of_any hany]
      exact if_pos hflat
    · rw [Bool.not_eq_true] at hany
      have happend : (ops ++ [Op.call fn arg]).any Op.schedules = false := by
        rw [any_schedules_append, hany]
        rfl
      rw [pushedFirst_of_not_any happend, pushedFirst_of_not_any hany, pushed_append]
      rfl
  | skip => exact congrArg roomFor (pushedFirst_append_of_schedules rfl).symm
  | await _ | ret _ | orphan _ | free _ | poll _ =>
    exact congrArg roomFor (pushedFirst_append_of_not_pushes rfl).symm

/-- **A call that fits keeps the count.** -/
theorem next (hr : Rolled ops s) (hsa : SameRuntime TaskGraph.Represents s a)
    (htb : SameRuntime TaskGraph.Represents t b) (heff : Effect a op r b)
    (hfit : ¬ op.Overruns s.sched.queue)
    (ht : t.sched.FlatAt (op.endAfter (pushed ops))
      (op.capAfter (pushed ops) (roomFor (pushedFirst ops)))) : Rolled (ops ++ [op]) t := by
  obtain ⟨hs, -⟩ := start_add_length hsa hr.flatAt
  obtain ⟨ht', -⟩ := start_add_length htb ht
  rw [hr.capAfter_eq hsa hfit, ← pushed_append] at ht
  by_cases hop : op.schedules = true
  · have hne : t.sched.queue.start ≠ 0 := by
      rcases heff.popped hop with hlt | ⟨hmain, heq⟩
      · have := hlt (pushed ops)
        omega
      · -- a task that wakes another one is not `main`, so a call has popped before
        have hstart : s.sched.queue.start ≠ 0 := fun h => by
          refine hmain ?_
          rw [← hsa.running]
          exact hr.main (hr.start.mp h)
        have := heq (pushed ops)
        omega
    have hany : (ops ++ [op]).any Op.schedules ≠ false := by
      rw [any_schedules_append, hop, Bool.or_true]
      decide
    exact ⟨ht, iff_of_false hne hany, fun h => absurd h hany⟩
  · rw [Bool.not_eq_true] at hop
    obtain ⟨hrun, hlen⟩ := heff.idle hop
    have hany : (ops ++ [op]).any Op.schedules = ops.any Op.schedules := by
      rw [any_schedules_append, hop, Bool.or_false]
    have hstart : t.sched.queue.start = s.sched.queue.start := by
      have := hlen (pushed ops)
      omega
    refine ⟨ht, ?_, fun h => ?_⟩
    · rw [hstart, hany]
      exact hr.start
    · rw [htb.running, hrun, ← hsa.running]
      exact hr.main (hany ▸ h)

end Rolled

/-- Nobody frees the task that awaits the running one, in a run that frees finished tasks only. -/
theorem Tame.waiterLive {s : Runtime Graph F V} {a : Runtime TaskGraph F V} (ha : Tame a)
    (hsa : SameRuntime TaskGraph.Represents s a) : s.sched.WaiterLive := by
  have hrep := hsa.sched
  obtain ⟨c, q, hq, -, hnode, -⟩ := ha.inv.exists_queue
  intro r node p waiter hfront hn hp hwaiter
  have hholds := hrep.queue
  rw [hq, List.map_cons] at hholds
  obtain rfl : c = r := by
    rw [hholds.front] at hfront
    simpa using hfront
  have hc := hrep.marks.node (hrep.nodeOf_lt hnode)
  rw [hn] at hc
  cases hc
  obtain ⟨i, hi, -⟩ := ha.parent hnode (.inr ha.inv.running) hp
  have hp' := hrep.marks.node (hrep.nodeOf_lt hi)
  rw [hwaiter] at hp'
  cases hp'
  obtain ⟨hhandle, hne, -⟩ := ha.inv.graph.node hi
  rw [hhandle]
  exact hne

/-! ## 3. Every run -/

/-- **The start** is the same in the two builds. -/
theorem rolled_start {s₀ : Runtime Graph F V} (h₀ : Start s₀) :
    Debug.Start s₀ ∧ Rolled ([] : List (Op F V)) s₀ := by
  obtain ⟨a, ha, hsa⟩ := graphRefines.start h₀
  obtain ⟨mainFn', arg', rfl⟩ := ha.eq_started
  obtain ⟨mainFn, arg, hmain⟩ := h₀
  have hchecked := Debug.runAsyncMain_checked (F := F) (V := V) mainFn arg
  have hflat : s₀.sched.FlatAt 1 10 := hchecked.result id _ hmain
  obtain ⟨hlen, -⟩ := start_add_length hsa hflat
  have hstart : s₀.sched.queue.start = 0 := Nat.add_right_cancel (m := 1) hlen
  refine ⟨⟨mainFn, arg, (hchecked.passes id).trans hmain⟩, hflat, iff_of_true hstart rfl,
    fun _ => ?_⟩
  rw [hsa.running]
  rfl

/-- **A call in a state of such a run.**  The two builds do the same if the call fits, and
otherwise only the other one goes on. -/
theorem Rolled.step {ops : List (Op F V)} {s : Runtime Graph F V} {a : Runtime TaskGraph F V}
    (hr : Rolled ops s) (ha : Tame a) (hsa : SameRuntime TaskGraph.Represents s a) (op : Op F V) :
    (StaysFlat (ops ++ [op]) → Debug.step s op = step s op) ∧
      (¬ StaysFlat (ops ++ [op]) → Debug.step s op = .error .verifyQueue) := by
  have hchecked := Debug.step_checked hr.flatAt (ha.waiterLive hsa) op
  rw [hr.staysFlat_iff hsa]
  refine ⟨hchecked.passes, fun hover => ?_⟩
  rw [not_not] at hover
  -- `async_call` and `async_skip` never fail without the check
  have hok : ∃ o, CAsync.step s op = .ok o := by
    have hlock := graphRefines.step hsa op
    cases op with
    | call fn arg =>
      obtain ⟨h, t, hok, -⟩ := ha.inv.step_call fn arg
      rw [hok] at hlock
      obtain ⟨o, ho, -⟩ := hlock.ok_right
      exact ⟨o, ho⟩
    | skip =>
      obtain ⟨r, t, hok, -⟩ := ha.inv.step_skip
      rw [hok] at hlock
      obtain ⟨o, ho, -⟩ := hlock.ok_right
      exact ⟨o, ho⟩
    | await _ | ret _ | orphan _ | free _ | poll _ => exact hover.elim
  obtain ⟨o, ho⟩ := hok
  exact hchecked.rejects hover o ho

/-- **The queue of every state of every run is well marked**, wrapped around or not. -/
theorem Reached.wellMarked {l : List (Op F V × Reply F V)} {s : Runtime Graph F V}
    (hs : Reached l s) : s.sched.WellMarked := by
  obtain ⟨a, -, ha, hsa⟩ := hs.model
  have hr := hsa.sched
  refine Graph.wellMarked_of_holds hr.queue hr.nodup fun r hmem => ?_
  exact ⟨_, hr.marks.node (hr.queue_lt hmem), decide_eq_true hmem, ha.graph.handle_ne hmem⟩

/-- **A run in the two builds.**  The `DEBUG` build makes it exactly if its pushes fit, and then it
is in the same state. -/
theorem debug_run {s₀ s : Runtime Graph F V} {l : List (Op F V × Reply F V)} (h₀ : Start s₀)
    (hrun : Steps (Guarded FreesFinished) s₀ l s) :
    ((∃ u, Steps Debug.Next s₀ l u) ↔ StaysFlat (l.map Prod.fst)) ∧
      (StaysFlat (l.map Prod.fst) → Steps Debug.Next s₀ l s ∧ Rolled (l.map Prod.fst) s) := by
  refine hrun.history (P := fun l s => ((∃ u, Steps Debug.Next s₀ l u) ↔
    StaysFlat (l.map Prod.fst)) ∧ (StaysFlat (l.map Prod.fst) →
      Steps Debug.Next s₀ l s ∧ Rolled (l.map Prod.fst) s)) ?_ ?_
  · have hflat : StaysFlat ([] : List (Op F V)) := lt_roomFor Nat.one_ne_zero
    exact ⟨iff_of_true ⟨s₀, .refl s₀⟩ hflat, fun _ => ⟨.refl s₀, (rolled_start h₀).2⟩⟩
  · rintro l s ⟨op, r⟩ t hl ⟨hiff, hflat⟩ ⟨hst, hfree⟩
    rw [List.map_append, List.map_singleton]
    obtain ⟨a, ha, hsa⟩ := ReachedBy.tame ⟨s₀, h₀, hl⟩
    by_cases hnow : StaysFlat (l.map Prod.fst)
    swap
    · -- the check has failed before
      have hlater : ¬ StaysFlat (l.map Prod.fst ++ [op]) := fun h => hnow h.of_append
      refine ⟨iff_of_false ?_ hlater, fun h => absurd h hlater⟩
      rintro ⟨u, hu⟩
      obtain ⟨v, hv, -⟩ := Steps.append_iff.mp hu
      exact hnow (hiff.mp ⟨v, hv⟩)
    obtain ⟨hdebug, hr⟩ := hflat hnow
    obtain ⟨hsame, hstop⟩ := hr.step ha hsa op
    by_cases hnext : StaysFlat (l.map Prod.fst ++ [op])
    · have hst' : Debug.Next s (op, r) t := (hsame hnext).trans hst
      have hall := hdebug.append (.single hst')
      refine ⟨iff_of_true ⟨t, hall⟩ hnext, fun _ => ⟨hall, ?_⟩⟩
      obtain ⟨b, hab, htb⟩ := graphRefines.next hsa hst
      obtain ⟨heff, -⟩ := ha.inv.effect hab
      have hfit := (hr.staysFlat_iff hsa).mp hnext
      exact hr.next hsa htb heff hfit
        ((Debug.step_checked hr.flatAt (ha.waiterLive hsa) op).result hfit _ hst)
    · refine ⟨iff_of_false ?_ hnext, fun h => absurd h hnext⟩
      rintro ⟨u, hu⟩
      obtain ⟨v, hv, hlast⟩ := Steps.append_iff.mp hu
      obtain rfl : s = v := by
        refine Steps.unique ?_ hdebug hv
        exact fun _ _ _ _ => Debug.Next.unique
      obtain ⟨w, hw, -⟩ := Steps.cons_iff.mp hlast
      have hfail := hstop hnext
      rw [show Debug.step s op = .ok (.next w r) from hw] at hfail
      cases hfail

/-- **What `verify_queue` is worth.**  In a run of the graph scheduler, the `DEBUG` build gets
through the calls of `l` and its checks in the next call `op` pass exactly if the pushes of all
these calls fit into the memory that the queue has at the first pop: with one push more the queue
wraps around, and the check rejects it.  The other way round the check is sound: a queue that
passes is well marked. -/
theorem verify_queue_passes_iff {s₀ s : Runtime Graph F V} {l : List (Op F V × Reply F V)}
    (h₀ : Start s₀) (hrun : Steps (Guarded FreesFinished) s₀ l s) (op : Op F V) :
    (Debug.Start s₀ ∧ Steps Debug.Next s₀ l s ∧ Debug.step s op ≠ .error .verifyQueue ↔
      StaysFlat (l.map Prod.fst ++ [op])) ∧
    ∀ g : Graph, g.verifyQueue = .ok () → g.WellMarked := by
  refine ⟨?_, fun g => Graph.wellMarked_of_verifyQueue⟩
  obtain ⟨hiff, hflat⟩ := debug_run h₀ hrun
  obtain ⟨a, ⟨ha, hmain⟩, hsa⟩ := main_running ⟨s₀, h₀, hrun⟩
  constructor
  · rintro ⟨-, hdebug, hpass⟩
    obtain ⟨-, hr⟩ := hflat (hiff.mp ⟨s, hdebug⟩)
    by_contra hnext
    exact hpass ((hr.step ha hsa op).2 hnext)
  · intro hnext
    obtain ⟨hdebug, hr⟩ := hflat hnext.of_append
    refine ⟨(rolled_start h₀).1, hdebug, ?_⟩
    rw [(hr.step ha hsa op).1 hnext]
    exact fun hfail => ha.inv.step_avoids .verify op
      (fun h₁ h₂ h₃ => ha.last_awaited hmain h₁ h₂ h₃)
      ((graphRefines.step hsa op).error_iff.mp hfail)

/-- `main` calls a task and skips. -/
theorem verify_queue_passes_iff_call : ∃ s₀ s : Runtime Graph Nat Nat, Debug.Start s₀ ∧
    Steps Debug.Next s₀ [(.call 7 0, .handle ⟨2⟩)] s ∧ Debug.step s .skip ≠ .error .verifyQueue :=
  ⟨_, _, (verify_queue_passes_iff (l := [(.call 7 0, .handle ⟨2⟩)]) ⟨0, 0, rfl⟩
    (.cons ⟨rfl, fun _ h => by cases h⟩ (.refl _)) .skip).1.mpr (by decide)⟩

/-- `main` skips while it is the only task. -/
theorem skip_alone {s : Runtime Graph F V} {a : Runtime TaskGraph F V} (ha : Inv a)
    (halone : a.sched.tasks = [a.running]) (hsa : SameRuntime TaskGraph.Represents s a) :
    ∃ t, Guarded FreesFinished s (.skip, .skip) t ∧ SameRuntime TaskGraph.Represents t a := by
  have hlock := graphRefines.step hsa .skip
  obtain ⟨r, b, hok, heff, -⟩ := ha.step_skip
  rw [hok] at hlock
  obtain ⟨o, ho, hrel⟩ := hlock.ok_right
  cases hrel with
  | next _ htb =>
    cases heff with
    | alone _ same =>
      rw [same] at htb
      exact ⟨_, ⟨ho, fun _ h => by cases h⟩, htb⟩
    | skip queue =>
      rw [halone] at queue
      simp at queue

theorem skips_alone {s : Runtime Graph F V} {a : Runtime TaskGraph F V} (ha : Inv a)
    (halone : a.sched.tasks = [a.running]) (hsa : SameRuntime TaskGraph.Represents s a) (n : Nat) :
    ∃ t, Steps (Guarded FreesFinished) s (List.replicate n (.skip, .skip)) t := by
  induction n generalizing s with
  | zero => exact ⟨s, .refl s⟩
  | succ n ih =>
    obtain ⟨t, hst, hta⟩ := skip_alone ha halone hsa
    obtain ⟨u, hu⟩ := ih hta
    exact ⟨u, .cons hst hu⟩

/-- **The ninth rotation is rejected.**  `main` alone in the queue skips, and each time it moves on
by one cell; the ninth push uses the last one.  The queue that it leaves in the other build is well
marked, but here `verify_queue` stops the process. -/
theorem ninth_rotation_rejected : ∃ s₀ s t : Runtime Graph Nat Nat, Start s₀ ∧ Debug.Start s₀ ∧
    Steps Debug.Next s₀ (List.replicate 8 (.skip, .skip)) s ∧
    Debug.step s .skip = .error .verifyQueue ∧
    Steps (Guarded FreesFinished) s₀ (List.replicate 8 (.skip, .skip)) s ∧
    Next s (.skip, .skip) t ∧ t.sched.WellMarked := by
  obtain ⟨s₀, h₀⟩ : ∃ s₀ : Runtime Graph Nat Nat, Start s₀ := ⟨_, 0, 0, rfl⟩
  obtain ⟨a, ha, hsa⟩ := graphRefines.start h₀
  obtain ⟨mainFn, arg, rfl⟩ := ha.eq_started
  obtain ⟨t, ht⟩ := skips_alone (started_inv mainFn arg) rfl hsa 9
  rw [List.replicate_succ'] at ht
  obtain ⟨s, hs, hlast⟩ := Steps.append_iff.mp ht
  obtain ⟨t', hst, -⟩ := Steps.cons_iff.mp hlast
  obtain ⟨-, hflat⟩ := debug_run h₀ hs
  obtain ⟨hdebug, hr⟩ := hflat (by decide)
  obtain ⟨b, hb, hsb⟩ := ReachedBy.tame ⟨s₀, h₀, hs⟩
  refine ⟨s₀, s, t', h₀, (rolled_start h₀).1, hdebug, (hr.step hb hsb .skip).2 (by decide), hs,
    hst.1, ?_⟩
  exact Reached.wellMarked ⟨s₀, h₀, (hs.mono fun _ _ _ h => h.1).append (.single hst.1)⟩

end CAsync
