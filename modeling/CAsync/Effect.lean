/-
# What each call does

`Effect s op r t` says what a call that passes its assertions does to the slots, the run queue,
the map and the parent pointers.  `Inv.switched` is the step lemma shared by the calls that
switch: only the task that leaves and the task that goes on change, so the invariant of the
others is carried over.

The modules `Calls`, `Awaiting` and `Returning` compute the calls one by one; `Reachable` puts
them together.
-/
import CAsync.Async
import CAsync.Invariant

namespace CAsync

open Faulting TaskPool

variable {F V : Type}

/-! ## 1. The task that runs next -/

/-- What a task is told when it runs on: that it starts, or that the function it is in goes on. -/
def Task.resumed (t : Task F V) : Reply F V :=
  if t.state = .init then .start t.fn t.data
  else match t.stackPtr with
    | some (.busyWaitReady h) => .waiting h
    | _ => .skip

/-- Only `async_call` is told a handle. -/
theorem Task.resumed_ne_handle (t : Task F V) (h : Handle) : t.resumed ≠ .handle h := by
  unfold Task.resumed
  split
  · nofun
  · split <;> nofun

/-- The task is in the queue and can be switched to. -/
def Task.Runnable (t : Task F V) (top : Frame) : Prop :=
  t.stackPtr = some top ∧ (t.state = .init ∨
    t.state = .running ∧ (top = .asyncSkip ∨ ∃ h, top = .busyWaitReady h))

theorem Task.Runnable.state {t : Task F V} {top : Frame} (h : t.Runnable top) :
    t.state = .init ∨ t.state = .running := h.2.imp_right And.left

/-- A runnable task makes no assertion when it is switched to. -/
theorem replyOf_runnable {S : Type} [SchedulerVTable S] {s : Runtime S F V} {t : Task F V}
    {top : Frame} (h : t.Runnable top) (r : Reply F V) :
    replyOf s r (if t.state = .init then .entered t.fn t.data else .resumed top) =
      .ok t.resumed := by
  obtain ⟨htop, hinit | ⟨hrun, rfl | ⟨k, rfl⟩⟩⟩ := h
  · rw [if_pos hinit]
    unfold Task.resumed
    rw [if_pos hinit]
    rfl
  · have hne : t.state ≠ .init := by rw [hrun]; decide
    rw [if_neg hne]
    unfold Task.resumed
    rw [if_neg hne, htop]
    rfl
  · have hne : t.state ≠ .init := by rw [hrun]; decide
    rw [if_neg hne]
    unfold Task.resumed
    rw [if_neg hne, htop]
    rfl

theorem Inv.runnable {s : Runtime TaskGraph F V} (hs : Inv s) {h : Handle}
    (hh : h ∈ s.sched.tasks) (hne : h ≠ s.running) :
    ∃ u top, s.pool.slot h = some u ∧ u.Runnable top := by
  obtain ⟨u, hu, ⟨h1, h2⟩ | ⟨h1, h2⟩⟩ := hs.queued hh hne
  · exact ⟨u, _, hu, h2, .inl h1⟩
  · exact ⟨u, _, hu, h2, .inr ⟨h1, .inl rfl⟩⟩

/-- The processor goes on with the task `u` of slot `next`; `slots` is the pool before that. -/
structure SwitchedTo {S : Type} (t : Runtime S F V) (slots : Handle → Option (Task F V))
    (next : Handle) (u : Task F V) : Prop where
  task : slots next = some u
  slot : t.pool.slot = Function.update slots next (some u.run)
  running : t.running = next

/-- The states after a switch. -/
theorem SwitchedTo.stateOf {S : Type} {t : Runtime S F V} {slots : Handle → Option (Task F V)}
    {next : Handle} {u : Task F V} (hsw : SwitchedTo t slots next u) (i : Handle) :
    t.pool.stateOf i = if i = next then some .running else (slots i).map Task.state := by
  unfold TaskPool.stateOf
  rw [hsw.slot]
  by_cases hi : i = next
  · rw [if_pos hi, hi, Function.update_self]
    rfl
  · rw [if_neg hi, Function.update_of_ne hi]

/-- A task that is not `RUNNING` after a switch is as it was before. -/
theorem SwitchedTo.of_slot {S : Type} {t : Runtime S F V} {slots : Handle → Option (Task F V)}
    {h next : Handle} {u w : Task F V} (hsw : SwitchedTo t slots next u)
    (hw : t.pool.slot h = some w) (hne : w.state ≠ .running) : slots h = some w := by
  rw [hsw.slot] at hw
  by_cases hh : h = next
  · rw [hh, Function.update_self, Option.some.injEq] at hw
    rw [← hw] at hne
    exact absurd rfl hne
  · rwa [Function.update_of_ne hh] at hw

/-! ## 2. The effects -/

/-- The slots after the running task has left the processor inside `frame`. -/
def leave {S : Type} (s : Runtime S F V) (frame : Frame) : Handle → Option (Task F V) :=
  Function.update s.pool.slot s.running ((s.pool.slot s.running).map (Task.suspend frame))

theorem leave_eq {S : Type} {s : Runtime S F V} {w : Task F V}
    (hw : s.pool.slot s.running = some w) (frame : Frame) :
    leave s frame = Function.update s.pool.slot s.running (some (w.suspend frame)) := by
  unfold leave
  rw [hw, Option.map_some]

/-- The task after `async_return(data)`: `READY`, or `FREE` and at the head of the free list. -/
def Task.finish (t : Task F V) (data : V) (freeTask : Handle) : Task F V :=
  if t.orphaned = true then { t with data := data, state := .free, handle := freeTask }
  else { t with data := data, state := .ready }

/-- **What a call does** if it passes its assertions. -/
inductive Effect (s : Runtime TaskGraph F V) :
    Op F V → Reply F V → Runtime TaskGraph F V → Prop
  | call {fn : F} {arg : V} {h : Handle} {u : Task F V} {t : Runtime TaskGraph F V}
      (new : NewTask s.pool h fn arg u)
      (slot : t.pool.slot = Function.update s.pool.slot h (some u))
      (room : s.pool.stateOf h = some .free ∧ t.pool.len = s.pool.len ∨
        h.idx = s.pool.len + 1 ∧ t.pool.len = s.pool.len + 1 ∧
          ∀ i, s.pool.stateOf i ≠ some .free)
      (fresh : s.sched.nodeOf h.idx = none)
      (tasks : t.sched.tasks = s.sched.tasks ++ [h]) (running : t.running = s.running)
      (nodeOf : t.sched.nodeOf = Function.update s.sched.nodeOf h.idx (some s.sched.fresh))
      (parent : t.sched.parent = Function.update s.sched.parent s.sched.fresh none) :
      Effect s (.call fn arg) (.handle h) t
  /-- `async_skip` with no other task in the queue. -/
  | alone {t : Runtime TaskGraph F V} (alone : s.sched.tasks = [s.running]) (same : t = s) :
      Effect s .skip .skip t
  | skip {next : Handle} {rest : List Handle} {u : Task F V} {t : Runtime TaskGraph F V}
      (queue : s.sched.tasks = s.running :: next :: rest)
      (tasks : t.sched.tasks = next :: rest ++ [s.running])
      (switched : SwitchedTo t (leave s .asyncSkip) next u) (len : t.pool.len = s.pool.len)
      (nodeOf : t.sched.nodeOf = s.sched.nodeOf) (parent : t.sched.parent = s.sched.parent) :
      Effect s .skip u.resumed t
  | await {h next : Handle} {rest : List Handle} {p c : Nat} {u : Task F V}
      {t : Runtime TaskGraph F V} (queue : s.sched.tasks = s.running :: next :: rest)
      (child : h ∈ next :: rest) (node : s.sched.nodeOf h.idx = some c)
      (unawaited : s.sched.parent c = none) (waiter : s.sched.nodeOf s.running.idx = some p)
      (tasks : t.sched.tasks = next :: rest)
      (switched : SwitchedTo t (leave s (.graphWaitReady s.running c h)) next u)
      (len : t.pool.len = s.pool.len) (nodeOf : t.sched.nodeOf = s.sched.nodeOf)
      (parent : t.sched.parent = Function.update s.sched.parent c (some p)) :
      Effect s (.await h) u.resumed t
  /-- `async_return` of a task that nobody awaits. -/
  | ret {data : V} {next : Handle} {rest : List Handle} {p : Nat} {v u : Task F V}
      {t : Runtime TaskGraph F V} (notMain : s.running.idx ≠ 1)
      (queue : s.sched.tasks = s.running :: next :: rest)
      (task : s.pool.slot s.running = some v) (node : s.sched.nodeOf s.running.idx = some p)
      (unawaited : s.sched.parent p = none) (tasks : t.sched.tasks = next :: rest)
      (switched : SwitchedTo t (Function.update s.pool.slot s.running
        (some (v.finish data s.pool.freeTask))) next u)
      (len : t.pool.len = s.pool.len)
      (nodeOf : t.sched.nodeOf = if v.orphaned = true
        then Function.update s.sched.nodeOf s.running.idx none else s.sched.nodeOf)
      (parent : t.sched.parent = s.sched.parent) :
      Effect s (.ret data) u.resumed t
  /-- `async_return` of a task that `i` awaits. -/
  | wake {data : V} {i : Handle} {rest : List Handle} {c : Nat} {v : Task F V}
      {t : Runtime TaskGraph F V} (notMain : s.running.idx ≠ 1)
      (queue : s.sched.tasks = s.running :: rest) (task : s.pool.slot s.running = some v)
      (node : s.sched.nodeOf s.running.idx = some c) (kept : v.orphaned = false)
      (waiting : Suspended s i c s.running) (away : i ∉ s.sched.tasks)
      (tasks : t.sched.tasks = i :: rest)
      (slot : t.pool.slot = Function.update s.pool.slot s.running
        (some { v with data := data, state := .ready }))
      (running : t.running = i) (len : t.pool.len = s.pool.len)
      (nodeOf : t.sched.nodeOf = s.sched.nodeOf) (parent : t.sched.parent = s.sched.parent) :
      Effect s (.ret data) (.await data) t
  | orphan {h : Handle} {u : Task F V} {t : Runtime TaskGraph F V} (task : s.pool.slot h = some u)
      (slot : t.pool.slot = Function.update s.pool.slot h (some { u with orphaned := true }))
      (len : t.pool.len = s.pool.len) (running : t.running = s.running)
      (sched : t.sched = s.sched) :
      Effect s (.orphan h) .done t
  /-- `async_free`: the task has finished, or it waits for another task. -/
  | free {h : Handle} {u : Task F V} {t : Runtime TaskGraph F V} (task : s.pool.slot h = some u)
      (stage : u.state = .ready ∨ ∃ c k, Suspended s h c k) (away : h ∉ s.sched.tasks)
      (slot : t.pool.slot = Function.update s.pool.slot h
        (some { u with state := .free, handle := s.pool.freeTask }))
      (len : t.pool.len = s.pool.len) (running : t.running = s.running)
      (tasks : t.sched.tasks = s.sched.tasks)
      (nodeOf : t.sched.nodeOf = Function.update s.sched.nodeOf h.idx none)
      (parent : t.sched.parent = s.sched.parent) :
      Effect s (.free h) .done t
  | poll {h : Handle} {u : Task F V} {t : Runtime TaskGraph F V} (task : s.pool.slot h = some u)
      (same : t = s) : Effect s (.poll h) (.state u.state) t

/-! ## 3. The running task -/

namespace Inv

variable {s t : Runtime TaskGraph F V} {h i next : Handle} {u v : Task F V} {c : Nat} {k : Handle}

theorem running_mem (hs : Inv s) : s.running ∈ s.sched.tasks := by
  obtain ⟨rest, hq⟩ := hs.exists_rest
  rw [hq]
  exact List.mem_cons_self

theorem running_task (hs : Inv s) : ∃ w, s.pool.slot s.running = some w ∧ w.state = .running :=
  stateOf_eq_some.mp hs.running

/-- The second task in the queue is not the running one. -/
theorem next_ne (hs : Inv s) {rest : List Handle}
    (hq : s.sched.tasks = s.running :: next :: rest) : next ≠ s.running := by
  have hnd := hs.graph.tasks_nodup
  rw [hq] at hnd
  rintro rfl
  simp at hnd

theorem running_state (hs : Inv s) (hu : s.pool.slot s.running = some u) : u.state = .running := by
  have hrun := hs.running
  rwa [stateOf_eq hu, Option.some.injEq] at hrun

/-- The task that leaves the processor is `RUNNING`. -/
theorem of_leave (hs : Inv s) {frame : Frame} (hu : leave s frame h = some u)
    (hne : u.state ≠ .running) : s.pool.slot h = some u := by
  unfold leave at hu
  by_cases hh : h = s.running
  · rw [hh, Function.update_self] at hu
    obtain ⟨w, hw, rfl⟩ := Option.map_eq_some_iff.mp hu
    exact absurd (hs.running_state hw) hne
  · rwa [Function.update_of_ne hh] at hu

/-- The queue in nodes: its front is the node of the running task. -/
theorem exists_queue (hs : Inv s) : ∃ p q, s.sched.queue = p :: q ∧
    s.running = ⟨s.sched.handle p⟩ ∧ s.sched.nodeOf s.running.idx = some p ∧
    s.sched.handle p ≠ 0 ∧ p ∉ q ∧
    s.sched.tasks = s.running :: q.map fun r => ⟨s.sched.handle r⟩ := by
  obtain ⟨rest, hrest⟩ := hs.exists_rest
  have hrest' := hrest
  unfold TaskGraph.tasks at hrest'
  obtain ⟨p, q, hq, hp, rfl⟩ := List.map_eq_cons_iff.mp hrest'
  have hmem : p ∈ s.sched.queue := by
    rw [hq]
    exact List.mem_cons_self
  have hnd := hs.graph.nodup
  rw [hq] at hnd
  refine ⟨p, q, hq, hp.symm, ?_, hs.graph.handle_ne hmem, (List.nodup_cons.mp hnd).1, hrest⟩
  rw [← hp]
  exact hs.graph.queued hmem

theorem currentTask (hs : Inv s) : s.sched.front s.sched.queue = .ok s.running := by
  obtain ⟨p, q, hq, hp, -, h0, -⟩ := hs.exists_queue
  rw [hq]
  unfold TaskGraph.front
  dsimp only
  rw [require_of h0, ok_bind, hp]

/-- A task in the queue waits for nobody. -/
theorem not_suspended (hs : Inv s) (hh : h ∈ s.sched.tasks) : ¬ Suspended s h c k := by
  rintro ⟨hne, u, hu, -, hframe⟩
  obtain ⟨v, top, hv, htop, hstage⟩ := hs.runnable hh hne
  rw [hu] at hv
  cases hv
  rw [htop] at hframe
  cases hframe
  rcases hstage with hinit | ⟨-, hskip | ⟨k, hwait⟩⟩
  · obtain ⟨w, hw, ⟨-, h2⟩ | ⟨h1, -⟩⟩ := hs.queued hh hne
    · rw [hu] at hw
      cases hw
      rw [htop] at h2
      cases h2
    · rw [hu] at hw
      cases hw
      rw [hinit] at h1
      cases h1
  · cases hskip
  · cases hwait

/-! ## 4. The invariant after a switch -/

/-- **The invariant after a switch.**  The running task is left as `v`, and the processor goes
on with `next`.  Only the tasks `s.running` and `next` change; what is asked of the rest is that
its nodes, parents and places in the queue stay. -/
theorem switched (hs : Inv s) (pool : t.pool.WellFormed) (graph : t.sched.WellFormed)
    (hsw : SwitchedTo t (Function.update s.pool.slot s.running (some v)) next u)
    (hne : next ≠ s.running) (hfront : t.sched.tasks.head? = some next)
    (hstate : u.state = .init ∨ u.state = .running) (hold : Phase t s.running v)
    (hnode : ∀ h, h ≠ s.running → t.sched.nodeOf h.idx = s.sched.nodeOf h.idx)
    (hback : ∀ c, t.sched.nodeOf s.running.idx = some c → s.sched.nodeOf s.running.idx = some c)
    (hqueue : ∀ h, h ≠ s.running → h ≠ next → (h ∈ t.sched.tasks ↔ h ∈ s.sched.tasks))
    (hparent : ∀ c r, s.sched.parent c = some r → t.sched.parent c = some r)
    (hdead : ∀ c, s.sched.handle c = 0 → t.sched.handle c = 0)
    (hchild : ∀ i c r, i ≠ next → s.sched.nodeOf s.running.idx = some c →
      s.sched.parent c = some r → s.sched.nodeOf i.idx = some r →
      t.sched.nodeOf s.running.idx = s.sched.nodeOf s.running.idx ∧ t.pool.Unfinished s.running)
    (hnext : ∀ c k, Suspended s next c k → ¬ t.pool.Unfinished k)
    (hnew : ∀ c p, t.sched.parent c = some p → s.sched.parent c = some p ∨
      ∀ h, t.sched.nodeOf h.idx = some c →
        ∃ i, t.sched.nodeOf i.idx = some p ∧ i ∉ t.sched.tasks ∧ Suspended t i c h) : Inv t := by
  have hslot : ∀ h, h ≠ s.running → h ≠ next → t.pool.slot h = s.pool.slot h := by
    intro h h1 h2
    rw [hsw.slot, Function.update_of_ne h2, Function.update_of_ne h1]
  have hold' : t.pool.slot s.running = some v := by
    rw [hsw.slot, Function.update_of_ne (Ne.symm hne), Function.update_self]
  have hnext' : t.pool.slot next = some u.run := by
    rw [hsw.slot, Function.update_self]
  have hunext : s.pool.slot next = some u := by
    have htask := hsw.task
    rwa [Function.update_of_ne hne] at htask
  have hunf : ∀ h, h ≠ s.running → (t.pool.Unfinished h ↔ s.pool.Unfinished h) := by
    intro h h1
    unfold Unfinished
    by_cases h2 : h = next
    · subst h2
      rw [stateOf_eq hnext', stateOf_eq hunext]
      rcases hstate with h | h <;> simp [Task.run, h]
    · unfold stateOf
      rw [hslot h h1 h2]
  have hnever : ∀ i c k, i ∉ s.sched.tasks → Suspended s i c k → i ≠ s.running := by
    rintro i c k hi - rfl
    exact hi hs.running_mem
  have hstays : ∀ i c k, i ≠ s.running → i ≠ next → Suspended s i c k → Suspended t i c k := by
    rintro i c k h1 h2 ⟨-, hframe⟩
    refine ⟨by rw [hsw.running]; exact h2, ?_⟩
    rwa [hslot i h1 h2]
  refine ⟨pool, graph, by rw [hfront, hsw.running], ?_, fun {h} hsome => ?_, fun {h w} hw => ?_,
    fun {c p h} hc hu hp => ?_⟩
  · rw [hsw.running, stateOf_eq hnext']
    rfl
  · by_cases h1 : h = s.running
    · subst h1
      rw [hold']
      rfl
    · rw [hnode h h1] at hsome
      have hsl := hs.mapped hsome
      by_cases h2 : h = next
      · subst h2
        rw [hnext']
        rfl
      · rwa [hslot h h1 h2]
  · by_cases h1 : h = s.running
    · subst h1
      rw [hold'] at hw
      cases hw
      exact hold
    by_cases h2 : h = next
    · subst h2
      rw [hnext'] at hw
      cases hw
      exact .current rfl hsw.running.symm
    · rw [hslot h h1 h2] at hw
      refine (hs.phase hw).mono (hnode h h1) (hqueue h h1 h2) ?_ ?_
      · rw [hsw.running]
        exact ⟨fun e => absurd e h2, fun e => absurd e h1⟩
      · intro r c k hr hp hframe hrun _ hc
        refine ⟨hparent c r hp, hc.imp (hdead c) ?_⟩
        rintro ⟨hk, hunk⟩
        by_cases hkr : k = s.running
        · subst hkr
          obtain ⟨h3, h4⟩ := hchild h c r h2 hk hp hr
          exact ⟨h3.trans hk, h4⟩
        · exact ⟨(hnode k hkr).trans hk, (hunf k hkr).mpr hunk⟩
  · rcases hnew c p hp with hp | hnew
    swap
    · exact .inr (hnew h hc)
    have hc' : s.sched.nodeOf h.idx = some c := by
      by_cases h1 : h = s.running
      · subst h1
        exact hback c hc
      · rwa [hnode h h1] at hc
    have hu' : s.pool.Unfinished h := by
      by_cases h1 : h = s.running
      · subst h1
        exact .inr hs.running
      · exact (hunf h h1).mp hu
    refine (hs.parent hc' hu' hp).imp (hdead p) ?_
    rintro ⟨i, hi, haway, hsus⟩
    have h1 := hnever i c h haway hsus
    have h2 : i ≠ next := by
      rintro rfl
      exact hnext c h hsus hu
    exact ⟨i, (hnode i h1).trans hi, fun e => haway ((hqueue i h1 h2).mp e),
      hstays i c h h1 h2 hsus⟩

end Inv

/-! ## 5. A task that is not running -/

/-- Where the task `w` comes from that a call leaves in slot `h`, not `RUNNING`: it is as it was
before, or this call has made it what it is. -/
inductive SlotBefore (s : Runtime TaskGraph F V) (op : Op F V) (r : Reply F V) (h : Handle)
    (w : Task F V) : Prop
  | kept (same : s.pool.slot h = some w) (other : r ≠ .handle h)
  | created {fn : F} {arg : V} (call : op = .call fn arg) (reply : r = .handle h)
      (new : NewTask s.pool h fn arg w)
  | finished {data : V} {v : Task F V} {f : Handle} (call : op = .ret data)
      (running : s.running = h) (after : w = v.finish data f)
  | orphaned {v : Task F V} (call : op = .orphan h) (task : s.pool.slot h = some v)
      (after : w = { v with orphaned := true }) (other : r ≠ .handle h)
  | freed (call : op = .free h) (after : w.state = .free)

/-- `async_return` leaves the task `READY` and not orphaned, or `FREE`. -/
theorem Task.finish_state (t : Task F V) (data : V) (f : Handle) :
    (t.finish data f).state = .ready ∧ (t.finish data f).data = data ∧
        (t.finish data f).orphaned = false ∨ (t.finish data f).state = .free := by
  unfold Task.finish
  split
  · exact .inr rfl
  · rename_i hor
    exact .inl ⟨rfl, rfl, Bool.eq_false_iff.mpr hor⟩

/-- **Every call**, seen from a slot whose task is not `RUNNING` after it. -/
theorem Effect.slotBefore {s t : Runtime TaskGraph F V} {op : Op F V} {r : Reply F V} {h : Handle}
    {w : Task F V} (hs : Inv s) (heff : Effect s op r t) (hw : t.pool.slot h = some w)
    (hne : w.state ≠ .running) : SlotBefore s op r h w := by
  cases heff with
  | @call fn arg i u t new slot =>
    rw [slot] at hw
    by_cases hi : h = i
    · rw [hi, Function.update_self, Option.some.injEq] at hw
      subst hi hw
      exact .created rfl rfl new
    · rw [Function.update_of_ne hi] at hw
      exact .kept hw fun he => hi (by cases he; rfl)
  | alone _ same =>
    subst same
    exact .kept hw nofun
  | skip _ _ switched =>
    exact .kept (hs.of_leave (switched.of_slot hw hne) hne) (Task.resumed_ne_handle _ _)
  | await _ _ _ _ _ _ switched =>
    exact .kept (hs.of_leave (switched.of_slot hw hne) hne) (Task.resumed_ne_handle _ _)
  | ret _ _ task _ _ _ switched =>
    have hold := switched.of_slot hw hne
    by_cases hi : h = s.running
    · rw [hi, Function.update_self, Option.some.injEq] at hold
      exact .finished rfl hi.symm hold.symm
    · rw [Function.update_of_ne hi] at hold
      exact .kept hold (Task.resumed_ne_handle _ _)
  | @wake data i rest c v t _ _ _ _ kept _ _ _ slot =>
    rw [slot] at hw
    by_cases hi : h = s.running
    · rw [hi, Function.update_self, Option.some.injEq] at hw
      have hfinish : v.finish data s.pool.freeTask = w := by
        rw [← hw]
        unfold Task.finish
        rw [if_neg (by rw [kept]; decide)]
      exact .finished rfl hi.symm hfinish.symm
    · rw [Function.update_of_ne hi] at hw
      exact .kept hw nofun
  | @orphan i u t task slot =>
    rw [slot] at hw
    by_cases hi : h = i
    · rw [hi, Function.update_self, Option.some.injEq] at hw
      subst hi
      exact .orphaned rfl task hw.symm nofun
    · rw [Function.update_of_ne hi] at hw
      exact .kept hw nofun
  | @free i u t task _ _ slot =>
    rw [slot] at hw
    by_cases hi : h = i
    · rw [hi, Function.update_self, Option.some.injEq] at hw
      subst hi hw
      exact .freed rfl rfl
    · rw [Function.update_of_ne hi] at hw
      exact .kept hw nofun
  | poll _ same =>
    subst same
    exact .kept hw nofun

end CAsync
