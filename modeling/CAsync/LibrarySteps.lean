/-
# The calls of the library on the stacks

`ContextSwitch` is about steps of the pool in any order.  Here the steps are those of a run of the
library over the graph scheduler: `CallSteps` is the table of the steps that each call takes, one
row for each way through its function, and `Inv.pool_steps` says that every call takes the steps of
its row.

`CallStep` is a call on the machine: the steps of its row among any code that runs, with the pool
and the running task as the library has them before and after.  A run of such calls from
`run_async_main` on is a run of the machine, so `Booted.switched` holds of it: every call after
which another task runs has entered a new task or has gone on with one that had left in a call of
its own (`library_on_stacks`).  That a task went on in the call that it had left in is read off its
row: only `async_skip` and `await` leave a task behind, each with its own frame, and the reply is
that of the frame.
-/
import CAsync.Reachable
import CAsync.ContextSwitch

namespace CAsync

open Faulting Memory TaskPool

variable {F V : Type}

/-! ## 1. The table -/

/-- What the code that runs after a switch is told. -/
inductive Tells : Control F V → Reply F V → Prop
  | entered {fn : F} {data : V} : Tells (.entered fn data) (.start fn data)
  | asyncSkip : Tells (.resumed .asyncSkip) .skip
  | graphWaitReady {parent h : Handle} {child : Nat} {v : V} :
      Tells (.resumed (.graphWaitReady parent child h)) (.await v)
  | busyWaitReady {h : Handle} : Tells (.resumed (.busyWaitReady h)) (.waiting h)

/-- The steps of a call that the task `src` makes, and the task that runs then. -/
inductive CallSteps (src : Handle) : Handle → Op F V × Reply F V → List (PoolOp F V) → Prop
  | call {fn : F} {arg : V} {h : Handle} :
      CallSteps src src (.call fn arg, .handle h) [.alloc fn arg h]
  | skip {dst : Handle} {r : Reply F V} {control : Control F V} (tells : Tells control r) :
      CallSteps src dst (.skip, r) [.switch src dst .asyncSkip control]
  /-- `async_skip` of the only task. -/
  | alone : CallSteps src src (.skip, .skip) []
  | await {dst h : Handle} {child : Nat} {r : Reply F V} {control : Control F V}
      (tells : Tells control r) : CallSteps src dst (.await h, r)
        [.switch src dst (.graphWaitReady src child h) control]
  | ret {dst : Handle} {data : V} {r : Reply F V} {control : Control F V}
      (tells : Tells control r) :
      CallSteps src dst (.ret data, r) [.write src, .switch ⟨0⟩ dst .entry control]
  /-- `async_return` of an orphan. -/
  | retOrphan {dst : Handle} {data : V} {r : Reply F V} {control : Control F V}
      (tells : Tells control r) :
      CallSteps src dst (.ret data, r) [.write src, .write src, .switch ⟨0⟩ dst .entry control]
  | orphan {h : Handle} : CallSteps src src (.orphan h, .done) [.write h]
  | free {h : Handle} : CallSteps src src (.free h, .done) [.write h]
  | poll {h : Handle} {st : State} : CallSteps src src (.poll h, .state st) []

theorem replyOf_tells {S : Type} [SchedulerVTable S] {s : Runtime S F V} {returned r : Reply F V}
    {control : Control F V} (hok : replyOf s returned control = .ok r)
    (hne : control ≠ .returned) : Tells control r := by
  cases control with
  | returned => exact absurd rfl hne
  | entered fn data =>
    cases hok
    exact .entered
  | resumed frame =>
    cases frame with
    | entry => cases hok
    | asyncSkip =>
      cases hok
      exact .asyncSkip
    | graphWaitReady parent child h =>
      obtain ⟨-, -, hok⟩ := bind_eq_ok.mp hok
      obtain ⟨t, -, hok⟩ := bind_eq_ok.mp hok
      cases hok
      exact .graphWaitReady
    | busyWaitReady h =>
      cases hok
      exact .busyWaitReady

/-- A switch goes somewhere. -/
theorem PoolStep.control_ne {x y : TaskPool F V × Handle} {src dst : Handle} {frame : Frame}
    {control : Control F V} (hst : PoolStep x (.switch src dst frame control) y) :
    control ≠ .returned := by
  obtain ⟨⟨u, top, hsw⟩, -, -⟩ := hst.switch_inv
  rw [hsw.control]
  split <;> exact fun h => by cases h

/-! ## 2. One switch, one slot -/

/-- A switch does not depend on the scheduler. -/
theorem PoolStep.of_switch {S : Type} {s t : Runtime S F V} {src dst : Handle} {frame : Frame}
    {control : Control F V} (hok : asyncSwitch s src dst frame = .ok (t, control))
    (hleaves : src = s.running ∨ src.idx = 0 ∧ LeavesNothing s.pool s.running) :
    PoolStep (s.pool, s.running) (.switch src dst frame control) (t.pool, t.running) ∧
      t.running = dst := by
  suffices hst : PoolStep (s.pool, s.running) (.switch src dst frame control)
      (t.pool, t.running) from ⟨hst, hst.switch_inv.2.1⟩
  have hsame : SameRuntime (fun _ _ => True) s (⟨s.pool, (), s.running⟩ : Runtime Unit F V) :=
    ⟨rfl, rfl, trivial⟩
  have hlock := hsame.asyncSwitch src dst frame
  rw [hok] at hlock
  obtain ⟨⟨t', control'⟩, hok', ⟨hpool, hrun, -⟩, hcontrol⟩ := hlock.ok_left
  dsimp only at hpool hrun hcontrol
  rw [hpool, hrun, hcontrol]
  exact .switch hok' hleaves

/-- A slot is written, and the saved frame stays. -/
theorem PoolStep.of_set {p q : TaskPool F V} (running : Handle) {h : Handle} {t u : Task F V}
    (hu : p.slot h = some u) (hptr : t.stackPtr = u.stackPtr)
    (hstate : t.state = u.state ∧ t.fn = u.fn ∧ t.data = u.data ∨ t.state = .ready ∨
      t.state = .free) (htasks : q.tasks = (p.setTask h t).tasks) (hcap : q.cap = p.cap) :
    PoolStep (p, running) (.write h) (q, running) ∧ q.slot h = some t := by
  have hslot : q.slot = Function.update p.slot h (some t) := by
    rw [← slot_setTask hu t]
    funext i
    unfold slot
    rw [htasks]
  have hlen : q.len = p.len := by
    rw [← setTask_len (p := p) (h := h) (t := t)]
    unfold len
    rw [htasks]
  exact ⟨.write hu hptr hstate hslot hlen hcap, by rw [hslot, Function.update_self]⟩

/-! ## 3. The calls -/

theorem asyncOrphan_steps {S : Type} {s t : Runtime S F V} {h : Handle}
    (hok : asyncOrphan s h = .ok t) :
    PoolStep (s.pool, s.running) (.write h) (t.pool, t.running) ∧ t.running = s.running := by
  unfold asyncOrphan at hok
  obtain ⟨u, hu, hok⟩ := bind_eq_ok.mp hok
  rw [getTask_eq_ok] at hu
  rw [← Except.ok.inj hok]
  exact ⟨(PoolStep.of_set s.running (t := { u with orphaned := true }) hu rfl
    (.inl ⟨rfl, rfl, rfl⟩) rfl rfl).1, rfl⟩

section Ops

variable {S : Type} [SchedulerVTable S] {s t : Runtime S F V} {h : Handle}

theorem freeTask_steps (hok : freeTask s h = .ok t) :
    PoolStep (s.pool, s.running) (.write h) (t.pool, t.running) ∧ t.running = s.running ∧
      t.pool.stateOf h = some .free := by
  unfold freeTask at hok
  obtain ⟨_, -, hok⟩ := bind_eq_ok.mp hok
  obtain ⟨sched, -, hok⟩ := bind_eq_ok.mp hok
  obtain ⟨u, hu, hok⟩ := bind_eq_ok.mp hok
  rw [getTask_eq_ok] at hu
  rw [← Except.ok.inj hok]
  have hset := PoolStep.of_set s.running (t := { u with state := .free, handle := s.pool.freeTask })
    (q := { s.pool.setTask h { u with state := .free, handle := s.pool.freeTask } with
      freeTask := h }) hu rfl (.inr (.inr rfl)) rfl rfl
  exact ⟨hset.1, rfl, stateOf_eq hset.2⟩

theorem asyncSkip_steps {frame : Frame} {control : Control F V}
    (hcurrent : SchedulerOps.currentTask s.sched = .ok s.running)
    (hok : asyncSkip s frame = .ok (t, control)) :
    PoolStep (s.pool, s.running) (.switch s.running t.running frame control)
        (t.pool, t.running) ∨
      control = .returned ∧ t.pool = s.pool ∧ t.running = s.running := by
  unfold asyncSkip at hok
  rw [hcurrent, ok_bind] at hok
  obtain ⟨⟨sched, next⟩, -, hok⟩ := bind_eq_ok.mp hok
  obtain ⟨v, -, hok⟩ := bind_eq_ok.mp hok
  split at hok
  · obtain ⟨hst, rfl⟩ := PoolStep.of_switch (s := { s with sched := sched }) hok (.inl rfl)
    exact .inl hst
  · cases hok
    exact .inr ⟨rfl, rfl, rfl⟩

/-- `async_return` marks the running task, and then there is nothing to leave. -/
theorem asyncReturnReady_steps {data : V} {f next : Handle}
    (hfinish : ∀ {sched f next}, SchedulerOps.finishTask s.sched = .ok (sched, f, next) →
      f = s.running)
    (hok : asyncReturnReady s data = .ok (.ready t f next)) :
    PoolStep (s.pool, s.running) (.write f) (t.pool, t.running) ∧ f = s.running ∧
      t.running = s.running ∧ t.pool.stateOf f = some .ready := by
  unfold asyncReturnReady at hok
  obtain ⟨current, -, hok⟩ := bind_eq_ok.mp hok
  split at hok
  · cases hok
  obtain ⟨⟨sched, i, j⟩, hfin, hok⟩ := bind_eq_ok.mp hok
  dsimp only at hok
  split at hok
  · cases hok
  obtain ⟨u, hu, hok⟩ := bind_eq_ok.mp hok
  rw [getTask_eq_ok] at hu
  obtain ⟨rfl, rfl, rfl⟩ := Returning.ready.inj (Except.ok.inj hok)
  have hset := PoolStep.of_set s.running (t := { u with data := data, state := .ready }) hu rfl
    (.inr (.inl rfl)) rfl rfl
  exact ⟨hset.1, hfinish hfin, rfl, stateOf_eq hset.2⟩

theorem freeOrphan_steps {f : Handle} (hok : freeOrphan s f = .ok t)
    (hstate : s.pool.stateOf f = some .ready) :
    ∃ l, (l = [] ∨ l = [.write f]) ∧
      Steps PoolStep (s.pool, s.running) l (t.pool, t.running) ∧ t.running = s.running ∧
      (t.pool.stateOf f = some .ready ∨ t.pool.stateOf f = some .free) := by
  unfold freeOrphan at hok
  obtain ⟨u, -, hok⟩ := bind_eq_ok.mp hok
  split at hok
  · obtain ⟨hst, hrun, hfree⟩ := freeTask_steps hok
    exact ⟨_, .inr rfl, .single hst, hrun, .inr hfree⟩
  · cases hok
    exact ⟨[], .inl rfl, .refl _, rfl, .inl hstate⟩

end Ops

namespace Inv

variable {s t : Runtime TaskGraph F V} {h : Handle} {r : Reply F V}

theorem finishTask (hs : Inv s) {sched : TaskGraph} {f next : Handle}
    (hok : SchedulerOps.finishTask s.sched = .ok (sched, f, next)) : f = s.running := by
  obtain ⟨p, q, hq, hp, -, -, -, -⟩ := hs.exists_queue
  have hok : s.sched.finishTask = .ok (sched, f, next) := hok
  unfold TaskGraph.finishTask at hok
  rw [hq] at hok
  dsimp only at hok
  obtain ⟨_, -, hok⟩ := bind_eq_ok.mp hok
  rw [hp]
  split at hok
  · obtain ⟨n, -, hok⟩ := bind_eq_ok.mp hok
    cases hok
    rfl
  · split at hok
    · cases hok
      rfl
    · obtain ⟨n, -, hok⟩ := bind_eq_ok.mp hok
      cases hok
      rfl

theorem block (hs : Inv s) {sched : TaskGraph} {parent next : Handle} {c : Nat}
    (hok : s.sched.block h = .ok (sched, parent, c, next)) : parent = s.running := by
  obtain ⟨p, q, hq, hp, -, -, -, -⟩ := hs.exists_queue
  unfold TaskGraph.block at hok
  rw [hq] at hok
  dsimp only at hok
  obtain ⟨_, -, hok⟩ := bind_eq_ok.mp hok
  split at hok
  · cases hok
  obtain ⟨_, -, hok⟩ := bind_eq_ok.mp hok
  obtain ⟨_, -, hok⟩ := bind_eq_ok.mp hok
  obtain ⟨_, -, hok⟩ := bind_eq_ok.mp hok
  obtain ⟨n, -, hok⟩ := bind_eq_ok.mp hok
  cases hok
  exact hp.symm

theorem return_steps (hs : Inv s) {data : V} (hok : asyncReturn s data = .ok (.next t r)) :
    ∃ ops, CallSteps s.running t.running (.ret data, r) ops ∧
      Steps PoolStep (s.pool, s.running) ops (t.pool, t.running) := by
  unfold asyncReturn at hok
  obtain ⟨returning, hready, hok⟩ := bind_eq_ok.mp hok
  cases returning with
  | exit data => cases hok
  | ready u f next =>
    obtain ⟨hmark, rfl, hrun, hstate⟩ := asyncReturnReady_steps hs.finishTask hready
    obtain ⟨v, hfree, hok⟩ := bind_eq_ok.mp hok
    obtain ⟨l, hl, hfreed, hrun', hstate'⟩ := freeOrphan_steps hfree hstate
    obtain ⟨⟨w, control⟩, hswitch, hok⟩ := bind_eq_ok.mp hok
    obtain ⟨reply, hreply, hok⟩ := bind_eq_ok.mp hok
    cases hok
    rw [hrun] at hrun'
    have hleaves : LeavesNothing v.pool v.running := .inr (by rwa [hrun'])
    obtain ⟨hst, hdst⟩ := PoolStep.of_switch hswitch (.inr ⟨rfl, hleaves⟩)
    have htells := replyOf_tells hreply hst.control_ne
    have hsteps := Steps.cons hmark (hfreed.append (.single hst))
    rw [← hdst] at hsteps
    rcases hl with rfl | rfl
    · exact ⟨_, .ret htells, hsteps⟩
    · exact ⟨_, .retOrphan htells, hsteps⟩

theorem await_steps (hs : Inv s) (hok : await s h = .ok (.next t r)) :
    ∃ ops, CallSteps s.running t.running (.await h, r) ops ∧
      Steps PoolStep (s.pool, s.running) ops (t.pool, t.running) := by
  unfold await at hok
  obtain ⟨⟨u, control⟩, hwait, hok⟩ := bind_eq_ok.mp hok
  have hwait : TaskGraph.waitReady s h = .ok (u, control) := hwait
  unfold TaskGraph.waitReady at hwait
  obtain ⟨⟨a, parent, c, next⟩, hblock, hswitch⟩ := bind_eq_ok.mp hwait
  obtain rfl := hs.block hblock
  obtain ⟨hst, rfl⟩ := PoolStep.of_switch (s := { s with sched := a }) hswitch (.inl rfl)
  have hne := hst.control_ne
  have hreply : u = t ∧ replyOf u .skip control = .ok r := by
    cases control with
    | returned => exact absurd rfl hne
    | entered fn data =>
      obtain ⟨v, hv, hok⟩ := bind_eq_ok.mp hok
      cases hok
      exact ⟨rfl, hv⟩
    | resumed frame =>
      obtain ⟨v, hv, hok⟩ := bind_eq_ok.mp hok
      cases hok
      exact ⟨rfl, hv⟩
  obtain ⟨rfl, hreply⟩ := hreply
  exact ⟨_, .await (replyOf_tells hreply hne), .single hst⟩

theorem call_steps (hs : Inv s) {fn : F} {arg : V} (hst : Next s (.call fn arg, r) t) :
    ∃ ops, CallSteps s.running t.running (.call fn arg, r) ops ∧
      Steps PoolStep (s.pool, s.running) ops (t.pool, t.running) := by
  obtain ⟨w, hw, -⟩ := hs.running_task
  have hbounds := slot_bounds hw
  cases (hs.effect hst).1 with
  | call new slot room fresh tasks running nodeOf parent =>
    have hstep : step s (.call fn arg) = .ok (.next t (.handle _)) := hst
    unfold step asyncCall startNewTask at hstep
    obtain ⟨⟨u, i⟩, hcall, hstep⟩ := bind_eq_ok.mp hstep
    obtain ⟨⟨pool, j⟩, halloc, hcall⟩ := bind_eq_ok.mp hcall
    obtain ⟨sched, -, hcall⟩ := bind_eq_ok.mp hcall
    cases hcall
    cases hstep
    refine ⟨_, .call, .single (.alloc halloc ?_)⟩
    rintro rfl
    rcases room with ⟨hfree, -⟩ | ⟨hlen, -⟩
    · rw [hs.running] at hfree
      cases hfree
    · omega

theorem skip_steps (hs : Inv s) (hok : CAsync.skip s = .ok (.next t r)) :
    ∃ ops, CallSteps s.running t.running (.skip, r) ops ∧
      Steps PoolStep (s.pool, s.running) ops (t.pool, t.running) := by
  unfold CAsync.skip at hok
  obtain ⟨⟨u, control⟩, hskip, hok⟩ := bind_eq_ok.mp hok
  obtain ⟨reply, hreply, hok⟩ := bind_eq_ok.mp hok
  cases hok
  rcases asyncSkip_steps hs.currentTask hskip with hst | ⟨rfl, hpool, hrun⟩
  · exact ⟨_, .skip (replyOf_tells hreply hst.control_ne), .single hst⟩
  · cases hreply
    rw [hpool, hrun]
    exact ⟨_, .alone, .refl _⟩

/-- **Each call takes the steps of its row.** -/
theorem pool_steps (hs : Inv s) {op : Op F V} (hst : Next s (op, r) t) :
    ∃ ops, CallSteps s.running t.running (op, r) ops ∧
      Steps PoolStep (s.pool, s.running) ops (t.pool, t.running) := by
  have hstep : step s op = .ok (.next t r) := hst
  cases op with
  | call fn arg => exact hs.call_steps hst
  | skip => exact hs.skip_steps hstep
  | await h => exact hs.await_steps hstep
  | ret data => exact hs.return_steps hstep
  | orphan h =>
    unfold step at hstep
    obtain ⟨u, horphan, hstep⟩ := bind_eq_ok.mp hstep
    cases hstep
    obtain ⟨hst, hrun⟩ := asyncOrphan_steps horphan
    rw [hrun] at hst ⊢
    exact ⟨_, .orphan, .single hst⟩
  | free h =>
    unfold step asyncFree at hstep
    obtain ⟨u, hfree, hstep⟩ := bind_eq_ok.mp hstep
    cases hstep
    obtain ⟨hst, hrun, -⟩ := freeTask_steps hfree
    rw [hrun] at hst ⊢
    exact ⟨_, .free, .single hst⟩
  | poll h =>
    unfold step at hstep
    obtain ⟨st, -, hstep⟩ := bind_eq_ok.mp hstep
    cases hstep
    exact ⟨_, .poll, .refl _⟩

end Inv

/-- The same over the graph scheduler. -/
theorem Reached.pool_steps {l : List (Op F V × Reply F V)} {s t : Runtime Graph F V} {op : Op F V}
    {r : Reply F V} (hs : Reached l s) (hst : Next s (op, r) t) :
    ∃ ops, CallSteps s.running t.running (op, r) ops ∧
      Steps PoolStep (s.pool, s.running) ops (t.pool, t.running) := by
  obtain ⟨a, -, ha, hsa⟩ := hs.model
  obtain ⟨b, hab, htb⟩ := graphRefines.next hsa hst
  rw [hsa.pool, hsa.running, htb.pool, htb.running]
  exact ha.pool_steps hab


/-! ## 4. The calls on the machine -/

open Stacks

variable {code : F → Word} {word : V → Word} {here : Nat → Word}

/-- A call on the machine: the steps of its row, and code that runs between them. -/
structure CallStep (code : F → Word) (word : V → Word) (here : Nat → Word)
    (x : Runtime Graph F V × Stacks F V) (c : (Op F V × Reply F V) × List (StackOp F V))
    (y : Runtime Graph F V × Stacks F V) : Prop where
  next : Next x.1 c.1 y.1
  row : CallSteps x.1.running y.1.running c.1 (libraryOps c.2)
  machine : Steps (Step code word here) x.2 c.2 y.2
  pool : y.2.pool = y.1.pool
  running : y.2.running = y.1.running

/-- `run_async_main` on the machine, up to the first instruction of `main_fn(arg)`. -/
structure MainStarts (code : F → Word) (word : V → Word) (here : Nat → Word) (mainFn : F) (arg : V)
    (m₀ : Stacks F V) (ops : List (StackOp F V)) (x : Runtime Graph F V × Stacks F V) : Prop where
  booted : Booted m₀
  start : runAsyncMain mainFn arg = .ok (.next x.1 (.start mainFn arg))
  row : libraryOps ops = [.alloc mainFn arg ⟨1⟩, .switch ⟨0⟩ ⟨1⟩ .entry (.entered mainFn arg)]
  machine : Steps (Step code word here) m₀ ops x.2
  pool : x.2.pool = x.1.pool
  running : x.2.running = x.1.running

/-- The steps of the machine in some calls. -/
def opsOf (calls : List ((Op F V × Reply F V) × List (StackOp F V))) : List (StackOp F V) :=
  calls.flatMap Prod.snd

/-- **A run of calls is a run of the machine.** -/
theorem CallStep.machine_run {x y : Runtime Graph F V × Stacks F V}
    {calls : List ((Op F V × Reply F V) × List (StackOp F V))}
    (hrun : Steps (CallStep code word here) x calls y) :
    Steps (Step code word here) x.2 (opsOf calls) y.2 := by
  induction hrun with
  | refl x => exact .refl _
  | cons hst _ ih => exact hst.machine.append ih

/-- The frame that a step leaves a task in is that of `async_skip` or of `graph_wait_ready`. -/
def LeavesInCall (op : PoolOp F V) : Prop :=
  ∀ h k frame control, op = .switch h k frame control → h.idx ≠ 0 →
    frame = .asyncSkip ∨ ∃ child i, frame = .graphWaitReady h child i

theorem CallSteps.leavesInCall {src dst : Handle} {c : Op F V × Reply F V}
    {ops : List (PoolOp F V)} (hc : CallSteps src dst c ops) : ∀ op ∈ ops, LeavesInCall op := by
  have hother : ∀ {op : PoolOp F V}, (∀ h k frame control, op ≠ .switch h k frame control) →
      LeavesInCall op := fun hop h k frame control he _ => absurd he (hop h k frame control)
  have hreturn : ∀ {k : Handle} {control : Control F V},
      LeavesInCall (.switch ⟨0⟩ k .entry control) := by
    rintro k control h k' frame control' ⟨⟩ h0
    exact absurd rfl h0
  intro op hop
  cases hc with
  | call =>
    rw [List.mem_singleton.mp hop]
    exact hother fun _ _ _ _ he => by cases he
  | skip =>
    rw [List.mem_singleton.mp hop]
    rintro h k frame control ⟨⟩ -
    exact .inl rfl
  | alone => cases hop
  | await =>
    rw [List.mem_singleton.mp hop]
    rintro h k frame control ⟨⟩ -
    exact .inr ⟨_, _, rfl⟩
  | ret =>
    rcases List.mem_cons.mp hop with rfl | hop
    · exact hother fun _ _ _ _ he => by cases he
    · rw [List.mem_singleton.mp hop]
      exact hreturn
  | retOrphan =>
    rcases List.mem_cons.mp hop with rfl | hop
    · exact hother fun _ _ _ _ he => by cases he
    rcases List.mem_cons.mp hop with rfl | hop
    · exact hother fun _ _ _ _ he => by cases he
    · rw [List.mem_singleton.mp hop]
      exact hreturn
  | orphan =>
    rw [List.mem_singleton.mp hop]
    exact hother fun _ _ _ _ he => by cases he
  | free =>
    rw [List.mem_singleton.mp hop]
    exact hother fun _ _ _ _ he => by cases he
  | poll => cases hop

theorem mem_libraryOps {l : List (StackOp F V)} {op : PoolOp F V} :
    op ∈ libraryOps l ↔ .lib op ∈ l := by
  unfold libraryOps
  rw [List.mem_filterMap]
  constructor
  · rintro ⟨x, hx, he⟩
    cases x with
    | run wrote => cases he
    | lib op' =>
      cases he
      exact hx
  · exact fun hop => ⟨_, hop, rfl⟩

theorem CallStep.leavesInCall {x y : Runtime Graph F V × Stacks F V}
    {calls : List ((Op F V × Reply F V) × List (StackOp F V))}
    (hrun : Steps (CallStep code word here) x calls y) {op : PoolOp F V}
    (hop : .lib op ∈ opsOf calls) : LeavesInCall op := by
  induction hrun with
  | refl x => cases hop
  | cons hst _ ih =>
    rcases List.mem_append.mp (show _ ∈ _ ++ opsOf _ from hop) with hop | hop
    · exact hst.row.leavesInCall op (mem_libraryOps.mpr hop)
    · exact ih hop

/-- **A call after which another task runs switches to it last**, and the reply is what the switch
tells. -/
theorem CallSteps.switch {src dst : Handle} {op : Op F V} {r : Reply F V} {ops : List (PoolOp F V)}
    (hc : CallSteps src dst (op, r) ops) (hne : dst ≠ src) :
    ∃ before j frame control, ops = before ++ [.switch j dst frame control] ∧
      Tells control r := by
  cases hc with
  | call => exact absurd rfl hne
  | skip tells => exact ⟨[], _, _, _, rfl, tells⟩
  | alone => exact absurd rfl hne
  | await tells => exact ⟨[], _, _, _, rfl, tells⟩
  | ret tells => exact ⟨[_], _, _, _, rfl, tells⟩
  | retOrphan tells => exact ⟨[_, _], _, _, _, rfl, tells⟩
  | orphan => exact absurd rfl hne
  | free => exact absurd rfl hne
  | poll => exact absurd rfl hne

/-- The last step of the library in a list of steps. -/
theorem libraryOps_eq_snoc {l : List (StackOp F V)} {before : List (PoolOp F V)} {op : PoolOp F V}
    (hl : libraryOps l = before ++ [op]) :
    ∃ o₁ o₂, l = o₁ ++ .lib op :: o₂ ∧ libraryOps o₂ = [] := by
  obtain ⟨l₁, l₂, rfl, -, h₂⟩ := List.filterMap_eq_append_iff.mp hl
  obtain ⟨l₃, x, l₄, rfl, -, hx, h₄⟩ := List.filterMap_eq_cons_iff.mp h₂
  cases x with
  | run wrote => cases hx
  | lib op' =>
    cases hx
    exact ⟨l₁ ++ l₃, l₄, by rw [List.append_assoc], h₄⟩

/-- The frame that the task of slot `h` goes on in, and the reply to its call. -/
def Answered (h : Handle) (frame : Frame) (r : Reply F V) : Prop :=
  frame = .asyncSkip ∧ r = .skip ∨
    ∃ child i v, frame = .graphWaitReady h child i ∧ r = .await v

theorem Tells.answered {h : Handle} {frame : Frame} {r : Reply F V}
    (ht : Tells (.resumed frame) r)
    (hframe : frame = .asyncSkip ∨ ∃ child i, frame = .graphWaitReady h child i) :
    Answered h frame r := by
  rcases hframe with rfl | ⟨child, i, rfl⟩
  · cases ht
    exact .inl ⟨rfl, rfl⟩
  · cases ht
    exact .inr ⟨child, i, _, rfl, rfl⟩

/-- **The stacks in a run of the library.**  Each call over the graph scheduler takes the steps of
its row.  And on the machine, in any run of calls from `run_async_main` on, with any code between
their steps, a call after which another task runs has switched to it, and the task
* has been created by `async_call(fn, data)` and not run since, and enters `fn(data)` on an empty
  stack; or
* has left in a call of its own, `async_skip` or `await`, and not run since, and that call goes on
  with the reply: at its return address, with the registers that a call preserves, if nobody has
  written to the 56 bytes where they are kept; and with each byte of its stack that no code has
  written since. -/
theorem library_on_stacks {l : List (Op F V × Reply F V)} {s t : Runtime Graph F V} {op : Op F V}
    {r : Reply F V} (hs : Reached l s) (hst : Next s (op, r) t) :
    (∃ ops, CallSteps s.running t.running (op, r) ops ∧
      Steps PoolStep (s.pool, s.running) ops (t.pool, t.running)) ∧
    ∀ {code : F → Word} {word : V → Word} {here : Nat → Word} {mainFn : F} {arg : V}
      {m₀ m n : Stacks F V} {x : Runtime Graph F V × Stacks F V} {ops₀ ops : List (StackOp F V)}
      {calls : List ((Op F V × Reply F V) × List (StackOp F V))},
      MainStarts code word here mainFn arg m₀ ops₀ x →
      Steps (CallStep code word here) x calls (s, m) →
      CallStep code word here (s, m) ((op, r), ops) (t, n) → t.running ≠ s.running →
      ∃ o₁ o₂ a b j frame control, ops = o₁ ++ .lib (.switch j t.running frame control) :: o₂ ∧
        libraryOps o₂ = [] ∧ Steps (Step code word here) m o₁ a ∧
        Step code word here a (.lib (.switch j t.running frame control)) b ∧
        Steps (Step code word here) b o₂ n ∧
        ((∃ fn data, r = .start fn data ∧
            LastOf t.running (ops₀ ++ opsOf calls ++ o₁) (.alloc fn data t.running) ∧
            Enters code word here t.running fn data b) ∨
          ∃ l₁ k frame' control' l₂ c,
            ops₀ ++ opsOf calls ++ o₁ = l₁ ++ .lib (.switch t.running k frame' control') :: l₂ ∧
            (∀ op ∈ l₂, StaysAway t.running op) ∧ Steps (Step code word here) m₀ l₁ c ∧
            Answered t.running frame' r ∧
            (Untouched c.cpu (written l₂) → GoesOn t.running (written l₂) c b)) := by
  refine ⟨hs.pool_steps hst, ?_⟩
  intro code word here mainFn arg m₀ m n x ops₀ ops calls h₀ hcalls hcall hne
  obtain ⟨before, j, frame, control, hops, htells⟩ := hcall.row.switch hne
  obtain ⟨o₁, o₂, rfl, ho₂⟩ := libraryOps_eq_snoc hops
  obtain ⟨a, hbefore, hrest⟩ := Steps.append_iff.mp hcall.machine
  obtain ⟨b, hswitch, hafter⟩ := Steps.cons_iff.mp hrest
  refine ⟨o₁, o₂, a, b, j, frame, control, rfl, ho₂, hbefore, hswitch, hafter, ?_⟩
  have hrun := (h₀.machine.append (CallStep.machine_run hcalls)).append hbefore
  rcases h₀.booted.switched hrun hswitch with
    ⟨fn, data, hlast, rfl, henters⟩ | ⟨l₁, k, frame', control', l₂, c, hl, haway, hreach, rfl, hon⟩
  · cases htells
    exact .inl ⟨fn, data, rfl, hlast, henters⟩
  · refine .inr ⟨l₁, k, frame', control', l₂, c, hl, haway, hreach, htells.answered ?_, hon⟩
    -- the step that left the task is one of a row, since `run_async_main` leaves no task
    have hmem : .lib (.switch t.running k frame' control') ∈ ops₀ ++ opsOf calls ++ o₁ := by
      rw [hl]
      simp
    have hpos : t.running.idx ≠ 0 := by
      cases hswitch with
      | switch pool task args stack asm pc blocks =>
        exact Nat.ne_of_gt (slot_bounds task).1
    have hleaves : LeavesInCall (.switch t.running k frame' control') := by
      rcases List.mem_append.mp hmem with hmem | hmem
      · rcases List.mem_append.mp hmem with hmem | hmem
        · have hmain := mem_libraryOps.mpr hmem
          rw [h₀.row] at hmain
          simp only [List.mem_cons, List.not_mem_nil, or_false, PoolOp.switch.injEq] at hmain
          rcases hmain with he | ⟨h0, -⟩
          · cases he
          · rw [h0] at hpos
            exact absurd rfl hpos
        · exact CallStep.leavesInCall hcalls hmem
      · exact hcall.row.leavesInCall _ (mem_libraryOps.mpr (List.mem_append_left _ hmem))
    exact hleaves _ _ _ _ rfl hpos

/-- `main` calls a function and skips, and so does the task that starts: `main` goes on. -/
theorem library_on_stacks_skip : ∃ (s t : Runtime Graph Nat Nat) (m₀ m n c b : Stacks Nat Nat)
    (x : Runtime Graph Nat Nat × Stacks Nat Nat) (ops l₁ : List (StackOp Nat Nat))
    (calls : List ((Op Nat Nat × Reply Nat Nat) × List (StackOp Nat Nat))),
    MainStarts (BitVec.ofNat 64) (BitVec.ofNat 64) (BitVec.ofNat 64) 0 0 m₀ mainOps x ∧
    Steps (CallStep (BitVec.ofNat 64) (BitVec.ofNat 64) (BitVec.ofNat 64)) x calls (s, m) ∧
    calls.map Prod.fst = [(.call 1 7, .handle ⟨2⟩), (.skip, .start 1 7)] ∧
    CallStep (BitVec.ofNat 64) (BitVec.ofNat 64) (BitVec.ofNat 64) (s, m) ((.skip, .skip), ops)
      (t, n) ∧
    Steps (Step (BitVec.ofNat 64) (BitVec.ofNat 64) (BitVec.ofNat 64)) m₀ l₁ c ∧
    GoesOn ⟨1⟩ ∅ c b := by
  obtain ⟨m₀, m₁, m₂, hboot, hmain, hm₁, hcall, hm₂⟩ :=
    exists_called (BitVec.ofNat 64) (BitVec.ofNat 64) (BitVec.ofNat 64)
  have hsound := (hboot.sound.steps hmain).step hcall
  obtain ⟨m₃, m₄, hrun₃, hskip, hm₄⟩ := hm₂.switch hsound poolStep_skip
  obtain ⟨m₅, m₆, hrun₅, hback, hm₆⟩ := hm₄.switch ((hsound.step hrun₃).step hskip)
    poolStep_skip_back
  -- the same calls of the library
  obtain ⟨s₀, s₁, s₂, s₃, hstart, h₁, h₂, h₃, hp₀, hp₁, hp₂, hp₃, hr₀, hr₁, hr₂, hr₃⟩ :
      ∃ s₀ s₁ s₂ s₃ : Runtime Graph Nat Nat,
      runAsyncMain 0 0 = .ok (.next s₀ (.start 0 0)) ∧ Next s₀ (.call 1 7, .handle ⟨2⟩) s₁ ∧
      Next s₁ (.skip, .start 1 7) s₂ ∧ Next s₂ (.skip, .skip) s₃ ∧
      s₀.pool = poolOf [mainTask .running .entry] ∧
      s₁.pool = poolOf [mainTask .running .entry, calledTask .init .entry] ∧
      s₂.pool = poolOf [mainTask .running .asyncSkip, calledTask .running .entry] ∧
      s₃.pool = poolOf [mainTask .running .asyncSkip, calledTask .running .asyncSkip] ∧
      s₀.running = ⟨1⟩ ∧ s₁.running = ⟨1⟩ ∧ s₂.running = ⟨2⟩ ∧ s₃.running = ⟨1⟩ := by
    exact ⟨_, _, _, _, rfl, rfl, rfl, rfl, rfl, rfl, rfl, rfl, rfl, rfl, rfl, rfl⟩
  have hmainStarts : MainStarts (BitVec.ofNat 64) (BitVec.ofNat 64) (BitVec.ofNat 64) 0 0 m₀
      mainOps (s₀, m₁) :=
    ⟨hboot, hstart, rfl, hmain, hm₁.pool.trans hp₀.symm, hm₁.running.trans hr₀.symm⟩
  have hcalled : CallStep (BitVec.ofNat 64) (BitVec.ofNat 64) (BitVec.ofNat 64) (s₀, m₁)
      ((.call 1 7, .handle ⟨2⟩), [.lib (.alloc 1 7 ⟨2⟩)]) (s₁, m₂) :=
    ⟨h₁, by rw [hr₀, hr₁]; exact .call, .single hcall, hm₂.pool.trans hp₁.symm,
      hm₂.running.trans hr₁.symm⟩
  have hskipped : CallStep (BitVec.ofNat 64) (BitVec.ofNat 64) (BitVec.ofNat 64) (s₁, m₂)
      ((.skip, .start 1 7), [.run ∅, .lib (.switch ⟨1⟩ ⟨2⟩ .asyncSkip (.entered 1 7))])
      (s₂, m₄) :=
    ⟨h₂, by rw [hr₁, hr₂]; exact .skip .entered, .cons hrun₃ (.single hskip),
      hm₄.pool.trans hp₂.symm, hm₄.running.trans hr₂.symm⟩
  have hlast : CallStep (BitVec.ofNat 64) (BitVec.ofNat 64) (BitVec.ofNat 64) (s₂, m₄)
      ((.skip, .skip), [.run ∅, .lib (.switch ⟨2⟩ ⟨1⟩ .asyncSkip (.resumed .asyncSkip))])
      (s₃, m₆) :=
    ⟨h₃, by rw [hr₂, hr₃]; exact .skip .asyncSkip, .cons hrun₅ (.single hback),
      hm₆.pool.trans hp₃.symm, hm₆.running.trans hr₃.symm⟩
  have hcalls := Steps.cons hcalled (.single hskipped)
  have hne : s₃.running ≠ s₂.running := by
    rw [hr₂, hr₃]
    decide
  obtain ⟨o₁, o₂, a, b, j, frame, control, hops, -, -, -, -, hend⟩ := (library_on_stacks
    ⟨s₀, ⟨0, 0, hstart⟩, .cons h₁ (.single h₂)⟩ h₃).2 hmainStarts hcalls hlast hne
  rcases hend with ⟨fn, data, hr, -⟩ | ⟨l₁, k, frame', control', l₂, c, hl, -, hreach, -, hon⟩
  · cases hr
  -- no code of this run has written to another stack
  have hnone : written l₂ = ∅ := by
    refine Set.eq_empty_of_forall_notMem ?_
    rintro y ⟨op, hop, hy⟩
    have hmem : op ∈ (l₁ ++ .lib (.switch s₃.running k frame' control') :: l₂) ++
        .lib (.switch j s₃.running frame control) :: o₂ := by
      simp [hop]
    rw [← hl, List.append_assoc, ← hops] at hmem
    simp only [mainOps, opsOf, List.flatMap_cons, List.flatMap_nil, List.mem_append,
      List.mem_cons, List.not_mem_nil, or_false] at hmem
    rcases hmem with ((rfl | rfl | rfl) | rfl | rfl | rfl) | rfl | rfl
    all_goals exact hy
  rw [hr₃, hnone] at hon
  exact ⟨s₂, s₃, m₀, m₄, m₆, c, b, _, _, l₁, _, hmainStarts, hcalls, rfl, hlast, hreach,
    hon fun _ _ _ h => h⟩

end CAsync
