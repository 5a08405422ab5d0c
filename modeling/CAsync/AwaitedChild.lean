/-
# Who resumes a waiting task

A task in `await` goes on when the task it waits for returns, and not before, in a run whose
`await`s are well behaved (`AwaitsWell`) and each find the child in the run queue and with the
flag `orphaned` off (`AwaitsFrom`; `resumed_by_child`).  Both conditions are needed.  A child that
is not in the queue because it waits itself is pushed to the front like any other, is resumed too
early, and fails the assertion on its own child (`await_of_waiting_child`); a child whose slot has
kept the flag of an earlier task is freed by its `async_return`, and its parent polls a dead node
(`await_in_orphaned_slot`).
-/
import CAsync.NoTaskLost
import CAsync.Orphans

namespace CAsync

open Faulting TaskPool Relation

variable {F V S : Type}

/-- How a program may use `await`: tasks are freed after they have finished, an orphan is not
awaited, and `await` is called on an unfinished task that nobody awaits and that does not wait,
through whatever chain, for the caller. -/
structure AwaitsWell (s : Runtime S F V) (op : Op F V) : Prop where
  free : FreesFinished s op
  orphan : ∀ h, op = .orphan h → ∀ i, ¬ Waits s i h
  unfinished : ∀ h, op = .await h → s.pool.Unfinished h
  unawaited : ∀ h, op = .await h → ∀ i, ¬ Waits s i h
  acyclic : ∀ h, op = .await h → ¬ ReflTransGen (Waits s) h s.running

/-- The child is in the run queue, and the flag of its slot is off. -/
def AwaitsFrom (queue : List Handle) (s : Runtime S F V) (op : Op F V) : Prop :=
  ∀ h, op = .await h → h ∈ queue ∧ s.pool.flag h = some false

/-! ## 1. The invariant -/

/-- What well-behaved `await`s keep: awaited tasks are not orphaned, and `main` is not freed. -/
structure Joined (s : Runtime TaskGraph F V) : Prop where
  tame : Tame s
  main : s.pool.stateOf ⟨1⟩ = some .running
  kept : ∀ {i k}, Waits s i k → s.pool.flag k = some false

namespace Joined

variable {s t : Runtime TaskGraph F V} {op : Op F V} {r : Reply F V}

/-- **Every well-behaved call keeps the invariant.** -/
theorem next (hs : Joined s) (hst : Next s (op, r) t) (hw : AwaitsWell s op)
    (hf : AwaitsFrom s.sched.tasks s op) : Joined t := by
  obtain ⟨heff, -⟩ := hs.tame.inv.effect hst
  have ht := hs.tame.next ⟨hst, hw.free⟩
  refine ⟨ht, ?_, fun {i k} hwait => ?_⟩
  · obtain ⟨u, hu, hrun⟩ := stateOf_eq_some.mp hs.main
    obtain ⟨w, hw, hwr, -⟩ := heff.main hs.tame.inv hw.free.freesNoWaiter hu hrun
    rw [stateOf_eq hw, hwr]
  · obtain ⟨c, hsus⟩ := hwait
    have hold : s.pool.flag k = some false ∧ op ≠ .orphan k := by
      rcases (heff.suspended hs.tame.inv hw.free).mp hsus with ⟨hsus, -⟩ | ⟨rfl, -⟩
      · refine ⟨hs.kept ⟨c, hsus⟩, fun hop => hw.orphan k hop i ⟨c, hsus⟩⟩
      · exact ⟨(hf k rfl).2, by simp⟩
    rcases hst.flag hold.2 with h | ⟨-, h⟩
    · rw [h]
      exact hold.1
    · rw [h, hold.1]
      rfl

/-- **No well-behaved call that switches fails.** -/
theorem step_ok (hs : Joined s) (hw : AwaitsWell s op) (hf : AwaitsFrom s.sched.tasks s op)
    (hop : op.schedules = true) : ∃ o, step s op = .ok o := by
  have hinv := hs.tame.inv
  cases op with
  | skip =>
    obtain ⟨r, t, hok, -⟩ := hinv.step_skip
    exact ⟨_, hok⟩
  | await h =>
    obtain ⟨hmem, -⟩ := hf h rfl
    obtain ⟨c, hc, -⟩ := hinv.graph.mem_tasks.mp hmem
    have hpar : s.sched.parent c = none := by
      cases hp : s.sched.parent c with
      | none => rfl
      | some p =>
        obtain ⟨i, -, hsus⟩ := hs.tame.parent hc (hw.unfinished h rfl) hp
        exact absurd ⟨c, hsus⟩ (hw.unawaited h rfl i)
    have hself : h ≠ s.running := by
      rintro rfl
      exact hw.acyclic _ rfl .refl
    obtain ⟨r, t, hok, -⟩ := hinv.step_await hc hpar hmem hself
    exact ⟨_, hok⟩
  | ret data =>
    by_cases hmain : s.running.idx = 1
    · exact ⟨_, hinv.step_ret_main hmain data⟩
    obtain ⟨v, hv, -⟩ := hinv.running_task
    obtain ⟨p, -, -, -, hnode, -⟩ := hinv.exists_queue
    cases hpar : s.sched.parent p with
    | none =>
      obtain ⟨r, t, hok, -⟩ := hinv.step_ret hmain hnode hpar
        (fun hlast => hs.tame.last_awaited hs.main hmain hlast hnode hpar) data
      exact ⟨_, hok⟩
    | some d =>
      obtain ⟨i, hi, hsus⟩ := hs.tame.parent hnode (.inr hinv.running) hpar
      have hkept : v.orphaned = false := by
        have hflag := hs.kept ⟨p, hsus⟩
        unfold flag at hflag
        rw [hv] at hflag
        exact Option.some.inj hflag
      have hlive : s.sched.handle d ≠ 0 := by
        rw [(hinv.graph.node hi).1]
        exact (hinv.graph.node hi).2.1
      obtain ⟨t, hok, -⟩ := hinv.step_wake hmain hnode hpar hlive hv hkept data
      exact ⟨_, hok⟩
  | call fn arg => cases hop
  | orphan h => cases hop
  | free h => cases hop
  | poll h => cases hop

end Joined

/-! ## 2. The theorem -/

/-- A well-behaved call, whose child is queued and not marked as an orphan. -/
def JoinsQueued (s : Runtime Graph F V) (op : Op F V) : Prop :=
  AwaitsWell s op ∧ AwaitsFrom s.sched.tasks s op

theorem AwaitsWell.same {S' : Type} {Rep : S → S' → Prop} {s : Runtime S F V}
    {a : Runtime S' F V} {op : Op F V} (h : SameRuntime Rep s a) (hw : AwaitsWell s op) :
    AwaitsWell a op where
  free := hw.free.same h
  orphan := by
    rw [← h.waits]
    exact hw.orphan
  unfinished := by
    rw [← h.pool]
    exact hw.unfinished
  unawaited := by
    rw [← h.waits]
    exact hw.unawaited
  acyclic := by
    rw [← h.waits, ← h.running]
    exact hw.acyclic

theorem JoinsQueued.same {s : Runtime Graph F V} {a : Runtime TaskGraph F V} {op : Op F V}
    (h : SameRuntime TaskGraph.Represents s a) (hj : JoinsQueued s op) :
    AwaitsWell a op ∧ AwaitsFrom a.sched.tasks a op := by
  refine ⟨hj.1.same h, fun i hi => ?_⟩
  have hfrom := hj.2 i hi
  rwa [h.pool, h.sched.tasks_eq] at hfrom

/-- **A waiting task is resumed by the end of its child.**  In a run of well-behaved calls, each
of which awaits a task in the run queue whose slot has its flag off: no further such call that
switches fails; and a task that waits for `k` stays out of the queue and goes on waiting, until
`k` calls `async_return(data)`, which puts it at the front of the queue and switches to it, and
its `await` returns `data`. -/
theorem resumed_by_child {l : List (Op F V × Reply F V)} {s : Runtime Graph F V}
    (hs : ReachedBy JoinsQueued l s) :
    (∀ op, JoinsQueued s op → op.schedules = true → ∃ o, step s op = .ok o) ∧
      ∀ i c k, Suspended s i c k → i ∉ s.sched.tasks ∧
        ∀ op r t, Guarded JoinsQueued s (op, r) t →
          (Suspended t i c k ∧ i ∉ t.sched.tasks) ∨
          ∃ data rest, op = .ret data ∧ k = s.running ∧ r = .await data ∧ t.running = i ∧
            t.sched.tasks = i :: rest ∧ t.pool.stateOf k = some .ready ∧
            (t.pool.slot k).map Task.data = some data := by
  have hmodel : ∃ a : Runtime TaskGraph F V, Joined a ∧
      SameRuntime TaskGraph.Represents s a := by
    refine hs.model (P := JoinsQueued)
      (Q := fun a op => AwaitsWell a op ∧ AwaitsFrom a.sched.tasks a op)
      (fun _ h hj => hj.same h) (fun mainFn arg => ⟨started_tame mainFn arg, rfl, ?_⟩)
      (fun a x b ha hst => ha.next hst.1 hst.2.1 hst.2.2)
    rintro i k ⟨c, haway, u, hu, -⟩
    exact absurd (started_slot mainFn arg hu).1 haway
  obtain ⟨a, ha, hsa⟩ := hmodel
  refine ⟨fun op hj hop => ?_, fun i c k hsus => ?_⟩
  · obtain ⟨hw, hf⟩ := hj.same hsa
    obtain ⟨o, ho⟩ := ha.step_ok hw hf hop
    have hstep := graphRefines.step hsa op
    rw [ho] at hstep
    obtain ⟨o', ho', -⟩ := hstep.ok_right
    exact ⟨o', ho'⟩
  · have hsus' := hsa.suspended.mp hsus
    rw [hsa.sched.tasks_eq]
    refine ⟨(ha.tame.inv.of_suspended hsus').1, fun op r t hst => ?_⟩
    obtain ⟨b, hab, htb⟩ := graphRefines.next hsa hst.1
    obtain ⟨hw, hf⟩ := hst.2.same hsa
    obtain ⟨heff, hb⟩ := ha.tame.inv.effect hab
    rw [htb.sched.tasks_eq, htb.suspended, htb.running, htb.pool, hsa.running]
    by_cases hi : b.running = i
    · obtain ⟨data, v, rest, hop, hr, hk, -, hslot, -, htasks⟩ :=
        heff.resumed ha.tame.inv hsus' hi
      exact .inr ⟨data, rest, hop, hk, hr, hi, htasks, stateOf_eq hslot, by rw [hslot]; rfl⟩
    · have hsus'' := (heff.suspended ha.tame.inv hw.free).mpr (.inl ⟨hsus', Ne.symm hi⟩)
      exact .inl ⟨hsus'', (hb.of_suspended hsus'').1⟩

/-! ## 3. Both conditions are needed -/

/-- The task that `i` waits for. -/
def waitingFor (s : Runtime S F V) (i : Handle) : Option Handle :=
  if i = s.running then none else
    match s.pool.slot i with
    | some { state := .running, stackPtr := some (.graphWaitReady j _ k), .. } =>
      if j = i then some k else none
    | _ => none

theorem Waits.waitingFor {s : Runtime S F V} {i k : Handle} (h : Waits s i k) :
    waitingFor s i = some k := by
  obtain ⟨c, haway, u, hu, hrun, hframe⟩ := h
  obtain ⟨base, ptr, fn, data, st, orph, hd⟩ := u
  dsimp only at hrun hframe
  subst hrun hframe
  unfold CAsync.waitingFor
  rw [if_neg haway, hu]
  exact if_pos rfl

/-- A calculation over the slots. -/
theorem unawaited_of_all {s : Runtime S F V} {k : Handle}
    (h : (List.range (s.pool.len + 1)).all (fun i => waitingFor s ⟨i⟩ != some k) = true)
    (i : Handle) : ¬ Waits s i k := by
  intro hw
  have hlen : i.idx ≤ s.pool.len := by
    obtain ⟨c, -, u, hu, -⟩ := hw
    exact (slot_bounds hu).2
  have hne := List.all_eq_true.mp h i.idx (List.mem_range.mpr (Nat.lt_succ_of_le hlen))
  have heq : CAsync.waitingFor s ⟨i.idx⟩ = some k := hw.waitingFor
  rw [heq] at hne
  simp at hne

/-- What `AwaitsWell` asks of a call that touches no other task. -/
theorem AwaitsWell.of_other {s : Runtime S F V} {op : Op F V}
    (hop : ∀ h, op ≠ .free h ∧ op ≠ .orphan h ∧ op ≠ .await h) : AwaitsWell s op where
  free := fun h e => absurd e (hop h).1
  orphan := fun h e => absurd e (hop h).2.1
  unfinished := fun h e => absurd e (hop h).2.2
  unawaited := fun h e => absurd e (hop h).2.2
  acyclic := fun h e => absurd e (hop h).2.2

theorem AwaitsWell.of_await {s : Runtime S F V} {h : Handle} (hu : s.pool.Unfinished h)
    (hw : ∀ i, ¬ Waits s i h) (hc : ¬ ReflTransGen (Waits s) h s.running) :
    AwaitsWell s (.await h) where
  free := fun _ e => by cases e
  orphan := fun _ e => by cases e
  unfinished := fun _ e => by
    cases e
    exact hu
  unawaited := fun _ e => by
    cases e
    exact hw
  acyclic := fun _ e => by
    cases e
    exact hc

/-- A chain that starts at a task that does not wait. -/
theorem not_chain {s : Runtime S F V} {h i : Handle} (hne : h ≠ i) (hw : waitingFor s h = none) :
    ¬ ReflTransGen (Waits s) h i := by
  intro hchain
  rcases hchain.cases_head with heq | ⟨k, hk, -⟩
  · exact hne heq
  · rw [hk.waitingFor] at hw
    cases hw

/-- A chain that starts at a task that waits. -/
theorem not_chain_of {s : Runtime S F V} {h i k : Handle} (hne : h ≠ i)
    (hw : waitingFor s h = some k) (hk : ¬ ReflTransGen (Waits s) k i) :
    ¬ ReflTransGen (Waits s) h i := by
  intro hchain
  rcases hchain.cases_head with heq | ⟨j, hj, hrest⟩
  · exact hne heq
  · rw [hj.waitingFor] at hw
    cases hw
    exact hk hrest

/-- `main` calls a task and skips, the task calls another and awaits it, and `main`, which is next
in the queue, awaits the first: it is resumed while its child has not started. -/
theorem await_of_waiting_child : ∃ (l : List (Op Nat Nat × Reply Nat Nat))
    (s : Runtime Graph Nat Nat), ReachedBy AwaitsWell l s ∧ (∀ x ∈ l, ∀ h, x.1 ≠ .orphan h) ∧
      AwaitsWell s (.await ⟨2⟩) ∧ step s (.await ⟨2⟩) = .error .awaitedNotReady :=
  ⟨[(.call 7 0, .handle ⟨2⟩), (.skip, .start 7 0), (.call 8 0, .handle ⟨3⟩), (.await ⟨3⟩, .skip)],
    _, ⟨_, ⟨0, 0, rfl⟩, .cons ⟨rfl, .of_other (by simp)⟩ (.cons ⟨rfl, .of_other (by simp)⟩
      (.cons ⟨rfl, .of_other (by simp)⟩ (.cons ⟨rfl, .of_await (.inl rfl) (unawaited_of_all rfl)
        (not_chain (by decide) rfl)⟩ (.refl _))))⟩, by simp,
    .of_await (.inr rfl) (unawaited_of_all rfl) (not_chain_of (by decide) rfl
      (not_chain (by decide) rfl)), rfl⟩

/-- An orphan ends, which frees slot 2, and `main` calls another task and awaits it: the task is
freed when it returns, and `main` polls a node without a task. -/
theorem await_in_orphaned_slot : ∃ (l : List (Op Nat Nat × Reply Nat Nat))
    (s : Runtime Graph Nat Nat), Reached l s ∧ s.sched.tasks = [⟨2⟩] ∧
      step s (.ret 5) = .error .pollNull :=
  ⟨[(.call 7 0, .handle ⟨2⟩), (.orphan ⟨2⟩, .done), (.skip, .start 7 0), (.ret 0, .skip),
    (.call 8 0, .handle ⟨2⟩), (.await ⟨2⟩, .start 8 0)], _,
    ⟨_, ⟨0, 0, rfl⟩, .cons rfl (.cons rfl (.cons rfl (.cons rfl (.cons rfl (.cons rfl
      (.refl _))))))⟩, by decide, rfl⟩

/-- `main` calls a task and awaits it. -/
theorem resumed_by_child_run : ∃ s : Runtime Graph Nat Nat,
    (∀ op, JoinsQueued s op → op.schedules = true → ∃ o, step s op = .ok o) ∧
      s.running = ⟨2⟩ :=
  ⟨_, (resumed_by_child (l := [(.call 7 0, .handle ⟨2⟩), (.await ⟨2⟩, .start 7 0)])
    ⟨_, ⟨0, 0, rfl⟩, .cons ⟨rfl, .of_other (by simp), fun _ h => by cases h⟩
      (.cons ⟨rfl, .of_await (.inl rfl) (unawaited_of_all rfl) (not_chain (by decide) rfl),
        fun _ h => by
          cases h
          exact ⟨by decide, rfl⟩⟩ (.refl _))⟩).1, rfl⟩

end CAsync
