/-
# The tasks of the echo server

What the library looks like while the server runs (`Cast`): `async_main` waits for `accept_loop` and
never runs again, `server_stats` and `accept_loop` are in the queue for ever, and every other task
is an `echo_loop`, which nobody awaits and which is freed when it returns.  Each of the calls that
these tasks make succeeds and keeps this (`Cast.skip`, `Cast.call`, `Cast.orphan`, `Cast.ret`), and
`clientOf` is what the rest of the development needs to know of its effect.
-/
import CAsync.AsyncServer
import CAsync.LifeCycle

namespace CAsync

open Faulting TaskPool

/-! ## 1. The clients -/

/-- The socket of an `echo_loop` that has not returned, and whether it has started. -/
def Task.client (t : Task ServerFn ServerArg) : Option (Int × Bool) :=
  match t.fn, t.data, t.state with
  | .echoLoop, .socket fd, .init => some (fd, false)
  | .echoLoop, .socket fd, .running => some (fd, true)
  | _, _, _ => none

def clientOf {S : Type} (s : Runtime S ServerFn ServerArg) (h : Handle) : Option (Int × Bool) :=
  (s.pool.slot h).bind Task.client

/-- The task `h` has started, if it is a client. -/
def begins (f : Handle → Option (Int × Bool)) (h : Handle) : Handle → Option (Int × Bool) :=
  Function.update f h ((f h).map fun x => (x.1, true))

section

variable {t : Task ServerFn ServerArg} {fd : Int} {b : Bool}

theorem Task.client_eq_some : t.client = some (fd, b) ↔
    t.fn = .echoLoop ∧ t.data = .socket fd ∧ t.state = if b then .running else .init := by
  obtain ⟨base, ptr, fn, data, state, orphaned, handle⟩ := t
  unfold Task.client
  cases fn <;> cases data <;> cases state <;> cases b <;> simp

@[simp] theorem Task.client_suspend (t : Task ServerFn ServerArg) (frame : Frame) :
    (t.suspend frame).client = t.client := rfl

/-- A task in the queue that is switched to. -/
theorem Task.client_run (hstate : t.state = .init ∨ t.state = .running) :
    t.run.client = t.client.map fun x => (x.1, true) := by
  obtain ⟨base, ptr, fn, data, state, orphaned, handle⟩ := t
  unfold Task.client Task.run
  cases fn <;> cases data <;> cases state <;> simp_all

/-- A task that has not started, or has, is a client if it is one of `echo_loop`. -/
theorem Task.client_of_state (hfn : t.fn = .echoLoop) (hdata : t.data = .socket fd)
    (hstate : t.state = .init ∨ t.state = .running) : ∃ b, t.client = some (fd, b) := by
  rcases hstate with h | h
  · exact ⟨false, client_eq_some.mpr ⟨hfn, hdata, h⟩⟩
  · exact ⟨true, client_eq_some.mpr ⟨hfn, hdata, h⟩⟩

theorem Task.client_free (hstate : t.state = .free) : t.client = none := by
  cases hc : t.client with
  | none => rfl
  | some x =>
    obtain ⟨-, -, h⟩ := client_eq_some.mp hc
    rw [hstate] at h
    split at h <;> cases h

end

/-! ## 2. The tasks -/

variable {s t : Runtime TaskGraph ServerFn ServerArg} {p q : Option Handle} {h next : Handle}

/-- **The tasks of the server.**  `p` is an `echo_loop` that has just been created, and
is not orphaned yet. -/
structure Cast (s : Runtime TaskGraph ServerFn ServerArg) (p : Option Handle) : Prop where
  inv : Inv s
  main : ∃ c u, Suspended s ⟨1⟩ c ⟨3⟩ ∧ s.pool.slot ⟨1⟩ = some u ∧ u.fn = .asyncMain
  stats : ⟨2⟩ ∈ s.sched.tasks ∧ ∃ u, s.pool.slot ⟨2⟩ = some u ∧ u.fn = .serverStats
  accept : ⟨3⟩ ∈ s.sched.tasks ∧ ∃ u, s.pool.slot ⟨3⟩ = some u ∧ u.fn = .acceptLoop
  client : ∀ h ∈ s.sched.tasks, h ≠ ⟨2⟩ → h ≠ ⟨3⟩ → ∃ u fd, s.pool.slot h = some u ∧
    u.fn = .echoLoop ∧ u.data = .socket fd ∧ (u.orphaned = true ∨ p = some h)
  unawaited : ∀ h ∈ s.sched.tasks, h ≠ ⟨3⟩ → ∀ c, s.sched.nodeOf h.idx = some c →
    s.sched.parent c = none
  live : ∀ h u, s.pool.slot h = some u → u.state ≠ .free → h = ⟨1⟩ ∨ h ∈ s.sched.tasks
  pending : ∀ h, p = some h → s.running = ⟨3⟩ ∧ h ∈ s.sched.tasks ∧ h ≠ ⟨2⟩ ∧ h ≠ ⟨3⟩

/-- **How the queue moves** in a step from `s` to `t`.  The running task keeps its place, and a new
one may be behind all others; or it gives up its place, and goes behind all others or leaves. -/
inductive Moved (s t : Runtime TaskGraph ServerFn ServerArg) : Prop
  | stays {new : List Handle} : t.running = s.running → t.sched.tasks = s.sched.tasks ++ new →
    Moved s t
  | turns {rest back : List Handle} : s.sched.tasks = s.running :: rest →
    t.sched.tasks = rest ++ back → back ⊆ [s.running] → Moved s t

theorem Moved.refl (s : Runtime TaskGraph ServerFn ServerArg) : Moved s s :=
  .stays rfl (List.append_nil _).symm

namespace Cast

theorem main_not_mem (hc : Cast s p) : ⟨1⟩ ∉ s.sched.tasks := by
  obtain ⟨c, u, hsusp, -⟩ := hc.main
  exact fun hmem => hc.inv.not_suspended hmem hsusp

/-- The clients are the other tasks in the queue. -/
theorem clientOf_isSome (hc : Cast s p) : (∃ fd b, clientOf s h = some (fd, b)) ↔
    h ∈ s.sched.tasks ∧ h ≠ ⟨2⟩ ∧ h ≠ ⟨3⟩ := by
  unfold clientOf
  constructor
  · rintro ⟨fd, b, hclient⟩
    obtain ⟨u, hu, hclient⟩ := Option.bind_eq_some_iff.mp hclient
    obtain ⟨hfn, -, hstate⟩ := Task.client_eq_some.mp hclient
    have hlive : u.state ≠ .free := by
      rw [hstate]
      split <;> simp
    refine ⟨?_, ?_, ?_⟩
    · rcases hc.live h u hu hlive with rfl | hmem
      · obtain ⟨c, v, -, hv, hmain⟩ := hc.main
        rw [hu] at hv
        cases hv
        rw [hfn] at hmain
        cases hmain
      · exact hmem
    · rintro rfl
      obtain ⟨-, v, hv, hstats⟩ := hc.stats
      rw [hu] at hv
      cases hv
      rw [hfn] at hstats
      cases hstats
    · rintro rfl
      obtain ⟨-, v, hv, haccept⟩ := hc.accept
      rw [hu] at hv
      cases hv
      rw [hfn] at haccept
      cases haccept
  · rintro ⟨hmem, h2, h3⟩
    obtain ⟨u, fd, hu, hfn, hdata, -⟩ := hc.client h hmem h2 h3
    have hstate : u.state = .init ∨ u.state = .running := by
      by_cases hrun : h = s.running
      · rw [hrun] at hu
        exact .inr (hc.inv.running_state hu)
      · exact hc.inv.queued_state hmem hrun hu
    obtain ⟨b, hb⟩ := Task.client_of_state hfn hdata hstate
    exact ⟨fd, b, by rw [hu]; exact hb⟩

/-- **A call that leaves the tasks alone**, but for one that may have returned, keeps the cast. -/
theorem keep (hc : Cast s p) (ht : Inv t) (htasks : ∀ h ∈ t.sched.tasks, h ∈ s.sched.tasks)
    (hstats : ⟨2⟩ ∈ t.sched.tasks) (haccept : ⟨3⟩ ∈ t.sched.tasks)
    (hslot : ∀ h ∈ t.sched.tasks, ∀ u, s.pool.slot h = some u → ∃ w, t.pool.slot h = some w ∧
      w.fn = u.fn ∧ w.data = u.data ∧
        (u.orphaned = true ∨ p = some h → w.orphaned = true ∨ q = some h))
    (hmain : t.pool.slot ⟨1⟩ = s.pool.slot ⟨1⟩)
    (hnode : ∀ h ∈ t.sched.tasks, t.sched.nodeOf h.idx = s.sched.nodeOf h.idx)
    (hparent : t.sched.parent = s.sched.parent)
    (hlive : ∀ h u, t.pool.slot h = some u → u.state ≠ .free → h = ⟨1⟩ ∨ h ∈ t.sched.tasks)
    (hpending : ∀ h, q = some h → t.running = ⟨3⟩ ∧ h ∈ t.sched.tasks ∧ h ≠ ⟨2⟩ ∧ h ≠ ⟨3⟩) :
    Cast t q where
  inv := ht
  main := by
    obtain ⟨c, u, ⟨-, hframe⟩, hu, hfn⟩ := hc.main
    refine ⟨c, u, ⟨?_, by rwa [hmain]⟩, by rwa [hmain], hfn⟩
    rintro heq
    have hmem := htasks _ ht.running_mem
    rw [← heq] at hmem
    exact hc.main_not_mem hmem
  stats := by
    obtain ⟨-, u, hu, hfn⟩ := hc.stats
    obtain ⟨w, hw, hwfn, -⟩ := hslot _ hstats u hu
    exact ⟨hstats, w, hw, hwfn.trans hfn⟩
  accept := by
    obtain ⟨-, u, hu, hfn⟩ := hc.accept
    obtain ⟨w, hw, hwfn, -⟩ := hslot _ haccept u hu
    exact ⟨haccept, w, hw, hwfn.trans hfn⟩
  client := by
    intro h hmem h2 h3
    obtain ⟨u, fd, hu, hfn, hdata, hor⟩ := hc.client h (htasks h hmem) h2 h3
    obtain ⟨w, hw, hwfn, hwdata, hwor⟩ := hslot h hmem u hu
    exact ⟨w, fd, hw, hwfn.trans hfn, hwdata.trans hdata, hwor hor⟩
  unawaited := by
    intro h hmem h3 c hnc
    rw [hnode h hmem] at hnc
    rw [hparent]
    exact hc.unawaited h (htasks h hmem) h3 c hnc
  live := hlive
  pending := hpending

/-! ## 3. The calls -/

/-- What a switch to another task does to the clients. -/
theorem clientOf_switched {slots : Handle → Option (Task ServerFn ServerArg)}
    {u : Task ServerFn ServerArg} (hsw : SwitchedTo t slots next u)
    (hstate : u.state = .init ∨ u.state = .running) :
    clientOf t = begins (fun h => (slots h).bind Task.client) next := by
  funext i
  unfold clientOf begins
  rw [hsw.slot]
  by_cases hi : i = next
  · subst hi
    rw [Function.update_self, Function.update_self]
    dsimp only
    rw [hsw.task]
    exact Task.client_run hstate
  · rw [Function.update_of_ne hi, Function.update_of_ne hi]

/-- The code that the next task goes on with. -/
theorem resumed (hc : Cast s p) (hmem : next ∈ s.sched.tasks) (hne : next ≠ s.running)
    {u : Task ServerFn ServerArg} (hu : s.pool.slot next = some u) :
    (u.state = .init ∧ ∃ code, AsyncServer.entry u.fn u.data = .ok code ∧
        u.resumed = .start u.fn u.data ∧ (next = ⟨2⟩ → code = .stats) ∧
        (next = ⟨3⟩ → code = .accept) ∧
        ∀ fd b, clientOf s next = some (fd, b) → b = false ∧ code = .echo fd .init) ∨
      u.state = .running ∧ u.resumed = .skip := by
  obtain ⟨v, hv, ⟨hinit, hptr⟩ | ⟨hrun, hptr⟩⟩ := hc.inv.queued hmem hne
  · rw [hu] at hv
    cases hv
    refine .inl ⟨hinit, ?_⟩
    have hresumed : u.resumed = .start u.fn u.data := by
      unfold Task.resumed
      rw [if_pos hinit]
    have hclient : ∀ fd b, clientOf s next = some (fd, b) →
        u.fn = .echoLoop ∧ u.data = .socket fd ∧ b = false := by
      intro fd b hb
      unfold clientOf at hb
      rw [hu] at hb
      obtain ⟨hfn, hdata, hstate⟩ := Task.client_eq_some.mp hb
      rw [hinit] at hstate
      cases b
      · exact ⟨hfn, hdata, rfl⟩
      · cases hstate
    by_cases h2 : next = ⟨2⟩
    · obtain ⟨-, w, hw, hfn⟩ := hc.stats
      rw [← h2, hu] at hw
      cases hw
      refine ⟨.stats, by rw [hfn]; rfl, hresumed, fun _ => rfl, fun h3 => ?_, fun fd b hb => ?_⟩
      · rw [h2] at h3
        cases h3
      · rw [(hclient fd b hb).1] at hfn
        cases hfn
    by_cases h3 : next = ⟨3⟩
    · obtain ⟨-, w, hw, hfn⟩ := hc.accept
      rw [← h3, hu] at hw
      cases hw
      refine ⟨.accept, by rw [hfn]; rfl, hresumed, fun h => absurd h h2, fun _ => rfl,
        fun fd b hb => ?_⟩
      rw [(hclient fd b hb).1] at hfn
      cases hfn
    obtain ⟨w, fd, hw, hfn, hdata, -⟩ := hc.client next hmem h2 h3
    rw [hu] at hw
    cases hw
    refine ⟨.echo fd .init, by rw [hfn, hdata]; rfl, hresumed, fun h => absurd h h2,
      fun h => absurd h h3, fun fd' b hb => ?_⟩
    obtain ⟨-, hdata', rfl⟩ := hclient fd' b hb
    rw [hdata, ServerArg.socket.injEq] at hdata'
    exact ⟨rfl, by rw [hdata']⟩
  · rw [hu] at hv
    cases hv
    refine .inr ⟨hrun, ?_⟩
    unfold Task.resumed
    rw [if_neg (by rw [hrun]; decide), hptr]

/-- Two tasks never leave the queue. -/
theorem not_alone (hc : Cast s p) : s.sched.tasks ≠ [s.running] := by
  intro halone
  have h2 := hc.stats.1
  have h3 := hc.accept.1
  rw [halone, List.mem_singleton] at h2 h3
  rw [← h2] at h3
  cases h3

/-- **`async_skip`** of any task. -/
theorem skip (hc : Cast s none) : ∃ t next u, step s .skip = .ok (.next t u.resumed) ∧
    Cast t none ∧ next ∈ s.sched.tasks ∧ next ≠ s.running ∧ s.pool.slot next = some u ∧
    t.running = next ∧ t.sched.tasks.Perm s.sched.tasks ∧ Moved s t ∧
    t.pool.stateOf = Function.update s.pool.stateOf next (some .running) ∧
    clientOf t = begins (clientOf s) next := by
  obtain ⟨r, t, hok, heff, ht⟩ := hc.inv.step_skip
  cases heff with
  | alone halone => exact absurd halone hc.not_alone
  | @skip next rest u t queue tasks switched len nodeOf parent =>
    have hne : next ≠ s.running := hc.inv.next_ne queue
    have hmem : next ∈ s.sched.tasks := by
      rw [queue]
      exact List.mem_cons_of_mem _ List.mem_cons_self
    have hperm : t.sched.tasks.Perm s.sched.tasks := by
      rw [tasks, queue]
      exact List.perm_append_singleton s.running (next :: rest)
    obtain ⟨w, hw, hwrun⟩ := hc.inv.running_task
    have hsw := switched
    rw [leave_eq hw] at hsw
    have hu : s.pool.slot next = some u := hsw.task_of_ne hne
    have hstate := hc.inv.queued_state hmem hne hu
    have hslots : ∀ i v, s.pool.slot i = some v → ∃ v', t.pool.slot i = some v' ∧ v'.fn = v.fn ∧
        v'.data = v.data ∧ v'.orphaned = v.orphaned := by
      intro i v hv
      rw [hsw.slot]
      by_cases hi : i = next
      · subst hi
        rw [hu] at hv
        cases hv
        exact ⟨u.run, Function.update_self _ _ _, rfl, rfl, rfl⟩
      · rw [Function.update_of_ne hi]
        by_cases hi' : i = s.running
        · subst hi'
          rw [hw] at hv
          cases hv
          exact ⟨_, Function.update_self _ _ _, rfl, rfl, rfl⟩
        · rw [Function.update_of_ne hi']
          exact ⟨v, hv, rfl, rfl, rfl⟩
    have hstates : t.pool.stateOf = Function.update s.pool.stateOf next (some .running) := by
      funext i
      rw [switched.stateOf]
      by_cases hi : i = next
      · rw [if_pos hi, hi, Function.update_self]
      · rw [if_neg hi, Function.update_of_ne hi, leave_stateOf]
    have hclients : clientOf t = begins (clientOf s) next := by
      rw [clientOf_switched switched hstate]
      congr 1
      funext i
      unfold clientOf leave
      by_cases hi : i = s.running
      · rw [hi, Function.update_self, hw]
        rfl
      · rw [Function.update_of_ne hi]
    have hmoved : Moved s t := .turns queue tasks (List.Subset.refl _)
    refine ⟨t, next, u, hok, ?_, hmem, hne, hu, switched.running, hperm, hmoved, hstates, hclients⟩
    refine hc.keep ht (fun h hh => hperm.mem_iff.mp hh) (hperm.mem_iff.mpr hc.stats.1)
      (hperm.mem_iff.mpr hc.accept.1) (fun h hh v hv => ?_) ?_ (fun h _ => by rw [nodeOf]) parent
      (fun h v hv hlive => ?_) nofun
    · obtain ⟨v', hv', hfn, hdata, hor⟩ := hslots h v hv
      exact ⟨v', hv', hfn, hdata, fun h => .inl (by
        rw [hor]
        exact h.resolve_right nofun)⟩
    · have h1 : (⟨1⟩ : Handle) ≠ next := fun h => hc.main_not_mem (h ▸ hmem)
      have h1' : (⟨1⟩ : Handle) ≠ s.running := fun h => hc.main_not_mem (h ▸ hc.inv.running_mem)
      rw [hsw.slot, Function.update_of_ne h1, Function.update_of_ne h1']
    · rw [hperm.mem_iff]
      by_cases hi : h = next
      · rw [hi]
        exact .inr hmem
      · have hsame : s.pool.stateOf h = some v.state := by
          have hst := congrFun hstates h
          rw [stateOf_eq hv, Function.update_of_ne hi] at hst
          exact hst.symm
        obtain ⟨v', hv', hstate'⟩ := stateOf_eq_some.mp hsame
        exact hc.live h v' hv' (by rwa [hstate'])

/-- **`async_call`** of `echo_loop`, by `accept_loop`. -/
theorem call (hc : Cast s none) (hrun : s.running = ⟨3⟩) (fd : Int) : ∃ t h,
    step s (.call .echoLoop (.socket fd)) = .ok (.next t (.handle h)) ∧ Cast t (some h) ∧
    t.running = s.running ∧ t.sched.tasks = s.sched.tasks ++ [h] ∧ h ∉ s.sched.tasks ∧
    t.pool.stateOf = Function.update s.pool.stateOf h (some .init) ∧
    clientOf t = Function.update (clientOf s) h (some (fd, false)) := by
  obtain ⟨h, t, hok, heff, ht⟩ := hc.inv.step_call .echoLoop (.socket fd)
  cases heff with
  | @call _ _ _ u _ new slot room fresh tasks running nodeOf parent =>
    have hfree : ∀ v, s.pool.slot h = some v → v.state = .free := by
      intro v hv
      rcases room with ⟨hstate, -⟩ | ⟨hidx, -, -⟩
      · rwa [stateOf_eq hv, Option.some.injEq] at hstate
      · have := (slot_bounds hv).2
        omega
    have hnew : h ∉ s.sched.tasks := by
      intro hmem
      rcases hc.inv.unfinished hmem with hst | hst
      · obtain ⟨v, hv, hvs⟩ := stateOf_eq_some.mp hst
        rw [hfree v hv] at hvs
        cases hvs
      · obtain ⟨v, hv, hvs⟩ := stateOf_eq_some.mp hst
        rw [hfree v hv] at hvs
        cases hvs
    have hne : ∀ i ∈ s.sched.tasks, i ≠ h := by
      rintro i hi rfl
      exact hnew hi
    have hmain : (⟨1⟩ : Handle) ≠ h := by
      rintro rfl
      obtain ⟨c, u, ⟨-, v, hv, hvs, -⟩, -⟩ := hc.main
      rw [hfree v hv] at hvs
      cases hvs
    have hkept : ∀ {i v}, i ≠ h → s.pool.slot i = some v → t.pool.slot i = some v := by
      intro i v hi hv
      rw [slot, Function.update_of_ne hi, hv]
    have hmem : ∀ {i}, i ∈ t.sched.tasks ↔ i ∈ s.sched.tasks ∨ i = h := by
      intro i
      rw [tasks, List.mem_append, List.mem_singleton]
    refine ⟨t, h, hok, ?_, running, tasks, hnew, funext fun i => ?_, funext fun i => ?_⟩
    · refine ⟨ht, ?_, ?_, ?_, fun i hi h2 h3 => ?_, fun i hi h3 c hnc => ?_, fun i v hv hlive => ?_,
        fun i hi => ?_⟩
      · obtain ⟨c, w, ⟨haway, v, hv, hvs, hframe⟩, hw, hfn⟩ := hc.main
        exact ⟨c, w, ⟨by rwa [running], v, hkept hmain hv, hvs, hframe⟩, hkept hmain hw, hfn⟩
      · obtain ⟨h2, w, hw, hfn⟩ := hc.stats
        exact ⟨hmem.mpr (.inl h2), w, hkept (hne _ h2) hw, hfn⟩
      · obtain ⟨h3, w, hw, hfn⟩ := hc.accept
        exact ⟨hmem.mpr (.inl h3), w, hkept (hne _ h3) hw, hfn⟩
      · rcases hmem.mp hi with hi | rfl
        · obtain ⟨w, fd', hw, hfn, hdata, hor⟩ := hc.client i hi h2 h3
          exact ⟨w, fd', hkept (hne i hi) hw, hfn, hdata, .inl (hor.resolve_right nofun)⟩
        · exact ⟨u, fd, by rw [slot, Function.update_self], new.fn, new.data, .inr rfl⟩
      · rw [nodeOf] at hnc
        rw [parent]
        rcases hmem.mp hi with hi | rfl
        · have hidx : i.idx ≠ h.idx := fun heq => hne i hi (Handle.eq_of_idx heq)
          rw [Function.update_of_ne hidx] at hnc
          rw [Function.update_of_ne (Nat.ne_of_lt (hc.inv.graph.node hnc).2.2)]
          exact hc.unawaited i hi h3 c hnc
        · rw [Function.update_self, Option.some.injEq] at hnc
          rw [← hnc, Function.update_self]
      · rw [hmem]
        by_cases hi : i = h
        · exact .inr (.inr hi)
        · rw [slot, Function.update_of_ne hi] at hv
          exact (hc.live i v hv hlive).imp_right .inl
      · cases hi
        refine ⟨running.trans hrun, hmem.mpr (.inr rfl), ?_, ?_⟩
        · rintro rfl
          exact hnew hc.stats.1
        · rintro rfl
          exact hnew hc.accept.1
    · rw [stateOf_update slot]
      by_cases hi : i = h
      · rw [hi, Function.update_self, Function.update_self, new.state]
      · rw [Function.update_of_ne hi, Function.update_of_ne hi]
    · unfold clientOf
      rw [slot]
      by_cases hi : i = h
      · rw [hi, Function.update_self, Function.update_self]
        exact Task.client_eq_some.mpr ⟨new.fn, new.data, new.state⟩
      · rw [Function.update_of_ne hi, Function.update_of_ne hi]

/-- **`async_orphan`** of the task that has just been created. -/
theorem orphan (hc : Cast s (some h)) : ∃ t, step s (.orphan h) = .ok (.next t .done) ∧
    Cast t none ∧ t.running = s.running ∧ t.sched.tasks = s.sched.tasks ∧
    t.pool.stateOf = s.pool.stateOf ∧ clientOf t = clientOf s := by
  obtain ⟨-, hmem, h2, h3⟩ := hc.pending h rfl
  obtain ⟨u, fd, hu, hfn, hdata, -⟩ := hc.client h hmem h2 h3
  obtain ⟨t, hok, heff, ht⟩ := hc.inv.step_orphan hu
  cases heff with
  | @orphan _ v _ task slot len running sched =>
    rw [hu] at task
    cases task
    have hmain : (⟨1⟩ : Handle) ≠ h := fun heq => hc.main_not_mem (heq ▸ hmem)
    refine ⟨t, hok, ?_, running, by rw [sched], funext fun i => ?_, funext fun i => ?_⟩
    · refine hc.keep ht (fun i hi => by rwa [sched] at hi) (by rw [sched]; exact hc.stats.1)
        (by rw [sched]; exact hc.accept.1) (fun i hi w hw => ?_) ?_ (fun i _ => by rw [sched])
        (by rw [sched]) (fun i w hw hlive => ?_) nofun
      · rw [slot]
        by_cases hi : i = h
        · subst hi
          rw [hu] at hw
          cases hw
          exact ⟨_, Function.update_self _ _ _, rfl, rfl, fun _ => .inl rfl⟩
        · rw [Function.update_of_ne hi]
          exact ⟨w, hw, rfl, rfl, fun hor => .inl (hor.resolve_right fun heq => hi (by
            cases heq
            rfl))⟩
      · rw [slot, Function.update_of_ne hmain]
      · rw [sched]
        by_cases hi : i = h
        · exact .inr (hi ▸ hmem)
        · rw [slot, Function.update_of_ne hi] at hw
          exact hc.live i w hw hlive
    · rw [stateOf_update slot]
      by_cases hi : i = h
      · rw [hi, Function.update_self, stateOf_eq hu]
      · rw [Function.update_of_ne hi]
    · unfold clientOf
      rw [slot]
      by_cases hi : i = h
      · rw [hi, Function.update_self, hu]
        rfl
      · rw [Function.update_of_ne hi]

/-- **`async_return`** of an `echo_loop`: its slot is free, and its place in the queue is gone. -/
theorem ret (hc : Cast s none) {x : Int × Bool} (hclient : clientOf s s.running = some x)
    (data : ServerArg) : ∃ t next u, step s (.ret data) = .ok (.next t u.resumed) ∧
    Cast t none ∧ next ∈ s.sched.tasks ∧ next ≠ s.running ∧ s.pool.slot next = some u ∧
    t.running = next ∧ s.sched.tasks = s.running :: t.sched.tasks ∧
    t.pool.stateOf = Function.update (Function.update s.pool.stateOf s.running (some .free)) next
      (some .running) ∧
    clientOf t = begins (Function.update (clientOf s) s.running none) next := by
  obtain ⟨hmem, h2, h3⟩ := hc.clientOf_isSome.mp ⟨x.1, x.2, hclient⟩
  obtain ⟨v, fd, hv, hfn, hdata, hor⟩ := hc.client _ hmem h2 h3
  have horphaned : v.orphaned = true := hor.resolve_right nofun
  obtain ⟨p, q, -, -, hnode, -⟩ := hc.inv.exists_queue
  have hmain : s.running.idx ≠ 1 := fun h1 => hc.main_not_mem (by
    rwa [← show s.running = ⟨1⟩ from Handle.eq_of_idx h1])
  obtain ⟨r, t, hok, heff, ht⟩ := hc.inv.step_ret hmain hnode (hc.unawaited _ hmem h3 p hnode)
    hc.not_alone data
  cases heff with
  | @wake _ i rest c w _ notMain queue task node kept waiting away =>
    rw [hv] at task
    cases task
    rw [horphaned] at kept
    cases kept
  | @ret _ next rest p' w u t notMain queue task node unawaited tasks switched len nodeOf parent =>
    rw [hv] at task
    cases task
    have hfinish : (v.finish data s.pool.freeTask).state = .free := by
      unfold Task.finish
      rw [if_pos horphaned]
    have hne : next ≠ s.running := hc.inv.next_ne queue
    have hnext : next ∈ s.sched.tasks := by
      rw [queue]
      exact List.mem_cons_of_mem _ List.mem_cons_self
    have hu : s.pool.slot next = some u := switched.task_of_ne hne
    have hstate := hc.inv.queued_state hnext hne hu
    have hqueue : s.sched.tasks = s.running :: t.sched.tasks := by rw [queue, tasks]
    have hout : s.running ∉ t.sched.tasks := by
      have hnd := hc.inv.graph.tasks_nodup
      rw [hqueue] at hnd
      exact (List.nodup_cons.mp hnd).1
    have hin : ∀ {i}, i ∈ s.sched.tasks → i ≠ s.running → i ∈ t.sched.tasks := by
      intro i hi hne
      rw [hqueue] at hi
      exact (List.mem_cons.mp hi).resolve_left hne
    have hslots : ∀ i w, i ≠ s.running → s.pool.slot i = some w → ∃ w', t.pool.slot i = some w' ∧
        w'.fn = w.fn ∧ w'.data = w.data ∧ w'.orphaned = w.orphaned := by
      intro i w hi hw
      rw [switched.slot]
      by_cases hi' : i = next
      · subst hi'
        rw [hu] at hw
        cases hw
        exact ⟨u.run, Function.update_self _ _ _, rfl, rfl, rfl⟩
      · rw [Function.update_of_ne hi', Function.update_of_ne hi]
        exact ⟨w, hw, rfl, rfl, rfl⟩
    have hstates : t.pool.stateOf =
        Function.update (Function.update s.pool.stateOf s.running (some .free)) next
          (some .running) := by
      funext i
      rw [switched.stateOf]
      by_cases hi : i = next
      · rw [if_pos hi, hi, Function.update_self]
      · rw [if_neg hi, Function.update_of_ne hi]
        by_cases hi' : i = s.running
        · rw [hi', Function.update_self, Function.update_self, Option.map_some, hfinish]
        · rw [Function.update_of_ne hi', Function.update_of_ne hi']
          rfl
    have hclients : clientOf t = begins (Function.update (clientOf s) s.running none) next := by
      rw [clientOf_switched switched hstate]
      congr 1
      funext i
      by_cases hi : i = s.running
      · rw [hi, Function.update_self, Function.update_self]
        exact Task.client_free hfinish
      · rw [Function.update_of_ne hi, Function.update_of_ne hi]
        rfl
    refine ⟨t, next, u, hok, ?_, hnext, hne, hu, switched.running, hqueue, hstates, hclients⟩
    refine hc.keep ht (fun i hi => ?_) (hin hc.stats.1 (Ne.symm h2)) (hin hc.accept.1 (Ne.symm h3))
      (fun i hi w hw => ?_) ?_ (fun i hi => ?_) parent (fun i w hw hlive => ?_) nofun
    · rw [hqueue]
      exact List.mem_cons_of_mem _ hi
    · have hi' : i ≠ s.running := fun heq => hout (heq ▸ hi)
      obtain ⟨w', hw', hfn', hdata', hor'⟩ := hslots i w hi' hw
      exact ⟨w', hw', hfn', hdata', fun hor => .inl (by
        rw [hor']
        exact hor.resolve_right nofun)⟩
    · have h1 : (⟨1⟩ : Handle) ≠ next := fun heq => hc.main_not_mem (heq ▸ hnext)
      have h1' : (⟨1⟩ : Handle) ≠ s.running := fun heq => hc.main_not_mem (heq ▸ hmem)
      rw [switched.slot, Function.update_of_ne h1, Function.update_of_ne h1']
    · have hi' : i ≠ s.running := fun heq => hout (heq ▸ hi)
      have hidx : i.idx ≠ s.running.idx := fun heq => hi' (Handle.eq_of_idx heq)
      rw [nodeOf, if_pos horphaned, Function.update_of_ne hidx]
    · have hst := congrFun hstates i
      rw [stateOf_eq hw] at hst
      by_cases hi : i = next
      · exact .inr (hi ▸ hin hnext hne)
      · rw [Function.update_of_ne hi] at hst
        by_cases hi' : i = s.running
        · rw [hi', Function.update_self, Option.some.injEq] at hst
          exact absurd hst hlive
        · rw [Function.update_of_ne hi'] at hst
          obtain ⟨w', hw', hstate'⟩ := stateOf_eq_some.mp hst.symm
          exact (hc.live i w' hw' (by rwa [hstate'])).imp_right fun h => hin h hi'

end Cast
end CAsync
