/-
# The order of the turns

The items of the program in `Iterate` come out in rounds: in each one the tasks that have not
returned take a turn, in the order of the calls, and then `async_main` makes a pass of `await_all`.

**The invariant: `Rotating`.**  It is the state inside a round: the tasks of `todo` are still to
take their turn, those of `again` have taken it and are queued behind `async_main`, and the queue
is just that, `todo`, then task 1, then `again`.  Each of the two lists holds the items that its
tasks have still to emit; the other tasks have returned.  On it:

* a turn takes the first task of `todo`, with its first item (`turn`), to the end of `again` with
  the rest of its items (`later`), or out of the queue if it has none: then the task has returned,
  and the next one takes its turn at once (`turn_step`);
* so when `todo` is empty the events of the round are `again.map turn` for the list `again` that
  the round began with, and what is left of it is `again.filterMap later` (`round`, by induction
  on `todo`);
* and then `async_main` makes a pass of `await_all`, which waits again unless `again` is empty,
  when all tasks have returned (`wait_step`, `awaited_step`).

**The measure** is the length of the longest list in `again`: each round takes one item from every
list (`rounds`, by induction on a bound of it).  The items of a round are the heads of the lists,
and the rounds behind it emit those of the tails, which is the law of `roundRobin`
(`roundRobin_step`); that each item comes out once is a fact about `roundRobin` alone.

The whole program begins with the calls of `async_main`, which is a round with an empty `todo`
that puts one task after the other into `again` (`calls`).  All of this is over the model of the
graph scheduler; `round_robin` carries it to the code by the simulation of `Iterate`, step by
step, so the number of steps is the same.
-/
import CAsync.Iterate
import CAsync.Lib.RoundRobin
import CAsync.WaitGraph

namespace CAsync

open Faulting TaskPool

variable {F V S α : Type}

/-! ## 1. A switch -/

/-- The task `h` has the items of `rest` still to emit. -/
def Pending (items : F → V → List α) (m : IterMachine S F V α) (h : Handle) (rest : List α) :
    Prop :=
  ∃ u, m.lib.pool.slot h = some u ∧ u.orphaned = false ∧
    (u.state = .init ∧ items u.fn u.data = rest ∨ u.state = .running ∧ m.code h = .iterate rest)

/-- What the other tasks keep when the running task leaves the processor. -/
structure OthersKept (items : F → V → List α) (m m' : IterMachine S F V α) : Prop where
  pending : ∀ {h rest}, h ≠ m.lib.running → Pending items m h rest → Pending items m' h rest
  code : ∀ {h}, h ≠ m.lib.running → m.lib.pool.stateOf h = some .running → m'.code h = m.code h
  running : ∀ {h}, h ≠ m.lib.running → m.lib.pool.stateOf h = some .running →
    m'.lib.pool.stateOf h = some .running
  ready : ∀ {h}, h ≠ m.lib.running → m.lib.pool.stateOf h = some .ready →
    m'.lib.pool.stateOf h = some .ready
  live : (∀ i, m.lib.pool.stateOf i ≠ some .free) → ∀ i, i ≠ m.lib.running →
    m'.lib.pool.stateOf i ≠ some .free

/-- The code after a switch: a task that starts enters `iterate`, and one that has left the
processor in `async_skip` goes on where it was. -/
theorem switch_code (items : F → V → List α) {m : IterMachine TaskGraph F V α} {op : Op F V}
    (code : IterCode F V α) {t : Runtime TaskGraph F V} {u : Task F V} {next : Handle}
    (hs : Inv m.lib) (hst : CAsync.step m.lib op = .ok (.next t u.resumed))
    (hnext : next ∈ m.lib.sched.tasks) (hne : next ≠ m.lib.running)
    (hu : m.lib.pool.slot next = some u) (hrun : t.running = next) :
    ∃ m', m.switch items op code = .ok (some m') ∧ m'.lib = t ∧ m'.trace = m.trace ∧
      (∀ h, h ≠ next → m'.code h = Function.update m.code m.lib.running code h) ∧
      (u.state = .init → m'.code next = .iterate (items u.fn u.data)) ∧
      (u.state = .running → m'.code next = m.code next) := by
  unfold IterMachine.switch
  rw [hst, ok_bind]
  obtain ⟨w, hw, hstage⟩ := hs.queued hnext hne
  rw [hu] at hw
  cases hw
  rcases hstage with ⟨hstate, -⟩ | ⟨hstate, htop⟩
  · have hreply : u.resumed = .start u.fn u.data := if_pos hstate
    rw [hreply]
    refine ⟨_, rfl, rfl, rfl, fun h hh => ?_, fun _ => ?_, fun hrun => ?_⟩
    · exact Function.update_of_ne (by rwa [hrun]) _ _
    · rw [← hrun]
      exact Function.update_self _ _ _
    · rw [hstate] at hrun
      cases hrun
  · have hreply : u.resumed = .skip := by
      unfold Task.resumed
      rw [if_neg (by rw [hstate]; decide), htop]
    rw [hreply]
    refine ⟨_, rfl, rfl, rfl, fun h _ => rfl, fun hinit => ?_, fun _ => ?_⟩
    · rw [hstate] at hinit
      cases hinit
    · exact Function.update_of_ne hne _ _

/-- **The processor goes on with `next`**; `code` and `v` are what the running task leaves behind,
and the others are kept. -/
theorem switch_next {items : F → V → List α} {m : IterMachine TaskGraph F V α} {op : Op F V}
    (code : IterCode F V α) {t : Runtime TaskGraph F V} {u v : Task F V} {next : Handle}
    (hs : Inv m.lib) (hst : CAsync.step m.lib op = .ok (.next t u.resumed))
    (hnext : next ∈ m.lib.sched.tasks) (hne : next ≠ m.lib.running)
    (hsw : SwitchedTo t (Function.update m.lib.pool.slot m.lib.running (some v)) next u) :
    ∃ m', m.switch items op code = .ok (some m') ∧ m'.lib = t ∧ m'.trace = m.trace ∧
      m'.code m.lib.running = code ∧ t.pool.slot m.lib.running = some v ∧
        OthersKept items m m' := by
  have hu := hsw.task_of_ne hne
  obtain ⟨m', hm', rfl, htrace, hcode, hinit, hrun⟩ :=
    switch_code items code hs hst hnext hne hu hsw.running
  have hstate : ∀ {h}, h ≠ m.lib.running → m'.lib.pool.stateOf h =
      if h = next then some .running else m.lib.pool.stateOf h := by
    intro h hh
    rw [hsw.stateOf, Function.update_of_ne hh]
    rfl
  have hother : ∀ {h}, h ≠ m.lib.running → h ≠ next → m'.code h = m.code h := by
    intro h h₁ h₂
    rw [hcode h h₂, Function.update_of_ne h₁]
  refine ⟨m', hm', rfl, htrace, ?_, ?_, ⟨?_, ?_, ?_, ?_, ?_⟩⟩
  · rw [hcode _ (Ne.symm hne), Function.update_self]
  · rw [hsw.slot, Function.update_of_ne (Ne.symm hne), Function.update_self]
  · rintro h rest h₁ ⟨w, hw, hor, hcase⟩
    by_cases h₂ : h = next
    · subst h₂
      rw [hu] at hw
      cases hw
      refine ⟨u.run, by rw [hsw.slot, Function.update_self], hor, .inr ⟨rfl, ?_⟩⟩
      rcases hcase with ⟨hstate, hrest⟩ | ⟨hstate, hrest⟩
      · rw [hinit hstate, hrest]
      · rw [hrun hstate, hrest]
    · refine ⟨w, ?_, hor, ?_⟩
      · rw [hsw.slot, Function.update_of_ne h₂, Function.update_of_ne h₁, hw]
      · rwa [hother h₁ h₂]
  · intro h h₁ hrunning
    by_cases h₂ : h = next
    · rw [h₂, stateOf_eq hu, Option.some.injEq] at hrunning
      rw [h₂, hrun hrunning]
    · exact hother h₁ h₂
  · intro h h₁ hrunning
    rw [hstate h₁, hrunning, ite_self]
  · intro h h₁ hready
    rw [hstate h₁, if_neg, hready]
    rintro rfl
    rcases hs.unfinished hnext with h | h <;> rw [h] at hready <;> cases hready
  · intro hlive i h₁
    rw [hstate h₁]
    split
    · nofun
    · exact hlive i

namespace OthersKept

variable {items : F → V → List α} {m m' : IterMachine TaskGraph F V α}

/-- A task that has finished is another one than the running task. -/
theorem finished (hk : OthersKept items m m') (hs : Inv m.lib) {h : Handle}
    (hready : m.lib.pool.stateOf h = some .ready) : m'.lib.pool.stateOf h = some .ready := by
  refine hk.ready ?_ hready
  rintro rfl
  rw [hs.running] at hready
  cases hready

theorem all_live (hk : OthersKept items m m') (hlive : ∀ i, m.lib.pool.stateOf i ≠ some .free)
    (hleft : m'.lib.pool.stateOf m.lib.running ≠ some .free) (i : Handle) :
    m'.lib.pool.stateOf i ≠ some .free := by
  by_cases hi : i = m.lib.running
  · rwa [hi]
  · exact hk.live hlive i hi

end OthersKept

/-! ## 2. A turn -/

/-- **Inside a round.**  The tasks of `todo` are still to take their turn, and those of `again` are
queued behind `async_main`, the task 1, which is at `code`; each with the items that it has still to
emit.  The other tasks of `handles` have returned. -/
structure Rotating (items : F → V → List α) (m : IterMachine TaskGraph F V α)
    (code : IterCode F V α) (handles : List Handle) (todo again : List (Handle × List α)) :
    Prop where
  inv : Inv m.lib
  queue : m.lib.sched.tasks = todo.map Prod.fst ++ ⟨1⟩ :: again.map Prod.fst
  unawaited : ∀ c, m.lib.sched.parent c = none
  live : ∀ i, m.lib.pool.stateOf i ≠ some .free
  started : m.lib.pool.stateOf ⟨1⟩ = some .running
  main : m.code ⟨1⟩ = code
  distinct : handles.Nodup
  pending : ∀ x ∈ todo ++ again, x.1 ∈ handles ∧ Pending items m x.1 x.2
  returned : ∀ h ∈ handles, h ∈ (todo ++ again).map Prod.fst ∨
    m.lib.pool.stateOf h = some .ready ∧ .ret h ∈ m.trace

/-- What a task does in its turn. -/
def turn (x : Handle × List α) : IterEvent α :=
  match x.2 with
  | [] => .ret x.1
  | item :: _ => .emit item

/-- What it is left with, if it has not returned. -/
def later (x : Handle × List α) : Option (Handle × List α) := x.2.tail?.map (Prod.mk x.1)

namespace Rotating

variable {items : F → V → List α} (null : V) {m m' : IterMachine TaskGraph F V α}
  {code : IterCode F V α} {handles : List Handle} {todo again : List (Handle × List α)}
  {x : Handle × List α}

/-- The task at the front of the queue is running. -/
theorem running_eq (hr : Rotating items m code handles (x :: todo) again) :
    m.lib.running = x.1 := by
  obtain ⟨rest, hrest⟩ := hr.inv.exists_rest
  have hqueue := hr.queue
  rw [hrest] at hqueue
  exact (List.cons.inj hqueue).1

/-- The others are behind it, and they are others. -/
theorem others (hr : Rotating items m code handles (x :: todo) again) :
    (⟨1⟩ : Handle) ≠ m.lib.running ∧ ∀ y ∈ todo ++ again, y.1 ≠ m.lib.running := by
  have hnd := hr.inv.graph.tasks_nodup
  rw [hr.queue, List.map_cons, List.cons_append, List.nodup_cons] at hnd
  rw [hr.running_eq]
  refine ⟨fun he => hnd.1 (by simp [← he]), fun y hy he => hnd.1 ?_⟩
  rw [← he]
  rcases List.mem_append.mp hy with hy | hy
  · exact List.mem_append_left _ (List.mem_map_of_mem hy)
  · exact List.mem_append_right _ (List.mem_cons_of_mem _ (List.mem_map_of_mem hy))

/-- Somebody is behind it. -/
theorem exists_next (hr : Rotating items m code handles (x :: todo) again) :
    ∃ next rest, todo.map Prod.fst ++ ⟨1⟩ :: again.map Prod.fst = next :: rest ∧
      m.lib.sched.tasks = m.lib.running :: next :: rest ∧ next ≠ m.lib.running ∧
      next ∈ m.lib.sched.tasks := by
  obtain ⟨next, rest, hrest⟩ := List.exists_cons_of_ne_nil
    (show todo.map Prod.fst ++ (⟨1⟩ : Handle) :: again.map Prod.fst ≠ [] by simp)
  have hqueue := hr.queue
  rw [List.map_cons, List.cons_append, hrest, ← hr.running_eq] at hqueue
  have hnd := hr.inv.graph.tasks_nodup
  rw [hqueue, List.nodup_cons] at hnd
  refine ⟨next, rest, hrest, hqueue, ?_, by rw [hqueue]; simp⟩
  rintro rfl
  exact hnd.1 List.mem_cons_self

/-- The running task is in its loop. -/
theorem running_code (hr : Rotating items m code handles (x :: todo) again) :
    ∃ u, m.lib.pool.slot m.lib.running = some u ∧ u.state = .running ∧ u.orphaned = false ∧
      m.code m.lib.running = .iterate x.2 := by
  obtain ⟨-, u, hu, hor, hcase⟩ := hr.pending x (by simp)
  rw [← hr.running_eq] at hu hcase
  have hrun := hr.inv.running_state hu
  rcases hcase with ⟨hinit, -⟩ | ⟨-, hcode⟩
  · rw [hinit] at hrun
    cases hrun
  · exact ⟨u, hu, hrun, hor, hcode⟩

/-- **After a turn.**  The other tasks are as they were; `hx` says what has become of the one that
has taken its turn. -/
theorem of_turn (hr : Rotating items m code handles (x :: todo) again)
    (hk : OthersKept items (m.log (turn x)) m') (htrace : m'.trace = (m.log (turn x)).trace)
    (hinv : Inv m'.lib)
    (hqueue : m'.lib.sched.tasks =
      todo.map Prod.fst ++ ⟨1⟩ :: (again ++ (later x).toList).map Prod.fst)
    (hparent : m'.lib.sched.parent = m.lib.sched.parent)
    (hx : (∃ rest, later x = some (x.1, rest) ∧ Pending items m' x.1 rest) ∨
      later x = none ∧ m'.lib.pool.stateOf x.1 = some .ready ∧ turn x = .ret x.1) :
    Rotating items m' code handles todo (again ++ (later x).toList) := by
  obtain ⟨hmain, hne⟩ := hr.others
  have hxr := hr.running_eq
  refine ⟨hinv, hqueue, by rw [hparent]; exact hr.unawaited, hk.all_live hr.live ?_,
    hk.running hmain hr.started, (hk.code hmain hr.started).trans hr.main, hr.distinct,
    fun y hy => ?_, fun h hh => ?_⟩
  · change m'.lib.pool.stateOf m.lib.running ≠ some .free
    rw [hxr]
    rcases hx with ⟨rest, -, u, hu, -, hcase⟩ | ⟨-, hready, -⟩
    · rw [stateOf_eq hu]
      rcases hcase with ⟨hstate, -⟩ | ⟨hstate, -⟩ <;> rw [hstate] <;> decide
    · rw [hready]
      decide
  · rw [← List.append_assoc] at hy
    rcases List.mem_append.mp hy with hy | hy
    · obtain ⟨hmem, hpend⟩ := hr.pending y (List.mem_cons_of_mem _ hy)
      exact ⟨hmem, hk.pending (hne y hy) hpend⟩
    · rcases hx with ⟨rest, hlater, hpend⟩ | ⟨hlater, -⟩
      · rw [hlater, Option.toList_some, List.mem_singleton] at hy
        rw [hy]
        exact ⟨(hr.pending x (by simp)).1, hpend⟩
      · rw [hlater] at hy
        cases hy
  · rcases hr.returned h hh with hmem | ⟨hready, hret⟩
    · rw [List.cons_append, List.map_cons, List.mem_cons] at hmem
      rcases hmem with rfl | hmem
      · rcases hx with ⟨rest, hlater, -⟩ | ⟨-, hready, hturn⟩
        · exact .inl (by simp [hlater])
        · refine .inr ⟨hready, ?_⟩
          rw [htrace, hturn]
          exact List.mem_append_right _ (List.mem_singleton_self _)
      · refine .inl ?_
        rw [← List.append_assoc, List.map_append]
        exact List.mem_append_left _ hmem
    · refine .inr ⟨hk.finished hr.inv hready, ?_⟩
      rw [htrace]
      exact List.mem_append_left _ hret

/-- **A turn.** -/
theorem turn_step (hr : Rotating items m code handles (x :: todo) again) :
    ∃ m', m.step items null = .ok (some m') ∧
      Rotating items m' code handles todo (again ++ (later x).toList) ∧
      m'.trace = m.trace ++ [turn x] := by
  obtain ⟨next, rest, hrest, hqueue, hnext, hmem⟩ := hr.exists_next
  obtain ⟨u, hu, hstate, hor, hcode⟩ := hr.running_code
  obtain ⟨h, l⟩ := x
  have hxr : m.lib.running = h := hr.running_eq
  unfold IterMachine.step
  rw [hcode]
  cases l with
  | cons item l =>
    obtain ⟨r, t, hst, heff, hinv⟩ := hr.inv.step_skip
    cases heff with
    | alone alone =>
      rw [hqueue] at alone
      cases alone
    | skip queue tasks switched len nodeOf parent =>
      rw [hqueue] at queue
      obtain ⟨rfl, rfl⟩ := List.cons.inj (List.cons.inj queue).2
      rw [leave_eq hu] at switched
      obtain ⟨m', hm', rfl, htrace, hcode', hleft, hk⟩ := switch_next
        (m := m.log (turn (h, item :: l))) (.iterate l) hr.inv hst hmem hnext switched
      have hpend : Pending items m' m.lib.running l := ⟨_, hleft, hor, .inr ⟨hstate, hcode'⟩⟩
      rw [hxr] at hpend
      refine ⟨m', hm', hr.of_turn hk htrace hinv ?_ parent (.inl ⟨l, rfl, hpend⟩), htrace⟩
      rw [tasks, ← hrest, hxr]
      simp [later]
  | nil =>
    obtain ⟨p, q, -, -, hnode, -⟩ := hr.inv.exists_queue
    have hmain : m.lib.running.idx ≠ 1 := fun h1 => hr.others.1 (Handle.eq_of_idx h1.symm)
    obtain ⟨r, t, hst, heff, hinv⟩ := hr.inv.step_ret hmain hnode (hr.unawaited p)
      (by rw [hqueue]; simp) null
    cases heff with
    | ret notMain queue task node unawaited tasks switched len nodeOf parent =>
      rw [hqueue] at queue
      obtain ⟨rfl, rfl⟩ := List.cons.inj (List.cons.inj queue).2
      rw [hu, Option.some.injEq] at task
      subst task
      obtain ⟨m', hm', rfl, htrace, -, hleft, hk⟩ := switch_next (m := m.log (turn (h, [])))
        (.iterate []) hr.inv hst hmem hnext switched
      have hready : m'.lib.pool.stateOf m.lib.running = some .ready := by
        refine (stateOf_eq hleft).trans ?_
        unfold Task.finish
        rw [hor]
        rfl
      rw [hxr] at hready
      refine ⟨m', ?_, hr.of_turn hk htrace hinv ?_ parent (.inr ⟨rfl, hready, rfl⟩), htrace⟩
      · rw [hxr]
        exact hm'
      · rw [tasks, ← hrest]
        simp [later]
    | wake _ _ _ _ _ waiting =>
      -- nobody awaits the task
      obtain ⟨-, d, -, hd⟩ := hr.inv.of_suspended waiting
      rw [hr.unawaited] at hd
      cases hd

end Rotating

/-! ## 3. Rounds -/

namespace IterMachine

variable [SchedulerVTable S] {items : F → V → List α} {null : V} {m m' : IterMachine S F V α}

theorem run_add {n : Nat} (h : m.run items null n = .ok (some m')) (k : Nat) :
    m.run items null (n + k) = m'.run items null k := by
  induction n generalizing m with
  | zero =>
    cases h
    rw [Nat.zero_add]
  | succ n ih =>
    obtain ⟨next, hstep, hrest⟩ := bind_eq_ok.mp h
    rw [Nat.succ_add, run, hstep, ok_bind]
    cases next with
    | none => cases hrest
    | some next => exact ih hrest

theorem run_one (h : m.step items null = .ok (some m')) : m.run items null 1 = .ok (some m') := by
  rw [run, h, ok_bind]
  rfl

theorem runMain_add {mainFn : F} {arg : V} {calls : List (F × V)} {n : Nat}
    (h : runMain items null mainFn arg calls n = .ok (some m)) (k : Nat) :
    runMain items null mainFn arg calls (n + k) = m.run items null k := by
  obtain ⟨outcome, hmain, hrun⟩ := bind_eq_ok.mp h
  unfold runMain
  rw [hmain, ok_bind]
  cases outcome with
  | exit data => cases hrun
  | next s r => exact run_add hrun k

/-- The machine stops when `await_all` has returned. -/
theorem run_awaited {handles : List Handle} (h : m.code m.lib.running = .awaited handles)
    (k : Nat) :
    m.run items null k = .ok (some m) := by
  have hstep : m.step items null = .ok (some m) := by
    unfold step
    rw [h]
  induction k with
  | zero => rfl
  | succ k ih =>
    rw [run, hstep, ok_bind]
    exact ih

end IterMachine

/-- While no slot is `FREE` a new task gets a new slot, and the others stay as they are. -/
theorem Effect.call_new {s t : Runtime TaskGraph F V} {fn : F} {arg : V} {h : Handle}
    (heff : Effect s (.call fn arg) (.handle h) t) (hlive : ∀ i, s.pool.stateOf i ≠ some .free) :
    ∃ u, NewTask s.pool h fn arg u ∧ s.pool.slot h = none ∧ t.pool.slot h = some u ∧
      ∀ {k w}, s.pool.slot k = some w → t.pool.slot k = some w := by
  cases heff with
  | @call _ _ _ u _ new slot room =>
    have hnone : s.pool.slot h = none := by
      rcases room with ⟨hfree, -⟩ | ⟨hlen, -⟩
      · exact absurd hfree (hlive h)
      · exact slot_eq_none (hlen ▸ Nat.lt_succ_self _)
    refine ⟨u, new, hnone, by rw [slot, Function.update_self], fun {k w} hk => ?_⟩
    rw [slot, Function.update_of_ne, hk]
    rintro rfl
    rw [hnone] at hk
    cases hk

/-- A pass of `await_all` over tasks that are there does not fail. -/
theorem Inv.awaitAllPass_total {s : Runtime TaskGraph F V} (hs : Inv s) {handles : List Handle}
    (hslots : ∀ h ∈ handles, (s.pool.slot h).isSome) (i n : Nat) (results : Option (List V)) :
    ∃ x, awaitAllPass s i handles results n = .ok x := by
  induction handles generalizing i n results with
  | nil => exact ⟨_, rfl⟩
  | cons h handles ih =>
    obtain ⟨u, hu⟩ := Option.isSome_iff_exists.mp (hslots h List.mem_cons_self)
    have hrest := ih fun k hk => hslots k (List.mem_cons_of_mem _ hk)
    have hpoll : pollState s h = .ok u.state := by
      obtain ⟨st, hpoll, hst⟩ := bind_eq_ok.mp (hs.step_poll hu)
      cases hst
      exact hpoll
    unfold awaitAllPass
    rw [require_of (Nat.ne_of_gt (slot_bounds hu).1), ok_bind, hpoll, ok_bind, getTask_eq hu,
      ok_bind]
    split
    · exact hrest _ _ _
    · exact hrest _ _ _

namespace Rotating

variable {items : F → V → List α} (null : V) {m : IterMachine TaskGraph F V α}
  {code : IterCode F V α} {handles : List Handle} {todo again : List (Handle × List α)}

/-- **A round**, up to the turn of `async_main`. -/
theorem round (hr : Rotating items m code handles todo again) :
    ∃ n m', m.run items null n = .ok (some m') ∧
      Rotating items m' code handles [] (again ++ todo.filterMap later) ∧
      m'.trace = m.trace ++ todo.map turn := by
  induction todo generalizing m again with
  | nil => exact ⟨0, m, rfl, by simpa using hr, by simp⟩
  | cons x todo ih =>
    obtain ⟨m₁, hstep, hr₁, htrace₁⟩ := hr.turn_step null
    obtain ⟨n, m', hrun, hr', htrace'⟩ := ih hr₁
    refine ⟨1 + n, m', by rw [IterMachine.run_add (IterMachine.run_one hstep), hrun], ?_, ?_⟩
    · have hlater : (x :: todo).filterMap later = (later x).toList ++ todo.filterMap later := by
        cases hx : later x <;> simp [hx]
      rwa [hlater, ← List.append_assoc]
    · rw [htrace', htrace₁, List.map_cons, List.append_assoc, List.singleton_append]

/-- The turn of `async_main`. -/
theorem main_running (hr : Rotating items m code handles [] again) :
    m.lib.running = ⟨1⟩ ∧ m.lib.sched.tasks = m.lib.running :: again.map Prod.fst := by
  obtain ⟨rest, hrest⟩ := hr.inv.exists_rest
  have hqueue := hr.queue
  rw [hrest] at hqueue
  have hrun : m.lib.running = ⟨1⟩ := (List.cons.inj hqueue).1
  refine ⟨hrun, ?_⟩
  rw [hr.queue, hrun]
  rfl

/-- The tasks behind `async_main` are others. -/
theorem main_others (hr : Rotating items m code handles [] again) :
    ∀ x ∈ again, x.1 ≠ m.lib.running := by
  intro x hx he
  have hnd := hr.inv.graph.tasks_nodup
  rw [hr.main_running.2, List.nodup_cons] at hnd
  exact hnd.1 (he ▸ List.mem_map_of_mem hx)

/-- `async_main` goes on at other code. -/
theorem goto (hr : Rotating items m code handles [] again) (code' : IterCode F V α) :
    Rotating items (m.goto code') code' handles [] again := by
  have hrun := hr.main_running.1
  refine ⟨hr.inv, hr.queue, hr.unawaited, hr.live, hr.started, ?_, hr.distinct, fun x hx => ?_,
    hr.returned⟩
  · rw [← hrun]
    exact Function.update_self _ _ _
  · obtain ⟨hmem, u, hu, hor, hcase⟩ := hr.pending x hx
    refine ⟨hmem, u, hu, hor, hcase.imp_right (And.imp_right fun hcode => ?_)⟩
    exact (Function.update_of_ne (hr.main_others x hx) _ _).trans hcode

/-- Every task that was called has its slot. -/
theorem slots (hr : Rotating items m code handles todo again) :
    ∀ h ∈ handles, (m.lib.pool.slot h).isSome := by
  intro h hh
  rcases hr.returned h hh with hmem | ⟨hready, -⟩
  · obtain ⟨x, hx, rfl⟩ := List.mem_map.mp hmem
    obtain ⟨-, u, hu, -⟩ := hr.pending x hx
    rw [hu]
    rfl
  · obtain ⟨u, hu, -⟩ := stateOf_eq_some.mp hready
    rw [hu]
    rfl

/-- The pass counts all tasks when all of them have returned. -/
theorem pass_eq (hr : Rotating items m code handles [] again) :
    ∃ n, awaitAllPass m.lib 0 handles none 0 = .ok (none, n) ∧
      (n = handles.length ↔ again = []) := by
  obtain ⟨⟨results, n⟩, hpass⟩ := hr.inv.awaitAllPass_total hr.slots 0 0 none
  obtain ⟨-, hnone, hn⟩ := awaitAllPass_spec hpass
  obtain rfl : results = none := hnone
  refine ⟨n, hpass, ?_⟩
  rw [hn, Nat.zero_add, List.countP_eq_length]
  constructor
  · intro hall
    refine List.eq_nil_iff_forall_not_mem.mpr fun x hx => ?_
    obtain ⟨hmem, u, hu, -, hcase⟩ := hr.pending x hx
    have hready := result_isSome.mp (hall x.1 hmem)
    rw [stateOf_eq hu, Option.some.injEq] at hready
    rw [hready] at hcase
    rcases hcase with ⟨hstate, -⟩ | ⟨hstate, -⟩ <;> cases hstate
  · rintro rfl h hh
    rcases hr.returned h hh with hmem | ⟨hready, -⟩
    · cases hmem
    · exact result_isSome.mpr hready

/-- `await_all` returns if all tasks have returned. -/
theorem awaited_step (hr : Rotating items m (.awaitAll handles) handles [] []) :
    m.step items null = .ok (some ((m.log .awaited).goto (.awaited handles))) := by
  obtain ⟨n, hpass, hn⟩ := hr.pass_eq
  have hcode := hr.main
  rw [← hr.main_running.1] at hcode
  unfold IterMachine.step
  rw [hcode]
  dsimp only
  rw [hpass, ok_bind, if_pos (hn.mpr rfl)]

/-- It goes on waiting otherwise, and the next round begins. -/
theorem wait_step (hr : Rotating items m (.awaitAll handles) handles [] again) (hne : again ≠ []) :
    ∃ m', m.step items null = .ok (some m') ∧
      Rotating items m' (.awaitAll handles) handles again [] ∧ m'.trace = m.trace := by
  obtain ⟨n, hpass, hn⟩ := hr.pass_eq
  obtain ⟨hrun, hqueue⟩ := hr.main_running
  have hcode := hr.main
  rw [← hrun] at hcode
  obtain ⟨w, hw, hwrun⟩ := hr.inv.running_task
  unfold IterMachine.step
  rw [hcode]
  dsimp only
  rw [hpass, ok_bind, if_neg (fun he => hne (hn.mp he))]
  obtain ⟨r, t, hst, heff, hinv⟩ := hr.inv.step_skip
  cases heff with
  | alone alone =>
    rw [hqueue] at alone
    exact absurd (List.map_eq_nil_iff.mp (List.cons.inj alone).2) hne
  | @skip next rest u t queue tasks switched len nodeOf parent =>
    rw [hqueue] at queue
    have hnext := (List.cons.inj queue).2
    obtain ⟨y, hy, rfl⟩ : ∃ y ∈ again, y.1 = next := List.mem_map.mp (by
      rw [hnext]
      exact List.mem_cons_self)
    rw [leave_eq hw] at switched
    obtain ⟨m', hm', rfl, htrace, hcode', hleft, hk⟩ := switch_next (m := m)
      (.awaitAll handles) hr.inv hst
      (by rw [hqueue]; exact List.mem_cons_of_mem _ (List.mem_map_of_mem hy))
      (hr.main_others y hy) switched
    have hstarted : m'.lib.pool.stateOf m.lib.running = some .running := by
      rw [stateOf_eq hleft]
      exact congrArg some hwrun
    refine ⟨m', hm', ⟨hinv, ?_, by rw [parent]; exact hr.unawaited,
      hk.all_live hr.live (by rw [hstarted]; decide), hrun ▸ hstarted, hrun ▸ hcode', hr.distinct,
      fun x hx => ?_, fun h hh => ?_⟩, htrace⟩
    · rw [tasks, ← hnext, hrun]
      rfl
    · rw [List.append_nil] at hx
      obtain ⟨hmem, hpend⟩ := hr.pending x hx
      exact ⟨hmem, hk.pending (hr.main_others x hx) hpend⟩
    · rw [List.append_nil]
      refine (hr.returned h hh).imp_right fun ⟨hready, hret⟩ => ⟨hk.finished hr.inv hready, ?_⟩
      rw [htrace]
      exact hret

/-- The machine has stopped behind `await_all`, `m` having been a state before: the items of `lists`
have come out in turn since, and all tasks of `handles` have returned. -/
structure Ended (m : IterMachine S F V α) (handles : List Handle) (lists : List (List α))
    (m' : IterMachine S F V α) (events : List (IterEvent α)) : Prop where
  code : m'.code m'.lib.running = .awaited handles
  trace : m'.trace = m.trace ++ events ++ [.awaited]
  items : events.filterMap IterEvent.item = roundRobin lists
  returned : ∀ h ∈ handles, .ret h ∈ m.trace ++ events

/-- The items of a round are the first ones of the tasks. -/
theorem items_turn (tasks : List (Handle × List α)) :
    (tasks.map turn).filterMap IterEvent.item = (tasks.map Prod.snd).filterMap List.head? := by
  rw [List.filterMap_map, List.filterMap_map]
  refine List.filterMap_congr fun x _ => ?_
  obtain ⟨h, _ | ⟨item, rest⟩⟩ := x <;> rfl

theorem snd_later (tasks : List (Handle × List α)) :
    (tasks.filterMap later).map Prod.snd = (tasks.map Prod.snd).filterMap List.tail? := by
  rw [List.map_filterMap, List.filterMap_map]
  refine List.filterMap_congr fun x _ => ?_
  obtain ⟨h, _ | ⟨item, rest⟩⟩ := x <;> rfl

/-- No task is left. -/
theorem ended (hr : Rotating items m (.awaitAll handles) handles [] []) :
    ∃ k m' events, m.run items null k = .ok (some m') ∧ Ended m handles [] m' events := by
  refine ⟨1, _, [], IterMachine.run_one (hr.awaited_step null), Function.update_self _ _ _, ?_, rfl,
    fun h hh => ?_⟩
  · rw [List.append_nil]
    rfl
  · rw [List.append_nil]
    exact ((hr.returned h hh).resolve_left List.not_mem_nil).2

/-- **Round after round**: the items come out in turn, then `await_all` returns. -/
theorem rounds (hr : Rotating items m (.awaitAll handles) handles [] again) {n : Nat}
    (hn : ∀ x ∈ again, x.2.length < n) :
    ∃ k m' events, m.run items null k = .ok (some m') ∧
      Ended m handles (again.map Prod.snd) m' events := by
  induction n generalizing m again with
  | zero =>
    obtain rfl : again = [] :=
      List.eq_nil_iff_forall_not_mem.mpr fun x hx => absurd (hn x hx) (Nat.not_lt_zero _)
    exact hr.ended null
  | succ n ih =>
    rcases eq_or_ne again [] with rfl | hne
    · exact hr.ended null
    obtain ⟨m₁, hwait, hr₁, htrace₁⟩ := hr.wait_step null hne
    obtain ⟨k, m₂, hround, hr₂, htrace₂⟩ := hr₁.round null
    have hshorter : ∀ x ∈ [] ++ again.filterMap later, x.2.length < n := by
      intro x hx
      obtain ⟨⟨h, _ | ⟨item, rest⟩⟩, hy, hxy⟩ := List.mem_filterMap.mp hx
      · cases hxy
      · cases hxy
        exact Nat.lt_of_succ_lt_succ (hn _ hy)
    obtain ⟨l, m', events, hrest, hend⟩ := ih hr₂ hshorter
    have htrace : m₂.trace = m.trace ++ again.map turn := by rw [htrace₂, htrace₁]
    refine ⟨1 + (k + l), m', again.map turn ++ events, ?_, hend.code, ?_, ?_, fun h hh => ?_⟩
    · rw [IterMachine.run_add (IterMachine.run_one hwait), IterMachine.run_add hround, hrest]
    · rw [hend.trace, htrace, ← List.append_assoc m.trace]
    · rw [List.filterMap_append, items_turn, hend.items, List.nil_append, snd_later,
        ← roundRobin_step]
    · rw [← List.append_assoc, ← htrace]
      exact hend.returned h hh

/-! ## 4. The whole program -/

/-- `async_main` calls one task, which gets a new slot. -/
theorem call_step {fn : F} {arg : V} {rest : List (F × V)}
    (hr : Rotating items m (.calling handles ((fn, arg) :: rest)) handles [] again) :
    ∃ h m', m.step items null = .ok (some m') ∧
      Rotating items m' (.calling (handles ++ [h]) rest) (handles ++ [h]) []
        (again ++ [(h, items fn arg)]) ∧ m'.trace = m.trace := by
  obtain ⟨hrun, -⟩ := hr.main_running
  have hcode := hr.main
  rw [← hrun] at hcode
  obtain ⟨h, t, hst, heff, hinv⟩ := hr.inv.step_call fn arg
  refine ⟨h, { m.goto (.calling (handles ++ [h]) rest) with lib := t }, ?_, ?_, rfl⟩
  · unfold IterMachine.step
    rw [hcode]
    dsimp only
    unfold IterMachine.create
    rw [hst, ok_bind]
  obtain ⟨u, new, hnone, hnew, hslot⟩ := heff.call_new hr.live
  have hstate : ∀ {k st}, m.lib.pool.stateOf k = some st → t.pool.stateOf k = some st := by
    intro k st hk
    obtain ⟨w, hw, hst⟩ := stateOf_eq_some.mp hk
    exact stateOf_eq_some.mpr ⟨w, hslot hw, hst⟩
  cases heff with
  | call _ slot _ _ tasks _ _ parent =>
    refine ⟨hinv, ?_, fun c => ?_, fun i => ?_, hstate hr.started, ?_, ?_, fun x hx => ?_,
      fun k hk => ?_⟩
    · rw [tasks, hr.queue]
      simp
    · rw [parent]
      by_cases hc : c = m.lib.sched.fresh
      · rw [hc, Function.update_self]
      · rw [Function.update_of_ne hc, hr.unawaited]
    · by_cases hi : i = h
      · rw [hi, stateOf_eq hnew, new.state]
        decide
      · rw [stateOf_update slot, Function.update_of_ne hi]
        exact hr.live i
    · rw [← hrun]
      exact Function.update_self _ _ _
    · refine List.nodup_append.mpr ⟨hr.distinct, List.nodup_singleton _, fun k hk i hi => ?_⟩
      rw [List.mem_singleton.mp hi]
      rintro rfl
      have hsome := hr.slots k hk
      rw [hnone] at hsome
      cases hsome
    · rw [List.nil_append] at hx
      rcases List.mem_append.mp hx with hx | hx
      · obtain ⟨hmem, w, hw, hor, hcase⟩ := hr.pending x hx
        refine ⟨List.mem_append_left _ hmem, w, hslot hw, hor, ?_⟩
        refine hcase.imp_right (And.imp_right fun hcode => ?_)
        exact (Function.update_of_ne (hr.main_others x hx) _ _).trans hcode
      · rw [List.mem_singleton.mp hx]
        refine ⟨List.mem_append_right _ (List.mem_singleton_self _), u, hnew, ?_,
          .inl ⟨new.state, by rw [new.fn, new.data]⟩⟩
        rw [new.orphaned, hnone]
        rfl
    · rcases List.mem_append.mp hk with hk | hk
      · refine (hr.returned k hk).imp (fun hmem => ?_) (And.imp_left hstate)
        rw [← List.append_assoc, List.map_append]
        exact List.mem_append_left _ hmem
      · rw [List.mem_singleton.mp hk]
        exact .inl (by simp)

/-- **The calls**, up to the first pass of `await_all`. -/
theorem calls {calls : List (F × V)}
    (hr : Rotating items m (.calling handles calls) handles [] again) :
    ∃ n m' handles' again', m.run items null n = .ok (some m') ∧
      Rotating items m' (.awaitAll handles') handles' [] again' ∧
      handles'.length = handles.length + calls.length ∧
      again'.map Prod.snd = again.map Prod.snd ++ calls.map (fun c => items c.1 c.2) ∧
      m'.trace = m.trace := by
  induction calls generalizing m handles again with
  | nil =>
    have hcode := hr.main
    rw [← hr.main_running.1] at hcode
    refine ⟨1, _, handles, again, IterMachine.run_one ?_, hr.goto (.awaitAll handles), rfl,
      (List.append_nil _).symm, rfl⟩
    unfold IterMachine.step
    rw [hcode]
  | cons c calls ih =>
    obtain ⟨fn, arg⟩ := c
    obtain ⟨h, m₁, hstep, hr₁, htrace₁⟩ := hr.call_step null
    obtain ⟨n, m', handles', again', hrun, hr', hlen, hlists, htrace'⟩ := ih hr₁
    refine ⟨1 + n, m', handles', again', ?_, hr', ?_, ?_, htrace'.trans htrace₁⟩
    · rw [IterMachine.run_add (IterMachine.run_one hstep), hrun]
    · rw [hlen, List.length_append, List.length_singleton, List.length_cons]
      exact Nat.add_right_comm _ _ _
    · rw [hlists, List.map_append, List.append_assoc]
      rfl

end Rotating

/-- `async_main` starts. -/
theorem started_rotating (items : F → V → List α) (mainFn : F) (arg : V) (code : IterCode F V α) :
    Rotating items { lib := started mainFn arg, code := fun _ => code, trace := [] } code
      [] [] [] where
  inv := started_inv mainFn arg
  queue := rfl
  unawaited := by
    intro c
    change Function.update (fun _ => none) 0 none c = none
    rw [Function.update_eq_self_iff.mpr rfl]
  live := by
    intro i hi
    obtain ⟨u, hu, hfree⟩ := stateOf_eq_some.mp hi
    rw [(started_slot mainFn arg hu).2.1] at hfree
    cases hfree
  started := rfl
  main := rfl
  distinct := List.nodup_nil
  pending := fun x hx => absurd hx List.not_mem_nil
  returned := fun h hh => absurd hh List.not_mem_nil

/-- **The tasks take turns**, for every number of tasks and any lists of items: after finitely many
steps the machine stops where `await_all` has returned.  The items have come out in rounds, in each
round one from every task that has one left, in the order of the calls; every item once; and every
task had called `async_return` before `await_all` returned. -/
theorem round_robin (items : F → V → List α) (null : V) (mainFn : F) (arg : V)
    (calls : List (F × V)) :
    ∃ (n : Nat) (m : IterMachine Graph F V α) (handles : List Handle)
      (events : List (IterEvent α)),
      (∀ k, n ≤ k → IterMachine.runMain items null mainFn arg calls k = .ok (some m)) ∧
      m.code m.lib.running = .awaited handles ∧ handles.Nodup ∧ handles.length = calls.length ∧
      m.trace = events ++ [.awaited] ∧ (∀ h ∈ handles, .ret h ∈ events) ∧
      events.filterMap IterEvent.item = roundRobin (calls.map fun c => items c.1 c.2) ∧
      (events.filterMap IterEvent.item).Perm (calls.map fun c => items c.1 c.2).flatten := by
  -- the run over the model of the scheduler
  obtain ⟨n₁, m₁, handles, again, hrun₁, hr, hlen, hlists, htrace₁⟩ :=
    (started_rotating items mainFn arg (.calling [] calls)).calls null
  obtain ⟨n₂, a, events, hrun₂, hend⟩ := hr.rounds null
    (n := maxLength (again.map Prod.snd) + 1)
    fun x hx => Nat.lt_succ_of_le (length_le_maxLength (List.mem_map_of_mem hx))
  have hmodel : IterMachine.runMain items null mainFn arg calls (n₁ + n₂) = .ok (some a) := by
    unfold IterMachine.runMain
    rw [runAsyncMain_eq, ok_bind]
    dsimp only
    rw [IterMachine.run_add hrun₁, hrun₂]
  -- and over the code
  have hcode := graphRefines.iterRunMain items null mainFn arg calls (n₁ + n₂)
  rw [hmodel] at hcode
  obtain ⟨o, ho, hrel⟩ := hcode.ok_right
  cases hrel with
  | @some m _ hsame =>
  have hstop : m.code m.lib.running = .awaited handles := by
    rw [hsame.code, hsame.lib.running]
    exact hend.code
  have hevents :
      events.filterMap IterEvent.item = roundRobin (calls.map fun c => items c.1 c.2) := by
    rw [hend.items, hlists]
    rfl
  have htrace : m.trace = events ++ [.awaited] := by
    rw [hsame.trace, hend.trace, htrace₁, List.nil_append]
  refine ⟨n₁ + n₂, m, handles, events, fun k hk => ?_, hstop, hr.distinct, ?_, htrace,
    fun h hh => ?_, hevents, ?_⟩
  · rw [← Nat.add_sub_of_le hk, IterMachine.runMain_add ho]
    exact IterMachine.run_awaited hstop _
  · rw [hlen, List.length_nil, Nat.zero_add]
  · have hret := hend.returned h hh
    rwa [htrace₁, List.nil_append] at hret
  · rw [hevents]
    exact roundRobin_perm _

/-- The output of the test `two_iters` for the ranges `0 5` and `-5 0`. -/
example : roundRobin [[0, 1, 2, 3, 4], [-5, -4, -3, -2, -1]] =
    ([0, -5, 1, -4, 2, -3, 3, -2, 4, -1] : List Int) := by decide

end CAsync
