/-
# Runs over the queue scheduler

For the programs that free finished tasks only: the ring buffer holds the tasks that have not
finished (`queue_holds`), a call passes exactly if it is made on a handle of the library
(`queue_goes_on`), every task gets its turn (`queue_turns`), and one that waits gets the result of
a finished task at its next one (`queue_answers`).

The invariant `Queued` and the cases of `QueueEffect` do the work.  That no other call passes is
read off the code: `busy_wait_ready`, `poll_state` and `async_orphan` look the handle up in the
pool first (`Queued.invalid`).  An `await` counts once for each round of `busy_wait_ready`, so
"passes" says nothing of how long it waits: on the caller's own handle it goes round for ever.

For the turns, each case of `QueueEffect` is a move of the queue (`QueueEffect.moves`): a call
that gives the processor up takes the front away, and may put it behind all others; every other
call leaves the order alone and adds at the back.  What is ahead of a task therefore only gets
shorter, by one at each turn, and that is the measure of `TurnQueue.exists_front`.
`queue_answers` adds that a finished task keeps its result until it is freed: it is not in the
queue, so no switch touches its slot.
-/
import CAsync.QueueEffect

namespace CAsync

open Faulting TaskPool RingQueue

variable {F V : Type}

/-! ## 1. One call -/

section

variable {s t : Runtime TaskList F V} {op : Op F V} {r : Reply F V} {h : Handle} {u : Task F V}

/-- Only `await` is told a result. -/
theorem Task.resumed_ne_await (t : Task F V) (v : V) : t.resumed ≠ .await v := by
  unfold Task.resumed
  split
  · nofun
  · split <;> nofun

theorem givesUp_resumed (op : Op F V) (u : Task F V) : givesUp (op, u.resumed) = op.schedules := by
  cases hr : u.resumed with
  | await v => exact absurd hr (u.resumed_ne_await v)
  | handle h => rfl
  | done => rfl
  | state st => rfl
  | start fn data => rfl
  | skip => rfl
  | waiting h => rfl

/-- **The queue moves by turns.** -/
theorem QueueEffect.moves (heff : QueueEffect s op r t) :
    TurnQueue.Moves (givesUp (op, r)) s.sched.queue t.sched.queue := by
  have hsame : TurnQueue.Moves false s.sched.queue s.sched.queue := by
    have hstays := TurnQueue.Moves.stays (q := s.sched.queue) []
    rwa [List.append_nil] at hstays
  cases heff with
  | call new slot room queue running =>
    rw [queue]
    exact .stays _
  | alone round queue =>
    rw [queue]
    have hturn : TurnQueue.Moves true [s.running] ([] ++ [s.running]) := .turns fun _ h => h
    cases round with
    | skip => exact hturn
    | wait h => exact hturn
  | @round op frame r next rest u t round queue queue' switched =>
    rw [queue, queue', givesUp_resumed]
    have hturn : TurnQueue.Moves true (s.running :: next :: rest) (next :: rest ++ [s.running]) :=
      .turns fun _ h => h
    cases round with
    | skip => exact hturn
    | wait h => exact hturn
  | answer => exact hsame
  | @ret data next rest v u t notMain task queue queue' switched =>
    rw [queue, queue', givesUp_resumed]
    have hturn : TurnQueue.Moves true (s.running :: next :: rest) (next :: rest ++ []) :=
      .turns (List.nil_subset _)
    rwa [List.append_nil] at hturn
  | orphan task slot sched running =>
    rw [sched]
    exact hsame
  | free task ready slot sched running =>
    rw [sched]
    exact hsame
  | poll task => exact hsame

/-- A finished task keeps its result until it is freed. -/
theorem QueueEffect.ready (hs : Queued s) (heff : QueueEffect s op r t) (hop : op ≠ .free h)
    (hu : s.pool.slot h = some u) (hready : u.state = .ready) :
    ∃ v, t.pool.slot h = some v ∧ v.state = .ready ∧ v.data = u.data := by
  have hnot : h ∉ s.sched.queue := hs.not_mem fun v hv => by
    rw [hu] at hv
    cases hv
    rw [hready]
    exact ⟨nofun, nofun⟩
  have hrun : h ≠ s.running := by
    rintro rfl
    exact hnot hs.running_mem
  have hsame : ∃ v, s.pool.slot h = some v ∧ v.state = .ready ∧ v.data = u.data :=
    ⟨u, hu, hready, rfl⟩
  cases heff with
  | @call fn arg i w t new slot room queue running =>
    have hi : h ≠ i := by
      rintro rfl
      have hfree := room u hu
      rw [hready] at hfree
      cases hfree
    rwa [slot, Function.update_of_ne hi]
  | alone => exact hsame
  | @round op frame r next rest w t round queue queue' switched =>
    have hi : h ≠ next := by
      rintro rfl
      exact hnot (by rw [queue]; simp)
    unfold leave at switched
    rwa [switched.slot, Function.update_of_ne hi, Function.update_of_ne hrun]
  | answer => exact hsame
  | @ret data next rest v w t notMain task queue queue' switched =>
    have hi : h ≠ next := by
      rintro rfl
      exact hnot (by rw [queue]; simp)
    rwa [switched.slot, Function.update_of_ne hi, Function.update_of_ne hrun]
  | @orphan i w t task slot sched running =>
    rw [slot]
    by_cases hi : h = i
    · subst hi
      rw [hu] at task
      cases task
      exact ⟨_, Function.update_self _ _ _, hready, rfl⟩
    · rwa [Function.update_of_ne hi]
  | @free i w t task ready slot sched running =>
    have hi : h ≠ i := by
      rintro rfl
      exact hop rfl
    rwa [slot, Function.update_of_ne hi]
  | poll => exact hsame

namespace Queued

/-- `poll_task` reads outside of the pool. -/
theorem pollState_invalid (hs : Queued s) (hnone : s.pool.slot h = none) :
    pollState s h = .error .outOfBounds := by
  unfold pollState
  rw [hs.currentTask, ok_bind]
  change (TaskList.pollTask _ _ _ >>= _) = _
  unfold TaskList.pollTask
  by_cases h0 : h.idx = 0
  · rw [require_of_not (not_not.mpr h0)]
    rfl
  · unfold slot at hnone
    rw [if_neg h0] at hnone
    rw [require_of h0, ok_bind]
    unfold load
    rw [hnone]
    rfl

/-- **A call on what is no handle faults.** -/
theorem invalid (hs : Queued s) (hg : FreesFinished s op) (hh : op.handle = some h)
    (hnone : s.pool.slot h = none) : ∃ e, CAsync.step s op = .error e := by
  cases op with
  | call fn arg => cases hh
  | skip => cases hh
  | ret data => cases hh
  | await i =>
    cases hh
    refine ⟨.outOfBounds, ?_⟩
    unfold CAsync.step CAsync.await
    change HandleQueue.busyWaitReady s h >>= _ = _
    unfold HandleQueue.busyWaitReady
    rw [hs.pollState_invalid hnone]
    rfl
  | poll i =>
    cases hh
    refine ⟨.outOfBounds, ?_⟩
    unfold CAsync.step
    dsimp only
    rw [hs.pollState_invalid hnone]
    rfl
  | orphan i =>
    cases hh
    unfold CAsync.step asyncOrphan
    dsimp only
    cases hget : getTask s.pool h with
    | error e => exact ⟨e, rfl⟩
    | ok t =>
      rw [getTask_eq_ok.mp hget] at hnone
      cases hnone
  | free i =>
    cases hh
    obtain ⟨u, hu, -⟩ := stateOf_eq_some.mp (hg h rfl)
    rw [hu] at hnone
    cases hnone

/-- The calls that pass. -/
theorem ok_iff (hs : Queued s) (hg : FreesFinished s op) : (∃ o, CAsync.step s op = .ok o) ↔
    ∀ h, op.handle = some h → (s.pool.slot h).isSome := by
  constructor
  · rintro ⟨o, hok⟩ h hh
    by_contra hnone
    obtain ⟨e, he⟩ := hs.invalid hg hh (Option.not_isSome_iff_eq_none.mp hnone)
    rw [hok] at he
    cases he
  · intro hh
    rcases hs.step op hg fun h hop => Option.isSome_iff_exists.mp (hh h hop) with
      ⟨data, -, -, hok⟩ | ⟨r, t, hok, -⟩
    · exact ⟨_, hok⟩
    · exact ⟨_, hok⟩

/-- The call that ends the program. -/
theorem exit_iff (hs : Queued s) (hg : FreesFinished s op) {data : V} :
    CAsync.step s op = .ok (.exit data) ↔ op = .ret data ∧ s.running = ⟨1⟩ := by
  constructor
  · intro hok
    have hh := (hs.ok_iff hg).mp ⟨_, hok⟩
    rcases hs.step op hg fun h hop => Option.isSome_iff_exists.mp (hh h hop) with
      ⟨data', hop, hmain, hok'⟩ | ⟨r, t, hok', -⟩
    · rw [hok] at hok'
      cases hok'
      exact ⟨hop, hmain⟩
    · rw [hok] at hok'
      cases hok'
  · rintro ⟨rfl, hmain⟩
    rcases hs.step_ret data with ⟨-, hok⟩ | ⟨r, t, hok, heff, -⟩
    · exact hok
    · cases heff with
      | alone round => cases round
      | round round => cases round
      | ret notMain => exact absurd hmain notMain

end Queued

end

/-! ## 2. All states of a run -/

/-- The state in which `main` starts. -/
theorem Queued.start {s : Runtime TaskList F V} (hs : Start s) : Queued s := by
  obtain ⟨mainFn, arg, hmain⟩ := hs
  have hok : runAsyncMain mainFn arg = .ok (.next ({
      pool := (started mainFn arg).pool, sched := { queue := [⟨1⟩] }, running := ⟨1⟩ } :
        Runtime TaskList F V) (.start mainFn arg)) := rfl
  rw [hok] at hmain
  cases hmain
  refine ⟨(started_inv mainFn arg).pool, ⟨[], rfl⟩, List.nodup_singleton _, rfl,
    fun hh hne => absurd (List.mem_singleton.mp hh) hne, fun {h} hh => ?_,
    List.mem_singleton_self _⟩
  rcases hh with hh | hh
  · obtain ⟨u, hu, -⟩ := stateOf_eq_some.mp hh
    exact List.mem_singleton.mpr (started_slot mainFn arg hu).1
  · obtain ⟨u, hu, -⟩ := stateOf_eq_some.mp hh
    exact List.mem_singleton.mpr (started_slot mainFn arg hu).1

theorem Queued.next {s t : Runtime TaskList F V} {x : Op F V × Reply F V} (hs : Queued s)
    (hst : Guarded FreesFinished s x t) : QueueEffect s x.1 x.2 t ∧ Queued t := by
  obtain ⟨hst, hg⟩ := hst
  have hok : CAsync.step s x.1 = .ok (.next t x.2) := hst
  have hvalid : ∀ h, x.1.handle = some h → ∃ u, s.pool.slot h = some u := by
    intro h hh
    cases hslot : s.pool.slot h with
    | some u => exact ⟨u, rfl⟩
    | none =>
      obtain ⟨e, he⟩ := hs.invalid hg hh hslot
      rw [hok] at he
      cases he
  rcases hs.step x.1 hg hvalid with ⟨data, -, -, hexit⟩ | ⟨r, t', hnext, heff, ht⟩
  · rw [hok] at hexit
    cases hexit
  · rw [hok] at hnext
    cases hnext
    exact ⟨heff, ht⟩

/-- **The states of a run over the queue scheduler**, seen in its model. -/
theorem ReachedBy.queued {l : List (Op F V × Reply F V)} {s : Runtime HandleQueue F V}
    (hs : ReachedBy FreesFinished l s) :
    ∃ a : Runtime TaskList F V, Queued a ∧ SameRuntime TaskList.Represents s a := by
  obtain ⟨s₀, h₀, hst⟩ := hs
  obtain ⟨a₀, ha₀, hsame⟩ := TaskList.queueRefines.start h₀
  obtain ⟨a, ha, hsame⟩ := TaskList.queueRefines.guarded (P := FreesFinished)
    (Q := FreesFinished) (fun _ => FreesFinished.same) hsame hst
  exact ⟨a, ha.invariant (fun _ _ _ hs hst => (hs.next hst).2) (Queued.start ha₀), hsame⟩

variable {l l' : List (Op F V × Reply F V)} {s t : Runtime HandleQueue F V} {x h : Handle}

/-- **The run queue**, in every state of every program that frees finished tasks only: the
ring buffer holds each task that has not finished once, `main` among them, and the running
one is at the front. -/
theorem queue_holds (hs : ReachedBy FreesFinished l s) :
    s.sched.toList.head? = some s.running ∧ s.sched.toList.Nodup ∧ ⟨1⟩ ∈ s.sched.toList ∧
      s.pool.stateOf s.running = some .running ∧
      ∀ h, h ∈ s.sched.toList ↔ s.pool.Unfinished h := by
  obtain ⟨a, ha, hsame⟩ := hs.queued
  obtain ⟨rest, hq⟩ := ha.queue
  have hlist : s.sched.toList = a.sched.queue := hsame.sched.toList_eq
  rw [hlist, hsame.running, hsame.pool]
  exact ⟨by rw [hq]; rfl, ha.nodup, ha.main, ha.running, fun h => ha.mem_queue⟩

theorem queue_holds_call : ∃ s : Runtime HandleQueue Nat Nat,
    ∀ h, h ∈ s.sched.toList ↔ s.pool.Unfinished h :=
  ⟨_, (queue_holds (l := [(.call 7 0, .handle ⟨2⟩)])
    ⟨_, ⟨0, 0, rfl⟩, .cons ⟨rfl, fun _ h => by cases h⟩ (.refl _)⟩).2.2.2.2⟩

/-- **Every call passes** that is made on a handle of the library, and no other does; for `await`
this is one round of `busy_wait_ready`, to its end or to its switch, and nothing is said of how many
rounds there are: on the caller's own handle or on a freed one it goes round for ever.  The program
ends when `main` returns. -/
theorem queue_goes_on (hs : ReachedBy FreesFinished l s) {op : Op F V} (hg : FreesFinished s op) :
    ((∃ o, step s op = .ok o) ↔ ∀ h, op.handle = some h → (s.pool.slot h).isSome) ∧
      ∀ data, step s op = .ok (.exit data) ↔ op = .ret data ∧ s.running = ⟨1⟩ := by
  obtain ⟨a, ha, hsame⟩ := hs.queued
  have hga : FreesFinished a op := hg.same hsame
  have hlock := TaskList.queueRefines.step hsame op
  rw [hsame.pool, hsame.running, ← ha.ok_iff hga]
  refine ⟨⟨?_, ?_⟩, fun data => ?_⟩
  · rintro ⟨o, hok⟩
    rw [hok] at hlock
    obtain ⟨o', hok', -⟩ := hlock.ok_left
    exact ⟨o', hok'⟩
  · rintro ⟨o, hok⟩
    rw [hok] at hlock
    obtain ⟨o', hok', -⟩ := hlock.ok_right
    exact ⟨o', hok'⟩
  · rw [← ha.exit_iff hga]
    constructor
    · intro hok
      rw [hok] at hlock
      obtain ⟨o, hok', hrel⟩ := hlock.ok_left
      cases hrel
      exact hok'
    · intro hok
      rw [hok] at hlock
      obtain ⟨o, hok', hrel⟩ := hlock.ok_right
      cases hrel
      exact hok'

/-- `main` has called a task, and skips. -/
theorem queue_goes_on_skip : ∃ s : Runtime HandleQueue Nat Nat, ∃ o, step s .skip = .ok o :=
  ⟨_, (queue_goes_on (l := [(.call 7 0, .handle ⟨2⟩)])
    ⟨_, ⟨0, 0, rfl⟩, .cons ⟨rfl, fun _ h => by cases h⟩ (.refl _)⟩
    (fun _ h => by cases h)).1.mpr fun _ h => by cases h⟩

/-! ## 3. Turns -/

/-- One call of a run, seen in the model. -/
theorem ReachedBy.queue_effect {i : Op F V × Reply F V} (hs : ReachedBy FreesFinished l s)
    (hst : Guarded FreesFinished s i t) :
    ∃ a b : Runtime TaskList F V, Queued a ∧ SameRuntime TaskList.Represents s a ∧
      QueueEffect a i.1 i.2 b ∧ SameRuntime TaskList.Represents t b := by
  obtain ⟨a, ha, hsa⟩ := hs.queued
  obtain ⟨b, hab, htb⟩ := TaskList.queueRefines.next hsa hst.1
  exact ⟨a, b, ha, hsa, (ha.next ⟨hab, hst.2.same hsa⟩).1, htb⟩

/-- **Everyone gets a turn.**  A task that has not finished, one that waits included, gets the
processor after as many calls that give it up as there are tasks ahead. -/
theorem queue_turns (hs : ReachedBy FreesFinished l s) (hx : s.pool.Unfinished x)
    (hrun : Steps (Guarded FreesFinished) s l' t)
    (hmany : (TurnQueue.ahead s.sched.toList x).length ≤ l'.countP givesUp) :
    ∃ l₁ l₂ u, l' = l₁ ++ l₂ ∧ Steps (Guarded FreesFinished) s l₁ u ∧
      Steps (Guarded FreesFinished) u l₂ t ∧ u.running = x := by
  have hmem : x ∈ s.sched.toList := ((queue_holds hs).2.2.2.2 x).mpr hx
  have hmoves : ∀ (s : Runtime HandleQueue F V) i t, (∃ l, ReachedBy FreesFinished l s) →
      Guarded FreesFinished s i t → (∃ l, ReachedBy FreesFinished l t) ∧
        ∃ b, TurnQueue.Moves b s.sched.toList t.sched.toList ∧ (givesUp i = true → b = true) := by
    rintro s i t ⟨l, hs⟩ hst
    obtain ⟨a, b, -, hsa, heff, htb⟩ := hs.queue_effect hst
    refine ⟨⟨_, hs.append (.single hst)⟩, givesUp i, ?_, id⟩
    rw [hsa.sched.toList_eq, htb.sched.toList_eq]
    exact heff.moves
  obtain ⟨l₁, l₂, u, rfl, h₁, h₂, hfront⟩ :=
    TurnQueue.exists_front (fun s => s.sched.toList) hmoves hrun ⟨l, hs⟩ hmem hmany
  refine ⟨l₁, l₂, u, rfl, h₁, h₂, ?_⟩
  have hu := (queue_holds (hs.append h₁)).1
  rw [hfront] at hu
  exact (Option.some.inj hu).symm

/-- `main` has called a task. -/
theorem queue_turns_call : ∃ s t : Runtime HandleQueue Nat Nat, ∃ l₁ l₂ u,
    [(.skip, .start 7 0)] = l₁ ++ l₂ ∧ Steps (Guarded FreesFinished) s l₁ u ∧
      Steps (Guarded FreesFinished) u l₂ t ∧ u.running = ⟨2⟩ :=
  ⟨_, _, queue_turns (l := [(.call 7 0, .handle ⟨2⟩)]) (x := ⟨2⟩)
    ⟨_, ⟨0, 0, rfl⟩, .cons ⟨rfl, fun _ h => by cases h⟩ (.refl _)⟩ (.inl rfl)
    (.single ⟨rfl, fun _ h => by cases h⟩) (by decide)⟩

/-- A finished task keeps its result while nobody frees it. -/
theorem ReachedBy.keeps {v : Task F V} (hs : ReachedBy FreesFinished l s)
    (hv : s.pool.slot h = some v) (hready : v.state = .ready)
    (hrun : Steps (Guarded FreesFinished) s l' t) (hkeep : ∀ i ∈ l', i.1 ≠ .free h) :
    ∃ w, t.pool.slot h = some w ∧ w.state = .ready ∧ w.data = v.data := by
  induction hrun generalizing l v with
  | refl s => exact ⟨v, hv, hready, rfl⟩
  | @cons s u t i l' hst hrest ih =>
    obtain ⟨a, b, ha, hsa, heff, htb⟩ := hs.queue_effect hst
    rw [hsa.pool] at hv
    obtain ⟨w, hw, hwr, hdata⟩ := heff.ready ha (hkeep i List.mem_cons_self) hv hready
    rw [← htb.pool] at hw
    obtain ⟨x, hx, hxr, hxd⟩ := ih (hs.append (.single hst)) hw hwr fun j hj =>
      hkeep j (List.mem_cons_of_mem _ hj)
    exact ⟨x, hx, hxr, hxd.trans hdata⟩

/-- **A task that waits gets the result.**  From a state in which `h` has finished, and while
nobody frees it, every task gets its turn, and at it a round of `busy_wait_ready(h)` ends `await`
with the result of `h`. -/
theorem queue_answers {v : Task F V} (hs : ReachedBy FreesFinished l s) (hx : s.pool.Unfinished x)
    (hv : s.pool.slot h = some v) (hready : v.state = .ready)
    (hrun : Steps (Guarded FreesFinished) s l' t) (hkeep : ∀ i ∈ l', i.1 ≠ .free h)
    (hmany : (TurnQueue.ahead s.sched.toList x).length ≤ l'.countP givesUp) :
    ∃ l₁ l₂ u, l' = l₁ ++ l₂ ∧ Steps (Guarded FreesFinished) s l₁ u ∧
      Steps (Guarded FreesFinished) u l₂ t ∧ u.running = x ∧
        Next u (.await h, .await v.data) u := by
  obtain ⟨l₁, l₂, u, rfl, h₁, h₂, hrunning⟩ := queue_turns hs hx hrun hmany
  obtain ⟨w, hw, hwr, hdata⟩ := hs.keeps hv hready h₁ fun i hi =>
    hkeep i (List.mem_append_left _ hi)
  refine ⟨l₁, l₂, u, rfl, h₁, h₂, hrunning, ?_⟩
  obtain ⟨a, ha, hsame⟩ := (hs.append h₁).queued
  have hpoll : pollState u h = .ok .ready := by
    rw [TaskList.refinesOps.pollState hsame, ha.pollState_eq (hsame.pool ▸ hw), hwr]
  unfold Next
  change (HandleQueue.busyWaitReady u h >>= _) = _
  unfold HandleQueue.busyWaitReady
  rw [hpoll, ok_bind, if_pos rfl, ok_bind]
  dsimp only
  rw [getTask_eq hw, ok_bind, hdata]

/-- `main` has called two tasks and waits for the first, which has returned 5. -/
theorem queue_answers_wait : ∃ s t : Runtime HandleQueue Nat Nat, ∃ l₁ l₂ u,
    [(.skip, .waiting ⟨2⟩)] = l₁ ++ l₂ ∧ Steps (Guarded FreesFinished) s l₁ u ∧
      Steps (Guarded FreesFinished) u l₂ t ∧ u.running = ⟨1⟩ ∧
        Next u (.await ⟨2⟩, .await 5) u :=
  ⟨_, _, queue_answers (x := ⟨1⟩) (h := ⟨2⟩)
    (l := [(.call 7 0, .handle ⟨2⟩), (.call 8 0, .handle ⟨3⟩), (.await ⟨2⟩, .start 7 0),
      (.ret 5, .start 8 0)])
    ⟨_, ⟨0, 0, rfl⟩, .cons ⟨rfl, fun _ h => by cases h⟩ (.cons ⟨rfl, fun _ h => by cases h⟩
      (.cons ⟨rfl, fun _ h => by cases h⟩ (.cons ⟨rfl, fun _ h => by cases h⟩ (.refl _))))⟩
    (.inr rfl) rfl rfl (.single ⟨rfl, fun _ h => by cases h⟩)
    (fun i hi => by rw [List.mem_singleton.mp hi]; nofun) (by decide)⟩

end CAsync
