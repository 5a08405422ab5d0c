/-
# The flag `orphaned`

Three functions touch the flag: `async_orphan` sets it, `async_return` reads it, and
`start_new_task` clears it, but only where it makes a new slot.  A slot that is used again keeps
the flag of its last task (`Next.flag`), so `async_return` frees a task that was never orphaned
if an earlier task of its slot was (`kept_ready_iff`).

Nothing here depends on the scheduler: the results are about any vtable whose `wait_ready` leaves
the flags alone and whose `finish_task` finishes the current task, as both schedulers do.
-/
import CAsync.Reachable
import CAsync.TaskList

namespace CAsync

open Faulting TaskPool RingQueue

variable {F V S : Type}

/-- The flag of a slot, if the pool has the slot. -/
def TaskPool.flag (p : TaskPool F V) (h : Handle) : Option Bool := (p.slot h).map Task.orphaned

/-- The flags of all slots are the same. -/
def SameFlags (p q : TaskPool F V) : Prop := ∀ h, q.flag h = p.flag h

/-! ## 1. Writes that leave the flags alone -/

theorem SameFlags.refl (p : TaskPool F V) : SameFlags p p := fun _ => rfl

theorem SameFlags.trans {p q r : TaskPool F V} (h₁ : SameFlags p q) (h₂ : SameFlags q r) :
    SameFlags p r := fun h => (h₂ h).trans (h₁ h)

theorem flag_setTask {p : TaskPool F V} {h : Handle} {u : Task F V} (hu : p.slot h = some u)
    (t : Task F V) : (p.setTask h t).flag = Function.update p.flag h (some t.orphaned) := by
  funext i
  unfold TaskPool.flag
  rw [slot_setTask hu]
  by_cases hi : i = h
  · rw [hi, Function.update_self, Function.update_self]
    rfl
  · rw [Function.update_of_ne hi, Function.update_of_ne hi]

theorem SameFlags.setTask {p : TaskPool F V} {h : Handle} {u t : Task F V}
    (hu : p.slot h = some u) (ht : t.orphaned = u.orphaned) : SameFlags p (p.setTask h t) := by
  intro i
  rw [flag_setTask hu]
  by_cases hi : i = h
  · rw [hi, Function.update_self, ht]
    unfold TaskPool.flag
    rw [hu]
    rfl
  · rw [Function.update_of_ne hi]

/-- `async_switch` writes states and stack pointers. -/
theorem asyncSwitch_flags {s t : Runtime S F V} {src dst : Handle} {frame : Frame}
    {c : Control F V} (h : asyncSwitch s src dst frame = .ok (t, c)) :
    SameFlags s.pool t.pool := by
  have hsave : ∀ {f1 : Option (Task F V)} {p : TaskPool F V},
      getTaskOrNull s.pool src = .ok f1 → p.slot src = s.pool.slot src →
      SameFlags p (saveStack p src f1 frame) := by
    intro f1 p hf1 hp
    unfold getTaskOrNull at hf1
    split at hf1
    · cases hf1
      exact .refl p
    · obtain ⟨u, hu, hf1⟩ := bind_eq_ok.mp hf1
      cases hf1
      rw [getTask_eq_ok, ← hp] at hu
      exact .setTask hu rfl
  unfold asyncSwitch at h
  obtain ⟨_, -, h⟩ := bind_eq_ok.mp h
  obtain ⟨_, hne, h⟩ := bind_eq_ok.mp h
  rw [require_eq_ok] at hne
  obtain ⟨f1, hf1, h⟩ := bind_eq_ok.mp h
  obtain ⟨f2, hf2, h⟩ := bind_eq_ok.mp h
  rw [getTask_eq_ok] at hf2
  obtain ⟨_, -, h⟩ := bind_eq_ok.mp h
  obtain ⟨_, -, h⟩ := bind_eq_ok.mp h
  split at h
  · cases h
  · split at h
    · cases h
      refine (SameFlags.setTask (t := f2.run) hf2 rfl).trans (hsave hf1 ?_)
      rw [slot_setTask hf2, Function.update_of_ne]
      rintro rfl
      exact hne rfl
    · cases h
      exact hsave hf1 rfl

/-- What is asked of a scheduler. -/
class KeepsFlags (S : Type) [SchedulerVTable S] : Prop where
  waitReady : ∀ {F V : Type} {s t : Runtime S F V} {h : Handle} {c : Control F V},
    SchedulerVTable.waitReady s h = .ok (t, c) → SameFlags s.pool t.pool
  finishTask : ∀ {s t : S} {cur fin next : Handle}, SchedulerOps.currentTask s = .ok cur →
    SchedulerOps.finishTask s = .ok (t, fin, next) → fin = cur

theorem asyncSkip_flags [SchedulerOps S] {s t : Runtime S F V} {frame : Frame} {c : Control F V}
    (h : asyncSkip s frame = .ok (t, c)) : SameFlags s.pool t.pool := by
  unfold asyncSkip at h
  obtain ⟨current, -, h⟩ := bind_eq_ok.mp h
  obtain ⟨⟨sched, next⟩, -, h⟩ := bind_eq_ok.mp h
  obtain ⟨t1, -, h⟩ := bind_eq_ok.mp h
  split at h
  · have hflags := asyncSwitch_flags h
    exact hflags
  · cases h
    exact .refl _

/-- The front of the queue is what `queue_pop_front` takes. -/
theorem popFront_peekFront {α : Type} {q q' : RingQueue α} {x y : α}
    (hpop : queuePopFront q = .ok (q', x)) (hpeek : queuePeekFront q = .ok y) : x = y := by
  unfold queuePopFront at hpop
  unfold queuePeekFront at hpeek
  obtain ⟨_, -, hpop⟩ := bind_eq_ok.mp hpop
  obtain ⟨_, -, hpeek⟩ := bind_eq_ok.mp hpeek
  obtain ⟨z, hz, hpop⟩ := bind_eq_ok.mp hpop
  cases hpop
  rw [hpeek] at hz
  cases hz
  rfl

theorem queuedNode_congr (g g' : Graph) (hg : g'.nodes = g.nodes) (x : Option Nat) :
    g'.queuedNode x = g.queuedNode x := by
  unfold Graph.queuedNode
  cases x with
  | none => rfl
  | some n => simp only [hg]

instance : KeepsFlags Graph where
  waitReady := by
    intro F V s t h c hok
    obtain ⟨⟨g, parent, child, next⟩, -, hok⟩ := bind_eq_ok.mp hok
    have hflags := asyncSwitch_flags hok
    exact hflags
  finishTask := by
    intro g g' cur fin next hcur hfin
    obtain ⟨x, hx, hcur⟩ := bind_eq_ok.mp hcur
    obtain ⟨⟨n, node⟩, hn, hcur⟩ := bind_eq_ok.mp hcur
    cases hcur
    obtain ⟨⟨queue, y⟩, hy, hfin⟩ := bind_eq_ok.mp hfin
    obtain rfl := popFront_peekFront hy hx
    obtain ⟨⟨n', node'⟩, hn', hfin⟩ := bind_eq_ok.mp hfin
    rw [queuedNode_congr g { g with queue := queue } rfl, hn] at hn'
    cases hn'
    dsimp only at hfin
    split at hfin
    · obtain ⟨z, -, hfin⟩ := bind_eq_ok.mp hfin
      cases hfin
      rfl
    · obtain ⟨parent, -, hfin⟩ := bind_eq_ok.mp hfin
      split at hfin
      · obtain ⟨z, -, hfin⟩ := bind_eq_ok.mp hfin
        cases hfin
        rfl
      · obtain ⟨z, -, hfin⟩ := bind_eq_ok.mp hfin
        cases hfin
        rfl

instance : KeepsFlags TaskGraph where
  waitReady := by
    intro F V s t h c hok
    obtain ⟨⟨a, parent, child, next⟩, -, hok⟩ := bind_eq_ok.mp hok
    have hflags := asyncSwitch_flags hok
    exact hflags
  finishTask := by
    intro a a' cur fin next hcur hfin
    change a.front a.queue = _ at hcur
    change a.finishTask = _ at hfin
    unfold TaskGraph.finishTask at hfin
    cases hq : a.queue with
    | nil =>
      rw [hq] at hfin
      cases hfin
    | cons c rest =>
      rw [hq] at hcur hfin
      obtain ⟨_, -, hcur⟩ := bind_eq_ok.mp hcur
      cases hcur
      dsimp only at hfin
      obtain ⟨_, -, hfin⟩ := bind_eq_ok.mp hfin
      split at hfin
      · obtain ⟨_, -, hfin⟩ := bind_eq_ok.mp hfin
        cases hfin
        rfl
      · split at hfin
        · cases hfin
          rfl
        · obtain ⟨_, -, hfin⟩ := bind_eq_ok.mp hfin
          cases hfin
          rfl

theorem busyWaitReady_flags [SchedulerOps S] {s t : Runtime S F V} {h : Handle} {c : Control F V}
    (hok : HandleQueue.busyWaitReady s h = .ok (t, c)) : SameFlags s.pool t.pool := by
  obtain ⟨state, -, hok⟩ := bind_eq_ok.mp hok
  dsimp only at hok
  split at hok
  · cases hok
    exact .refl _
  · obtain ⟨⟨s', c'⟩, hskip, hok⟩ := bind_eq_ok.mp hok
    have hflags := asyncSkip_flags hskip
    dsimp only at hok
    cases c' with
    | returned =>
      cases hok
      exact hflags
    | entered fn data =>
      cases hok
      exact hflags
    | resumed frame =>
      cases hok
      exact hflags

instance : KeepsFlags HandleQueue where
  waitReady := busyWaitReady_flags
  finishTask := by
    intro q q' cur fin next hcur hfin
    obtain ⟨⟨q₁, x⟩, hx, hfin⟩ := bind_eq_ok.mp hfin
    obtain ⟨y, -, hfin⟩ := bind_eq_ok.mp hfin
    cases hfin
    exact popFront_peekFront hx hcur

instance : KeepsFlags TaskList where
  waitReady := busyWaitReady_flags
  finishTask := by
    intro a a' cur fin next hcur hfin
    change TaskList.front a.queue = _ at hcur
    change a.finishTask = _ at hfin
    unfold TaskList.finishTask at hfin
    cases hq : a.queue with
    | nil =>
      rw [hq] at hfin
      cases hfin
    | cons c rest =>
      rw [hq] at hcur hfin
      cases hcur
      obtain ⟨_, -, hfin⟩ := bind_eq_ok.mp hfin
      cases hfin
      rfl

/-! ## 2. What a call does to the flags -/

section

variable [SchedulerVTable S] [KeepsFlags S]

/-- A new slot starts with the flag off; a slot that is used again keeps its flag. -/
theorem allocTask_flags {p q : TaskPool F V} {fn : F} {arg : V} {h : Handle}
    (hok : allocTask p fn arg = .ok (q, h)) :
    q.flag = Function.update p.flag h (some ((p.flag h).getD false)) := by
  unfold allocTask at hok
  split at hok
  · cases hok
    have hnew : p.slot ⟨p.len + 1⟩ = none := slot_eq_none (Nat.lt_succ_self _)
    funext i
    unfold TaskPool.flag
    rw [slot_push]
    by_cases hi : i = ⟨p.len + 1⟩
    · rw [hi, Function.update_self, Function.update_self, hnew]
      rfl
    · rw [Function.update_of_ne hi, Function.update_of_ne hi]
  · obtain ⟨_, hpos, hok⟩ := bind_eq_ok.mp hok
    obtain ⟨_, -, hok⟩ := bind_eq_ok.mp hok
    obtain ⟨u, hu, hok⟩ := bind_eq_ok.mp hok
    obtain ⟨_, -, hok⟩ := bind_eq_ok.mp hok
    obtain ⟨_, -, hok⟩ := bind_eq_ok.mp hok
    cases hok
    rw [require_eq_ok] at hpos
    rw [load_eq_ok] at hu
    have hslot : p.slot p.freeTask = some u := by
      unfold slot
      rw [if_neg (Nat.ne_of_gt hpos)]
      exact hu
    rw [flag_setTask (p := { p with freeTask := u.handle }) hslot]
    have hflag : p.flag p.freeTask = some u.orphaned := by
      unfold TaskPool.flag
      rw [hslot]
      rfl
    rw [hflag]
    rfl

omit [KeepsFlags S] in
theorem asyncFree_flags {s t : Runtime S F V} {h : Handle} (hok : asyncFree s h = .ok t) :
    SameFlags s.pool t.pool := by
  obtain ⟨_, -, hok⟩ := bind_eq_ok.mp hok
  obtain ⟨sched, -, hok⟩ := bind_eq_ok.mp hok
  obtain ⟨u, hu, hok⟩ := bind_eq_ok.mp hok
  cases hok
  exact SameFlags.setTask (getTask_eq_ok.mp hu) rfl

omit [KeepsFlags S] in
theorem asyncReturnReady_flags {s mid : Runtime S F V} {data : V} {fin next : Handle}
    (hok : asyncReturnReady s data = .ok (.ready mid fin next)) : SameFlags s.pool mid.pool := by
  obtain ⟨cur, -, hok⟩ := bind_eq_ok.mp hok
  split at hok
  · cases hok
  obtain ⟨⟨sched, fin', next'⟩, -, hok⟩ := bind_eq_ok.mp hok
  dsimp only at hok
  split at hok
  · cases hok
  obtain ⟨u, hu, hok⟩ := bind_eq_ok.mp hok
  cases hok
  exact SameFlags.setTask (getTask_eq_ok.mp hu) rfl

/-- **The flags after a call**: `async_orphan` sets one, `async_call` leaves the flag of the slot it
takes as it was. -/
theorem Next.flag {s t : Runtime S F V} {op : Op F V} {r : Reply F V} (hst : Next s (op, r) t)
    {h : Handle} (horphan : op ≠ .orphan h) :
    t.pool.flag h = s.pool.flag h ∨
      r = .handle h ∧ t.pool.flag h = some ((s.pool.flag h).getD false) := by
  have hst' : step s op = .ok (.next t r) := hst
  cases op with
  | call fn arg =>
    obtain ⟨⟨s', i⟩, hcall, hst'⟩ := bind_eq_ok.mp hst'
    cases hst'
    obtain ⟨⟨pool, i'⟩, halloc, hcall⟩ := bind_eq_ok.mp hcall
    obtain ⟨sched, -, hcall⟩ := bind_eq_ok.mp hcall
    cases hcall
    have hflag := congrFun (allocTask_flags halloc) h
    by_cases hi : h = i
    · subst hi
      rw [Function.update_self] at hflag
      exact .inr ⟨rfl, hflag⟩
    · rw [Function.update_of_ne hi] at hflag
      exact .inl hflag
  | skip =>
    obtain ⟨⟨s', c⟩, hskip, hst'⟩ := bind_eq_ok.mp hst'
    obtain ⟨reply, -, hst'⟩ := bind_eq_ok.mp hst'
    cases hst'
    exact .inl (asyncSkip_flags hskip h)
  | await i =>
    obtain ⟨⟨s', c⟩, hwait, hst'⟩ := bind_eq_ok.mp hst'
    have hflags := KeepsFlags.waitReady hwait
    dsimp only at hst'
    split at hst'
    · obtain ⟨u, -, hst'⟩ := bind_eq_ok.mp hst'
      cases hst'
      exact .inl (hflags h)
    · obtain ⟨reply, -, hst'⟩ := bind_eq_ok.mp hst'
      cases hst'
      exact .inl (hflags h)
  | ret data =>
    obtain ⟨x, hx, hst'⟩ := bind_eq_ok.mp hst'
    cases x with
    | exit d => cases hst'
    | ready mid fin next =>
      obtain ⟨s', hfree, hst'⟩ := bind_eq_ok.mp hst'
      obtain ⟨⟨t', c⟩, hswitch, hst'⟩ := bind_eq_ok.mp hst'
      obtain ⟨reply, -, hst'⟩ := bind_eq_ok.mp hst'
      cases hst'
      have hmid : SameFlags mid.pool s'.pool := by
        obtain ⟨u, -, hfree⟩ := bind_eq_ok.mp hfree
        split at hfree
        · exact asyncFree_flags hfree
        · cases hfree
          exact .refl _
      exact .inl (((asyncReturnReady_flags hx).trans (hmid.trans (asyncSwitch_flags hswitch))) h)
  | orphan i =>
    obtain ⟨s', horph, hst'⟩ := bind_eq_ok.mp hst'
    cases hst'
    obtain ⟨u, hu, horph⟩ := bind_eq_ok.mp horph
    cases horph
    have hhi : h ≠ i := fun e => horphan (by rw [e])
    refine .inl ?_
    dsimp only
    rw [flag_setTask (getTask_eq_ok.mp hu), Function.update_of_ne hhi]
  | free i =>
    obtain ⟨s', hfree, hst'⟩ := bind_eq_ok.mp hst'
    cases hst'
    exact .inl (asyncFree_flags hfree h)
  | poll i =>
    obtain ⟨st, -, hst'⟩ := bind_eq_ok.mp hst'
    cases hst'
    exact .inl rfl

/-- If no flag is set, none is until `async_orphan` is called. -/
theorem Next.unflagged {s t : Runtime S F V} {op : Op F V} {r : Reply F V}
    (hst : Next s (op, r) t) (horphan : ∀ h, op ≠ .orphan h)
    (hs : ∀ h, s.pool.flag h ≠ some true) (h : Handle) : t.pool.flag h ≠ some true := by
  have hkept := hs h
  rcases hst.flag (horphan h) with hflag | ⟨-, hflag⟩
  · rwa [hflag]
  · rw [hflag]
    cases hf : s.pool.flag h with
    | none => simp
    | some b =>
      rw [hf] at hkept
      simpa using hkept

/-- A flag stays as it is while `async_orphan` is not called on the slot. -/
theorem steps_flag {s t : Runtime S F V} {l : List (Op F V × Reply F V)} {h : Handle} {b : Bool}
    (hst : Steps Next s l t) : s.pool.flag h = some b → (∀ x ∈ l, x.1 ≠ .orphan h) →
      t.pool.flag h = some b := by
  induction hst with
  | refl _ => exact fun hb _ => hb
  | cons hst _ ih =>
    intro hb hl
    refine ih ?_ fun x hx => hl x (List.mem_cons_of_mem _ hx)
    rcases Next.flag hst (hl _ List.mem_cons_self) with hf | ⟨-, hf⟩
    · rw [hf, hb]
    · rw [hf, hb]
      rfl

/-! ## 3. Which tasks `async_return` frees -/

/-- **A task that was never orphaned stays `READY` exactly if its slot was not orphaned before**, in
any run from any state on, under either scheduler.  `h` is what the call in the middle returned,
`async_orphan(h)` has not been called since, and the current task is `h` and calls `async_return`:
after `if (t->orphaned) async_free(...)` it is `READY` if and only if the slot was new, or had its
flag off, when the task was created. -/
theorem kept_ready_iff {s₁ s₂ s mid s' : Runtime S F V} {l : List (Op F V × Reply F V)}
    {fn : F} {arg data : V} {h fin next : Handle}
    (hcall : Next s₁ (.call fn arg, .handle h) s₂) (h₂ : Steps Next s₂ l s)
    (hkept : ∀ x ∈ l, x.1 ≠ .orphan h) (hcur : SchedulerOps.currentTask s.sched = .ok h)
    (hready : asyncReturnReady s data = .ok (.ready mid fin next))
    (hfree : freeOrphan mid fin = .ok s') :
    s'.pool.stateOf h = some .ready ↔ s₁.pool.flag h ≠ some true := by
  -- the flag when the task returns
  have hflag : s.pool.flag h = some ((s₁.pool.flag h).getD false) := by
    refine steps_flag h₂ ?_ hkept
    obtain ⟨⟨s', i⟩, hcall, hnext⟩ := bind_eq_ok.mp (show step s₁ _ = _ from hcall)
    cases hnext
    obtain ⟨⟨pool, i'⟩, halloc, hcall⟩ := bind_eq_ok.mp hcall
    obtain ⟨sched, -, hcall⟩ := bind_eq_ok.mp hcall
    cases hcall
    rw [allocTask_flags halloc, Function.update_self]
  obtain ⟨cur, hcur', hready⟩ := bind_eq_ok.mp hready
  rw [hcur] at hcur'
  cases hcur'
  split at hready
  · cases hready
  obtain ⟨⟨sched, fin', next'⟩, hfin, hready⟩ := bind_eq_ok.mp hready
  obtain rfl := KeepsFlags.finishTask hcur hfin
  dsimp only at hready
  split at hready
  · cases hready
  obtain ⟨u, hu, hready⟩ := bind_eq_ok.mp hready
  cases hready
  rw [getTask_eq_ok] at hu
  have hslot := slot_setTask hu { u with data := data, state := .ready }
  obtain ⟨w, hw, hfree⟩ := bind_eq_ok.mp hfree
  rw [getTask_eq_ok, hslot, Function.update_self, Option.some.injEq] at hw
  subst hw
  have horph : u.orphaned = (s₁.pool.flag fin).getD false := by
    have hf : s.pool.flag fin = some u.orphaned := by
      unfold TaskPool.flag
      rw [hu]
      rfl
    rw [hf] at hflag
    exact Option.some.inj hflag
  have hiff : s₁.pool.flag fin ≠ some true ↔ u.orphaned = false := by
    rw [horph]
    cases s₁.pool.flag fin with
    | none => simp
    | some b => simp
  rw [hiff]
  dsimp only at hfree
  split at hfree
  · rename_i hor
    obtain ⟨_, -, hfree⟩ := bind_eq_ok.mp hfree
    obtain ⟨sched', -, hfree⟩ := bind_eq_ok.mp hfree
    obtain ⟨w, hw, hfree⟩ := bind_eq_ok.mp hfree
    cases hfree
    have hfreed := stateOf_update (slot_setTask (getTask_eq_ok.mp hw) { w with
      state := .free, handle := (s.pool.setTask fin { u with
        data := data, state := .ready }).freeTask })
    change TaskPool.stateOf (TaskPool.setTask _ _ _) fin = _ ↔ _
    rw [hfreed, Function.update_self, hor]
    simp
  · rename_i hor
    cases hfree
    dsimp only
    rw [stateOf_update hslot, Function.update_self]
    simp [hor]

/-- A task is orphaned and ends, which frees slot 2; `main` calls another task, and awaits it. -/
theorem recycled_task_freed : ∃ (l₁ l₂ : List (Op Nat Nat × Reply Nat Nat))
    (s₁ s₂ s mid s' : Runtime Graph Nat Nat) (fin next : Handle), Reached l₁ s₁ ∧
      Next s₁ (.call 8 0, .handle ⟨2⟩) s₂ ∧ Steps Next s₂ l₂ s ∧
      (∀ x ∈ l₂, x.1 ≠ .orphan ⟨2⟩) ∧ SchedulerOps.currentTask s.sched = .ok ⟨2⟩ ∧
      asyncReturnReady s 5 = .ok (.ready mid fin next) ∧ freeOrphan mid fin = .ok s' ∧
      s'.pool.stateOf ⟨2⟩ = some .free :=
  ⟨[(.call 7 0, .handle ⟨2⟩), (.orphan ⟨2⟩, .done), (.skip, .start 7 0), (.ret 0, .skip)],
    [(.await ⟨2⟩, .start 8 0)], _, _, _, _, _, _, _,
    ⟨_, ⟨0, 0, rfl⟩, .cons rfl (.cons rfl (.cons rfl (.cons rfl (.refl _))))⟩, rfl,
    .cons rfl (.refl _), by simp, rfl, rfl, rfl, rfl⟩

/-- A task in a new slot. -/
theorem new_task_kept : ∃ s₁ s' : Runtime Graph Nat Nat, Reached [] s₁ ∧
    (s'.pool.stateOf ⟨2⟩ = some .ready ↔ s₁.pool.flag ⟨2⟩ ≠ some true) :=
  ⟨_, _, ⟨_, ⟨0, 0, rfl⟩, .refl _⟩,
    kept_ready_iff (show Next _ (.call 7 0, .handle ⟨2⟩) _ from rfl)
      (show Steps Next _ [(.skip, .start 7 0)] _ from .cons rfl (.refl _)) (by simp) rfl
      (show asyncReturnReady _ 5 = .ok (.ready _ _ _) from rfl) rfl⟩

end

end CAsync
