/-
# The task pool and its free list

A slot of the pool belongs to a task unless its state is `FREE`, and the `FREE` slots form a
list: `pool.free_task` is its first slot, and `Task.handle`, which otherwise is the task's own
handle, leads from a `FREE` slot to the next.  `WellFormed` says that this is so, and section 3
that the three writers of the pool keep it: `start_new_task` takes a slot off the list, or makes
one if the list is empty; `free_task` puts one on; everything else writes to a task that stays
in its slot.
-/
import CAsync.Lib.Links
import CAsync.Scheduler

namespace CAsync

open Faulting

variable {F V : Type}

/-- The pointer to a task that a handle stands for; 0 is NULL. -/
def Handle.link (h : Handle) : Option Handle := if h.idx = 0 then none else some h

theorem Handle.eq_of_idx {h i : Handle} (hi : h.idx = i.idx) : h = i := by
  cases h
  cases i
  exact congrArg Handle.mk hi

@[simp] theorem Handle.link_eq_some {h i : Handle} : h.link = some i ↔ h = i ∧ i.idx ≠ 0 := by
  unfold Handle.link
  constructor
  · intro hi
    split at hi
    · simp at hi
    · rename_i hne
      obtain rfl : h = i := by simpa using hi
      exact ⟨rfl, hne⟩
  · rintro ⟨rfl, hne⟩
    exact if_neg hne

@[simp] theorem Handle.link_eq_none {h : Handle} : h.link = none ↔ h.idx = 0 := by
  unfold Handle.link
  split <;> simp_all

namespace TaskPool

/-! ## 1. Slots -/

/-- The task in the slot of a handle, if the pool has that slot. -/
def slot (p : TaskPool F V) (h : Handle) : Option (Task F V) :=
  if h.idx = 0 then none else p.tasks[h.idx - 1]?

/-- The state of a slot. -/
def stateOf (p : TaskPool F V) (h : Handle) : Option State := (p.slot h).map Task.state

variable {p : TaskPool F V} {h i : Handle} {t u : Task F V}

theorem slot_isSome : (p.slot h).isSome ↔ 0 < h.idx ∧ h.idx ≤ p.len := by
  unfold slot len
  split
  · rename_i h0
    simp [h0]
  · rw [Option.isSome_iff_ne_none, Ne, List.getElem?_eq_none_iff]
    omega

theorem slot_bounds (ht : p.slot h = some t) : 0 < h.idx ∧ h.idx ≤ p.len :=
  slot_isSome.mp (by rw [ht]; rfl)

theorem slot_zero : p.slot ⟨0⟩ = none := if_pos rfl

/-- There is nothing behind the last slot. -/
theorem slot_eq_none (hh : p.len < h.idx) : p.slot h = none := by
  rw [← Option.not_isSome_iff_eq_none, slot_isSome]
  omega

theorem stateOf_eq (ht : p.slot h = some t) : p.stateOf h = some t.state := by
  unfold stateOf
  rw [ht]
  rfl

theorem stateOf_eq_some {st : State} :
    p.stateOf h = some st ↔ ∃ t, p.slot h = some t ∧ t.state = st := by
  unfold stateOf
  exact Option.map_eq_some_iff

/-- `get_task` finds the task in the slot of the handle. -/
@[simp] theorem getTask_eq_ok : getTask p h = .ok t ↔ p.slot h = some t := by
  unfold getTask slot
  by_cases h0 : h.idx = 0
  · rw [require_of_not (by omega), error_bind, if_pos h0]
    simp
  · rw [require_of (by omega), ok_bind, if_neg h0]
    by_cases hlen : h.idx ≤ p.len
    · rw [require_of hlen, ok_bind, load_eq_ok]
    · rw [require_of_not hlen, error_bind, List.getElem?_eq_none (by unfold len at hlen; omega)]
      simp

theorem getTask_eq (ht : p.slot h = some t) : getTask p h = .ok t := getTask_eq_ok.mpr ht

theorem load_slot (ht : p.slot h = some t) : load p.tasks (h.idx - 1) = .ok t := by
  unfold slot at ht
  split at ht
  · simp at ht
  · exact load_eq ht

/-- Writing to a slot. -/
theorem slot_setTask (hu : p.slot h = some u) (t : Task F V) :
    (p.setTask h t).slot = Function.update p.slot h (some t) := by
  obtain ⟨hpos, hlen⟩ := slot_bounds hu
  funext i
  by_cases hi : i = h
  · subst hi
    rw [Function.update_self]
    unfold slot setTask
    dsimp only
    rw [if_neg (by omega), List.getElem?_set_self (by unfold len at hlen; omega)]
  · rw [Function.update_of_ne hi]
    unfold slot setTask
    dsimp only
    split
    · rfl
    · have hidx : h.idx - 1 ≠ i.idx - 1 := by
        intro heq
        refine hi (Handle.eq_of_idx ?_)
        omega
      rw [List.getElem?_set_ne hidx]

theorem setTask_len : (p.setTask h t).len = p.len := by
  unfold len setTask
  exact List.length_set

/-- A new slot at the end of the pool. -/
theorem slot_push (t : Task F V) (cap : Nat) :
    ({ p with tasks := p.tasks ++ [t], cap := cap } : TaskPool F V).slot =
      Function.update p.slot ⟨p.len + 1⟩ (some t) := by
  funext i
  by_cases hi : i = ⟨p.len + 1⟩
  · subst hi
    rw [Function.update_self]
    unfold slot len
    simp
  · rw [Function.update_of_ne hi]
    unfold slot
    dsimp only
    split
    · rfl
    · rename_i h0
      by_cases hlt : i.idx - 1 < p.tasks.length
      · rw [List.getElem?_append_left hlt]
      · have hidx : i.idx ≠ p.len + 1 := by
          intro heq
          exact hi (Handle.eq_of_idx heq)
        unfold len at hidx
        rw [List.getElem?_eq_none (by simp; omega), List.getElem?_eq_none (by omega)]

/-! ## 2. The free list -/

/-- The next slot of the free list. -/
def nextFree (p : TaskPool F V) (h : Handle) : Option Handle :=
  (p.slot h).bind fun t => t.handle.link

/-- Following `Task.handle` from `free_task` visits exactly the `FREE` slots, in the order of
`l`. -/
def FreeList (p : TaskPool F V) (l : List Handle) : Prop :=
  Links p.nextFree p.freeTask.link l ∧ ∀ h, h ∈ l ↔ p.stateOf h = some .free

/-- A pool as the library keeps it. -/
structure WellFormed (p : TaskPool F V) : Prop where
  free : ∃ l, p.FreeList l
  stack : ∀ {h t}, p.slot h = some t → t.stackBase ≠ none
  own : ∀ {h t}, p.slot h = some t → t.state ≠ .free → t.handle = h

theorem nextFree_congr {q : TaskPool F V} (hq : q.slot = Function.update p.slot h (some t))
    (hi : i ≠ h) : q.nextFree i = p.nextFree i := by
  unfold nextFree
  rw [hq, Function.update_of_ne hi]

theorem stateOf_update {q : TaskPool F V} (hq : q.slot = Function.update p.slot h (some t)) :
    q.stateOf = Function.update p.stateOf h (some t.state) := by
  funext i
  unfold stateOf
  rw [hq]
  by_cases hi : i = h
  · subst hi
    simp
  · rw [Function.update_of_ne hi, Function.update_of_ne hi]

/-! ## 3. The writers of the pool -/

/-- A pool stays well formed when one slot is written, if its free list does. -/
theorem WellFormed.write {q : TaskPool F V} (hp : p.WellFormed)
    (hq : q.slot = Function.update p.slot h (some t)) (hstack : t.stackBase ≠ none)
    (hown : t.state ≠ .free → t.handle = h) (hfree : ∃ l, q.FreeList l) : q.WellFormed := by
  refine ⟨hfree, fun {i s} hs => ?_, fun {i s} hs hsf => ?_⟩
  · rw [hq] at hs
    by_cases hi : i = h
    · subst hi
      obtain rfl : t = s := by simpa using hs
      exact hstack
    · rw [Function.update_of_ne hi] at hs
      exact hp.stack hs
  · rw [hq] at hs
    by_cases hi : i = h
    · subst hi
      obtain rfl : t = s := by simpa using hs
      exact hown hsf
    · rw [Function.update_of_ne hi] at hs
      exact hp.own hs hsf

/-- Writing to a task that is and stays in its slot, or to a slot that is and stays `FREE`. -/
theorem WellFormed.setTask (hp : p.WellFormed) (hu : p.slot h = some u)
    (hstate : t.state = .free ↔ u.state = .free) (hstack : t.stackBase = u.stackBase)
    (hhandle : t.handle = u.handle) : (p.setTask h t).WellFormed := by
  have hslot := slot_setTask hu t
  obtain ⟨l, hl, hmem⟩ := hp.free
  refine hp.write hslot (by rw [hstack]; exact hp.stack hu)
    (fun ht => by rw [hhandle]; exact hp.own hu (fun hf => ht (hstate.mpr hf)))
    ⟨l, hl.congr fun c _ => ?_, fun i => ?_⟩
  · by_cases hc : c = h
    · subst hc
      unfold nextFree
      rw [hslot, Function.update_self, hu]
      simp only [Option.bind_some, hhandle]
    · exact (nextFree_congr hslot hc).symm
  · rw [stateOf_update hslot, hmem]
    by_cases hi : i = h
    · subst hi
      rw [Function.update_self, stateOf_eq hu]
      simp [hstate]
    · rw [Function.update_of_ne hi]

/-- `free_task` puts the slot at the head of the free list. -/
theorem WellFormed.freeTask (hp : p.WellFormed) (hu : p.slot h = some u) (hlive : u.state ≠ .free) :
    ({ p.setTask h { u with state := .free, handle := p.freeTask } with
      freeTask := h } : TaskPool F V).WellFormed := by
  have hslot := slot_setTask hu { u with state := .free, handle := p.freeTask }
  obtain ⟨l, hl, hmem⟩ := hp.free
  have hh : h ∉ l := by
    rw [hmem, stateOf_eq hu]
    simpa using hlive
  have hlink : h.link = some h := Handle.link_eq_some.mpr ⟨rfl, by have := slot_bounds hu; omega⟩
  have hstack := hp.stack hu
  refine hp.write hslot hstack (fun hf => absurd rfl hf) ⟨h :: l, ?_, fun i => ?_⟩
  · have hpush := hl.push hh
    rw [← hlink] at hpush
    refine hpush.congr fun c hc => ?_
    by_cases hch : c = h
    · subst hch
      unfold nextFree
      rw [Function.update_self]
      change _ = ((p.setTask c _).slot c).bind _
      rw [hslot, Function.update_self]
      rfl
    · rw [Function.update_of_ne hch]
      exact (nextFree_congr hslot hch).symm
  · change _ ↔ (p.setTask h _).stateOf i = _
    rw [stateOf_update hslot, List.mem_cons]
    by_cases hi : i = h
    · subst hi
      simp
    · rw [Function.update_of_ne hi, hmem]
      simp [hi]

/-- The task that `async_call(fn, arg)` puts into slot `h`.  The flag `orphaned` of a slot that is
used again is left as it is. -/
structure NewTask (p : TaskPool F V) (h : Handle) (fn : F) (arg : V) (t : Task F V) : Prop where
  state : t.state = .init
  stackBase : t.stackBase ≠ none
  stackPtr : t.stackPtr = some .entry
  fn : t.fn = fn
  data : t.data = arg
  handle : t.handle = h
  orphaned : t.orphaned = ((p.slot h).map Task.orphaned).getD false

/-- **The slot of a new task** was `FREE`, or is a new one and no slot was `FREE`. -/
theorem WellFormed.allocTask (hp : p.WellFormed) (fn : F) (arg : V) :
    ∃ q h t, CAsync.allocTask p fn arg = .ok (q, h) ∧ NewTask p h fn arg t ∧
      q.slot = Function.update p.slot h (some t) ∧ q.WellFormed ∧
      (p.stateOf h = some .free ∧ q.len = p.len ∨
        h.idx = p.len + 1 ∧ q.len = p.len + 1 ∧ ∀ i, p.stateOf i ≠ some .free) := by
  obtain ⟨l, hl, hmem⟩ := hp.free
  unfold CAsync.allocTask
  by_cases h0 : p.freeTask.idx = 0
  · rw [if_pos h0]
    have hl' := hl
    rw [Handle.link_eq_none.mpr h0, Links.nil_iff] at hl'
    subst hl'
    have hnone : ∀ i, p.stateOf i ≠ some .free := fun i hi =>
      List.not_mem_nil ((hmem i).mpr hi)
    have hnew : p.slot ⟨p.len + 1⟩ = none := slot_eq_none (Nat.lt_succ_self _)
    have hslot := slot_push (p := p)
      { stackBase := some p.len, stackPtr := some .entry, fn := fn, data := arg, state := .init,
        orphaned := false, handle := ⟨p.len + 1⟩ }
      (if p.len = p.cap then p.cap * 2 + 10 else p.cap)
    refine ⟨_, _, _, rfl, ⟨rfl, by simp, rfl, rfl, rfl, rfl, by rw [hnew]; rfl⟩, hslot,
      hp.write hslot (by simp) (fun _ => rfl) ⟨[], ?_, fun i => ?_⟩,
      .inr ⟨rfl, by simp [len], hnone⟩⟩
    · rw [Handle.link_eq_none.mpr h0, Links.nil_iff]
    · rw [stateOf_update hslot]
      by_cases hi : i = ⟨p.len + 1⟩
      · subst hi
        simp
      · rw [Function.update_of_ne hi]
        simpa using hnone i
  · rw [if_neg h0]
    obtain ⟨r, rfl⟩ : ∃ r, l = p.freeTask :: r := by
      rw [Handle.link_eq_some.mpr ⟨rfl, h0⟩] at hl
      cases hl with
      | cons _ => exact ⟨_, rfl⟩
    have hfree := (hmem p.freeTask).mp List.mem_cons_self
    obtain ⟨u, hu, hus⟩ := stateOf_eq_some.mp hfree
    obtain ⟨hpos, hlen⟩ := slot_bounds hu
    have hstack := hp.stack hu
    have hnd := List.nodup_cons.mp hl.nodup
    have hr : Links p.nextFree u.handle.link r := by
      rw [Handle.link_eq_some.mpr ⟨rfl, h0⟩] at hl
      have hnext : p.nextFree p.freeTask = u.handle.link := by
        unfold nextFree
        rw [hu]
        rfl
      rw [← hnext]
      exact hl.tail
    dsimp only
    rw [require_of hpos, ok_bind, require_of hlen, ok_bind, load_slot hu, ok_bind,
      require_of hus, ok_bind, require_of hstack, ok_bind]
    have hslot := slot_setTask (p := { p with freeTask := u.handle }) hu { u with
      state := .init, handle := p.freeTask, fn := fn, data := arg, stackPtr := some .entry }
    refine ⟨_, _, { u with
        state := .init, handle := p.freeTask, fn := fn, data := arg, stackPtr := some .entry },
      rfl, ⟨rfl, hstack, rfl, rfl, rfl, rfl, by rw [hu]; rfl⟩, hslot,
      hp.write hslot hstack (fun _ => rfl) ⟨r, hr.congr fun c hc => ?_, fun i => ?_⟩,
      .inl ⟨hfree, setTask_len⟩⟩
    · exact (nextFree_congr (p := p) hslot (by rintro rfl; exact hnd.1 hc)).symm
    · rw [stateOf_update (p := p) hslot]
      by_cases hi : i = p.freeTask
      · subst hi
        simpa using hnd.1
      · rw [Function.update_of_ne hi]
        refine Iff.trans ?_ (hmem i)
        simp [hi]

end TaskPool

/-! ## 4. Switching -/

/-- `t->stack_ptr = ...`: the task leaves the processor inside `frame`. -/
def Task.suspend (frame : Frame) (t : Task F V) : Task F V := { t with stackPtr := some frame }

/-- `t->state = RUNNING`. -/
def Task.run (t : Task F V) : Task F V := { t with state := .running }

theorem Task.run_eq {t : Task F V} (ht : t.state = .running) : t.run = t := by
  unfold Task.run
  rw [← ht]

/-- **`async_switch` to a task that can run.**  The frame of the task that leaves is saved, if
there is one, and the other task is `RUNNING`; it starts if it was `INIT`. -/
theorem asyncSwitch_eq {S : Type} {s : Runtime S F V} {src dst : Handle} {top : Frame}
    {t : Task F V} (frame : Frame) (hsrc : src.idx = 0 ∨ (s.pool.slot src).isSome)
    (hdst : s.pool.slot dst = some t) (hne : src ≠ dst)
    (hstate : t.state = .init ∨ t.state = .running) (htop : t.stackPtr = some top) :
    ∃ q, asyncSwitch s src dst frame =
        .ok ({ s with pool := q, running := dst },
          if t.state = .init then .entered t.fn t.data else .resumed top) ∧
      q.slot = Function.update
        (Function.update s.pool.slot src ((s.pool.slot src).map (Task.suspend frame)))
        dst (some t.run) ∧
      (s.pool.WellFormed → q.WellFormed) ∧ q.len = s.pool.len := by
  obtain ⟨hpos, -⟩ := TaskPool.slot_bounds hdst
  have hidx : src.idx ≠ dst.idx := fun heq => hne (Handle.eq_of_idx heq)
  have hlive : t.state ≠ .free ∧ t.state ≠ .ready := by
    rcases hstate with h | h <;> rw [h] <;> decide
  -- what is saved, and what it does to a pool that still has the old task in `src`
  obtain ⟨f1, hf1, hsave⟩ : ∃ f1, getTaskOrNull s.pool src = .ok f1 ∧
      ∀ p : TaskPool F V, p.slot src = s.pool.slot src →
        (saveStack p src f1 frame).slot =
            Function.update p.slot src ((p.slot src).map (Task.suspend frame)) ∧
          (p.WellFormed → (saveStack p src f1 frame).WellFormed) ∧
          (saveStack p src f1 frame).len = p.len := by
    unfold getTaskOrNull
    by_cases h0 : src.idx = 0
    · have hnone : ∀ p : TaskPool F V, p.slot src = none := fun p => if_pos h0
      refine ⟨none, if_pos h0, fun p _ => ⟨?_, id, rfl⟩⟩
      rw [hnone p, Option.map_none, Function.update_eq_self_iff.mpr (hnone p).symm]
      rfl
    · obtain ⟨u, hu⟩ := Option.isSome_iff_exists.mp (hsrc.resolve_left h0)
      refine ⟨some u, ?_, fun p hp => ?_⟩
      · rw [if_neg h0, TaskPool.getTask_eq hu, ok_bind]
      · rw [hu] at hp
        rw [hp]
        exact ⟨TaskPool.slot_setTask hp _, fun hw => hw.setTask hp Iff.rfl rfl rfl,
          TaskPool.setTask_len⟩
  unfold asyncSwitch
  rw [require_of (by omega), ok_bind, require_of hidx, ok_bind, hf1, ok_bind,
    TaskPool.getTask_eq hdst, ok_bind, require_of hlive.1, ok_bind, require_of hlive.2, ok_bind]
  split
  · rename_i hnone
    rw [htop] at hnone
    cases hnone
  rename_i top' htop'
  obtain rfl : top = top' := by simpa [htop] using htop'
  by_cases hinit : t.state = .init
  · have hrun := TaskPool.slot_setTask hdst t.run
    obtain ⟨hslot, hwf, hlen⟩ := hsave (s.pool.setTask dst t.run) (by
      rw [hrun, Function.update_of_ne hne])
    rw [if_pos hinit, if_pos hinit]
    refine ⟨_, rfl, ?_, fun hw => hwf (hw.setTask hdst ?_ rfl rfl), ?_⟩
    · exact hslot.trans (by rw [hrun, Function.update_of_ne hne, Function.update_comm hne])
    · simp [Task.run, hinit]
    · exact hlen.trans TaskPool.setTask_len
  · have hrunning := hstate.resolve_left hinit
    obtain ⟨hslot, hwf, hlen⟩ := hsave s.pool rfl
    rw [if_neg hinit, if_neg hinit, Task.run_eq hrunning]
    refine ⟨_, rfl, ?_, hwf, hlen⟩
    rw [hslot, eq_comm, Function.update_eq_self_iff, Function.update_of_ne (Ne.symm hne), hdst]

/-- `async_switch` does not touch the scheduler. -/
theorem asyncSwitch_sched {S : Type} {s t : Runtime S F V} {src dst : Handle} {frame : Frame}
    {c : Control F V} (hok : asyncSwitch s src dst frame = .ok (t, c)) : t.sched = s.sched := by
  unfold asyncSwitch at hok
  obtain ⟨-, -, hok⟩ := bind_eq_ok.mp hok
  obtain ⟨-, -, hok⟩ := bind_eq_ok.mp hok
  obtain ⟨f1, -, hok⟩ := bind_eq_ok.mp hok
  obtain ⟨f2, -, hok⟩ := bind_eq_ok.mp hok
  obtain ⟨-, -, hok⟩ := bind_eq_ok.mp hok
  obtain ⟨-, -, hok⟩ := bind_eq_ok.mp hok
  split at hok
  · cases hok
  · split at hok <;> cases hok <;> rfl

/-- The same, with no task to leave. -/
theorem asyncSwitch_null {S : Type} {s : Runtime S F V} {dst : Handle} {top : Frame}
    {t : Task F V} (frame : Frame) (hdst : s.pool.slot dst = some t)
    (hstate : t.state = .init ∨ t.state = .running) (htop : t.stackPtr = some top) :
    ∃ q, asyncSwitch s ⟨0⟩ dst frame =
        .ok ({ s with pool := q, running := dst },
          if t.state = .init then .entered t.fn t.data else .resumed top) ∧
      q.slot = Function.update s.pool.slot dst (some t.run) ∧
      (s.pool.WellFormed → q.WellFormed) ∧ q.len = s.pool.len := by
  have hne : (⟨0⟩ : Handle) ≠ dst := by
    rintro rfl
    rw [TaskPool.slot_zero] at hdst
    cases hdst
  obtain ⟨q, hok, hslot, hrest⟩ := asyncSwitch_eq frame (.inl rfl) hdst hne hstate htop
  refine ⟨q, hok, ?_, hrest⟩
  have hnone : Function.update s.pool.slot ⟨0⟩ none = s.pool.slot :=
    Function.update_eq_self_iff.mpr TaskPool.slot_zero.symm
  rw [hslot, TaskPool.slot_zero, Option.map_none, hnone]

end CAsync
