/-
# `await_any` and `await_all`

Both are loops over `poll_state` and `async_skip`.  A pass over the handles makes no switch, so it
is a function of the state that it finds (`awaitAnyPass`, `awaitAllPass`).  Between two passes the
caller is in `async_skip` and the other tasks make any calls (`Skipped`).

`Task.data` is the argument of a task until it returns, and its result from then on.  Section 3
proves that the data of a `READY` task is the value it passed to `async_return`, however long ago
(`ready_returned`), and section 4 that this is what the two loops return.
-/
import CAsync.FreeList
import CAsync.Programs

namespace CAsync

open Faulting TaskPool

variable {F V S : Type}

/-! ## 1. The loops -/

section

variable [SchedulerVTable S]

/-- The `for` loop of `await_any` from `handles[i]` on: the index and the value it returns, if it
finds a task that is `READY`. -/
def awaitAnyPass (s : Runtime S F V) : Nat → List Handle → Except Fault (Option (Nat × V))
  | _, [] => .ok none
  | i, h :: handles => do
    require (h.idx ≠ 0) .awaitNull
    let state ← pollState s h
    if state = .ready then do
      let t ← getTask s.pool h
      .ok (some (i, t.data))
    else awaitAnyPass s (i + 1) handles

/-- The `for` loop of `await_all` from `handles[i]` on: the array `results`, if it is not NULL, and
`succ_cnt`. -/
def awaitAllPass (s : Runtime S F V) :
    Nat → List Handle → Option (List V) → Nat → Except Fault (Option (List V) × Nat)
  | _, [], results, succCnt => .ok (results, succCnt)
  | i, h :: handles, results, succCnt => do
    require (h.idx ≠ 0) .awaitNull
    let state ← pollState s h
    if state = .ready then do
      let t ← getTask s.pool h
      let results := results.map fun r => r.set i t.data
      awaitAllPass s (i + 1) handles results (succCnt + 1)
    else awaitAllPass s (i + 1) handles results succCnt

/-- Without the array a pass only counts; `awaitAllRound` is the pass with a new array. -/
theorem awaitAllPass_none (s : Runtime S F V) (i n : Nat) (handles : List Handle) :
    awaitAllPass s i handles none n = (do
      let results ← awaitAllRound s handles
      .ok (none, n + results.length)) := by
  induction handles generalizing i n with
  | nil => rfl
  | cons h handles ih =>
    unfold awaitAllPass awaitAllRound
    cases require (h.idx ≠ 0) Fault.awaitNull with
    | error e => rfl
    | ok u =>
    cases pollState s h with
    | error e => rfl
    | ok state =>
    dsimp only [ok_bind]
    split
    · cases getTask s.pool h with
      | error e => rfl
      | ok t =>
        dsimp only [ok_bind, Option.map_none]
        rw [ih]
        cases awaitAllRound s handles with
        | error e => rfl
        | ok results =>
          rw [ok_bind, ok_bind, ok_bind, List.length_cons, Nat.add_right_comm, Nat.add_assoc]
    · exact ih (i + 1) n

/-- `async_skip()` of the running task, and what the others do until the processor is back on its
stack. -/
def Skipped (s : Runtime S F V) (l : List (Op F V × Reply F V)) (t : Runtime S F V) : Prop :=
  ∃ r u l', l = (.skip, r) :: l' ∧ Next s (.skip, r) u ∧
    Steps (Guarded fun v _ => v.running ≠ s.running) u l' t ∧ t.running = s.running

/-- `await_any(handles)`, called in one state, returns in another with an index and a value. -/
inductive AwaitAny (handles : List Handle) :
    Runtime S F V → List (Op F V × Reply F V) → Runtime S F V → Nat × V → Prop
  | found {s : Runtime S F V} {x : Nat × V} : awaitAnyPass s 0 handles = .ok (some x) →
      AwaitAny handles s [] s x
  | again {s u t : Runtime S F V} {l l' : List (Op F V × Reply F V)} {x : Nat × V} :
      awaitAnyPass s 0 handles = .ok none → Skipped s l u → AwaitAny handles u l' t x →
      AwaitAny handles s (l ++ l') t x

/-- `await_all(handles, results)`, called in one state, returns in another; the contents of the
array `results` before and after. -/
inductive AwaitAll (handles : List Handle) : Runtime S F V → Option (List V) →
    List (Op F V × Reply F V) → Runtime S F V → Option (List V) → Prop
  | done {s : Runtime S F V} {r r' : Option (List V)} :
      awaitAllPass s 0 handles r 0 = .ok (r', handles.length) → AwaitAll handles s r [] s r'
  | again {s u t : Runtime S F V} {l l' : List (Op F V × Reply F V)} {r r₁ r' : Option (List V)}
      {succCnt : Nat} : awaitAllPass s 0 handles r 0 = .ok (r₁, succCnt) →
      succCnt ≠ handles.length → Skipped s l u → AwaitAll handles u r₁ l' t r' →
      AwaitAll handles s r (l ++ l') t r'

theorem Skipped.steps {s t : Runtime S F V} {l : List (Op F V × Reply F V)} (h : Skipped s l t) :
    Steps Next s l t := by
  obtain ⟨r, u, l', rfl, hskip, hrest, -⟩ := h
  exact .cons hskip (hrest.mono fun _ _ _ => And.left)

theorem AwaitAny.steps {handles : List Handle} {s t : Runtime S F V}
    {l : List (Op F V × Reply F V)} {x : Nat × V} (h : AwaitAny handles s l t x) :
    Steps Next s l t := by
  induction h with
  | found _ => exact .refl _
  | again _ hskip _ ih => exact hskip.steps.append ih

theorem AwaitAll.steps {handles : List Handle} {s t : Runtime S F V}
    {l : List (Op F V × Reply F V)} {r r' : Option (List V)} (h : AwaitAll handles s r l t r') :
    Steps Next s l t := by
  induction h with
  | done _ => exact .refl _
  | again _ _ hskip _ ih => exact hskip.steps.append ih

/-! ## 2. One pass -/

/-- The result of the task in a slot, if it has finished. -/
def TaskPool.result (p : TaskPool F V) (h : Handle) : Option V :=
  (p.slot h).bind fun t => if t.state = .ready then some t.data else none

theorem result_isSome {p : TaskPool F V} {h : Handle} :
    (p.result h).isSome ↔ p.stateOf h = some .ready := by
  unfold TaskPool.result TaskPool.stateOf
  cases hs : p.slot h with
  | none => simp
  | some t =>
    by_cases ht : t.state = .ready
    · simp [ht]
    · simp [ht]

/-- The array after a pass over `handles`, which are at `i` and behind. -/
def storeResults (p : TaskPool F V) : Nat → List Handle → List V → List V
  | _, [], results => results
  | i, h :: handles, results =>
    storeResults p (i + 1) handles ((p.result h).elim results fun v => results.set i v)

/-- What polling a handle finds. -/
theorem pollState_ok {s : Runtime S F V} {h : Handle} {state : State}
    (hpoll : pollState s h = .ok state) : ∃ t, s.pool.slot h = some t ∧ t.state = state := by
  obtain ⟨_, -, hpoll⟩ := bind_eq_ok.mp hpoll
  obtain ⟨_, -, hpoll⟩ := bind_eq_ok.mp hpoll
  obtain ⟨t, ht, hpoll⟩ := bind_eq_ok.mp hpoll
  cases hpoll
  exact ⟨t, getTask_eq_ok.mp ht, rfl⟩

/-- **A pass of `await_any`** finds the first handle that is `READY`. -/
theorem awaitAnyPass_spec {s : Runtime S F V} {o : Option (Nat × V)} :
    ∀ {handles : List Handle} {i : Nat}, awaitAnyPass s i handles = .ok o →
      (o = none ∧ ∀ h ∈ handles, (s.pool.slot h).isSome) ∨
      ∃ k h v, o = some (i + k, v) ∧ handles[k]? = some h ∧ s.pool.result h = some v ∧
        ∀ m h', m < k → handles[m]? = some h' → s.pool.stateOf h' ≠ some .ready
  | [], _, hpass => by
    cases hpass
    exact .inl ⟨rfl, fun h hh => absurd hh List.not_mem_nil⟩
  | h :: handles, i, hpass => by
    obtain ⟨_, -, hpass⟩ := bind_eq_ok.mp hpass
    obtain ⟨state, hpoll, hpass⟩ := bind_eq_ok.mp hpass
    obtain ⟨t, ht, hstate⟩ := pollState_ok hpoll
    split at hpass
    · rename_i hready
      obtain ⟨t', ht', hpass⟩ := bind_eq_ok.mp hpass
      rw [getTask_eq_ok, ht] at ht'
      cases ht'
      cases hpass
      refine .inr ⟨0, h, t.data, rfl, rfl, ?_, fun m _ hm => absurd hm (Nat.not_lt_zero m)⟩
      rw [TaskPool.result, ht, Option.bind_some, if_pos (hstate.trans hready)]
    · rename_i hready
      rcases awaitAnyPass_spec hpass with ⟨ho, hall⟩ | ⟨k, h', v, ho, hk, hv, hfirst⟩
      · refine .inl ⟨ho, fun h' hh' => ?_⟩
        rcases List.mem_cons.mp hh' with rfl | hh'
        · rw [ht]
          rfl
        · exact hall h' hh'
      · refine .inr ⟨k + 1, h', v, by rw [ho, Nat.add_right_comm, Nat.add_assoc], hk, hv, ?_⟩
        rintro (_ | m) h'' hm hh''
        · cases hh''
          rw [stateOf_eq ht, hstate]
          exact fun he => hready (Option.some.inj he)
        · exact hfirst m h'' (Nat.lt_of_succ_lt_succ hm) hh''

/-- **A pass of `await_all`** counts the handles that are `READY`, and stores their results. -/
theorem awaitAllPass_spec {s : Runtime S F V} {r' : Option (List V)} {n' : Nat} :
    ∀ {handles : List Handle} {i n : Nat} {r : Option (List V)},
      awaitAllPass s i handles r n = .ok (r', n') →
      (∀ h ∈ handles, (s.pool.slot h).isSome) ∧ r' = r.map (storeResults s.pool i handles) ∧
        n' = n + handles.countP fun h => (s.pool.result h).isSome
  | [], _, _, _, hpass => by
    cases hpass
    refine ⟨fun h hh => absurd hh List.not_mem_nil, ?_, rfl⟩
    cases r' with
    | none => rfl
    | some r => rfl
  | h :: handles, i, n, r, hpass => by
    obtain ⟨_, -, hpass⟩ := bind_eq_ok.mp hpass
    obtain ⟨state, hpoll, hpass⟩ := bind_eq_ok.mp hpass
    obtain ⟨t, ht, hstate⟩ := pollState_ok hpoll
    have hslots : (∀ h' ∈ handles, (s.pool.slot h').isSome) →
        ∀ h' ∈ h :: handles, (s.pool.slot h').isSome := by
      intro hall h' hh'
      rcases List.mem_cons.mp hh' with rfl | hh'
      · rw [ht]
        rfl
      · exact hall h' hh'
    split at hpass
    · rename_i hready
      obtain ⟨t', ht', hpass⟩ := bind_eq_ok.mp hpass
      rw [getTask_eq_ok, ht] at ht'
      cases ht'
      have hv : s.pool.result h = some t.data := by
        rw [TaskPool.result, ht, Option.bind_some, if_pos (hstate.trans hready)]
      obtain ⟨hall, rfl, rfl⟩ := awaitAllPass_spec hpass
      refine ⟨hslots hall, ?_, ?_⟩
      · rw [Option.map_map]
        cases r with
        | none => rfl
        | some r => simp [storeResults, hv]
      · rw [List.countP_cons, hv, Option.isSome_some, if_pos rfl]
        omega
    · rename_i hready
      have hv : s.pool.result h = none := by
        rw [TaskPool.result, ht, Option.bind_some, if_neg (by rw [hstate]; exact hready)]
      obtain ⟨hall, rfl, rfl⟩ := awaitAllPass_spec hpass
      refine ⟨hslots hall, ?_, ?_⟩
      · cases r with
        | none => rfl
        | some r => simp [storeResults, hv]
      · rw [List.countP_cons, hv, if_neg (by simp), Nat.add_zero]

end

/-- A pass writes behind `i` only. -/
theorem storeResults_before {p : TaskPool F V} {j : Nat} :
    ∀ {handles : List Handle} {i : Nat} {results : List V}, j < i →
      (storeResults p i handles results)[j]? = results[j]?
  | [], _, _, _ => rfl
  | h :: handles, i, results, hj => by
    rw [storeResults, storeResults_before (Nat.lt_succ_of_lt hj)]
    cases p.result h with
    | none => rfl
    | some v => exact List.getElem?_set_ne (Nat.ne_of_gt hj)

/-- The result of each finished task is in its place after a pass. -/
theorem storeResults_at {p : TaskPool F V} {h : Handle} {v : V} (hv : p.result h = some v) :
    ∀ {handles : List Handle} {i k : Nat} {results : List V}, handles[k]? = some h →
      i + handles.length ≤ results.length → (storeResults p i handles results)[i + k]? = some v
  | [], _, _, _, hk, _ => by
    rw [List.getElem?_nil] at hk
    cases hk
  | h' :: handles, i, 0, results, hk, hlen => by
    cases hk
    rw [List.length_cons] at hlen
    rw [Nat.add_zero, storeResults, storeResults_before (Nat.lt_succ_self i), hv]
    exact List.getElem?_set_self (by omega)
  | h' :: handles, i, k + 1, results, hk, hlen => by
    rw [List.length_cons] at hlen
    rw [storeResults, Nat.add_comm k 1, ← Nat.add_assoc]
    refine storeResults_at hv hk ?_
    cases p.result h' with
    | none =>
      rw [Option.elim_none]
      omega
    | some w =>
      rw [Option.elim_some, List.length_set]
      omega

/-! ## 3. The data of a finished task -/

/-- `v` is what the task that has slot `h` after the calls of `l` passed to `async_return`. -/
def Returned [SchedulerVTable S] (s₀ : Runtime S F V) (l : List (Op F V × Reply F V)) (h : Handle)
    (v : V) : Prop :=
  ∃ l₁ r l₂ u, l = l₁ ++ (.ret v, r) :: l₂ ∧ Steps Next s₀ l₁ u ∧ u.running = h ∧
    ∀ x ∈ l₂, x.2 ≠ .handle h

/-- **A task that is `READY` has just returned, or it was `READY` before**, with the same data. -/
theorem Effect.result {s t : Runtime TaskGraph F V} {op : Op F V} {r : Reply F V} {h : Handle}
    {v : V} (hs : Inv s) (heff : Effect s op r t) (hv : t.pool.result h = some v) :
    (op = .ret v ∧ s.running = h) ∨ (s.pool.result h = some v ∧ r ≠ .handle h) := by
  obtain ⟨w, hw, hwv⟩ := Option.bind_eq_some_iff.mp hv
  have hready : w.state = .ready := by
    by_contra hne
    rw [if_neg hne] at hwv
    cases hwv
  rw [if_pos hready, Option.some.injEq] at hwv
  have hresult : ∀ {u : Task F V}, s.pool.slot h = some u → u.state = .ready → u.data = v →
      s.pool.result h = some v := by
    intro u hu hur hud
    rw [TaskPool.result, hu, Option.bind_some, if_pos hur, hud]
  cases heff.slotBefore hs hw (by rw [hready]; decide) with
  | kept same other => exact .inr ⟨hresult same hready hwv, other⟩
  | created _ _ new =>
    rw [new.state] at hready
    cases hready
  | @finished data u f call running after =>
    rcases u.finish_state data f with ⟨-, hdata, -⟩ | hfree
    · rw [← after, hwv] at hdata
      exact .inl ⟨call.trans (congrArg Op.ret hdata.symm), running⟩
    · rw [← after, hready] at hfree
      cases hfree
  | orphaned _ task after other =>
    rw [after] at hready hwv
    exact .inr ⟨hresult task hready hwv, other⟩
  | freed _ after =>
    rw [hready] at after
    cases after

/-- **The data of a `READY` task is what it passed to `async_return`**, in every state of every
run. -/
theorem ready_returned {s₀ s : Runtime Graph F V} {l : List (Op F V × Reply F V)} (h₀ : Start s₀)
    (hs : Steps Next s₀ l s) {h : Handle} {v : V} (hv : s.pool.result h = some v) :
    Returned s₀ l h v := by
  refine hs.history (P := fun l s => ∀ h v, s.pool.result h = some v → Returned s₀ l h v) ?_ ?_ h v
    hv
  · intro h v hv
    obtain ⟨a, ha, hsa⟩ := graphRefines.start h₀
    obtain ⟨mainFn, arg, rfl⟩ := ha.eq_started
    rw [hsa.pool] at hv
    have hready := result_isSome.mp (Option.isSome_iff_exists.mpr ⟨v, hv⟩)
    obtain ⟨t, ht, htr⟩ := stateOf_eq_some.mp hready
    rw [(started_slot mainFn arg ht).2.1] at htr
    cases htr
  · rintro l s ⟨op, r⟩ t hs ih hst h v hv
    obtain ⟨a, b, hsa, htb, ha, heff, -⟩ := Reached.effect ⟨s₀, h₀, hs⟩ hst
    rw [htb.pool] at hv
    rcases heff.result ha hv with ⟨rfl, hrun⟩ | ⟨hv, hr⟩
    · exact ⟨l, r, [], s, rfl, hs, hsa.running.trans hrun, fun _ hx => absurd hx List.not_mem_nil⟩
    · rw [← hsa.pool] at hv
      obtain ⟨l₁, r', l₂, u, rfl, hu, hrun, hl₂⟩ := ih h v hv
      refine ⟨l₁, r', l₂ ++ [(op, r)], u, by rw [List.append_assoc]; rfl, hu, hrun, fun x hx => ?_⟩
      rcases List.mem_append.mp hx with hx | hx
      · exact hl₂ x hx
      · rw [List.mem_singleton.mp hx]
        exact hr

/-! ## 4. The slots while a call waits -/

/-- Slots are never given back. -/
theorem Effect.slot_isSome {s t : Runtime TaskGraph F V} {op : Op F V} {r : Reply F V} {h : Handle}
    (heff : Effect s op r t) (hslot : (s.pool.slot h).isSome) : (t.pool.slot h).isSome := by
  rw [TaskPool.slot_isSome] at hslot ⊢
  rcases heff.len with hlen | ⟨hlen, -⟩
  · rwa [hlen]
  · exact ⟨hslot.1, Nat.le_trans hslot.2 hlen⟩

/-- A slot that is not `FREE` is not given to a new task. -/
theorem Effect.ne_handle {s t : Runtime TaskGraph F V} {op : Op F V} {r : Reply F V} {h : Handle}
    (heff : Effect s op r t) (hslot : (s.pool.slot h).isSome)
    (hfree : s.pool.stateOf h ≠ some .free) : r ≠ .handle h := by
  cases heff with
  | @call fn arg i u t _ _ room =>
    rintro ⟨⟩
    rcases room with ⟨hroom, -⟩ | ⟨hidx, -⟩
    · exact hfree hroom
    · rw [TaskPool.slot_isSome] at hslot
      omega
  | alone => nofun
  | skip => exact Task.resumed_ne_handle _ _
  | await => exact Task.resumed_ne_handle _ _
  | ret => exact Task.resumed_ne_handle _ _
  | wake => nofun
  | orphan => nofun
  | free => nofun
  | poll => nofun

/-- No task of `handles` is freed during the calls of `l` from `s`. -/
def KeptDuring [SchedulerVTable S] (s : Runtime S F V) (l : List (Op F V × Reply F V))
    (handles : List Handle) : Prop :=
  ∀ h ∈ handles, ∀ l₁ l₂ u, l = l₁ ++ l₂ → Steps Next s l₁ u → u.pool.stateOf h ≠ some .free

theorem KeptDuring.nil [SchedulerVTable S] {s : Runtime S F V} {handles : List Handle}
    (hfree : some .free ∉ handles.map s.pool.stateOf) : KeptDuring s [] handles := by
  intro h hh l₁ l₂ u he hu
  obtain ⟨rfl, -⟩ := List.append_eq_nil_iff.mp he.symm
  cases hu
  exact fun hstate => hfree (List.mem_map.mpr ⟨h, hh, hstate⟩)

/-- One call after the other. -/
theorem KeptDuring.cons [SchedulerVTable S] {s u : Runtime S F V} {x : Op F V × Reply F V}
    {l : List (Op F V × Reply F V)} {handles : List Handle}
    (hfree : some .free ∉ handles.map s.pool.stateOf) (hst : Next s x u)
    (hkept : KeptDuring u l handles) : KeptDuring s (x :: l) handles := by
  intro h hh l₁ l₂ v he hv
  cases hv with
  | refl _ => exact fun hstate => hfree (List.mem_map.mpr ⟨h, hh, hstate⟩)
  | cons hst' hv =>
    obtain ⟨rfl, hl⟩ := List.cons.inj he
    obtain rfl := Next.unique hst hst'
    exact hkept h hh _ l₂ v hl hv

/-- So they are the same tasks throughout. -/
theorem KeptDuring.ne_handle {s t : Runtime Graph F V} {l₀ l : List (Op F V × Reply F V)}
    {handles : List Handle} {h : Handle} (hs : Reached l₀ s) (hst : Steps Next s l t)
    (hkept : KeptDuring s l handles) (hh : h ∈ handles) (hslot : (s.pool.slot h).isSome) :
    ∀ x ∈ l, x.2 ≠ .handle h := by
  have hfree := hkept h hh
  clear hkept
  induction hst generalizing l₀ with
  | refl _ => exact fun x hx => absurd hx List.not_mem_nil
  | @cons s u t x l hst hrest ih =>
    obtain ⟨a, b, hsa, htb, -, heff, -⟩ := hs.effect hst
    rw [hsa.pool] at hslot
    have hnow := hfree [] (x :: l) s rfl (.refl s)
    rw [hsa.pool] at hnow
    intro y hy
    rcases List.mem_cons.mp hy with rfl | hy
    · exact heff.ne_handle hslot hnow
    · refine ih (hs.append (.single hst)) ?_ (fun l₁ l₂ v he hv => ?_) y hy
      · rw [htb.pool]
        exact heff.slot_isSome hslot
      · exact hfree (x :: l₁) l₂ v (by rw [he]; rfl) (.cons hst hv)

/-! ## 5. What the loops return -/

theorem storeResults_length {p : TaskPool F V} :
    ∀ {handles : List Handle} {i : Nat} {results : List V},
      (storeResults p i handles results).length = results.length
  | [], _, _ => rfl
  | h :: handles, i, results => by
    rw [storeResults, storeResults_length]
    cases p.result h with
    | none => rfl
    | some v => exact List.length_set

section

variable [SchedulerVTable S] {s t : Runtime S F V} {l : List (Op F V × Reply F V)}
  {handles : List Handle}

/-- If `await_any` waits, the pool has the slots of all handles. -/
theorem AwaitAny.slots {x : Nat × V} (h : AwaitAny handles s l t x) :
    l = [] ∨ ∀ h ∈ handles, (s.pool.slot h).isSome := by
  cases h with
  | found _ => exact .inl rfl
  | again hpass _ _ =>
    rcases awaitAnyPass_spec hpass with ⟨-, hall⟩ | ⟨_, _, _, ho, -⟩
    · exact .inr hall
    · cases ho

/-- The pass that `await_any` returns from. -/
theorem AwaitAny.last {x : Nat × V} (h : AwaitAny handles s l t x) :
    awaitAnyPass t 0 handles = .ok (some x) := by
  induction h with
  | found hpass => exact hpass
  | again _ _ _ ih => exact ih

theorem AwaitAll.slots {r r' : Option (List V)} (h : AwaitAll handles s r l t r') :
    ∀ h ∈ handles, (s.pool.slot h).isSome := by
  cases h with
  | done hpass => exact (awaitAllPass_spec hpass).1
  | again hpass _ _ _ => exact (awaitAllPass_spec hpass).1

/-- The pass that `await_all` returns from: every task has finished, and every result is stored in
it, also those that were stored before. -/
theorem AwaitAll.last {r r' : Option (List V)} (h : AwaitAll handles s r l t r')
    (hr : ∀ rs, r = some rs → handles.length ≤ rs.length) {i : Nat} {k : Handle}
    (hk : handles[i]? = some k) :
    ∃ v, t.pool.result k = some v ∧ ∀ rs, r' = some rs → rs[i]? = some v := by
  induction h with
  | @done s r r' hpass =>
    obtain ⟨-, rfl, hcount⟩ := awaitAllPass_spec hpass
    rw [Nat.zero_add] at hcount
    obtain ⟨v, hv⟩ := Option.isSome_iff_exists.mp
      (List.countP_eq_length.mp hcount.symm k (List.mem_of_getElem? hk))
    refine ⟨v, hv, fun rs hrs => ?_⟩
    obtain ⟨rs₀, hrs₀, rfl⟩ := Option.map_eq_some_iff.mp hrs
    have hstored := storeResults_at (i := 0) hv hk (by rw [Nat.zero_add]; exact hr rs₀ hrs₀)
    rwa [Nat.zero_add] at hstored
  | again hpass _ _ _ ih =>
    obtain ⟨-, rfl, -⟩ := awaitAllPass_spec hpass
    refine ih fun rs hrs => ?_
    obtain ⟨rs₀, hrs₀, rfl⟩ := Option.map_eq_some_iff.mp hrs
    rw [storeResults_length]
    exact hr rs₀ hrs₀

end

/-- After the calls of `l₀` and `l` the task of `h` is `READY`, `v` is what it passed to
`async_return`, and it is the task that had the slot after `l₀`. -/
def ReadyWith [SchedulerVTable S] (s₀ : Runtime S F V) (l₀ l : List (Op F V × Reply F V))
    (t : Runtime S F V) (h : Handle) (v : V) : Prop :=
  t.pool.stateOf h = some .ready ∧ Returned s₀ (l₀ ++ l) h v ∧ ∀ x ∈ l, x.2 ≠ .handle h

/-- **`await_all` and `await_any` return consistent results**, for any list of handles whose tasks
are not freed while the call waits, and whatever the other tasks do between the passes.  When
`await_all` returns, every task is `READY` and every element of the array is what its task passed to
`async_return`; when `await_any` returns `i`, so is the task of `handles[i]` and the value returned,
and no task before it in the list is `READY`. -/
theorem await_many {s₀ s t : Runtime Graph F V} {l₀ l : List (Op F V × Reply F V)}
    {handles : List Handle} (h₀ : Start s₀) (hs : Steps Next s₀ l₀ s)
    (hkept : KeptDuring s l handles) :
    (∀ r r', AwaitAll handles s r l t r' → (∀ rs, r = some rs → handles.length ≤ rs.length) →
      ∀ (i : Nat) h, handles[i]? = some h →
        ∃ v, ReadyWith s₀ l₀ l t h v ∧ ∀ rs, r' = some rs → rs[i]? = some v) ∧
    ∀ i v, AwaitAny handles s l t (i, v) →
      ∃ h, handles[i]? = some h ∧ ReadyWith s₀ l₀ l t h v ∧
        ∀ (j : Nat) k, j < i → handles[j]? = some k → t.pool.stateOf k ≠ some .ready := by
  have hready : ∀ {h v}, Steps Next s l t → t.pool.result h = some v →
      (∀ x ∈ l, x.2 ≠ .handle h) → ReadyWith s₀ l₀ l t h v := fun hrun hv hsame =>
    ⟨result_isSome.mp (Option.isSome_iff_exists.mpr ⟨_, hv⟩),
      ready_returned h₀ (hs.append hrun) hv, hsame⟩
  refine ⟨fun r r' hall hlen i h hi => ?_, fun i v hany => ?_⟩
  · obtain ⟨v, hv, hstored⟩ := hall.last hlen hi
    have hmem := List.mem_of_getElem? hi
    exact ⟨v, hready hall.steps hv
      (hkept.ne_handle ⟨s₀, h₀, hs⟩ hall.steps hmem (hall.slots h hmem)), hstored⟩
  · rcases awaitAnyPass_spec hany.last with ⟨ho, -⟩ | ⟨k, h, w, ho, hk, hv, hfirst⟩
    · cases ho
    · rw [Nat.zero_add] at ho
      cases ho
      refine ⟨h, hk, hready hany.steps hv ?_, hfirst⟩
      rcases hany.slots with rfl | hslots
      · exact fun x hx => absurd hx List.not_mem_nil
      · have hmem := List.mem_of_getElem? hk
        exact hkept.ne_handle ⟨s₀, h₀, hs⟩ hany.steps hmem (hslots h hmem)

/-- `main` calls two tasks and waits for them.  The first returns 5 and the second goes on, so
`await_any` returns, and `await_all` stores the 5 in its second pass and the 6 in its third. -/
theorem await_many_two : ∃ (s₀ s t t' : Runtime Graph Nat Nat)
    (l₀ l l' : List (Op Nat Nat × Reply Nat Nat)), Start s₀ ∧ Steps Next s₀ l₀ s ∧
    AwaitAny [⟨3⟩, ⟨2⟩] s l t (1, 5) ∧ ReadyWith s₀ l₀ l t ⟨2⟩ 5 ∧
    t.pool.stateOf ⟨3⟩ ≠ some .ready ∧
    awaitAllPass t 0 [⟨2⟩, ⟨3⟩] (some [0, 0]) 0 = .ok (some [5, 0], 1) ∧
    AwaitAll [⟨2⟩, ⟨3⟩] s (some [0, 0]) l' t' (some [5, 6]) ∧
    ReadyWith s₀ l₀ l' t' ⟨2⟩ 5 ∧ ReadyWith s₀ l₀ l' t' ⟨3⟩ 6 := by
  obtain ⟨s₀, s, a, b, t, c, t', h₀, hs, ⟨hsa, hab, hbt, hs1, ha2, hb3, ht1⟩, ⟨htc, hct, hc3, ht'1⟩,
      ⟨hany, hfound⟩, ⟨hfirst, hsecond, hlast⟩, ⟨hks, hka, hkb⟩, hkt, hkc, hkt'⟩ :
      ∃ s₀ s a b t c t' : Runtime Graph Nat Nat, Start s₀ ∧
      Steps Next s₀ [(.call 7 0, .handle ⟨2⟩), (.call 8 0, .handle ⟨3⟩)] s ∧
      (Next s (.skip, .start 7 0) a ∧ Next a (.ret 5, .start 8 0) b ∧ Next b (.skip, .skip) t ∧
        s.running = ⟨1⟩ ∧ a.running = ⟨2⟩ ∧ b.running = ⟨3⟩ ∧ t.running = ⟨1⟩) ∧
      (Next t (.skip, .skip) c ∧ Next c (.ret 6, .skip) t' ∧ c.running = ⟨3⟩ ∧
        t'.running = ⟨1⟩) ∧
      (awaitAnyPass s 0 [⟨3⟩, ⟨2⟩] = .ok none ∧
        awaitAnyPass t 0 [⟨3⟩, ⟨2⟩] = .ok (some (1, 5))) ∧
      (awaitAllPass s 0 [⟨2⟩, ⟨3⟩] (some [0, 0]) 0 = .ok (some [0, 0], 0) ∧
        awaitAllPass t 0 [⟨2⟩, ⟨3⟩] (some [0, 0]) 0 = .ok (some [5, 0], 1) ∧
        awaitAllPass t' 0 [⟨2⟩, ⟨3⟩] (some [5, 0]) 0 = .ok (some [5, 6], 2)) ∧
      ([⟨3⟩, ⟨2⟩].map s.pool.stateOf = [some .init, some .init] ∧
        [⟨3⟩, ⟨2⟩].map a.pool.stateOf = [some .init, some .running] ∧
        [⟨3⟩, ⟨2⟩].map b.pool.stateOf = [some .running, some .ready]) ∧
      [⟨3⟩, ⟨2⟩].map t.pool.stateOf = [some .running, some .ready] ∧
      [⟨3⟩, ⟨2⟩].map c.pool.stateOf = [some .running, some .ready] ∧
      [⟨3⟩, ⟨2⟩].map t'.pool.stateOf = [some .ready, some .ready] := by
    exact ⟨_, _, _, _, _, _, _, ⟨0, 0, rfl⟩, .cons rfl (.single rfl),
      ⟨rfl, rfl, rfl, rfl, rfl, rfl, rfl⟩, ⟨rfl, rfl, rfl, rfl⟩, ⟨rfl, rfl⟩, ⟨rfl, rfl, rfl⟩,
      ⟨rfl, rfl, rfl⟩, rfl, rfl, rfl⟩
  have hskip : Skipped s [(.skip, .start 7 0), (.ret 5, .start 8 0), (.skip, .skip)] t := by
    have haway : a.running ≠ s.running ∧ b.running ≠ s.running := by
      rw [ha2, hb3, hs1]
      decide
    exact ⟨_, a, _, rfl, hsa, .cons ⟨hab, haway.1⟩ (.single ⟨hbt, haway.2⟩), ht1.trans hs1.symm⟩
  have hskip' : Skipped t [(.skip, .skip), (.ret 6, .skip)] t' := by
    have haway : c.running ≠ t.running := by
      rw [hc3, ht1]
      decide
    exact ⟨_, c, _, rfl, htc, .single ⟨hct, haway⟩, ht'1.trans ht1.symm⟩
  have hawaitAny := AwaitAny.again hany hskip (.found hfound)
  have hawaitAll := AwaitAll.again hfirst (by decide) hskip
    (.again hsecond (by decide) hskip' (.done hlast))
  have hkept : KeptDuring s [(.skip, .start 7 0), (.ret 5, .start 8 0), (.skip, .skip)]
      [⟨3⟩, ⟨2⟩] :=
    .cons (by rw [hks]; decide) hsa (.cons (by rw [hka]; decide) hab
      (.cons (by rw [hkb]; decide) hbt (.nil (by rw [hkt]; decide))))
  have hkept' : KeptDuring s [(.skip, .start 7 0), (.ret 5, .start 8 0), (.skip, .skip),
      (.skip, .skip), (.ret 6, .skip)] [⟨3⟩, ⟨2⟩] :=
    .cons (by rw [hks]; decide) hsa (.cons (by rw [hka]; decide) hab
      (.cons (by rw [hkb]; decide) hbt (.cons (by rw [hkt]; decide) htc
        (.cons (by rw [hkc]; decide) hct (.nil (by rw [hkt']; decide))))))
  obtain ⟨h, hh, hready, hnone⟩ := (await_many h₀ hs hkept).2 1 5 hawaitAny
  cases hh
  have hstored := (await_many h₀ hs fun h hh => hkept' h (List.mem_reverse.mp hh)).1 _ _ hawaitAll
    fun rs hrs => by cases hrs; decide
  obtain ⟨v, hv, hv5⟩ := hstored 0 ⟨2⟩ rfl
  obtain ⟨w, hw, hw6⟩ := hstored 1 ⟨3⟩ rfl
  cases hv5 _ rfl
  cases hw6 _ rfl
  exact ⟨s₀, s, t, t', _, _, _, h₀, hs, hawaitAny, hready, hnone 0 ⟨3⟩ Nat.one_pos rfl, hsecond,
    hawaitAll, hv, hw⟩

end CAsync
