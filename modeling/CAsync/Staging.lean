/-
# Where the tasks of a structured program are

`Staged` relates the queue, the slots and the code of the tasks: a task is queued unless it is
blocked in `await`, with its child alive.  It has a step lemma for each way in which a call changes
the queue.

A task that has not started has no code of its own in the machine: its function and its argument
are in its slot.  `codeOf` gives it the code that it will have, the beginning of its body, so that
the plan of `Ledger` speaks of all tasks alike; that starting a task changes nothing in `codeOf`
is why the same lemma covers a task that starts and one that is resumed (`Staged.switch`).

Between `async_call` and the `await` behind it no other task runs, so the child has not started
when its parent waits for it, and nobody else can wait for it (`Staged.called`).  That is what the
scheduler needs of a blocking `await`.

A task is stuck while a child that it polls is alive.  A stuck task that runs does nothing but go
to the back of the queue, and then the first task that is not stuck is nearer to the front
(`rank_rotate`).
-/
import CAsync.Evaluation
import CAsync.View

namespace CAsync

open Function

variable {F V : Type}

/-! ## 1. The invariant -/

/-- The code of every task; a task that has not started is at the beginning of its body. -/
def codeOf (prog : F → V → Body F V) (w : View F V) (code : Handle → Code F V) (i : Handle) :
    Code F V :=
  match w.slot i with
  | .init fn arg => .body (prog fn arg)
  | _ => code i

/-- **The queue and the code of the tasks.** -/
structure Staged (blocking : Prop) (w : View F V) (code : Handle → Code F V) : Prop where
  nodup : w.queue.Nodup
  queued : ∀ {i}, i ∈ w.queue ↔ (w.slot i).Live ∧ ∀ k, w.slot i ≠ .paused (.blocked k)
  running : ∀ {i}, w.slot i = .running ↔ w.queue.head? = some i
  blocked : ∀ {i k}, w.slot i = .paused (.blocked k) →
    blocking ∧ (w.slot k).Live ∧ ∃ freed next, code i = .awaiting k freed next
  awaiting : blocking → ∀ {i k freed next}, (w.slot i).Live → code i = .awaiting k freed next →
    w.slot i = .paused (.blocked k)
  /-- Between `async_call` and `await`, no other task runs. -/
  called : ∀ {i h freed next}, (w.slot i).Live → code i = .called h freed next →
    w.queue.head? = some i ∧ ∃ fn arg, w.slot h = .init fn arg

/-- A slot whose task can be resumed. -/
def Slot.Resumable : Slot F V → Prop
  | .init _ _ => True
  | .paused .skip => True
  | .paused (.busy _) => True
  | _ => False

namespace Slot.Resumable

variable {x : Slot F V}

theorem live (h : x.Resumable) : x.Live := by
  cases x with
  | init fn arg => trivial
  | paused why => trivial
  | free => exact h
  | running => trivial
  | ready data => exact h

theorem not_blocked (h : x.Resumable) (k : Handle) : x ≠ .paused (.blocked k) := by
  rintro rfl
  exact h

end Slot.Resumable

/-- The task that is resumed is at the front. -/
theorem View.Resumes.front {w w' : View F V} {r : Reply F V} (h : w.Resumes r w') :
    ∃ n rest, w.queue = n :: rest ∧ (w.slot n).Resumable ∧ w' = w.run n := by
  cases h with
  | start queue slot => exact ⟨_, _, queue, by rw [slot]; trivial, rfl⟩
  | skip queue slot => exact ⟨_, _, queue, by rw [slot]; trivial, rfl⟩
  | waiting queue slot => exact ⟨_, _, queue, by rw [slot]; trivial, rfl⟩

section

variable {prog : F → V → Body F V} {w w' : View F V} {code : Handle → Code F V} {c i : Handle}

theorem codeOf_init {fn : F} {arg : V} (h : w.slot i = .init fn arg) :
    codeOf prog w code i = .body (prog fn arg) := by
  unfold codeOf
  rw [h]

theorem codeOf_of_ne (h : ∀ fn arg, w.slot i ≠ .init fn arg) : codeOf prog w code i = code i := by
  unfold codeOf
  split
  · rename_i heq
    exact absurd heq (h _ _)
  · rfl

theorem codeOf_congr (h : w'.slot i = w.slot i) {code' : Handle → Code F V}
    (hcode : code' i = code i) : codeOf prog w' code' i = codeOf prog w code i := by
  unfold codeOf
  rw [h, hcode]

/-- A running task goes on. -/
theorem codeOf_goto (hc : w.slot c = .running) (y : Code F V) :
    codeOf prog w (update code c y) = update (codeOf prog w code) c y := by
  funext i
  by_cases hi : i = c
  · subst hi
    rw [codeOf_of_ne (by rw [hc]; simp), update_self, update_self]
  · rw [update_of_ne hi]
    exact codeOf_congr rfl (update_of_ne hi _ _)

/-- A slot that is not `INIT` changes to another that is not. -/
theorem codeOf_slot {x : Slot F V} (hslot : w'.slot = update w.slot c x)
    (hc : ∀ fn arg, w.slot c ≠ .init fn arg) (hx : ∀ fn arg, x ≠ .init fn arg) :
    codeOf prog w' code = codeOf prog w code := by
  funext i
  by_cases hi : i = c
  · subst hi
    rw [codeOf_of_ne hc, codeOf_of_ne]
    rw [hslot, update_self]
    exact hx
  · exact codeOf_congr (by rw [hslot, update_of_ne hi]) rfl

/-- A new task. -/
theorem codeOf_call (h : Handle) (fn : F) (arg : V) : codeOf prog (w.call h fn arg) code =
    update (codeOf prog w code) h (.body (prog fn arg)) := by
  funext i
  by_cases hi : i = h
  · subst hi
    rw [update_self]
    exact codeOf_init (update_self _ _ _)
  · rw [update_of_ne hi]
    exact codeOf_congr (update_of_ne hi _ _) rfl

/-- A task is woken by the end of the running one. -/
theorem codeOf_wake {data : V} (hc : w.slot c = .running) (y : Code F V) :
    codeOf prog (w.wake c data i) (update code i y) = update (codeOf prog w code) i y := by
  have hslot : ∀ {j}, j ≠ i → (w.wake c data i).slot j = update w.slot c (.ready data) j :=
    fun hj => update_of_ne hj _ _
  funext j
  by_cases hji : j = i
  · subst hji
    rw [update_self, codeOf_of_ne, update_self]
    unfold View.wake
    simp
  rw [update_of_ne hji]
  by_cases hjc : j = c
  · subst hjc
    rw [codeOf_of_ne, codeOf_of_ne (by rw [hc]; simp), update_of_ne hji]
    rw [hslot hji, update_self]
    simp
  · exact codeOf_congr (by rw [hslot hji, update_of_ne hjc]) (update_of_ne hji _ _)

end

namespace Staged

variable {blocking : Prop} {w : View F V} {code : Handle → Code F V} {c h i n : Handle}
  {x : Slot F V} {y : Code F V}

theorem queue (hc : w.queue.head? = some c) : w.queue = c :: w.queue.tail := by
  cases hq : w.queue with
  | nil =>
    rw [hq] at hc
    cases hc
  | cons d rest =>
    rw [hq] at hc
    cases hc
    rfl

theorem head_notMem (hs : Staged blocking w code) (hc : w.queue.head? = some c) :
    c ∉ w.queue.tail := by
  have hnd := hs.nodup
  rw [queue hc] at hnd
  exact (List.nodup_cons.mp hnd).1

theorem mem_tail (hc : w.queue.head? = some c) (hi : i ≠ c) :
    i ∈ w.queue.tail ↔ i ∈ w.queue := by
  rw [queue hc, List.tail_cons, List.mem_cons]
  exact (or_iff_right hi).symm

/-! ## 2. What the calls do -/

/-- The running task goes on at `y`. -/
theorem goto (hs : Staged blocking w code) (hc : w.queue.head? = some c)
    (hcalled : ∀ k freed next, y ≠ .called k freed next)
    (hawaiting : blocking → ∀ k freed next, y ≠ .awaiting k freed next) :
    Staged blocking w (update code c y) := by
  have hrun := hs.running.mpr hc
  refine ⟨hs.nodup, hs.queued, hs.running, fun {i k} hi => ?_,
    fun hb {i k freed next} hlive hcode => ?_, fun {i k freed next} hlive hcode => ?_⟩
  · have hne : i ≠ c := by
      rintro rfl
      rw [hrun] at hi
      cases hi
    rw [update_of_ne hne]
    exact hs.blocked hi
  · by_cases hi : i = c
    · subst hi
      rw [update_self] at hcode
      exact absurd hcode (hawaiting hb _ _ _)
    · rw [update_of_ne hi] at hcode
      exact hs.awaiting hb hlive hcode
  · by_cases hi : i = c
    · subst hi
      rw [update_self] at hcode
      exact absurd hcode (hcalled _ _ _)
    · rw [update_of_ne hi] at hcode
      exact hs.called hlive hcode

/-- The running task creates the task `h` and goes on at `y`. -/
theorem call (hs : Staged blocking w code) (hc : w.queue.head? = some c) (hh : w.slot h = .free)
    (fn : F) (arg : V) {b : Body F V} (hcalled : ∀ k freed next, y = .called k freed next → k = h)
    (hawaiting : ∀ k freed next, y ≠ .awaiting k freed next) :
    Staged blocking (w.call h fn arg) (update (update code c y) h (.body b)) := by
  have hrun := hs.running.mpr hc
  have hch : c ≠ h := by
    rintro rfl
    rw [hh] at hrun
    cases hrun
  have hnot : h ∉ w.queue := fun hmem => by
    have hlive := (hs.queued.mp hmem).1
    rw [hh] at hlive
    exact hlive
  have hhead : (w.queue ++ [h]).head? = w.queue.head? := by
    rw [queue hc]
    rfl
  have hslot : ∀ {i}, i ≠ h → (w.call h fn arg).slot i = w.slot i := fun hi => update_of_ne hi _ _
  have hnew : (w.call h fn arg).slot h = .init fn arg := update_self _ _ _
  have hlive : ∀ {k}, (w.slot k).Live → ((w.call h fn arg).slot k).Live := by
    intro k hk
    by_cases hkh : k = h
    · subst hkh
      rw [hnew]
      trivial
    · rwa [hslot hkh]
  refine ⟨?_, fun {i} => ?_, fun {i} => ?_, fun {i k} hi => ?_,
    fun hb {i k freed next} hi hcode => ?_, fun {i k freed next} hi hcode => ?_⟩
  · refine List.nodup_append.mpr ⟨hs.nodup, List.nodup_singleton _, fun a ha b hb => ?_⟩
    rw [List.mem_singleton.mp hb]
    rintro rfl
    exact hnot ha
  · change i ∈ w.queue ++ [h] ↔ _
    rw [List.mem_append, List.mem_singleton]
    by_cases hi : i = h
    · subst hi
      rw [hnew]
      exact iff_of_true (.inr rfl) ⟨trivial, fun k hk => by cases hk⟩
    · rw [hslot hi, or_iff_left hi]
      exact hs.queued
  · change _ ↔ (w.queue ++ [h]).head? = some i
    rw [hhead, ← hs.running]
    by_cases hi : i = h
    · subst hi
      rw [hnew, hh]
      simp
    · rw [hslot hi]
  · have hih : i ≠ h := by
      rintro rfl
      rw [hnew] at hi
      cases hi
    rw [hslot hih] at hi
    have hic : i ≠ c := by
      rintro rfl
      rw [hrun] at hi
      cases hi
    obtain ⟨hb, hk, hcode⟩ := hs.blocked hi
    rw [update_of_ne hih, update_of_ne hic]
    exact ⟨hb, hlive hk, hcode⟩
  · by_cases hih : i = h
    · subst hih
      rw [update_self] at hcode
      cases hcode
    rw [hslot hih] at hi ⊢
    rw [update_of_ne hih] at hcode
    by_cases hic : i = c
    · subst hic
      rw [update_self] at hcode
      exact absurd hcode (hawaiting _ _ _)
    · rw [update_of_ne hic] at hcode
      exact hs.awaiting hb hi hcode
  · by_cases hih : i = h
    · subst hih
      rw [update_self] at hcode
      cases hcode
    rw [hslot hih] at hi
    rw [update_of_ne hih] at hcode
    by_cases hic : i = c
    · subst hic
      rw [update_self] at hcode
      obtain rfl := hcalled _ _ _ hcode
      exact ⟨hhead.trans hc, fn, arg, hnew⟩
    · rw [update_of_ne hic] at hcode
      exact absurd (Option.some.inj ((hs.called hi hcode).1.symm.trans hc)) hic

/-- A finished task is freed. -/
theorem free (hs : Staged blocking w code) {data : V} (hh : w.slot h = .ready data) :
    Staged blocking (w.free h) code := by
  have hslot : ∀ {i}, i ≠ h → (w.free h).slot i = w.slot i := fun hi => update_of_ne hi _ _
  have hfree : (w.free h).slot h = .free := update_self _ _ _
  have hlive : ∀ {k}, ((w.free h).slot k).Live ↔ (w.slot k).Live := by
    intro k
    by_cases hk : k = h
    · subst hk
      rw [hfree, hh]
      exact Iff.rfl
    · rw [hslot hk]
  have hsame : ∀ {k} {x : Slot F V}, x.Live → ((w.free h).slot k = x ↔ w.slot k = x) := by
    intro k x hx
    by_cases hk : k = h
    · subst hk
      rw [hfree, hh]
      constructor
      · rintro rfl
        exact absurd hx id
      · rintro rfl
        exact absurd hx id
    · rw [hslot hk]
  refine ⟨hs.nodup, fun {i} => ?_, fun {i} => ?_, fun {i k} hi => ?_,
    fun hb {i k freed next} hi hcode => ?_, fun {i k freed next} hi hcode => ?_⟩
  · rw [hlive]
    refine hs.queued.trans (and_congr Iff.rfl (forall_congr' fun k => ?_))
    exact not_congr (hsame (x := .paused (.blocked k)) trivial).symm
  · rw [hsame (x := .running) trivial]
    exact hs.running
  · obtain ⟨hb, hk, hcode⟩ := hs.blocked ((hsame (x := .paused (.blocked k)) trivial).mp hi)
    exact ⟨hb, hlive.mpr hk, hcode⟩
  · exact (hsame (x := .paused (.blocked k)) trivial).mpr (hs.awaiting hb (hlive.mp hi) hcode)
  · obtain ⟨hhead, fn, arg, hinit⟩ := hs.called (hlive.mp hi) hcode
    exact ⟨hhead, fn, arg, (hsame (x := .init fn arg) trivial).mpr hinit⟩

/-- **The running task `c` leaves its slot as `x` and its code at `y`**, and the processor goes on
with the task `n` at the front of the queue `l`. -/
theorem switch (hs : Staged blocking w code) (hc : w.queue.head? = some c) {l rest : List Handle}
    (hl : l = n :: rest) (hn : (update w.slot c x n).Resumable) (hnd : l.Nodup)
    (hmem : ∀ i, i ≠ c → (i ∈ l ↔ i ∈ w.queue))
    (hqueued : c ∈ l ↔ x.Live ∧ ∀ k, x ≠ .paused (.blocked k)) (hx : x ≠ .running)
    (hcalled : ∀ k freed next, y ≠ .called k freed next)
    (hblocked : ∀ k, x = .paused (.blocked k) → blocking ∧ k ≠ c ∧ (w.slot k).Live ∧
      ∃ freed next, y = .awaiting k freed next)
    (hawaiting : blocking → x.Live → ∀ k freed next, y = .awaiting k freed next →
      x = .paused (.blocked k))
    (halone : x.Live ∨ ∀ i, w.slot i ≠ .paused (.blocked c)) :
    Staged blocking { queue := l, slot := update (update w.slot c x) n .running }
      (update code c y) := by
  have hrun := hs.running.mpr hc
  have hself : update (update w.slot c x) n .running n = .running := update_self _ _ _
  have hleft : c ≠ n → update (update w.slot c x) n .running c = x := fun hcn => by
    rw [update_of_ne hcn, update_self]
  have hother : ∀ {i}, i ≠ n → i ≠ c → update (update w.slot c x) n .running i = w.slot i :=
    fun hi hic => by rw [update_of_ne hi, update_of_ne hic]
  have hnlive : n ≠ c → (w.slot n).Resumable := fun hnc => by
    rwa [update_of_ne hnc] at hn
  -- tasks other than `c` are alive if they were
  have hstill : ∀ {k}, k ≠ c → (w.slot k).Live →
      (update (update w.slot c x) n .running k).Live := by
    intro k hkc hk
    by_cases hkn : k = n
    · subst hkn
      rw [hself]
      trivial
    · rwa [hother hkn hkc]
  refine ⟨hnd, fun {i} => ?_, fun {i} => ?_, fun {i k} hi => ?_,
    fun hb {i k freed next} hi hcode => ?_, fun {i k freed next} hi hcode => ?_⟩
  · dsimp only
    by_cases hin : i = n
    · subst hin
      rw [hself, hl]
      exact iff_of_true List.mem_cons_self ⟨trivial, fun k hk => by cases hk⟩
    by_cases hic : i = c
    · subst hic
      rw [hleft hin]
      exact hqueued
    · rw [hother hin hic, hmem i hic]
      exact hs.queued
  · dsimp only
    rw [hl, List.head?_cons, Option.some.injEq]
    by_cases hin : i = n
    · subst hin
      rw [hself]
      exact iff_of_true rfl rfl
    refine iff_of_false (fun hi => ?_) fun h => hin h.symm
    by_cases hic : i = c
    · subst hic
      rw [hleft hin] at hi
      exact hx hi
    · rw [hother hin hic, hs.running, hc] at hi
      exact hic (Option.some.inj hi).symm
  · dsimp only at hi ⊢
    have hin : i ≠ n := by
      rintro rfl
      rw [hself] at hi
      cases hi
    by_cases hic : i = c
    · subst hic
      rw [hleft hin] at hi
      obtain ⟨hb, hkc, hk, hcode⟩ := hblocked k hi
      rw [update_self]
      exact ⟨hb, hstill hkc hk, hcode⟩
    · rw [hother hin hic] at hi
      obtain ⟨hb, hk, hcode⟩ := hs.blocked hi
      rw [update_of_ne hic]
      refine ⟨hb, ?_, hcode⟩
      by_cases hkc : k = c
      · subst hkc
        have hxlive := halone.resolve_right fun hno => hno i hi
        by_cases hkn : k = n
        · subst hkn
          rw [hself]
          trivial
        · rwa [hleft hkn]
      · exact hstill hkc hk
  · dsimp only at hi ⊢
    by_cases hic : i = c
    · subst hic
      rw [update_self] at hcode
      by_cases hin : i = n
      · subst hin
        rw [update_self] at hn
        exact absurd (hawaiting hb hn.live _ _ _ hcode) (hn.not_blocked _)
      · rw [hleft hin] at hi ⊢
        exact hawaiting hb hi _ _ _ hcode
    · rw [update_of_ne hic] at hcode
      by_cases hin : i = n
      · subst hin
        have hres := hnlive hic
        exact absurd (hs.awaiting hb hres.live hcode) (hres.not_blocked _)
      · rw [hother hin hic] at hi ⊢
        exact hs.awaiting hb hi hcode
  · dsimp only at hi
    exfalso
    by_cases hic : i = c
    · subst hic
      rw [update_self] at hcode
      exact hcalled _ _ _ hcode
    · rw [update_of_ne hic] at hcode
      have hlive : (w.slot i).Live := by
        by_cases hin : i = n
        · subst hin
          exact (hnlive hic).live
        · rwa [hother hin hic] at hi
      exact hic (Option.some.inj ((hs.called hlive hcode).1.symm.trans hc))

/-- **The running task `c` ends, and `i`, the only one to wait for it, goes on at `y`.** -/
theorem wake (hs : Staged blocking w code) (hc : w.queue.head? = some c) {data : V}
    (hi : w.slot i = .paused (.blocked c)) (honly : ∀ j, w.slot j = .paused (.blocked c) → j = i)
    (hcalled : ∀ k freed next, y ≠ .called k freed next)
    (hawaiting : ∀ k freed next, y ≠ .awaiting k freed next) :
    Staged blocking (w.wake c data i) (update code i y) := by
  have hrun := hs.running.mpr hc
  have hic : i ≠ c := by
    rintro rfl
    rw [hrun] at hi
    cases hi
  have hself : (w.wake c data i).slot i = .running := update_self _ _ _
  have hleft : (w.wake c data i).slot c = .ready data := by
    unfold View.wake
    dsimp only
    rw [update_of_ne (Ne.symm hic), update_self]
  have hother : ∀ {j}, j ≠ i → j ≠ c → (w.wake c data i).slot j = w.slot j := by
    intro j hji hjc
    unfold View.wake
    dsimp only
    rw [update_of_ne hji, update_of_ne hjc]
  have haway : i ∉ w.queue.tail := by
    rw [mem_tail hc hic, hs.queued]
    exact fun h => h.2 _ hi
  refine ⟨?_, fun {j} => ?_, fun {j} => ?_, fun {j k} hj => ?_,
    fun hb {j k freed next} hj hcode => ?_, fun {j k freed next} hj hcode => ?_⟩
  · exact List.nodup_cons.mpr ⟨haway, hs.nodup.tail⟩
  · change j ∈ i :: w.queue.tail ↔ _
    rw [List.mem_cons]
    by_cases hji : j = i
    · subst hji
      rw [hself]
      exact iff_of_true (.inl rfl) ⟨trivial, fun k hk => by cases hk⟩
    rw [or_iff_right hji]
    by_cases hjc : j = c
    · subst hjc
      rw [hleft]
      exact iff_of_false (hs.head_notMem hc) fun h => h.1
    · rw [hother hji hjc, mem_tail hc hjc]
      exact hs.queued
  · change _ ↔ some i = some j
    rw [Option.some.injEq]
    by_cases hji : j = i
    · subst hji
      exact iff_of_true hself rfl
    refine iff_of_false (fun hj => ?_) fun h => hji h.symm
    by_cases hjc : j = c
    · subst hjc
      rw [hleft] at hj
      cases hj
    · rw [hother hji hjc, hs.running, hc] at hj
      exact hjc (Option.some.inj hj).symm
  · have hji : j ≠ i := by
      rintro rfl
      rw [hself] at hj
      cases hj
    have hjc : j ≠ c := by
      rintro rfl
      rw [hleft] at hj
      cases hj
    rw [hother hji hjc] at hj
    obtain ⟨hb, hk, hcode⟩ := hs.blocked hj
    rw [update_of_ne hji]
    refine ⟨hb, ?_, hcode⟩
    by_cases hki : k = i
    · subst hki
      rw [hself]
      trivial
    · have hkc : k ≠ c := by
        rintro rfl
        exact hji (honly j hj)
      rwa [hother hki hkc]
  · by_cases hji : j = i
    · subst hji
      rw [update_self] at hcode
      exact absurd hcode (hawaiting _ _ _)
    rw [update_of_ne hji] at hcode
    by_cases hjc : j = c
    · subst hjc
      rw [hleft] at hj
      exact absurd hj id
    · rw [hother hji hjc] at hj ⊢
      exact hs.awaiting hb hj hcode
  · exfalso
    by_cases hji : j = i
    · subst hji
      rw [update_self] at hcode
      exact hcalled _ _ _ hcode
    rw [update_of_ne hji] at hcode
    by_cases hjc : j = c
    · subst hjc
      rw [hleft] at hj
      exact hj
    · rw [hother hji hjc] at hj
      exact hjc (Option.some.inj ((hs.called hj hcode).1.symm.trans hc))

end Staged

/-! ## 3. Polling -/

/-- The task polls a child that has not finished. -/
def Stuck (w : View F V) (code : Handle → Code F V) (i : Handle) : Prop :=
  ∃ h ∈ (code i).waitsFor, (w.slot h).Live

instance (w : View F V) (code : Handle → Code F V) : DecidablePred (Stuck w code) := fun i =>
  inferInstanceAs (Decidable (∃ h ∈ (code i).waitsFor, (w.slot h).Live))

/-- How many tasks run before one that is not stuck. -/
def rank (w : View F V) (code : Handle → Code F V) : Nat :=
  w.queue.findIdx fun i => ¬ Stuck w code i

/-- **A round of a stuck task brings the others forward.** -/
theorem rank_rotate {w w' : View F V} {code code' : Handle → Code F V} {c : Handle}
    {rest : List Handle} (hqueue : w.queue = c :: rest) (hqueue' : w'.queue = rest ++ [c])
    (hstuck : Stuck w code c) (hleaf : ∃ i ∈ w.queue, ¬ Stuck w code i)
    (hsame : ∀ i, Stuck w' code' i ↔ Stuck w code i) : rank w' code' < rank w code := by
  obtain ⟨i, hi, hnot⟩ := hleaf
  have hrest : i ∈ rest := by
    rw [hqueue] at hi
    refine (List.mem_cons.mp hi).resolve_left ?_
    rintro rfl
    exact hnot hstuck
  have hfind : ∀ l : List Handle, l.findIdx (fun i => ¬ Stuck w' code' i) =
      l.findIdx fun i => ¬ Stuck w code i := fun l => by simp only [hsame]
  have hlt : rest.findIdx (fun i => ¬ Stuck w code i) < rest.length :=
    List.findIdx_lt_length_of_exists ⟨i, hrest, decide_eq_true hnot⟩
  unfold rank
  rw [hfind, hqueue, hqueue', List.findIdx_append, if_pos hlt, List.findIdx_cons,
    decide_eq_false (not_not.mpr hstuck), cond_false]
  exact Nat.lt_succ_self _

end CAsync
