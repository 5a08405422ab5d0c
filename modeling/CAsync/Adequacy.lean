/-
# Structured programs are adequate

A structured program over a cooperative scheduler reaches the `async_return` of `main`, with the
value that it has sequentially, and no assertion fails on the way.

**The invariant: `Good`.**  It has three parts, from three modules that know nothing of each
other: the runtime has a view, as a cooperative scheduler promises (`View`); the code of the tasks
keeps to a plan (`Sound`, in `Ledger`); and the queue is that of the code (`Staged`, in
`Staging`).  Each step of the machine is a step of each part, so its lemma here is mostly the
three lemmas of the parts.

**The measure** is a pair, in the lexicographic order (`Advances`):

* the work that the tasks have left, of which the plan has a number for each task that is alive; it
  goes down with every step that does something for the program, also with `async_call`, since the
  work of the caller includes that of the new task;
* and the number of stuck tasks at the front of the queue (`rank`).  A task that polls a child
  which is still alive does nothing but go to the back of the queue, so its step leaves the first
  number as it is.  But there is a task that is not stuck, the youngest (`exists_leaf`), and it
  comes nearer to the front.

So every step of the machine passes its assertions, and ends the process with the value of `main`
or has less to do (`Good.step`); the run is an induction on the pair (`Good.run`).

Schedulers differ in who gets stuck: `await_all` polls over each of them, and `await` over those
that do not block.  Both schedulers of the library are cooperative, so the result holds of both
(`structured_adequate`).
-/
import CAsync.GraphView
import CAsync.Ledger
import CAsync.ListView
import CAsync.Staging

namespace CAsync

open Faulting Function

variable {A F V : Type} [SchedulerVTable A]

/-- **The invariant of the run of a structured program** whose `main` returns `v`. -/
structure Good (C : Cooperative A) (prog : F → V → Body F V) (v : V) (m : Machine A F V)
    (w : View F V) (g : Ledger V) : Prop where
  models : C.Models m.lib w
  sound : Sound prog w.lives (codeOf prog w m.code) v g
  staged : Staged C.blocking w (codeOf prog w m.code)

/-- A step of the machine after which there is less to do. -/
def Advances (C : Cooperative A) (prog : F → V → Body F V) (v : V) (m : Machine A F V)
    (w : View F V) (g : Ledger V) : Prop :=
  ∃ m' w' g', m.step prog = .ok (.next m') ∧ Good C prog v m' w' g' ∧
    (g'.total < g.total ∨ g'.total = g.total ∧
      rank w' (codeOf prog w' m'.code) < rank w (codeOf prog w m.code))

/-- The task that is resumed gets its code. -/
theorem View.Resumes.deliver {S : Type} (prog : F → V → Body F V) {w w' : View F V}
    {r : Reply F V} (h : w.Resumes r w') {t : Runtime S F V}
    (hfront : w'.queue.head? = some t.running) (code : Handle → Code F V) : ∃ code',
      Machine.deliver prog { lib := t, code := code } r = .ok { lib := t, code := code' } ∧
        codeOf prog w' code' = codeOf prog w code := by
  have hrun : ∀ {n rest}, w.queue = n :: rest → (w.run n).queue.head? = some t.running →
      t.running = n := by
    intro n rest hq hhead
    change w.queue.head? = _ at hhead
    rw [hq] at hhead
    exact (Option.some.inj hhead).symm
  cases h with
  | @start n rest fn arg queue slot =>
    have hn := hrun queue hfront
    refine ⟨update code n (.body (prog fn arg)), ?_, ?_⟩
    · unfold Machine.deliver Machine.goto
      dsimp only
      rw [hn]
    · funext i
      by_cases hi : i = n
      · subst hi
        rw [codeOf_init slot, codeOf_of_ne, update_self]
        unfold View.run
        simp
      · exact codeOf_congr (update_of_ne hi _ _) (update_of_ne hi _ _)
  | @skip n rest queue slot =>
    exact ⟨code, rfl, codeOf_slot rfl (by rw [slot]; simp) (by simp)⟩
  | @waiting n h rest queue slot =>
    exact ⟨code, rfl, codeOf_slot rfl (by rw [slot]; simp) (by simp)⟩

/-- A round of `await_all`: it has the values of the tasks that have finished. -/
theorem Cooperative.awaitAllRound (C : Cooperative A) {s : Runtime A F V} {w : View F V}
    (hs : C.Models s w) (value : Handle → V) {handles : List Handle}
    (hlife : ∀ h ∈ handles, (w.slot h).Live ∨ w.slot h = .ready (value h)) :
    ∃ results, awaitAllRound s handles = .ok results ∧ results.length ≤ handles.length ∧
      ((∃ h ∈ handles, (w.slot h).Live) → results.length < handles.length) ∧
      ((∀ h ∈ handles, ¬ (w.slot h).Live) → results = handles.map value) := by
  induction handles with
  | nil =>
    exact ⟨[], rfl, Nat.le_refl _, fun ⟨h, hh, _⟩ => absurd hh List.not_mem_nil, fun _ => rfl⟩
  | cons h handles ih =>
    obtain ⟨results, hok, hle, hlt, hall⟩ :=
      ih fun k hk => hlife k (List.mem_cons_of_mem _ hk)
    have hfree : w.slot h ≠ .free := by
      intro hfree
      have hh := hlife h List.mem_cons_self
      rw [hfree] at hh
      rcases hh with hh | hh <;> cases hh
    obtain ⟨hidx, st, u, hpoll, hget, hlive, hdata⟩ := C.poll hs hfree
    have hround : CAsync.awaitAllRound s (h :: handles) =
        .ok (if st = .ready then u.data :: results else results) := by
      unfold CAsync.awaitAllRound
      rw [require_of hidx, ok_bind, hpoll, ok_bind]
      by_cases hst : st = .ready
      · rw [if_pos hst, if_pos hst, hget, ok_bind, hok, ok_bind]
      · rw [if_neg hst, if_neg hst, hok]
    refine ⟨_, hround, ?_, ?_, ?_⟩
    · split
      · exact Nat.succ_le_succ hle
      · exact Nat.le_succ_of_le hle
    · rintro ⟨k, hk, hklive⟩
      rcases List.mem_cons.mp hk with rfl | hk
      · rw [if_neg (hlive hklive)]
        exact Nat.lt_succ_of_le hle
      · have hlt' := hlt ⟨k, hk, hklive⟩
        split
        · exact Nat.succ_lt_succ hlt'
        · exact Nat.lt_succ_of_lt hlt'
    · intro hnone
      have hready := (hlife h List.mem_cons_self).resolve_left (hnone h List.mem_cons_self)
      obtain ⟨hst, hd⟩ := hdata _ hready
      rw [if_pos hst, hd, hall fun k hk => hnone k (List.mem_cons_of_mem _ hk)]
      rfl

namespace Good

variable {C : Cooperative A} {prog : F → V → Body F V} {v : V} {m : Machine A F V} {w : View F V}
  {g : Ledger V}

/-! ## 1. The running task -/

theorem head (hg : Good C prog v m w g) : w.queue.head? = some m.lib.running :=
  C.running hg.models

theorem running (hg : Good C prog v m w g) : w.slot m.lib.running = .running :=
  hg.staged.running.mpr hg.head

theorem code (hg : Good C prog v m w g) :
    codeOf prog w m.code m.lib.running = m.code m.lib.running :=
  codeOf_of_ne (by rw [hg.running]; simp)

theorem alive (hg : Good C prog v m w g) : m.lib.running ∈ g.alive := by
  rw [hg.sound.alive]
  unfold View.lives
  rw [hg.running]
  rfl

theorem lives_live (hg : Good C prog v m w g) :
    update w.lives m.lib.running .live = w.lives := by
  refine Function.update_eq_self_iff.mpr ?_
  unfold View.lives
  rw [hg.running]
  rfl

theorem does (hg : Good C prog v m w g) :
    Does prog g.value (m.code m.lib.running) (g.value m.lib.running) (g.work m.lib.running) := by
  rw [← hg.code]
  exact hg.sound.does hg.alive

theorem mem_alive (hg : Good C prog v m w g) {i : Handle} : i ∈ g.alive ↔ (w.slot i).Live :=
  hg.sound.alive.trans Slot.life_eq_live

/-- The slot of a child. -/
theorem child_slot (hg : Good C prog v m w g) {i k : Handle} (hi : i ∈ g.alive)
    (hk : k ∈ (codeOf prog w m.code i).children) :
    (w.slot k).Live ∨ w.slot k = .ready (g.value k) := by
  by_cases hlive : k ∈ g.alive
  · exact .inl (hg.mem_alive.mp hlive)
  · exact .inr (Slot.life_eq_done.mp (hg.sound.child_done hi hk hlive))

/-- **Some queued task is not stuck.** -/
theorem exists_leaf (hg : Good C prog v m w g) :
    ∃ i ∈ w.queue, ¬ Stuck w (codeOf prog w m.code) i := by
  obtain ⟨i, hi, hleaf⟩ := hg.sound.exists_leaf
  refine ⟨i, hg.staged.queued.mpr ⟨hg.mem_alive.mp hi, fun k hk => ?_⟩, ?_⟩
  · obtain ⟨-, hlive, freed, next, hcode⟩ := hg.staged.blocked hk
    exact hleaf k (by rw [hcode]; exact List.mem_cons_self) (hg.mem_alive.mpr hlive)
  · rintro ⟨k, hk, hlive⟩
    exact hleaf k (Code.waitsFor_children hk) (hg.mem_alive.mpr hlive)

/-! ## 2. Steps that do not switch -/

/-- The running task goes on at `y`, after a call that leaves the view as it is. -/
theorem goto (hg : Good C prog v m w g) {t : Runtime A F V} (hmodels : C.Models t w)
    {y : Code F V} {n : Nat} (hdoes : Does prog g.value y (g.value m.lib.running) n)
    (hnd : y.children.Nodup)
    (hsub : ∀ k ∈ y.children, k ∈ (m.code m.lib.running).children)
    (hkeep : ∀ k ∈ (m.code m.lib.running).children, (w.slot k).Live → k ∈ y.children)
    (hfree : ∀ handles b, y = .freeing handles b → ∀ k ∈ handles, ¬ (w.slot k).Live)
    (hcalled : ∀ k freed next, y ≠ .called k freed next)
    (hawaiting : ∀ k freed next, y ≠ .awaiting k freed next) :
    Good C prog v { lib := t, code := update m.code m.lib.running y } w
      (g.goto m.lib.running n) := by
  rw [← hg.code] at hsub hkeep
  have hcode : codeOf prog w (update m.code m.lib.running y) =
      update (codeOf prog w m.code) m.lib.running y := codeOf_goto hg.running y
  refine ⟨hmodels, ?_, ?_⟩
  · rw [hcode]
    refine hg.sound.goto hg.alive hdoes hnd hsub (fun k hk hlive => hkeep k hk
      (hg.mem_alive.mp hlive)) fun handles b hy k hk => ?_
    have hchild : k ∈ (codeOf prog w m.code m.lib.running).children := by
      refine hsub k ?_
      rw [hy]
      exact hk
    exact ⟨_, hg.sound.child_done hg.alive hchild fun hlive =>
      hfree handles b hy k hk (hg.mem_alive.mp hlive)⟩
  · rw [hcode]
    exact hg.staged.goto hg.head hcalled fun _ => hawaiting

/-- Less work for the running task is less work. -/
theorem total_lt (hg : Good C prog v m w g) {n : Nat} (hn : n < g.work m.lib.running) :
    (g.goto m.lib.running n).total < g.total := by
  have htotal := Ledger.total_goto hg.alive n
  omega

/-- The running task creates a task with the value `u`, and goes on at `y`. -/
theorem create (hg : Good C prog v m w g) {fn : F} {arg u : V} {k n : Nat}
    {y : Handle → Code F V} (hbody : Evaluates prog (prog fn arg) u k)
    (hchildren : ∀ h, (y h).children = (m.code m.lib.running).children ++ [h])
    (hdoes : ∀ h, h ∉ (m.code m.lib.running).children →
      Does prog (update g.value h u) (y h) (g.value m.lib.running) n)
    (hfree : ∀ h handles b, y h ≠ .freeing handles b)
    (hcalled : ∀ h k freed next, y h = .called k freed next → k = h)
    (hawaiting : ∀ h k freed next, y h ≠ .awaiting k freed next) :
    ∃ m' w' g', m.create fn arg y = .ok (.next m') ∧ Good C prog v m' w' g' ∧
      g'.total + g.work m.lib.running = g.total + k + n := by
  obtain ⟨h, t, hok, hslot, hmodels⟩ := C.call hg.models fn arg
  rw [← hg.code] at hchildren hdoes
  have hnone : w.lives h = .none := Slot.life_eq_none.mpr hslot
  have hnot : h ∉ g.alive := fun hmem => by
    have hlive := hg.mem_alive.mp hmem
    rw [hslot] at hlive
    exact hlive
  have hne : m.lib.running ≠ h := by
    rintro heq
    exact hnot (heq ▸ hg.alive)
  have hcode : codeOf prog (w.call h fn arg) (update m.code m.lib.running (y h)) =
      update (update (codeOf prog w m.code) m.lib.running (y h)) h (.body (prog fn arg)) := by
    rw [codeOf_call, codeOf_goto hg.running]
  refine ⟨{ lib := t, code := update m.code m.lib.running (y h) }, w.call h fn arg,
    (g.call h u k).goto m.lib.running n, ?_, ⟨hmodels, ?_, ?_⟩, ?_⟩
  · unfold Machine.create Machine.goto
    rw [hok]
    rfl
  · rw [hcode, View.lives_call]
    exact hg.sound.call hg.alive hnone hbody (hchildren h)
      (hdoes h fun hmem => hg.sound.child_ne_none hg.alive hmem hnone) (hfree h)
  · rw [hcode]
    exact hg.staged.call hg.head hslot fn arg (hcalled h) (hawaiting h)
  · have htotal := Ledger.total_goto (g := g.call h u k)
      (Finset.mem_insert_of_mem hg.alive) n
    have hwork : (g.call h u k).work m.lib.running = g.work m.lib.running :=
      update_of_ne hne _ _
    rw [hwork, Ledger.total_call hnot] at htotal
    exact htotal

/-- The running task frees its first child. -/
theorem release (hg : Good C prog v m w g) {h : Handle} {handles : List Handle} {b : Body F V}
    (hcode : m.code m.lib.running = .freeing (h :: handles) b) : Advances C prog v m w g := by
  have hcode' := hg.code.trans hcode
  obtain ⟨data, hdone⟩ := hg.sound.freeing hg.alive hcode' List.mem_cons_self
  have hready : w.slot h = .ready data := Slot.life_eq_done.mp hdone
  obtain ⟨t, hok, hmodels⟩ := C.free hg.models hready
  obtain ⟨n, hn, hsound⟩ := hg.sound.free hg.alive hcode'
  have hcode'' : codeOf prog (w.free h) (update m.code m.lib.running (.freeing handles b)) =
      update (codeOf prog w m.code) m.lib.running (.freeing handles b) := by
    rw [codeOf_slot (w := w) (x := .free) rfl (by rw [hready]; simp) (by simp),
      codeOf_goto hg.running]
  refine ⟨{ lib := t, code := update m.code m.lib.running (.freeing handles b) }, w.free h,
    g.goto m.lib.running n, ?_, ⟨hmodels, ?_, ?_⟩, .inl (hg.total_lt hn)⟩
  · unfold Machine.step
    rw [hcode]
    dsimp only
    unfold Machine.release Machine.goto
    rw [hok]
    rfl
  · rw [hcode'', View.lives_free]
    exact hsound
  · rw [hcode'']
    exact (hg.staged.free hready).goto hg.head (fun _ _ _ h => by cases h)
      fun _ _ _ _ h => by cases h

/-! ## 3. Steps that switch -/

/-- **A call after which the processor goes on with the front of the queue `l`**; the running task
leaves its slot as `x` and its code at `y`. -/
theorem switch (hg : Good C prog v m w g) {op : Op F V} {x : Slot F V} {y : Code F V}
    {l : List Handle} {t : Runtime A F V} {r : Reply F V} {w' : View F V} {g' : Ledger V}
    (hok : step m.lib op = .ok (.next t r)) (hmodels : C.Models t w')
    (hres : View.Resumes { queue := l, slot := update w.slot m.lib.running x } r w')
    (hsound : Sound prog (update w.lives m.lib.running x.life)
      (update (codeOf prog w m.code) m.lib.running y) v g')
    (hl : l = w.queue.tail ∧ ¬ (x.Live ∧ ∀ k, x ≠ .paused (.blocked k)) ∨
      l = w.queue.tail ++ [m.lib.running] ∧ x.Live ∧ ∀ k, x ≠ .paused (.blocked k))
    (hinit : ∀ fn arg, x ≠ .init fn arg) (hx : x ≠ .running)
    (hcalled : ∀ k freed next, y ≠ .called k freed next)
    (hblocked : ∀ k, x = .paused (.blocked k) → C.blocking ∧ k ≠ m.lib.running ∧
      (w.slot k).Live ∧ ∃ freed next, y = .awaiting k freed next)
    (hawaiting : C.blocking → x.Live → ∀ k freed next, y = .awaiting k freed next →
      x = .paused (.blocked k))
    (halone : x.Live ∨ ∀ i, w.slot i ≠ .paused (.blocked m.lib.running)) :
    ∃ m', m.switch prog op y = .ok (.next m') ∧ Good C prog v m' w' g' ∧
      codeOf prog w' m'.code = update (codeOf prog w m.code) m.lib.running y ∧
      w'.queue = l ∧ w'.lives = update w.lives m.lib.running x.life := by
  obtain ⟨n, rest, hfront, hn, rfl⟩ := hres.front
  dsimp only at hfront hn
  obtain ⟨code', hdeliver, hcode'⟩ := hres.deliver prog (C.running hmodels)
    (update m.code m.lib.running y)
  have hcode : codeOf prog
      (View.run { queue := l, slot := update w.slot m.lib.running x } n) code' =
      update (codeOf prog w m.code) m.lib.running y := by
    rw [hcode', codeOf_slot (w := w) rfl (by rw [hg.running]; simp) hinit, codeOf_goto hg.running]
  have hlives : (View.run { queue := l, slot := update w.slot m.lib.running x } n).lives =
      update w.lives m.lib.running x.life := by
    funext i
    unfold View.lives View.run
    dsimp only
    by_cases hi : i = n
    · subst hi
      have hlive := Slot.life_eq_live.mpr hn.live
      rw [update_self]
      by_cases hic : i = m.lib.running
      · subst hic
        rw [update_self] at hlive ⊢
        exact hlive.symm
      · rw [update_of_ne hic] at hlive ⊢
        exact hlive.symm
    · rw [update_of_ne hi]
      by_cases hic : i = m.lib.running
      · subst hic
        rw [update_self, update_self]
      · rw [update_of_ne hic, update_of_ne hic]
  have hmem : ∀ i, i ≠ m.lib.running → (i ∈ l ↔ i ∈ w.queue) := by
    intro i hi
    rw [← Staged.mem_tail hg.head hi]
    rcases hl with ⟨rfl, -⟩ | ⟨rfl, -⟩
    · exact Iff.rfl
    · rw [List.mem_append, List.mem_singleton]
      exact or_iff_left hi
  have hnot := hg.staged.head_notMem hg.head
  refine ⟨{ lib := t, code := code' }, ?_, ⟨hmodels, ?_, ?_⟩, hcode, rfl, hlives⟩
  · have hdeliver' : Machine.deliver prog { m.goto y with lib := t } r =
        .ok { lib := t, code := code' } := hdeliver
    unfold Machine.switch
    rw [hok, ok_bind]
    dsimp only
    rw [hdeliver', ok_bind]
  · rw [hcode, hlives]
    exact hsound
  · rw [hcode]
    refine hg.staged.switch hg.head hfront hn ?_ hmem ?_ hx hcalled hblocked hawaiting halone
    · rcases hl with ⟨rfl, -⟩ | ⟨rfl, -⟩
      · exact hg.staged.nodup.tail
      · refine List.nodup_append.mpr ⟨hg.staged.nodup.tail, List.nodup_singleton _,
          fun a ha b hb => ?_⟩
        rw [List.mem_singleton.mp hb]
        rintro rfl
        exact hnot ha
    · rcases hl with ⟨rfl, hno⟩ | ⟨rfl, hyes⟩
      · exact iff_of_false hnot hno
      · exact iff_of_true (List.mem_append_right _ List.mem_cons_self) hyes

/-- The running task goes to the back of the queue, and will go on at `y`. -/
theorem rotate (hg : Good C prog v m w g) {op : Op F V} {y : Code F V} {why : Pause} {n : Nat}
    (hskip : ∃ t r w', step m.lib op = .ok (.next t r) ∧
      (w.rotate m.lib.running why).Resumes r w' ∧ C.Models t w')
    (hwhy : ∀ k, why ≠ .blocked k) (hdoes : Does prog g.value y (g.value m.lib.running) n)
    (hchildren : y.children = (m.code m.lib.running).children)
    (hfree : ∀ handles b, y ≠ .freeing handles b)
    (hcalled : ∀ k freed next, y ≠ .called k freed next)
    (hawaiting : C.blocking → ∀ k freed next, y ≠ .awaiting k freed next) :
    ∃ m' w', m.switch prog op y = .ok (.next m') ∧
      Good C prog v m' w' (g.goto m.lib.running n) ∧
      codeOf prog w' m'.code = update (codeOf prog w m.code) m.lib.running y ∧
      w'.queue = w.queue.tail ++ [m.lib.running] ∧ w'.lives = w.lives := by
  obtain ⟨t, r, w', hok, hres, hmodels⟩ := hskip
  rw [← hg.code] at hchildren
  have hsound : Sound prog (update w.lives m.lib.running .live)
      (update (codeOf prog w m.code) m.lib.running y) v (g.goto m.lib.running n) := by
    rw [hg.lives_live]
    refine hg.sound.goto hg.alive hdoes ?_ (fun k hk => ?_) (fun k hk _ => ?_)
      fun handles b hy => absurd hy (hfree handles b)
    · rw [hchildren]
      exact hg.sound.nodup hg.alive
    · rwa [hchildren] at hk
    · rwa [hchildren]
  have hpause : ∀ k, (Slot.paused why : Slot F V) ≠ .paused (.blocked k) := fun k h =>
    hwhy k (Slot.paused.inj h)
  obtain ⟨m', hswitch, hgood, hcode, hqueue, hlives'⟩ := hg.switch hok hmodels hres hsound
    (.inr ⟨rfl, trivial, hpause⟩) (by simp) (by simp) hcalled
    (fun k h => absurd h (hpause k))
    (fun hb _ k freed next h => absurd h (hawaiting hb k freed next)) (.inl trivial)
  exact ⟨m', w', hswitch, hgood, hcode, hqueue, hlives'.trans hg.lives_live⟩

/-- A stuck task polls in vain. -/
theorem poll (hg : Good C prog v m w g) (op : Op F V) (why : Pause)
    (hstep : m.step prog = m.switch prog op (m.code m.lib.running))
    (hskip : ∃ t r w', step m.lib op = .ok (.next t r) ∧
      (w.rotate m.lib.running why).Resumes r w' ∧ C.Models t w')
    (hwhy : ∀ k, why ≠ .blocked k)
    (hstuck : ∃ h ∈ (m.code m.lib.running).waitsFor, (w.slot h).Live)
    (hawaiting : C.blocking → ∀ k freed next, m.code m.lib.running ≠ .awaiting k freed next) :
    Advances C prog v m w g := by
  obtain ⟨h, hh, hlive⟩ := hstuck
  have hpolls : (∀ handles b, m.code m.lib.running ≠ .freeing handles b) ∧
      ∀ k freed next, m.code m.lib.running ≠ .called k freed next := by
    constructor
    · intro handles b heq
      rw [heq] at hh
      cases hh
    · intro k freed next heq
      rw [heq] at hh
      cases hh
  obtain ⟨m', w', hswitch, hgood, hcode, hqueue, hlives⟩ := hg.rotate hskip hwhy hg.does rfl
    hpolls.1 hpolls.2 hawaiting
  have hsame : codeOf prog w' m'.code = codeOf prog w m.code := by
    rw [hcode]
    exact Function.update_eq_self_iff.mpr hg.code.symm
  have htotal := Ledger.total_goto hg.alive (g.work m.lib.running)
  refine ⟨m', w', _, hstep.trans hswitch, hgood, .inr ⟨by omega, ?_⟩⟩
  refine rank_rotate (Staged.queue hg.head) hqueue ⟨h, ?_, hlive⟩ hg.exists_leaf fun i => ?_
  · rwa [hg.code]
  · have hslot : ∀ k, (w'.slot k).Live ↔ (w.slot k).Live := fun k => by
      rw [← Slot.life_eq_live, ← Slot.life_eq_live]
      exact iff_of_eq (congrArg (· = Life.live) (congrFun hlives k))
    unfold Stuck
    rw [hsame]
    exact exists_congr fun k => and_congr Iff.rfl (hslot k)

/-! ## 4. `await` -/

/-- The task is at an `await` of the child `h`, with `n` steps to go after it. -/
structure Awaiting (prog : F → V → Body F V) (m : Machine A F V) (g : Ledger V) (h : Handle)
    (freed : Bool) (next : V → Body F V) (n : Nat) : Prop where
  code : m.code m.lib.running = .called h freed next ∧ n + 4 = g.work m.lib.running ∨
    m.code m.lib.running = .awaiting h freed next ∧ n + 3 = g.work m.lib.running
  rest : Evaluates prog (next (g.value h)) (g.value m.lib.running) n

section

variable {h : Handle} {freed : Bool} {next : V → Body F V} {n : Nat}

omit [SchedulerVTable A] in
theorem Awaiting.children (ha : Awaiting prog m g h freed next n) :
    (m.code m.lib.running).children = [h] := by
  rcases ha.code with ⟨hcode, -⟩ | ⟨hcode, -⟩
  · rw [hcode]
    rfl
  · rw [hcode]
    rfl

theorem Awaiting.step (ha : Awaiting prog m g h freed next n) :
    m.step prog = m.switch prog (.await h) (.awaiting h freed next) := by
  unfold Machine.step
  rcases ha.code with ⟨hcode, -⟩ | ⟨hcode, -⟩
  · rw [hcode]
  · rw [hcode]

theorem mem_children (hg : Good C prog v m w g) (ha : Awaiting prog m g h freed next n) :
    h ∈ (codeOf prog w m.code m.lib.running).children := by
  rw [hg.code, ha.children]
  exact List.mem_cons_self

/-- **A blocking `await`.**  The child is new, so it is queued, and nobody else waits for it. -/
theorem awaitBlocks (hg : Good C prog v m w g) (ha : Awaiting prog m g h freed next n)
    (hb : C.blocking) : Advances C prog v m w g := by
  have hlive : (w.slot m.lib.running).Live := by
    rw [hg.running]
    trivial
  have hnot : m.code m.lib.running ≠ .awaiting h freed next := by
    intro heq
    have hpaused := hg.staged.awaiting hb hlive (hg.code.trans heq)
    rw [hg.running] at hpaused
    cases hpaused
  obtain ⟨hcalled, hwork⟩ := ha.code.resolve_right fun h => hnot h.1
  obtain ⟨-, fn, arg, hinit⟩ := hg.staged.called hlive (hg.code.trans hcalled)
  have hne : h ≠ m.lib.running := by
    rintro rfl
    rw [hg.running] at hinit
    cases hinit
  have hmem : h ∈ w.queue.tail := by
    rw [Staged.mem_tail hg.head hne, hg.staged.queued, hinit]
    exact ⟨trivial, fun k hk => by cases hk⟩
  have hno : ∀ i, w.slot i ≠ .paused (.blocked h) := by
    intro i hi
    obtain ⟨-, -, freed', next', hcode⟩ := hg.staged.blocked hi
    have hialive : i ∈ g.alive := hg.mem_alive.mpr (by rw [hi]; trivial)
    obtain rfl := hg.sound.unique hialive hg.alive (by rw [hcode]; exact List.mem_cons_self)
      (hg.mem_children ha)
    rw [hg.running] at hi
    cases hi
  obtain ⟨t, r, w', hok, hres, hmodels⟩ := C.awaitBlocks hb hg.models hmem hno
  have hsound : Sound prog (update w.lives m.lib.running .live)
      (update (codeOf prog w m.code) m.lib.running (.awaiting h freed next)) v
      (g.goto m.lib.running (n + 3)) := by
    rw [hg.lives_live]
    refine hg.sound.goto hg.alive (.awaiting ha.rest) (List.nodup_singleton _) (fun k hk => ?_)
      (fun k hk _ => ?_) fun handles b heq => by cases heq
    · rw [List.mem_singleton.mp hk]
      exact hg.mem_children ha
    · rwa [hg.code, ha.children] at hk
  obtain ⟨m', hswitch, hgood, -⟩ := hg.switch hok hmodels hres hsound
    (.inl ⟨rfl, fun h => h.2 _ rfl⟩) (by simp) (by simp) (fun k freed next h => by cases h)
    (fun k hk => by
      cases hk
      exact ⟨hb, hne, by rw [hinit]; trivial, freed, next, rfl⟩)
    (fun _ _ k freed next heq => by cases heq; rfl) (.inl trivial)
  exact ⟨m', w', _, ha.step.trans hswitch, hgood, .inl (hg.total_lt (by omega))⟩

/-- A polling `await` of a child that has not finished. -/
theorem awaitPolls (hg : Good C prog v m w g) (ha : Awaiting prog m g h freed next n)
    (hb : ¬ C.blocking) (hlive : (w.slot h).Live) : Advances C prog v m w g := by
  have hskip := C.awaitPolls hb hg.models hlive
  rcases ha.code with ⟨-, hwork⟩ | ⟨hcode, -⟩
  · obtain ⟨m', w', hswitch, hgood, -⟩ := hg.rotate hskip (fun k h => by cases h)
      (y := .awaiting h freed next) (.awaiting ha.rest) ha.children.symm
      (fun _ _ h => by cases h) (fun _ _ _ h => by cases h) fun h => absurd h hb
    exact ⟨m', w', _, ha.step.trans hswitch, hgood, .inl (hg.total_lt (by omega))⟩
  · refine hg.poll (.await h) (.busy h) (by rw [hcode]; exact ha.step) hskip
      (fun k h => by cases h) ⟨h, ?_, hlive⟩ fun h => absurd h hb
    rw [hcode]
    exact List.mem_cons_self

/-- A polling `await` of a child that has finished. -/
theorem awaitReady (hg : Good C prog v m w g) (ha : Awaiting prog m g h freed next n)
    (hb : ¬ C.blocking) (hready : w.slot h = .ready (g.value h)) : Advances C prog v m w g := by
  obtain ⟨t, hok, hmodels⟩ := C.awaitReady hb hg.models hready
  have hrun : t.running = m.lib.running :=
    Option.some.inj ((C.running hmodels).symm.trans hg.head)
  have hdone : ¬ (w.slot h).Live := by
    rw [hready]
    exact id
  refine ⟨⟨t, update m.code m.lib.running
      (.freeing (if freed then [h] else []) (next (g.value h)))⟩, w,
    g.goto m.lib.running ((if freed then [h] else []).length + n + 1), ?_,
    hg.goto hmodels (.freeing ha.rest) (nodup_freed freed h) (fun k hk => ?_)
    (fun k hk hlive => ?_) (fun handles b heq k hk => ?_) (fun _ _ _ h => by cases h)
    (fun _ _ _ h => by cases h), .inl (hg.total_lt ?_)⟩
  · rw [ha.step]
    unfold Machine.switch
    rw [hok, ok_bind]
    unfold Machine.deliver Machine.goto
    dsimp only
    rw [hrun, update_self]
    dsimp only
    rw [update_idem]
    rfl
  · rw [mem_freed hk, ha.children]
    exact List.mem_cons_self
  · rw [ha.children] at hk
    rw [List.mem_singleton.mp hk] at hlive
    exact absurd hlive hdone
  · cases heq
    rwa [mem_freed hk]
  · have hlen := length_freed_le freed h
    rcases ha.code with ⟨-, hwork⟩ | ⟨-, hwork⟩ <;> omega

theorem await (hg : Good C prog v m w g) (ha : Awaiting prog m g h freed next n) :
    Advances C prog v m w g := by
  by_cases hb : C.blocking
  · exact hg.awaitBlocks ha hb
  · rcases hg.child_slot hg.alive (hg.mem_children ha) with hlive | hready
    · exact hg.awaitPolls ha hb hlive
    · exact hg.awaitReady ha hb hready

end

/-! ## 5. `async_return` -/

/-- `async_return` of a task that another waits for, under a blocking `await`. -/
theorem retWake (hg : Good C prog v m w g) {data : V} {i : Handle}
    (hcode : m.code m.lib.running = .body (.ret data)) (hmain : m.lib.running ≠ ⟨1⟩)
    (hwait : w.slot i = .paused (.blocked m.lib.running)) : Advances C prog v m w g := by
  have hcode' := hg.code.trans hcode
  obtain ⟨hb, -, freed, next, hawaits⟩ := hg.staged.blocked hwait
  have hne : i ≠ m.lib.running := by
    rintro rfl
    rw [hg.running] at hwait
    cases hwait
  have hialive : i ∈ g.alive := hg.mem_alive.mpr (by rw [hwait]; trivial)
  have hchild : ∀ {j}, w.slot j = .paused (.blocked m.lib.running) →
      j ∈ g.alive ∧ m.lib.running ∈ (codeOf prog w m.code j).children := by
    intro j hj
    obtain ⟨-, -, freed', next', hj'⟩ := hg.staged.blocked hj
    exact ⟨hg.mem_alive.mpr (by rw [hj]; trivial), by rw [hj']; exact List.mem_cons_self⟩
  have hfinish := hg.sound.finish hg.alive hmain hcode'
  have hi : i ∈ (g.finish m.lib.running).alive := Finset.mem_erase.mpr ⟨hne, hialive⟩
  have hvalue : g.value m.lib.running = data := hfinish.done (update_self _ _ _)
  -- what is left for `i`
  obtain ⟨n, hwork, hrest⟩ : ∃ n, g.work i = n + 3 ∧
      Evaluates prog (next data) (g.value i) n := by
    have hdoes := hg.sound.does hialive
    rw [hawaits] at hdoes
    generalize g.work i = k at hdoes
    cases hdoes with
    | awaiting rest =>
      rw [hvalue] at rest
      exact ⟨_, rfl, rest⟩
  obtain ⟨t, hok, hmodels⟩ := C.retWake hb hg.models hmain hwait data
  have hrun : t.running = i := (Option.some.inj (C.running hmodels)).symm
  have hgone : m.lib.running ∉ (g.finish m.lib.running).alive := fun h =>
    (Finset.mem_erase.mp h).1 rfl
  have hsound := hfinish.goto hi
    (x := .freeing (if freed then [m.lib.running] else []) (next data)) (.freeing hrest)
    (nodup_freed _ _)
    (fun k hk => by
      rw [mem_freed hk]
      exact (hchild hwait).2)
    (fun k hk hlive => by
      rw [hawaits] at hk
      rw [List.mem_singleton.mp hk] at hlive
      exact absurd hlive hgone)
    (fun handles b heq k hk => by
      cases heq
      rw [mem_freed hk]
      exact ⟨data, update_self _ _ _⟩)
  refine ⟨⟨t, update m.code i (.freeing (if freed then [m.lib.running] else []) (next data))⟩,
    w.wake m.lib.running data i, (g.finish m.lib.running).goto i
      ((if freed then [m.lib.running] else []).length + n + 1), ?_, ⟨hmodels, ?_, ?_⟩, .inl ?_⟩
  · have hicode : m.code i = .awaiting m.lib.running freed next := by
      rw [← hawaits, codeOf_of_ne (by rw [hwait]; simp)]
    have hstay : update m.code m.lib.running (.body (.ret data)) = m.code :=
      Function.update_eq_self_iff.mpr hcode.symm
    unfold Machine.step
    rw [hcode]
    dsimp only
    unfold Machine.switch
    rw [hok, ok_bind]
    unfold Machine.deliver Machine.goto
    dsimp only
    rw [hrun, hstay, hicode]
    rfl
  · rw [codeOf_wake hg.running, View.lives_wake (by rw [hwait]; trivial) hne]
    exact hsound
  · rw [codeOf_wake hg.running]
    refine hg.staged.wake hg.head hwait (fun j hj => ?_) (fun _ _ _ h => by cases h)
      fun _ _ _ h => by cases h
    obtain ⟨hjalive, hj⟩ := hchild hj
    exact hg.sound.unique hjalive hialive hj (hchild hwait).2
  · have htotal := Ledger.total_goto hi
      ((if freed then [m.lib.running] else []).length + n + 1)
    have hfin := Ledger.total_finish hg.alive
    have hlen := length_freed_le freed m.lib.running
    have hiwork : (g.finish m.lib.running).work i = n + 3 := hwork
    omega

/-- `async_return` of a task that nobody waits for. -/
theorem retNext (hg : Good C prog v m w g) {data : V}
    (hcode : m.code m.lib.running = .body (.ret data)) (hmain : m.lib.running ≠ ⟨1⟩)
    (hno : ∀ i, w.slot i ≠ .paused (.blocked m.lib.running)) : Advances C prog v m w g := by
  have hcode' := hg.code.trans hcode
  -- its parent is queued
  have hmore : w.queue.tail ≠ [] := by
    obtain ⟨i, hi, hchild⟩ := hg.sound.owned hg.alive hmain
    have hne : i ≠ m.lib.running := by
      rintro rfl
      rw [hcode'] at hchild
      cases hchild
    have hmem : i ∈ w.queue.tail := by
      rw [Staged.mem_tail hg.head hne, hg.staged.queued]
      refine ⟨hg.mem_alive.mp hi, fun k hk => ?_⟩
      obtain ⟨-, -, freed, next, hawaits⟩ := hg.staged.blocked hk
      rw [hawaits] at hchild
      rw [← List.mem_singleton.mp hchild] at hk
      exact hno i hk
    exact List.ne_nil_of_mem hmem
  obtain ⟨t, r, w', hok, hres, hmodels⟩ := C.retNext hg.models hmain hmore hno data
  have hstay : update (codeOf prog w m.code) m.lib.running (.body (.ret data)) =
      codeOf prog w m.code := Function.update_eq_self_iff.mpr hcode'.symm
  have hsound : Sound prog (update w.lives m.lib.running (.done data))
      (update (codeOf prog w m.code) m.lib.running (.body (.ret data))) v
      (g.finish m.lib.running) := by
    rw [hstay]
    exact hg.sound.finish hg.alive hmain hcode'
  obtain ⟨m', hswitch, hgood, -⟩ := hg.switch hok hmodels hres hsound (.inl ⟨rfl, fun h => h.1⟩)
    (by simp) (by simp) (fun _ _ _ h => by cases h) (fun k h => by cases h)
    (fun _ h => absurd h id) (.inr hno)
  refine ⟨m', w', _, ?_, hgood, .inl ?_⟩
  · unfold Machine.step
    rw [hcode]
    exact hswitch
  · have hfin := Ledger.total_finish hg.alive
    have hpos : 0 < g.work m.lib.running := by
      have hdoes := hg.does
      rw [hcode] at hdoes
      generalize g.work m.lib.running = k at hdoes
      cases hdoes with
      | body rest => exact rest.pos
    omega

/-- **`async_return`**: of `main`, with its value; or of another task. -/
theorem ret (hg : Good C prog v m w g) {data : V}
    (hcode : m.code m.lib.running = .body (.ret data)) :
    m.step prog = .ok (.exit v) ∨ Advances C prog v m w g := by
  by_cases hmain : m.lib.running = ⟨1⟩
  · have hvalue : g.value m.lib.running = data := by
      have hdoes := hg.does
      rw [hcode] at hdoes
      generalize g.value m.lib.running = u at hdoes
      generalize g.work m.lib.running = k at hdoes
      cases hdoes with
      | body rest =>
        cases rest
        rfl
    have hv : data = v := by
      rw [← hvalue, hmain]
      exact hg.sound.result
    subst hv
    refine .inl ?_
    unfold Machine.step
    rw [hcode]
    dsimp only
    unfold Machine.switch
    rw [C.exit hg.models hmain data]
    rfl
  · refine .inr ?_
    by_cases hwait : ∃ i, w.slot i = .paused (.blocked m.lib.running)
    · obtain ⟨i, hi⟩ := hwait
      exact hg.retWake hcode hmain hi
    · exact hg.retNext hcode hmain fun i hi => hwait ⟨i, hi⟩

/-! ## 6. The steps of a body -/

/-- A step of the task's own code, from one point of its body to the next. -/
theorem stay (hg : Good C prog v m w g) {y : Code F V} {n : Nat}
    (hstep : m.step prog = .ok (.next (m.goto y))) (hn : n < g.work m.lib.running)
    (hdoes : Does prog g.value y (g.value m.lib.running) n) (hnd : y.children.Nodup)
    (hsub : ∀ k ∈ y.children, k ∈ (m.code m.lib.running).children)
    (hkeep : ∀ k ∈ (m.code m.lib.running).children, (w.slot k).Live → k ∈ y.children)
    (hfree : ∀ handles b, y = .freeing handles b → ∀ k ∈ handles, ¬ (w.slot k).Live)
    (hcalled : ∀ k freed next, y ≠ .called k freed next)
    (hawaiting : ∀ k freed next, y ≠ .awaiting k freed next) : Advances C prog v m w g :=
  ⟨_, w, _, hstep, hg.goto hg.models hdoes hnd hsub hkeep hfree hcalled hawaiting,
    .inl (hg.total_lt hn)⟩

theorem children_nodup (hg : Good C prog v m w g) :
    (m.code m.lib.running).children.Nodup := by
  rw [← hg.code]
  exact hg.sound.nodup hg.alive

theorem body (hg : Good C prog v m w g) {b : Body F V}
    (hcode : m.code m.lib.running = .body b)
    (hb : Evaluates prog b (g.value m.lib.running) (g.work m.lib.running)) :
    m.step prog = .ok (.exit v) ∨ Advances C prog v m w g := by
  have hnone : (m.code m.lib.running).children = [] := by
    rw [hcode]
    rfl
  generalize hvalue : g.value m.lib.running = u at hb
  generalize hwork : g.work m.lib.running = k at hb
  cases hb with
  | ret data => exact hg.ret hcode
  | @skip next _ n rest =>
    rw [← hvalue] at rest
    obtain ⟨m', w', hswitch, hgood, -⟩ := hg.rotate (C.skip hg.models) (fun k h => by cases h)
      (y := .body next) (.body rest) hnone.symm (fun _ _ h => by cases h)
      (fun _ _ _ h => by cases h) fun _ _ _ _ h => by cases h
    refine .inr ⟨m', w', _, ?_, hgood, .inl (hg.total_lt (by omega))⟩
    unfold Machine.step
    rw [hcode]
    exact hswitch
  | @call fn arg x _ freed next k n child rest =>
    rw [← hvalue] at rest
    obtain ⟨m', w', g', hcreate, hgood, htotal⟩ := hg.create child
      (y := fun h => .called h freed next) (n := n + 4) (fun h => by rw [hnone]; rfl)
      (fun h _ => .called (by rwa [update_self])) (fun _ _ _ h => by cases h)
      (fun _ _ _ _ h => by cases h; rfl) fun _ _ _ _ h => by cases h
    refine .inr ⟨m', w', g', ?_, hgood, .inl (by omega)⟩
    unfold Machine.step
    rw [hcode]
    exact hcreate
  | @fanOut calls freed next _ n jobs hcalls children rest =>
    rw [← hvalue] at rest
    refine .inr (hg.stay (y := .calling [] calls freed.1 next) ?_ ?_
      (.calling jobs hcalls children freed.2.1 rest) List.nodup_nil (fun k hk => by cases hk)
      (fun k hk => by rw [hnone] at hk; cases hk) (fun _ _ h => by cases h)
      (fun _ _ _ h => by cases h) fun _ _ _ h => by cases h)
    · unfold Machine.step
      rw [hcode]
    · omega

/-- One of the calls before `await_all`, or its start. -/
theorem calling (hg : Good C prog v m w g) {handles : List Handle} {todo : List (F × V)}
    {freed : List Nat} {next : List V → Body F V} {jobs : List (Job F V)} {n : Nat}
    (hcode : m.code m.lib.running = .calling handles todo freed next)
    (htodo : todo = jobs.map Job.call)
    (hjobs : ∀ j ∈ jobs, Evaluates prog (prog j.call.1 j.call.2) j.value j.cost)
    (hfreed : freed.Nodup)
    (hrest : Evaluates prog (next (handles.map g.value ++ jobs.map Job.value))
      (g.value m.lib.running) n)
    (hwork : Job.costs jobs + freed.length + n + 3 = g.work m.lib.running) :
    Advances C prog v m w g := by
  have hchildren : (m.code m.lib.running).children = handles := by
    rw [hcode]
    rfl
  cases jobs with
  | nil =>
    subst htodo
    rw [List.map_nil, List.append_nil] at hrest
    refine hg.stay (y := .awaitAll handles freed next) ?_ ?_ (.awaitAll hfreed hrest) ?_
      (fun k hk => by rwa [hchildren]) (fun k hk _ => by rwa [hchildren] at hk)
      (fun _ _ h => by cases h) (fun _ _ _ h => by cases h) fun _ _ _ h => by cases h
    · unfold Machine.step
      rw [hcode]
      rfl
    · have hcosts : Job.costs ([] : List (Job F V)) = 0 := rfl
      omega
    · rw [← hchildren]
      exact hg.children_nodup
  | cons j jobs =>
    subst htodo
    have hj := hjobs j List.mem_cons_self
    have hcosts : Job.costs (j :: jobs) = j.cost + 1 + Job.costs jobs := rfl
    obtain ⟨m', w', g', hcreate, hgood, htotal⟩ := hg.create hj
      (y := fun h => .calling (handles ++ [h]) (jobs.map Job.call) freed next)
      (n := Job.costs jobs + freed.length + n + 3) (fun h => by rw [hchildren]; rfl)
      (fun h hnot => by
        refine .calling jobs rfl (fun j' hj' => hjobs j' (List.mem_cons_of_mem _ hj')) hfreed ?_
        have hmap : (handles ++ [h]).map (update g.value h j.value) =
            handles.map g.value ++ [j.value] := by
          rw [List.map_append, List.map_singleton, update_self]
          congr 1
          refine List.map_congr_left fun k hk => update_of_ne ?_ _ _
          rintro rfl
          rw [hchildren] at hnot
          exact hnot hk
        rw [hmap, List.append_assoc]
        exact hrest)
      (fun _ _ _ h => by cases h) (fun _ _ _ _ h => by cases h) fun _ _ _ _ h => by cases h
    refine ⟨m', w', g', ?_, hgood, .inl (by omega)⟩
    unfold Machine.step
    rw [hcode]
    exact hcreate

/-- A round of `await_all`. -/
theorem awaitAll (hg : Good C prog v m w g) {handles : List Handle} {freed : List Nat}
    {next : List V → Body F V} {n : Nat}
    (hcode : m.code m.lib.running = .awaitAll handles freed next) (hfreed : freed.Nodup)
    (hrest : Evaluates prog (next (handles.map g.value)) (g.value m.lib.running) n)
    (hwork : freed.length + n + 2 = g.work m.lib.running) : Advances C prog v m w g := by
  have hchildren : (m.code m.lib.running).children = handles := by
    rw [hcode]
    rfl
  have hslot : ∀ h ∈ handles, (w.slot h).Live ∨ w.slot h = .ready (g.value h) := by
    intro h hh
    refine hg.child_slot hg.alive ?_
    rwa [hg.code, hchildren]
  obtain ⟨results, hround, -, hlt, hall⟩ := C.awaitAllRound hg.models g.value hslot
  by_cases hlive : ∃ h ∈ handles, (w.slot h).Live
  · refine hg.poll .skip .skip ?_ (C.skip hg.models) (fun k h => by cases h)
      (by rw [hcode]; exact hlive) fun _ _ _ _ h => by rw [hcode] at h; cases h
    unfold Machine.step
    rw [hcode]
    dsimp only
    rw [hround, ok_bind, if_neg (Nat.ne_of_lt (hlt hlive))]
  · have hnone : ∀ h ∈ handles, ¬ (w.slot h).Live := fun h hh hl => hlive ⟨h, hh, hl⟩
    have hresults := hall hnone
    have hmem : ∀ k ∈ freed.filterMap (handles[·]?), k ∈ handles := by
      intro k hk
      obtain ⟨i, -, hi⟩ := List.mem_filterMap.mp hk
      exact List.mem_of_getElem? hi
    refine hg.stay (y := .freeing (freed.filterMap (handles[·]?)) (next results)) ?_ ?_
      (.freeing (by rwa [hresults])) ?_ (fun k hk => ?_) (fun k hk hl => ?_)
      (fun handles' b heq k hk => ?_) (fun _ _ _ h => by cases h) fun _ _ _ h => by cases h
    · unfold Machine.step
      rw [hcode]
      dsimp only
      rw [hround, ok_bind, if_pos (by rw [hresults, List.length_map])]
    · have hlen := List.length_filterMap_le (handles[·]?) freed
      omega
    · have hnd := hg.children_nodup
      rw [hchildren] at hnd
      refine hfreed.filterMap fun i j k hi hj => ?_
      have hlt : i < handles.length := (List.getElem?_eq_some_iff.mp hi).1
      exact (List.getElem?_inj hlt hnd).mp (hi.trans hj.symm)
    · rw [hchildren]
      exact hmem k hk
    · rw [hchildren] at hk
      exact absurd hl (hnone k hk)
    · cases heq
      exact hnone k (hmem k hk)

/-- **Every step of a structured program** passes its assertions: it ends the process with the value
of `main`, or there is less to do after it. -/
theorem step (hg : Good C prog v m w g) :
    m.step prog = .ok (.exit v) ∨ Advances C prog v m w g := by
  have hdoes := hg.does
  generalize hvalue : g.value m.lib.running = u at hdoes
  generalize hwork : g.work m.lib.running = k at hdoes
  generalize hcode : m.code m.lib.running = code at hdoes
  cases hdoes with
  | body rest =>
    rw [← hvalue, ← hwork] at rest
    exact hg.body hcode rest
  | called rest =>
    rw [← hvalue] at rest
    exact .inr (hg.await ⟨.inl ⟨hcode, hwork.symm⟩, rest⟩)
  | awaiting rest =>
    rw [← hvalue] at rest
    exact .inr (hg.await ⟨.inr ⟨hcode, hwork.symm⟩, rest⟩)
  | calling jobs htodo children hfreed rest =>
    rw [← hvalue] at rest
    exact .inr (hg.calling hcode htodo children hfreed rest hwork.symm)
  | awaitAll hfreed rest =>
    rw [← hvalue] at rest
    exact .inr (hg.awaitAll hcode hfreed rest hwork.symm)
  | @freeing handles b _ n rest =>
    cases handles with
    | cons h handles => exact .inr (hg.release hcode)
    | nil =>
      rw [← hvalue] at rest
      refine .inr (hg.stay (y := .body b) ?_ ?_ (.body rest) List.nodup_nil
        (fun k hk => by cases hk) (fun k hk => by rw [hcode] at hk; cases hk)
        (fun _ _ h => by cases h) (fun _ _ _ h => by cases h) fun _ _ _ h => by cases h)
      · unfold Machine.step
        rw [hcode]
      · rw [hwork]
        simp

/-! ## 7. Runs -/

/-- **A run gets to the end of `main`** in some number of steps, each of which passes: the work of
the tasks and the number of stuck tasks at the front decrease lexicographically. -/
theorem run (hg : Good C prog v m w g) :
    ∃ n, (∀ k < n, ∃ m', Machine.run prog k m = .ok (.next m')) ∧
      ∀ k, n ≤ k → Machine.run prog k m = .ok (.exit v) := by
  induction hmeasure : (g.total, rank w (codeOf prog w m.code)) using
    WellFounded.induction (WellFounded.prod_lex Nat.lt_wfRel.wf Nat.lt_wfRel.wf)
    generalizing m w g with
  | h p ih =>
    subst hmeasure
    rcases hg.step with hexit | ⟨m', w', g', hstep, hg', hless⟩
    · refine ⟨1, fun k hk => ?_, fun k hk => ?_⟩
      · rw [Nat.lt_one_iff.mp hk]
        exact ⟨m, rfl⟩
      · obtain ⟨k, rfl⟩ := Nat.exists_eq_add_of_le' hk
        unfold Machine.run
        rw [hexit, ok_bind]
    · have hlex : Prod.Lex (· < ·) (· < ·) (g'.total, rank w' (codeOf prog w' m'.code))
          (g.total, rank w (codeOf prog w m.code)) := by
        rcases hless with hlt | ⟨heq, hlt⟩
        · exact .left _ _ hlt
        · rw [heq]
          exact .right _ hlt
      obtain ⟨n, hbefore, hafter⟩ := ih _ hlex hg' rfl
      refine ⟨n + 1, fun k hk => ?_, fun k hk => ?_⟩
      · cases k with
        | zero => exact ⟨m, rfl⟩
        | succ k =>
          unfold Machine.run
          rw [hstep, ok_bind]
          exact hbefore k (Nat.lt_of_succ_lt_succ hk)
      · obtain ⟨k, rfl⟩ := Nat.exists_eq_add_of_le' (Nat.le_trans (Nat.le_add_left 1 n) hk)
        unfold Machine.run
        rw [hstep, ok_bind]
        exact hafter k (Nat.le_of_succ_le_succ hk)

end Good

/-- The run over the scheduler `S` gets to the `async_return` of `main` with the value `v`, and no
assertion fails on the way. -/
def Returns (S : Type) [SchedulerVTable S] (prog : F → V → Body F V) (mainFn : F) (arg v : V) :
    Prop :=
  ∃ n, (∀ k < n, ∃ m : Machine S F V, Machine.runMain prog mainFn arg k = .ok (.next m)) ∧
    ∀ k, n ≤ k →
      (Machine.runMain prog mainFn arg k : Except Fault (Result S F V)) = .ok (.exit v)

/-- `main` starts with all its work left. -/
theorem Cooperative.good_start (C : Cooperative A) {prog : F → V → Body F V} {mainFn : F}
    {arg v : V} {n : Nat} (hmain : Evaluates prog (prog mainFn arg) v n) {s : Runtime A F V}
    (hs : C.Models s View.start) {code : Handle → Code F V}
    (hcode : code ⟨1⟩ = .body (prog mainFn arg)) :
    Good C prog v { lib := s, code := code } View.start {
      alive := {⟨1⟩}, value := fun _ => v, work := fun _ => n, birth := fun _ => 0,
      next := 1 } := by
  have hself : (View.start : View F V).slot ⟨1⟩ = .running := by
    unfold View.start
    dsimp only
    rw [update_self]
  have hother : ∀ {i}, i ≠ ⟨1⟩ → (View.start : View F V).slot i = .free := fun hi => by
    unfold View.start
    dsimp only
    rw [update_of_ne hi]
  have hcodeOf : codeOf prog View.start code ⟨1⟩ = .body (prog mainFn arg) := by
    rw [codeOf_of_ne (by rw [hself]; simp), hcode]
  have hchildren : ∀ {i k : Handle}, i ∈ ({⟨1⟩} : Finset Handle) →
      k ∉ (codeOf prog View.start code i).children := by
    intro i k hi hk
    rw [Finset.mem_singleton.mp hi, hcodeOf] at hk
    cases hk
  have hlive : ∀ {i}, ((View.start : View F V).slot i).Live → i = ⟨1⟩ := by
    intro i hi
    by_contra hne
    rw [hother hne] at hi
    exact hi
  have hpaused : ∀ {i why}, (View.start : View F V).slot i ≠ .paused why := by
    intro i why hi
    obtain rfl := hlive (i := i) (by rw [hi]; trivial)
    rw [hself] at hi
    cases hi
  refine ⟨hs, ⟨fun {i} => ?_, fun {i data} hi => ?_, fun {i} hi => ?_,
    fun hi hk => absurd hk (hchildren hi), fun {i} hi => ?_,
    fun hi _ hk => absurd hk (hchildren hi),
    fun hk hne => absurd (Finset.mem_singleton.mp hk) hne, fun {i handles b k} hi hb hk => ?_,
    Finset.mem_singleton_self _, rfl, fun _ => Nat.lt_one_iff.mpr rfl⟩,
    ⟨List.nodup_singleton _, fun {i} => ?_, fun {i} => ?_, fun hi => absurd hi hpaused,
      fun _ {i k freed next} hi hb => ?_, fun {i k freed next} hi hb => ?_⟩⟩
  · rw [Finset.mem_singleton, View.lives, Slot.life_eq_live]
    constructor
    · rintro rfl
      rw [hself]
      trivial
    · exact hlive
  · rw [View.lives, Slot.life_eq_done] at hi
    by_cases hne : i = ⟨1⟩
    · rw [hne, hself] at hi
      cases hi
    · rw [hother hne] at hi
      cases hi
  · rw [Finset.mem_singleton.mp hi, hcodeOf]
    exact .body hmain
  · rw [Finset.mem_singleton.mp hi, hcodeOf]
    exact List.nodup_nil
  · dsimp only at hb
    rw [Finset.mem_singleton.mp hi, hcodeOf] at hb
    cases hb
  · change i ∈ [(⟨1⟩ : Handle)] ↔ _
    rw [List.mem_singleton]
    constructor
    · rintro rfl
      rw [hself]
      exact ⟨trivial, fun k hk => by cases hk⟩
    · exact fun h => hlive h.1
  · change _ ↔ some (⟨1⟩ : Handle) = some i
    rw [Option.some.injEq]
    constructor
    · intro hi
      exact (hlive (by rw [hi]; trivial)).symm
    · rintro rfl
      exact hself
  · dsimp only at hb
    rw [hlive hi, hcodeOf] at hb
    cases hb
  · dsimp only at hb
    rw [hlive hi, hcodeOf] at hb
    cases hb

/-- **A structured program over a cooperative scheduler is adequate.** -/
theorem Cooperative.returns (C : Cooperative A) {prog : F → V → Body F V} {mainFn : F} {arg v : V}
    {n : Nat} (hmain : Evaluates prog (prog mainFn arg) v n) : Returns A prog mainFn arg v := by
  obtain ⟨s, hstart, hs⟩ := C.start mainFn arg
  have hrun : s.running = ⟨1⟩ := (Option.some.inj (C.running hs)).symm
  have hcode : Function.update (fun _ => Code.body (prog mainFn arg)) s.running
      (Code.body (prog mainFn arg)) ⟨1⟩ = .body (prog mainFn arg) := by
    rw [hrun, update_self]
  obtain ⟨n, hbefore, hafter⟩ := (C.good_start hmain hs hcode).run
  refine ⟨n, fun k hk => ?_, fun k hk => ?_⟩
  · unfold Machine.runMain
    rw [hstart, ok_bind]
    exact hbefore k hk
  · unfold Machine.runMain
    rw [hstart, ok_bind]
    exact hafter k hk

/-- A related scheduler runs the same programs to the same ends. -/
theorem Refines.returns {S : Type} [SchedulerVTable S] {Rep : S → A → Prop} (hr : Refines Rep)
    {prog : F → V → Body F V} {mainFn : F} {arg v : V} (h : Returns A prog mainFn arg v) :
    Returns S prog mainFn arg v := by
  obtain ⟨n, hbefore, hafter⟩ := h
  refine ⟨n, fun k hk => ?_, fun k hk => ?_⟩
  · obtain ⟨a, ha⟩ := hbefore k hk
    have hrun := hr.runMain prog mainFn arg k
    rw [ha] at hrun
    obtain ⟨x, hx, hsame⟩ := hrun.ok_right
    cases hsame with
    | next _ => exact ⟨_, hx⟩
  · have hrun := hr.runMain prog mainFn arg k
    rw [hafter k hk] at hrun
    obtain ⟨x, hx, hsame⟩ := hrun.ok_right
    cases hsame
    exact hx

/-- **Structured concurrency is adequate.**  Take a program whose tasks have structured bodies, and
whose `main` has the value `v` sequentially.  Its run gets to the `async_return` of `main` with the
value `v`, and no assertion fails on the way, with either scheduler. -/
theorem structured_adequate (prog : F → V → Body F V) (mainFn : F) (arg v : V)
    (heval : ∃ fuel, Body.eval prog fuel (prog mainFn arg) = some v) :
    Returns Graph prog mainFn arg v ∧ Returns HandleQueue prog mainFn arg v := by
  obtain ⟨fuel, heval⟩ := heval
  obtain ⟨n, hmain⟩ := Body.eval_evaluates heval
  exact ⟨graphRefines.returns (graphCooperative.returns hmain),
    TaskList.queueRefines.returns (listCooperative.returns hmain)⟩

/-- The tasks of a program with a fan-out of a task that skips and one that makes calls in a
loop. -/
inductive SumFn where
  | main
  | sleep
  | sum
  | add2

/-- The loop of `sum`. -/
def sumLoop : List Nat → Nat → Body SumFn (List Nat)
  | [], acc => .ret [acc]
  | i :: rest, acc => .call .add2 [acc, i] true fun v => sumLoop rest v.sum

def sumProgram : SumFn → List Nat → Body SumFn (List Nat)
  | .main, data =>
    .fanOut [(.sleep, [7]), (.sum, data)] ⟨[1, 0], by simp⟩ fun results => .ret results.flatten
  | .sleep, data => .skip (.skip (.ret data))
  | .sum, data => sumLoop data 0
  | .add2, data => .ret [data.sum]

/-- The sum comes out with either scheduler. -/
theorem structured_adequate_sum :
    Returns Graph sumProgram .main [1, 2, 3] [7, 6] ∧
      Returns HandleQueue sumProgram .main [1, 2, 3] [7, 6] :=
  structured_adequate sumProgram .main [1, 2, 3] [7, 6] ⟨9, rfl⟩

end CAsync
