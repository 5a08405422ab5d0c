/-
# The tasks of a structured program

A task of a structured program belongs to the task that created it, until it is freed or left
behind finished.  `Ledger` is what is planned for each task that is alive: the value that it will
return, the steps that this takes, and when it was created.  `Sound` says that the code of the
tasks keeps to the plan.

The ledger is a ghost: nothing of it is in the source.  It exists because the evaluation of the
program does (`Does`), and what it adds to that is the order of the creations.  The children of a
task that are alive are younger than the task, so the youngest task that is alive waits for no
other (`Sound.exists_leaf`), and there is no circle of tasks that wait for each other; this is the
whole argument for progress, whatever the scheduler does with its queue.

The scheduler plays no part here.  Of a slot, only its `Life` is used; a call changes it in one of
three ways, for which there is a step lemma each (`Sound.call`, `Sound.free`, `Sound.finish`), and
`Sound.goto` is for the task's own code.  In each of them the work of one task changes, and `total`
with it (`total_goto`, `total_call`, `total_finish`).
-/
import CAsync.Evaluation
import CAsync.View
import Mathlib.Algebra.BigOperators.Group.Finset.Basic
import Mathlib.Data.Finset.Max

namespace CAsync

open Function

variable {F V : Type}

/-! ## 1. The life of a task -/

/-- A slot, as far as its task's parent can tell. -/
inductive Life (V : Type) where
  | none
  | live
  | done (data : V)

def Slot.life : Slot F V → Life V
  | .free => .none
  | .init _ _ => .live
  | .running => .live
  | .paused _ => .live
  | .ready data => .done data

theorem Slot.life_eq_live {x : Slot F V} : x.life = .live ↔ x.Live := by
  cases x <;> simp [Slot.life, Slot.Live]

theorem Slot.life_eq_done {x : Slot F V} {data : V} : x.life = .done data ↔ x = .ready data := by
  cases x <;> simp [Slot.life]

theorem Slot.life_eq_none {x : Slot F V} : x.life = .none ↔ x = .free := by
  cases x <;> simp [Slot.life]

/-- The lives of all tasks. -/
def View.lives (w : View F V) (i : Handle) : Life V := (w.slot i).life

namespace View

variable {w : View F V} {c h i : Handle} {data : V}

theorem lives_call (fn : F) (arg : V) : (w.call h fn arg).lives = update w.lives h .live := by
  funext i
  unfold lives call
  dsimp only
  by_cases hi : i = h
  · subst hi
    rw [update_self, update_self]
    rfl
  · rw [update_of_ne hi, update_of_ne hi]

theorem lives_free : (w.free h).lives = update w.lives h .none := by
  funext i
  unfold lives free
  dsimp only
  by_cases hi : i = h
  · subst hi
    rw [update_self, update_self]
    rfl
  · rw [update_of_ne hi, update_of_ne hi]

theorem lives_wake (hi : (w.slot i).Live) (hne : i ≠ c) :
    (w.wake c data i).lives = update w.lives c (.done data) := by
  funext j
  unfold lives wake
  dsimp only
  by_cases hji : j = i
  · subst hji
    rw [update_self, update_of_ne hne]
    exact (Slot.life_eq_live.mpr hi).symm
  rw [update_of_ne hji]
  by_cases hjc : j = c
  · subst hjc
    rw [update_self, update_self]
    rfl
  · rw [update_of_ne hjc, update_of_ne hjc]

end View

/-! ## 2. The plan -/

/-- What the tasks that are alive are going to do. -/
structure Ledger (V : Type) where
  alive : Finset Handle
  value : Handle → V
  work : Handle → Nat
  birth : Handle → Nat
  next : Nat

namespace Ledger

variable (g : Ledger V)

/-- The work left for all tasks. -/
def total : Nat := ∑ i ∈ g.alive, g.work i

/-- The task `i` has `n` steps left. -/
def goto (i : Handle) (n : Nat) : Ledger V := { g with work := update g.work i n }

/-- The task `h` is created, with `m` steps to its value `u`. -/
def call (h : Handle) (u : V) (m : Nat) : Ledger V where
  alive := insert h g.alive
  value := update g.value h u
  work := update g.work h m
  birth := update g.birth h g.next
  next := g.next + 1

/-- The task `i` ends. -/
def finish (i : Handle) : Ledger V := { g with alive := g.alive.erase i }

variable {g} {i h : Handle}

theorem total_goto (hi : i ∈ g.alive) (n : Nat) : (g.goto i n).total + g.work i = g.total + n := by
  unfold total goto
  dsimp only
  have hother : ∑ j ∈ g.alive.erase i, update g.work i n j = ∑ j ∈ g.alive.erase i, g.work j :=
    Finset.sum_congr rfl fun j hj => update_of_ne (Finset.ne_of_mem_erase hj) _ _
  rw [← Finset.sum_erase_add _ _ hi, ← Finset.sum_erase_add _ g.work hi, hother, update_self]
  omega

theorem total_call (hh : h ∉ g.alive) (u : V) (m : Nat) :
    (g.call h u m).total = g.total + m := by
  unfold total call
  dsimp only
  rw [Finset.sum_insert hh, update_self, Nat.add_comm]
  congr 1
  refine Finset.sum_congr rfl fun i hi => update_of_ne ?_ _ _
  rintro rfl
  exact hh hi

theorem total_finish (hi : i ∈ g.alive) : (g.finish i).total + g.work i = g.total :=
  Finset.sum_erase_add _ _ hi

end Ledger

/-- **The code of the tasks keeps to the plan**: each task that is alive is on the way to its value,
its children are alive and younger or have finished, and every task but `main` has one parent. -/
structure Sound (prog : F → V → Body F V) (life : Handle → Life V) (code : Handle → Code F V)
    (v : V) (g : Ledger V) : Prop where
  alive : ∀ {i}, i ∈ g.alive ↔ life i = .live
  done : ∀ {i data}, life i = .done data → g.value i = data
  does : ∀ {i}, i ∈ g.alive → Does prog g.value (code i) (g.value i) (g.work i)
  child : ∀ {i k}, i ∈ g.alive → k ∈ (code i).children → k ≠ ⟨1⟩ ∧
    (k ∈ g.alive ∧ g.birth i < g.birth k ∨ ∃ data, life k = .done data)
  nodup : ∀ {i}, i ∈ g.alive → (code i).children.Nodup
  unique : ∀ {i j k}, i ∈ g.alive → j ∈ g.alive → k ∈ (code i).children →
    k ∈ (code j).children → i = j
  owned : ∀ {k}, k ∈ g.alive → k ≠ ⟨1⟩ → ∃ i ∈ g.alive, k ∈ (code i).children
  freeing : ∀ {i handles b k}, i ∈ g.alive → code i = .freeing handles b → k ∈ handles →
    ∃ data, life k = .done data
  main : ⟨1⟩ ∈ g.alive
  result : g.value ⟨1⟩ = v
  born : ∀ {i}, i ∈ g.alive → g.birth i < g.next

namespace Sound

variable {prog : F → V → Body F V} {life : Handle → Life V} {code : Handle → Code F V} {v : V}
  {g : Ledger V} {i h k : Handle}

/-- A child is not a free slot. -/
theorem child_ne_none (hs : Sound prog life code v g) (hi : i ∈ g.alive)
    (hk : k ∈ (code i).children) : life k ≠ .none := by
  intro hnone
  rcases (hs.child hi hk).2 with ⟨halive, -⟩ | ⟨data, hdone⟩
  · rw [hs.alive, hnone] at halive
    cases halive
  · rw [hnone] at hdone
    cases hdone

/-- The value of a child that is not alive. -/
theorem child_done (hs : Sound prog life code v g) (hi : i ∈ g.alive)
    (hk : k ∈ (code i).children) (hnot : k ∉ g.alive) : life k = .done (g.value k) := by
  rcases (hs.child hi hk).2 with ⟨halive, -⟩ | ⟨data, hdone⟩
  · exact absurd halive hnot
  · rw [hs.done hdone]
    exact hdone

/-- **Some task waits for no other**: the youngest one. -/
theorem exists_leaf (hs : Sound prog life code v g) :
    ∃ i ∈ g.alive, ∀ k ∈ (code i).children, k ∉ g.alive := by
  obtain ⟨i, hi, hmax⟩ := g.alive.exists_max_image g.birth ⟨_, hs.main⟩
  refine ⟨i, hi, fun k hk halive => ?_⟩
  rcases (hs.child hi hk).2 with ⟨-, hlt⟩ | ⟨data, hdone⟩
  · exact absurd (hmax k halive) (Nat.not_le.mpr hlt)
  · rw [hs.alive, hdone] at halive
    cases halive

/-! ## 3. What a task does -/

/-- **The task `i` goes on at `x`**, with the same children but for finished ones. -/
theorem goto (hs : Sound prog life code v g) (hi : i ∈ g.alive) {x : Code F V} {n : Nat}
    (hdoes : Does prog g.value x (g.value i) n) (hnd : x.children.Nodup)
    (hsub : ∀ k ∈ x.children, k ∈ (code i).children)
    (hkeep : ∀ k ∈ (code i).children, k ∈ g.alive → k ∈ x.children)
    (hfree : ∀ handles b, x = .freeing handles b → ∀ k ∈ handles, ∃ data, life k = .done data) :
    Sound prog life (update code i x) v (g.goto i n) := by
  have hchild : ∀ {j k}, k ∈ (update code i x j).children → k ∈ (code j).children := by
    intro j k hk
    by_cases hj : j = i
    · subst hj
      rw [update_self] at hk
      exact hsub k hk
    · rwa [update_of_ne hj] at hk
  refine ⟨hs.alive, hs.done, fun {j} hj => ?_, fun {j k} hj hk => hs.child hj (hchild hk),
    fun {j} hj => ?_, fun {j j' k} hj hj' hk hk' => hs.unique hj hj' (hchild hk) (hchild hk'),
    fun {k} hk hne => ?_, fun {j handles b k} hj hcode hk => ?_, hs.main, hs.result, hs.born⟩
  · unfold Ledger.goto
    dsimp only
    by_cases hji : j = i
    · subst hji
      rwa [update_self, update_self]
    · rw [update_of_ne hji, update_of_ne hji]
      exact hs.does hj
  · by_cases hji : j = i
    · subst hji
      rwa [update_self]
    · rw [update_of_ne hji]
      exact hs.nodup hj
  · obtain ⟨j, hj, hjk⟩ := hs.owned hk hne
    refine ⟨j, hj, ?_⟩
    by_cases hji : j = i
    · subst hji
      rw [update_self]
      exact hkeep k hjk hk
    · rwa [update_of_ne hji]
  · by_cases hji : j = i
    · subst hji
      rw [update_self] at hcode
      exact hfree handles b hcode k hk
    · rw [update_of_ne hji] at hcode
      exact hs.freeing hj hcode hk

/-- **The task `i` creates the task `h`**, its last child. -/
theorem call (hs : Sound prog life code v g) (hi : i ∈ g.alive) (hh : life h = .none) {fn : F}
    {arg u : V} {m n : Nat} (hbody : Evaluates prog (prog fn arg) u m) {x : Code F V}
    (hchildren : x.children = (code i).children ++ [h])
    (hdoes : Does prog (update g.value h u) x (g.value i) n)
    (hfree : ∀ handles b, x ≠ .freeing handles b) :
    Sound prog (update life h .live) (update (update code i x) h (.body (prog fn arg))) v
      ((g.call h u m).goto i n) := by
  have hnot : h ∉ g.alive := fun hmem => by
    rw [hs.alive, hh] at hmem
    cases hmem
  have hne : ∀ {j}, j ∈ g.alive → j ≠ h := by
    rintro j hj rfl
    exact hnot hj
  have hold : ∀ {j k}, j ∈ g.alive → k ∈ (code j).children → k ≠ h := by
    rintro j k hj hk rfl
    exact hs.child_ne_none hj hk hh
  -- the code of the tasks
  have hnew : update (update code i x) h (Code.body (prog fn arg)) h = .body (prog fn arg) :=
    update_self _ _ _
  have hself : update (update code i x) h (Code.body (prog fn arg)) i = x := by
    rw [update_of_ne (hne hi), update_self]
  have hother : ∀ {j}, j ∈ g.alive → j ≠ i →
      update (update code i x) h (Code.body (prog fn arg)) j = code j := fun hj hji => by
    rw [update_of_ne (hne hj), update_of_ne hji]
  generalize update (update code i x) h (Code.body (prog fn arg)) = code' at *
  have hchild : ∀ {j k}, j ∈ g.alive → k ∈ (code' j).children →
      k ∈ (code j).children ∨ j = i ∧ k = h := by
    intro j k hj hk
    by_cases hji : j = i
    · subst hji
      rw [hself, hchildren] at hk
      exact (List.mem_append.mp hk).imp_right fun hk => ⟨rfl, List.mem_singleton.mp hk⟩
    · rw [hother hj hji] at hk
      exact .inl hk
  have hbirth : ∀ {j}, j ∈ g.alive → update g.birth h g.next j = g.birth j := fun hj =>
    update_of_ne (hne hj) _ _
  refine ⟨fun {j} => ?_, fun {j data} hj => ?_, fun {j} hj => ?_, fun {j k} hj hk => ?_,
    fun {j} hj => ?_, fun {j j' k} hj hj' hk hk' => ?_, fun {k} hk hk1 => ?_,
    fun {j handles b k} hj hcode hk => ?_, ?_, ?_, fun {j} hj => ?_⟩
  · by_cases hj : j = h
    · subst hj
      rw [update_self]
      exact iff_of_true (Finset.mem_insert_self _ _) rfl
    · rw [update_of_ne hj, ← hs.alive]
      exact ⟨fun hmem => Finset.mem_of_mem_insert_of_ne hmem hj, Finset.mem_insert_of_mem⟩
  · by_cases hjh : j = h
    · rw [hjh, update_self] at hj
      cases hj
    · rw [update_of_ne hjh] at hj
      exact (update_of_ne hjh _ _).trans (hs.done hj)
  · rcases Finset.mem_insert.mp hj with rfl | hj₀
    · have hwork : update (update g.work j m) i n j = m := by
        rw [update_of_ne (Ne.symm (hne hi)), update_self]
      have hvalue : update g.value j u j = u := update_self _ _ _
      change Does prog (update g.value j u) _ (update g.value j u j)
        (update (update g.work j m) i n j)
      rw [hnew, hwork, hvalue]
      exact .body hbody
    · change Does prog (update g.value h u) _ (update g.value h u j)
        (update (update g.work h m) i n j)
      rw [update_of_ne (hne hj₀)]
      by_cases hji : j = i
      · subst hji
        rw [hself, update_self]
        exact hdoes
      · rw [hother hj₀ hji, update_of_ne hji, update_of_ne (hne hj₀)]
        exact (hs.does hj₀).congr fun k hk => update_of_ne (hold hj₀ hk) _ _
  · rcases Finset.mem_insert.mp hj with rfl | hj₀
    · rw [hnew] at hk
      cases hk
    · change k ≠ ⟨1⟩ ∧ (k ∈ insert h g.alive ∧
        update g.birth h g.next j < update g.birth h g.next k ∨ _)
      rw [hbirth hj₀]
      rcases hchild hj₀ hk with hk | ⟨rfl, rfl⟩
      · obtain ⟨hk1, hstage⟩ := hs.child hj₀ hk
        refine ⟨hk1, hstage.imp ?_ ?_⟩
        · rintro ⟨halive, hlt⟩
          rw [hbirth halive]
          exact ⟨Finset.mem_insert_of_mem halive, hlt⟩
        · rintro ⟨data, hdone⟩
          exact ⟨data, (update_of_ne (hold hj₀ hk) _ _).trans hdone⟩
      · rw [update_self]
        exact ⟨Ne.symm (hne hs.main), .inl ⟨Finset.mem_insert_self _ _, hs.born hj₀⟩⟩
  · rcases Finset.mem_insert.mp hj with rfl | hj₀
    · rw [hnew]
      exact List.nodup_nil
    · by_cases hji : j = i
      · subst hji
        rw [hself, hchildren]
        refine List.nodup_append.mpr ⟨hs.nodup hj₀, List.nodup_singleton _, fun a ha b hb => ?_⟩
        rw [List.mem_singleton.mp hb]
        exact hold hj₀ ha
      · rw [hother hj₀ hji]
        exact hs.nodup hj₀
  · rcases Finset.mem_insert.mp hj with rfl | hj₀
    · rw [hnew] at hk
      cases hk
    rcases Finset.mem_insert.mp hj' with rfl | hj₀'
    · rw [hnew] at hk'
      cases hk'
    rcases hchild hj₀ hk with hk | ⟨rfl, rfl⟩
    · rcases hchild hj₀' hk' with hk' | ⟨-, rfl⟩
      · exact hs.unique hj₀ hj₀' hk hk'
      · exact absurd rfl (hold hj₀ hk)
    · rcases hchild hj₀' hk' with hk' | ⟨rfl, -⟩
      · exact absurd rfl (hold hj₀' hk')
      · rfl
  · rcases Finset.mem_insert.mp hk with rfl | hk₀
    · refine ⟨i, Finset.mem_insert_of_mem hi, ?_⟩
      rw [hself, hchildren]
      exact List.mem_append_right _ List.mem_cons_self
    · obtain ⟨j, hj, hjk⟩ := hs.owned hk₀ hk1
      refine ⟨j, Finset.mem_insert_of_mem hj, ?_⟩
      by_cases hji : j = i
      · subst hji
        rw [hself, hchildren]
        exact List.mem_append_left _ hjk
      · rwa [hother hj hji]
  · rcases Finset.mem_insert.mp hj with rfl | hj₀
    · rw [hnew] at hcode
      cases hcode
    · by_cases hji : j = i
      · subst hji
        rw [hself] at hcode
        exact absurd hcode (hfree handles b)
      · rw [hother hj₀ hji] at hcode
        obtain ⟨data, hdone⟩ := hs.freeing hj₀ hcode hk
        have hkj : k ∈ (code j).children := by
          rw [hcode]
          exact hk
        exact ⟨data, (update_of_ne (hold hj₀ hkj) _ _).trans hdone⟩
  · exact Finset.mem_insert_of_mem hs.main
  · exact (update_of_ne (hne hs.main) _ _).trans hs.result
  · change update g.birth h g.next j < g.next + 1
    rcases Finset.mem_insert.mp hj with rfl | hj₀
    · rw [update_self]
      exact Nat.lt_succ_self _
    · rw [hbirth hj₀]
      exact Nat.lt_succ_of_lt (hs.born hj₀)

/-- **The task `i` frees its first child**, which has finished. -/
theorem free (hs : Sound prog life code v g) (hi : i ∈ g.alive) {handles : List Handle}
    {b : Body F V} (hcode : code i = .freeing (h :: handles) b) :
    ∃ n, n < g.work i ∧
      Sound prog (update life h .none) (update code i (.freeing handles b)) v (g.goto i n) := by
  have hh : h ∈ (code i).children := by
    rw [hcode]
    exact List.mem_cons_self
  obtain ⟨data, hdone⟩ := hs.freeing hi hcode List.mem_cons_self
  have hnot : h ∉ g.alive := fun hmem => by
    rw [hs.alive, hdone] at hmem
    cases hmem
  have hnd := hs.nodup hi
  rw [hcode] at hnd
  have hhandles : h ∉ handles := (List.nodup_cons.mp hnd).1
  have hdoes := hs.does hi
  rw [hcode] at hdoes
  obtain ⟨n, hwork, hnext⟩ : ∃ n, n < g.work i ∧
      Does prog g.value (.freeing handles b) (g.value i) n := by
    generalize g.work i = w at hdoes
    cases hdoes with
    | freeing rest => exact ⟨_, by simp, .freeing rest⟩
  refine ⟨n, hwork, ?_⟩
  have hgoto := hs.goto hi hnext (List.nodup_cons.mp hnd).2
    (fun k hk => by rw [hcode]; exact List.mem_cons_of_mem _ hk)
    (fun k hk halive => by
      rw [hcode] at hk
      refine (List.mem_cons.mp hk).resolve_left ?_
      rintro rfl
      exact hnot halive)
    (fun handles' b' heq k hk => by
      cases heq
      exact hs.freeing hi hcode (List.mem_cons_of_mem _ hk))
  -- the freed task is nobody's child any more
  have hgone : ∀ {j k}, j ∈ g.alive → k ∈ (update code i (.freeing handles b) j).children →
      k ≠ h := by
    rintro j k hj hk rfl
    by_cases hji : j = i
    · subst hji
      rw [update_self] at hk
      exact hhandles hk
    · rw [update_of_ne hji] at hk
      exact hji (hs.unique hj hi hk hh)
  have hstill : ∀ {k data}, k ≠ h → life k = .done data → update life h .none k = .done data :=
    fun hk hd => (update_of_ne hk _ _).trans hd
  refine ⟨fun {j} => ?_, fun {j data} hj => ?_, hgoto.does, fun {j k} hj hk => ?_, hgoto.nodup,
    hgoto.unique, hgoto.owned, fun {j hs' b' k} hj hcode' hk => ?_, hgoto.main, hgoto.result,
    hgoto.born⟩
  · by_cases hj : j = h
    · subst hj
      rw [update_self]
      exact iff_of_false hnot (by simp)
    · rw [update_of_ne hj]
      exact hs.alive
  · by_cases hjh : j = h
    · rw [hjh, update_self] at hj
      cases hj
    · rw [update_of_ne hjh] at hj
      exact hs.done hj
  · obtain ⟨hk1, hstage⟩ := hgoto.child hj hk
    exact ⟨hk1, hstage.imp_right fun ⟨d, hd⟩ => ⟨d, hstill (hgone hj hk) hd⟩⟩
  · obtain ⟨d, hd⟩ := hgoto.freeing hj hcode' hk
    refine ⟨d, hstill (hgone hj ?_) hd⟩
    rw [hcode']
    exact hk

/-- **The task `i` ends** at `async_return`. -/
theorem finish (hs : Sound prog life code v g) (hi : i ∈ g.alive) (hne : i ≠ ⟨1⟩) {data : V}
    (hcode : code i = .body (.ret data)) :
    Sound prog (update life i (.done data)) code v (g.finish i) := by
  have hdoes := hs.does hi
  rw [hcode] at hdoes
  have hvalue : g.value i = data := by
    generalize g.value i = u at hdoes
    generalize g.work i = n at hdoes
    cases hdoes with
    | body rest =>
      cases rest
      rfl
  have hnone : (code i).children = [] := by
    rw [hcode]
    rfl
  have hmem : ∀ {j}, j ∈ (g.finish i).alive ↔ j ≠ i ∧ j ∈ g.alive := Finset.mem_erase
  have hstill : ∀ {k}, (∃ d, life k = .done d) → ∃ d, update life i (.done data) k = .done d := by
    rintro k ⟨d, hd⟩
    by_cases hk : k = i
    · subst hk
      exact ⟨data, update_self _ _ _⟩
    · exact ⟨d, (update_of_ne hk _ _).trans hd⟩
  refine ⟨fun {j} => ?_, fun {j d} hj => ?_, fun hj => hs.does (hmem.mp hj).2,
    fun {j k} hj hk => ?_, fun hj => hs.nodup (hmem.mp hj).2,
    fun hj hj' => hs.unique (hmem.mp hj).2 (hmem.mp hj').2, fun {k} hk hk1 => ?_,
    fun hj hcode' hk => hstill (hs.freeing (hmem.mp hj).2 hcode' hk),
    hmem.mpr ⟨Ne.symm hne, hs.main⟩, hs.result, fun hj => hs.born (hmem.mp hj).2⟩
  · rw [hmem]
    by_cases hj : j = i
    · subst hj
      rw [update_self]
      exact iff_of_false (fun h => h.1 rfl) (by simp)
    · rw [update_of_ne hj, ← hs.alive]
      exact and_iff_right hj
  · by_cases hji : j = i
    · subst hji
      rw [update_self] at hj
      cases hj
      exact hvalue
    · rw [update_of_ne hji] at hj
      exact hs.done hj
  · obtain ⟨hk1, hstage⟩ := hs.child (hmem.mp hj).2 hk
    refine ⟨hk1, ?_⟩
    by_cases hki : k = i
    · subst hki
      exact .inr ⟨data, update_self _ _ _⟩
    · rcases hstage with ⟨halive, hlt⟩ | hd
      · exact .inl ⟨hmem.mpr ⟨hki, halive⟩, hlt⟩
      · exact .inr (hstill hd)
  · obtain ⟨j, hj, hjk⟩ := hs.owned (hmem.mp hk).2 hk1
    refine ⟨j, hmem.mpr ⟨?_, hj⟩, hjk⟩
    rintro rfl
    rw [hnone] at hjk
    cases hjk

end Sound
end CAsync
