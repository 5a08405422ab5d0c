/-
# Run queues with waiting

Processes of some type stand in a queue; the one at the front runs.  It may go to the back, leave
the queue to wait for a process behind it, or end, and then the process that waits for it, if
there is one, takes its place at the front (`Step`).

Waiting is a relation, `on x y` for `x` waits for `y`.  Section 1 shows that it stays a forest
whose roots are the queued processes: each waits for one, each is waited for by one, and every
chain ends in the queue (`WellFormed.step`), so that no cycle of waiting can arise
(`WellFormed.acyclic`).

Section 2 is about fairness.  Waking to the front breaks the order of the queue, so the number of
processes ahead of `x` is no bound on how long `x` waits; the number of those that are ahead of it
or wait, through whatever chain, for one that is, is (`measure_step`).
-/
import Mathlib.Data.Set.Card
import Mathlib.Logic.Relation
import Mathlib.Order.CompletePartialOrder

open Relation

variable {α : Type}

/-- A run queue, and who waits for whom. -/
structure WaitQueue (α : Type) where
  queue : List α
  on : α → α → Prop

namespace WaitQueue

/-- One event.  The label says whether it is the front process
that gives up its place. -/
inductive Step : WaitQueue α → Bool → WaitQueue α → Prop
  | idle {w w' : WaitQueue α} (queue : w'.queue = w.queue) (on : ∀ x y, w'.on x y ↔ w.on x y) :
    Step w false w'
  | enqueue {w w' : WaitQueue α} (x : α) (new : x ∉ w.queue) (free : ∀ y, ¬ w.on x y)
    (unawaited : ∀ y, ¬ w.on y x) (queue : w'.queue = w.queue ++ [x])
    (on : ∀ x y, w'.on x y ↔ w.on x y) : Step w false w'
  | rotate {w w' : WaitQueue α} (c : α) (rest : List α) (front : w.queue = c :: rest)
    (queue : w'.queue = rest ++ [c]) (on : ∀ x y, w'.on x y ↔ w.on x y) : Step w true w'
  | wait {w w' : WaitQueue α} (c d : α) (rest : List α) (front : w.queue = c :: rest)
    (child : d ∈ rest) (unawaited : ∀ y, ¬ w.on y d) (queue : w'.queue = rest)
    (on : ∀ x y, w'.on x y ↔ w.on x y ∨ x = c ∧ y = d) : Step w true w'
  | finish {w w' : WaitQueue α} (c : α) (rest : List α) (front : w.queue = c :: rest)
    (unawaited : ∀ y, ¬ w.on y c) (queue : w'.queue = rest)
    (on : ∀ x y, w'.on x y ↔ w.on x y) : Step w true w'
  | wake {w w' : WaitQueue α} (c p : α) (rest : List α) (front : w.queue = c :: rest)
    (waiting : w.on p c) (queue : w'.queue = p :: rest)
    (on : ∀ x y, w'.on x y ↔ w.on x y ∧ x ≠ p) : Step w true w'

/-! ## 1. Waiting is a forest over the queue -/

/-- Waiting is a forest whose roots are the queued processes. -/
structure WellFormed (w : WaitQueue α) : Prop where
  nodup : w.queue.Nodup
  root : ∀ {x y}, x ∈ w.queue → ¬ w.on x y
  functional : ∀ {x y z}, w.on x y → w.on x z → y = z
  injective : ∀ {x y z}, w.on x z → w.on y z → x = y
  ends : ∀ {x y}, w.on x y → ∃ z ∈ w.queue, ReflTransGen w.on y z

namespace WellFormed

variable {w w' : WaitQueue α} {b : Bool} {x y z c : α} {rest : List α}

/-- **Nobody waits for himself**, through whatever chain. -/
theorem acyclic (hw : w.WellFormed) (x : α) : ¬ TransGen w.on x x := by
  intro hcycle
  -- the cycle moves along with the chain, and the chain ends
  have hmove : ∀ {a z}, ReflTransGen w.on a z → TransGen w.on a a → TransGen w.on z z := by
    intro a z h
    induction h with
    | refl => exact id
    | @tail b d _ hbd ih =>
      intro ha
      obtain ⟨e, hbe, heb⟩ := TransGen.head'_iff.mp (ih ha)
      obtain rfl := hw.functional hbd hbe
      exact TransGen.tail' heb hbd
  obtain ⟨y, hxy, -⟩ := TransGen.head'_iff.mp hcycle
  obtain ⟨z, hz, hyz⟩ := hw.ends hxy
  obtain ⟨d, hzd, -⟩ := TransGen.head'_iff.mp (hmove (hyz.head hxy) hcycle)
  exact hw.root hz hzd

/-- Chains where more wait. -/
theorem chain_mono (hon : ∀ x y, w.on x y → w'.on x y) (hxy : ReflTransGen w.on x y) :
    ReflTransGen w'.on x y := ReflTransGen.mono hon _ _ hxy

/-- A chain that does not pass `p` survives when `p` is woken. -/
theorem chain_without {p : α} (hon : ∀ x y, w.on x y → x ≠ p → w'.on x y)
    (hxy : ReflTransGen w.on x y) : ReflTransGen w'.on x y ∨ ReflTransGen w'.on x p := by
  induction hxy with
  | refl => exact .inl .refl
  | @tail y z _ hyz ih =>
    rcases ih with h | h
    · by_cases hyp : y = p
      · subst hyp
        exact .inr h
      · exact .inl (h.tail (hon _ _ hyz hyp))
    · exact .inr h

/-- A chain where only `c` has begun to wait. -/
theorem chain_of_wait {d : α} (hon : ∀ x y, w'.on x y → w.on x y ∨ x = c ∧ y = d)
    (hyz : ReflTransGen w'.on y z) :
    ReflTransGen w.on y z ∨ ReflTransGen w.on y c ∧ ReflTransGen w.on d z := by
  induction hyz with
  | refl => exact .inl .refl
  | @tail u v _ huv ih =>
    rcases hon _ _ huv with huv | ⟨rfl, rfl⟩
    · exact ih.imp (·.tail huv) (And.imp_right (·.tail huv))
    · rcases ih with h | ⟨h, -⟩
      · exact .inr ⟨h, .refl⟩
      · exact .inr ⟨h, .refl⟩

/-- **Every event keeps the forest.** -/
theorem step (hw : w.WellFormed) (h : Step w b w') : w'.WellFormed := by
  cases h with
  | idle queue on =>
    refine ⟨by rw [queue]; exact hw.nodup, fun hx h => ?_, fun h h' => ?_, fun h h' => ?_,
      fun h => ?_⟩
    · rw [queue] at hx
      exact hw.root hx ((on _ _).mp h)
    · exact hw.functional ((on _ _).mp h) ((on _ _).mp h')
    · exact hw.injective ((on _ _).mp h) ((on _ _).mp h')
    · obtain ⟨z, hz, hyz⟩ := hw.ends ((on _ _).mp h)
      exact ⟨z, by rwa [queue], chain_mono (fun x y => (on x y).mpr) hyz⟩
  | enqueue n new free unawaited queue on =>
    refine ⟨?_, fun {x y} hx h => ?_, fun h h' => ?_, fun h h' => ?_, fun h => ?_⟩
    · rw [queue]
      refine List.nodup_append.mpr ⟨hw.nodup, List.nodup_singleton _, fun a ha b hb hab => ?_⟩
      rw [List.mem_singleton.mp hb] at hab
      exact new (hab ▸ ha)
    · rw [queue, List.mem_append, List.mem_singleton] at hx
      rcases hx with hx | rfl
      · exact hw.root hx ((on _ _).mp h)
      · exact free _ ((on _ _).mp h)
    · exact hw.functional ((on _ _).mp h) ((on _ _).mp h')
    · exact hw.injective ((on _ _).mp h) ((on _ _).mp h')
    · obtain ⟨z, hz, hyz⟩ := hw.ends ((on _ _).mp h)
      refine ⟨z, ?_, chain_mono (fun x y => (on x y).mpr) hyz⟩
      rw [queue]
      exact List.mem_append_left _ hz
  | rotate c rest front queue on =>
    have hperm : w'.queue.Perm w.queue := by
      rw [queue, front]
      exact List.perm_append_singleton c rest
    refine ⟨hperm.nodup_iff.mpr hw.nodup, fun hx h => ?_, fun h h' => ?_, fun h h' => ?_,
      fun h => ?_⟩
    · exact hw.root (hperm.mem_iff.mp hx) ((on _ _).mp h)
    · exact hw.functional ((on _ _).mp h) ((on _ _).mp h')
    · exact hw.injective ((on _ _).mp h) ((on _ _).mp h')
    · obtain ⟨z, hz, hyz⟩ := hw.ends ((on _ _).mp h)
      exact ⟨z, hperm.mem_iff.mpr hz, chain_mono (fun x y => (on x y).mpr) hyz⟩
  | wait c d rest front child unawaited queue on =>
    have hnd := hw.nodup
    rw [front, List.nodup_cons] at hnd
    have hc : c ∈ w.queue := by
      rw [front]
      exact List.mem_cons_self
    have hd : d ∈ w.queue := by
      rw [front]
      exact List.mem_cons_of_mem _ child
    have hchain : ∀ {y z}, ReflTransGen w.on y z → ReflTransGen w'.on y z :=
      chain_mono fun x y hxy => (on x y).mpr (.inl hxy)
    refine ⟨by rw [queue]; exact hnd.2, fun {x y} hx h => ?_, fun {x y z} h h' => ?_,
      fun {x y z} h h' => ?_, fun {x y} h => ?_⟩
    · rw [queue] at hx
      rcases (on _ _).mp h with h | ⟨rfl, -⟩
      · exact hw.root (by rw [front]; exact List.mem_cons_of_mem _ hx) h
      · exact hnd.1 hx
    · rcases (on _ _).mp h with h | ⟨rfl, rfl⟩ <;> rcases (on _ _).mp h' with h' | ⟨h1, h2⟩
      · exact hw.functional h h'
      · subst h1
        exact absurd h (hw.root hc)
      · exact absurd h' (hw.root hc)
      · exact h2.symm
    · rcases (on _ _).mp h with h | ⟨rfl, rfl⟩ <;> rcases (on _ _).mp h' with h' | ⟨h1, h2⟩
      · exact hw.injective h h'
      · subst h2
        exact absurd h (unawaited _)
      · exact absurd h' (unawaited _)
      · exact h1.symm
    · have hstart : ∃ z ∈ w.queue, ReflTransGen w.on y z := by
        rcases (on _ _).mp h with h | ⟨-, rfl⟩
        · exact hw.ends h
        · exact ⟨y, hd, .refl⟩
      obtain ⟨z, hz, hyz⟩ := hstart
      rw [front, List.mem_cons] at hz
      rcases hz with rfl | hz
      · exact ⟨d, by rwa [queue], (hchain hyz).tail ((on _ _).mpr (.inr ⟨rfl, rfl⟩))⟩
      · exact ⟨z, by rwa [queue], hchain hyz⟩
  | finish c rest front unawaited queue on =>
    have hnd := hw.nodup
    rw [front, List.nodup_cons] at hnd
    refine ⟨by rw [queue]; exact hnd.2, fun hx h => ?_, fun h h' => ?_, fun h h' => ?_,
      fun {x y} h => ?_⟩
    · rw [queue] at hx
      exact hw.root (by rw [front]; exact List.mem_cons_of_mem _ hx) ((on _ _).mp h)
    · exact hw.functional ((on _ _).mp h) ((on _ _).mp h')
    · exact hw.injective ((on _ _).mp h) ((on _ _).mp h')
    · have hxy := (on _ _).mp h
      obtain ⟨z, hz, hyz⟩ := hw.ends hxy
      refine ⟨z, ?_, chain_mono (fun x y => (on x y).mpr) hyz⟩
      rw [front, List.mem_cons] at hz
      rw [queue]
      refine hz.resolve_left ?_
      rintro rfl
      -- the last step of the chain would wait for `c`
      rcases hyz.cases_tail with rfl | ⟨v, -, hv⟩
      · exact unawaited _ hxy
      · exact unawaited _ hv
  | wake c p rest front waiting queue on =>
    have hnd := hw.nodup
    rw [front, List.nodup_cons] at hnd
    have hp : p ∉ w.queue := fun hp => hw.root hp waiting
    have hprest : p ∉ rest := fun h => hp (by rw [front]; exact List.mem_cons_of_mem _ h)
    refine ⟨by rw [queue]; exact List.nodup_cons.mpr ⟨hprest, hnd.2⟩, fun {x y} hx h => ?_,
      fun h h' => ?_, fun h h' => ?_, fun {x y} h => ?_⟩
    · rw [queue, List.mem_cons] at hx
      obtain ⟨h, hne⟩ := (on _ _).mp h
      exact hw.root (by rw [front]; exact List.mem_cons_of_mem _ (hx.resolve_left hne)) h
    · exact hw.functional ((on _ _).mp h).1 ((on _ _).mp h').1
    · exact hw.injective ((on _ _).mp h).1 ((on _ _).mp h').1
    · obtain ⟨h, hne⟩ := (on _ _).mp h
      obtain ⟨z, hz, hyz⟩ := hw.ends h
      rcases chain_without (fun x y hxy hxp => (on x y).mpr ⟨hxy, hxp⟩) hyz with hyz' | hyp
      · rw [front, List.mem_cons] at hz
        rcases hz with rfl | hz
        · -- whatever waits for `c` is `p`, so the chain to `c` has passed it
          rcases hyz'.cases_tail with rfl | ⟨v, -, hv⟩
          · exact absurd (hw.injective h waiting) hne
          · obtain ⟨hv, hvp⟩ := (on _ _).mp hv
            exact absurd (hw.injective hv waiting) hvp
        · exact ⟨z, by rw [queue]; exact List.mem_cons_of_mem _ hz, hyz'⟩
      · exact ⟨p, by rw [queue]; exact List.mem_cons_self, hyp⟩

end WellFormed

/-! ## 2. Bounded waiting -/

section

variable [DecidableEq α] {w w' : WaitQueue α} {b : Bool} {x y z c : α} {rest : List α}

/-- The processes ahead of `x`. -/
def ahead (w : WaitQueue α) (x : α) : List α := w.queue.takeWhile (· ≠ x)

/-- The processes that are ahead of `x`, or wait for one that is. -/
def before (w : WaitQueue α) (x : α) : Set α := {y | ∃ z ∈ w.ahead x, ReflTransGen w.on y z}

theorem ahead_cons (hq : w.queue = c :: rest) (hx : x ≠ c) :
    w.ahead x = c :: rest.takeWhile (· ≠ x) := by
  unfold ahead
  rw [hq, List.takeWhile_cons_of_pos (by simpa using Ne.symm hx)]

/-- What comes behind `x` is not ahead of it. -/
theorem takeWhile_append_of_mem (l : List α) (hx : x ∈ rest) :
    (rest ++ l).takeWhile (· ≠ x) = rest.takeWhile (· ≠ x) := by
  induction rest with
  | nil => cases hx
  | cons c rest ih =>
    rw [List.cons_append]
    by_cases hc : c = x
    · rw [List.takeWhile_cons_of_neg (by simpa using hc),
        List.takeWhile_cons_of_neg (by simpa using hc)]
    · rw [List.takeWhile_cons_of_pos (by simpa using hc),
        List.takeWhile_cons_of_pos (by simpa using hc),
        ih ((List.mem_cons.mp hx).resolve_left (Ne.symm hc))]

namespace WellFormed

/-- **A scheduling event brings `x` forward.**  Nobody gets before `x`, and either fewer are
ahead of it, or as many are and fewer before it.  `x` stays in the queue. -/
theorem measure_step (hw : w.WellFormed) (hx : x ∈ w.queue) (hfront : w.queue.head? ≠ some x)
    (h : Step w true w') : x ∈ w'.queue ∧ w'.before x ⊆ w.before x ∧
      ((w'.ahead x).length < (w.ahead x).length ∨
        (w'.ahead x).length = (w.ahead x).length ∧ w'.before x ⊂ w.before x) := by
  have hw' := hw.step h
  -- in every case the front process `c` is before `x`, and `x` is behind it
  have hsplit : ∀ {c rest}, w.queue = c :: rest → x ≠ c ∧ x ∈ rest ∧ c ∈ w.before x ∧
      w.ahead x = c :: rest.takeWhile (· ≠ x) ∧ c ∉ rest := by
    intro c rest hq
    have hne : x ≠ c := by
      rintro rfl
      rw [hq] at hfront
      exact hfront rfl
    have hnd := hw.nodup
    rw [hq] at hx hnd
    have hahead := ahead_cons hq hne
    refine ⟨hne, (List.mem_cons.mp hx).resolve_left hne, ⟨c, ?_, .refl⟩, hahead,
      (List.nodup_cons.mp hnd).1⟩
    rw [hahead]
    exact List.mem_cons_self
  cases h with
  | rotate c rest front queue on =>
    obtain ⟨-, hx', -, hahead, -⟩ := hsplit front
    have hahead' : w'.ahead x = rest.takeWhile (· ≠ x) := by
      unfold ahead
      rw [queue, takeWhile_append_of_mem _ hx']
    refine ⟨by rw [queue]; exact List.mem_append_left _ hx', ?_, .inl ?_⟩
    · rintro y ⟨z, hz, hyz⟩
      rw [hahead'] at hz
      exact ⟨z, by rw [hahead]; exact List.mem_cons_of_mem _ hz,
        chain_mono (fun x y => (on x y).mp) hyz⟩
    · rw [hahead, hahead', List.length_cons]
      exact Nat.lt_succ_self _
  | wait c d rest front child unawaited queue on =>
    obtain ⟨-, hx', hc, hahead, -⟩ := hsplit front
    have hahead' : w'.ahead x = rest.takeWhile (· ≠ x) := by
      unfold ahead
      rw [queue]
    refine ⟨by rwa [queue], ?_, .inl ?_⟩
    · rintro y ⟨z, hz, hyz⟩
      rw [hahead'] at hz
      rcases chain_of_wait (fun x y => (on x y).mp) hyz with h | ⟨h, -⟩
      · exact ⟨z, by rw [hahead]; exact List.mem_cons_of_mem _ hz, h⟩
      · exact ⟨c, by rw [hahead]; exact List.mem_cons_self, h⟩
    · rw [hahead, hahead', List.length_cons]
      exact Nat.lt_succ_self _
  | finish c rest front unawaited queue on =>
    obtain ⟨-, hx', -, hahead, -⟩ := hsplit front
    have hahead' : w'.ahead x = rest.takeWhile (· ≠ x) := by
      unfold ahead
      rw [queue]
    refine ⟨by rwa [queue], ?_, .inl ?_⟩
    · rintro y ⟨z, hz, hyz⟩
      rw [hahead'] at hz
      exact ⟨z, by rw [hahead]; exact List.mem_cons_of_mem _ hz,
        chain_mono (fun x y => (on x y).mp) hyz⟩
    · rw [hahead, hahead', List.length_cons]
      exact Nat.lt_succ_self _
  | wake c p rest front waiting queue on =>
    obtain ⟨-, hx', hc, hahead, hcr⟩ := hsplit front
    have hpx : x ≠ p := by
      rintro rfl
      exact hw.root hx waiting
    have hcp : c ≠ p := by
      rintro rfl
      exact hw.root (by rw [front]; exact List.mem_cons_self) waiting
    have hahead' : w'.ahead x = p :: rest.takeWhile (· ≠ x) := ahead_cons queue hpx
    have hsub : w'.before x ⊆ w.before x := by
      rintro y ⟨z, hz, hyz⟩
      have hyz' : ReflTransGen w.on y z := chain_mono (fun x y h => ((on x y).mp h).1) hyz
      rw [hahead'] at hz
      rcases List.mem_cons.mp hz with rfl | hz
      · exact ⟨c, by rw [hahead]; exact List.mem_cons_self, hyz'.tail waiting⟩
      · exact ⟨z, by rw [hahead]; exact List.mem_cons_of_mem _ hz, hyz'⟩
    refine ⟨by rw [queue]; exact List.mem_cons_of_mem _ hx', hsub, .inr ⟨?_, ?_⟩⟩
    · rw [hahead, hahead', List.length_cons, List.length_cons]
    · -- `c` has left, and waits for nobody
      refine Set.ssubset_iff_of_subset hsub |>.mpr ⟨c, hc, ?_⟩
      rintro ⟨z, hz, hcz⟩
      have hroot : ∀ v, ¬ w'.on c v := fun v h =>
        hw.root (by rw [front]; exact List.mem_cons_self) ((on c v).mp h).1
      rcases hcz.cases_head with rfl | ⟨v, hv, -⟩
      · rw [hahead'] at hz
        rcases List.mem_cons.mp hz with h | h
        · exact hcp h
        · exact hcr ((List.takeWhile_subset _) h)
      · exact hroot v hv

/-- **Other events leave everything before `x` as it is.** -/
theorem measure_idle (hx : x ∈ w.queue) (h : Step w false w') :
    x ∈ w'.queue ∧ w'.before x = w.before x ∧ w'.ahead x = w.ahead x := by
  have hsame : w'.ahead x = w.ahead x → (∀ x y, w'.on x y ↔ w.on x y) →
      w'.before x = w.before x := by
    intro hahead on
    have hon : w'.on = w.on := funext fun x => funext fun y => propext (on x y)
    unfold before
    rw [hahead, hon]
  cases h with
  | idle queue on =>
    have hahead : w'.ahead x = w.ahead x := by
      unfold ahead
      rw [queue]
    exact ⟨by rwa [queue], hsame hahead on, hahead⟩
  | enqueue n new free unawaited queue on =>
    have hahead : w'.ahead x = w.ahead x := by
      unfold ahead
      rw [queue, takeWhile_append_of_mem _ hx]
    exact ⟨by rw [queue]; exact List.mem_append_left _ hx, hsame hahead on, hahead⟩

end WellFormed

end

end WaitQueue
