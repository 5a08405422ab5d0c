/-
# The free list, and how large the pool grows

In every state of every run the free list is the list of the `FREE` slots, so a slot is used again
before the pool grows: `async_call` takes a new slot only when each of those there are belongs to a
task (`Effect.len`).  `async_free` and the end of an orphan give a slot back
(`Effect.freed`, `Effect.orphan_ended`).

It follows that the length of the pool is the largest number of tasks that were live at once,
however many were created in total.  No state has more live tasks than slots, and the pool never
shrinks (`live_le_len`); and whenever it has just grown, all its slots are live, so one of the
states passed reaches the bound (`exists_live_eq_len`).  `pool.len` is an `int` and a natural
number here; that it does not overflow is assumed (`Scheduler`).
-/
import CAsync.Reachable

namespace CAsync

open Faulting TaskPool

variable {F V : Type}

/-- The number of slots that belong to a task. -/
def TaskPool.live (p : TaskPool F V) : Nat := p.tasks.countP fun t => t.state ≠ .free

/-! ## 1. Live tasks and slots -/

theorem TaskPool.live_le (p : TaskPool F V) : p.live ≤ p.len := List.countP_le_length

/-- Without a `FREE` slot every slot is live. -/
theorem TaskPool.live_eq {p : TaskPool F V} (hp : ∀ h, p.stateOf h ≠ some .free) :
    p.live = p.len := by
  refine List.countP_eq_length.mpr fun t ht => ?_
  obtain ⟨i, hi, rfl⟩ := List.getElem_of_mem ht
  have hslot : p.slot ⟨i + 1⟩ = some p.tasks[i] := by
    unfold slot
    rw [if_neg (Nat.succ_ne_zero i)]
    exact List.getElem?_eq_getElem hi
  have hfree := hp ⟨i + 1⟩
  rw [stateOf_eq hslot] at hfree
  simpa using hfree

/-- The length of the pool stays, or it grows by one to the number of live tasks. -/
theorem Effect.len {s t : Runtime TaskGraph F V} {op : Op F V} {r : Reply F V}
    (heff : Effect s op r t) :
    t.pool.len = s.pool.len ∨ s.pool.len ≤ t.pool.len ∧ t.pool.live = t.pool.len := by
  cases heff with
  | @call fn arg h u t new slot room =>
    rcases room with ⟨-, hlen⟩ | ⟨-, hlen, hnone⟩
    · exact .inl hlen
    · refine .inr ⟨by rw [hlen]; exact Nat.le_succ _, live_eq fun i => ?_⟩
      rw [stateOf_update slot]
      by_cases hi : i = h
      · rw [hi, Function.update_self, new.state]
        simp
      · rw [Function.update_of_ne hi]
        exact hnone i
  | alone _ same => exact .inl (by rw [same])
  | skip _ _ _ len => exact .inl len
  | await _ _ _ _ _ _ _ len => exact .inl len
  | ret _ _ _ _ _ _ _ len => exact .inl len
  | wake _ _ _ _ _ _ _ _ _ _ len => exact .inl len
  | orphan _ _ len => exact .inl len
  | free _ _ _ _ len => exact .inl len
  | poll _ same => exact .inl (by rw [same])

/-- `async_free` gives the slot back. -/
theorem Effect.freed {s t : Runtime TaskGraph F V} {h : Handle} {r : Reply F V}
    (heff : Effect s (.free h) r t) : t.pool.stateOf h = some .free := by
  cases heff with
  | free _ _ _ slot => rw [stateOf_update slot, Function.update_self]

/-- An orphan gives its slot back when it ends. -/
theorem Effect.orphan_ended {s t : Runtime TaskGraph F V} {data : V} {r : Reply F V} {v : Task F V}
    (hs : Inv s) (heff : Effect s (.ret data) r t) (hv : s.pool.slot s.running = some v)
    (horphan : v.orphaned = true) : t.pool.stateOf s.running = some .free := by
  cases heff with
  | ret _ queue task _ _ _ switched =>
    have hne := hs.next_ne queue
    rw [task] at hv
    cases hv
    rw [switched.stateOf, if_neg hne.symm, Function.update_self, Option.map_some]
    unfold Task.finish
    rw [if_pos horphan]
  | wake _ _ task _ kept =>
    -- a task that wakes another one is not an orphan
    rw [task] at hv
    cases hv
    rw [kept] at horphan
    cases horphan

/-! ## 2. Every run -/

/-- The states that a run from `s₀` along `l` has passed when it is in `s`. -/
def Passed (s₀ : Runtime Graph F V) (l : List (Op F V × Reply F V)) (s u : Runtime Graph F V) :
    Prop :=
  ∃ l₁ l₂, l = l₁ ++ l₂ ∧ Steps Next s₀ l₁ u ∧ Steps Next u l₂ s

theorem Passed.last {s₀ s : Runtime Graph F V} {l : List (Op F V × Reply F V)}
    (hs : Steps Next s₀ l s) : Passed s₀ l s s :=
  ⟨l, [], (List.append_nil l).symm, hs, .refl s⟩

/-- A run that goes on has passed the same states and its new last one. -/
theorem Passed.next {s₀ s t u : Runtime Graph F V} {l : List (Op F V × Reply F V)}
    {x : Op F V × Reply F V} (hu : Passed s₀ l s u) (hst : Next s x t) :
    Passed s₀ (l ++ [x]) t u := by
  obtain ⟨l₁, l₂, rfl, h₁, h₂⟩ := hu
  exact ⟨l₁, l₂ ++ [x], (List.append_assoc _ _ _), h₁, h₂.append (.single hst)⟩

/-- The pool never shrinks, and no state has had more live tasks than it is long now. -/
theorem live_le_len {l : List (Op F V × Reply F V)} {u s : Runtime Graph F V}
    (hs : Steps Next u l s) {l₀ : List (Op F V × Reply F V)} (hu : Reached l₀ u) :
    u.pool.live ≤ s.pool.len := by
  have hlen : ∀ l₀, Reached l₀ u → u.pool.len ≤ s.pool.len := by
    clear hu
    induction hs with
    | refl _ => exact fun _ _ => Nat.le_refl _
    | cons hst _ ih =>
      intro l₀ hs
      obtain ⟨a, b, hsa, htb, -, heff, -⟩ := hs.effect hst
      have hle := ih _ (hs.append (.single hst))
      rw [hsa.pool]
      rw [htb.pool] at hle
      rcases heff.len with h | ⟨h, -⟩
      · rwa [h] at hle
      · exact Nat.le_trans h hle
  exact Nat.le_trans (live_le _) (hlen l₀ hu)

/-- Some passed state has had as many live tasks as the pool is long. -/
theorem exists_live_eq_len {s₀ s : Runtime Graph F V} (h₀ : Start s₀)
    {l : List (Op F V × Reply F V)} (hs : Steps Next s₀ l s) :
    ∃ u, Passed s₀ l s u ∧ u.pool.live = s.pool.len := by
  refine hs.history (P := fun l s => ∃ u, Passed s₀ l s u ∧ u.pool.live = s.pool.len) ?_ ?_
  · obtain ⟨a, ha, hsa⟩ := graphRefines.start h₀
    obtain ⟨mainFn, arg, rfl⟩ := ha.eq_started
    exact ⟨s₀, .last (.refl _), by rw [hsa.pool]; rfl⟩
  · rintro l s x t hs ⟨u, hu, hlive⟩ hst
    obtain ⟨a, b, hsa, htb, -, heff, -⟩ := Reached.effect ⟨s₀, h₀, hs⟩ hst
    rcases heff.len with h | ⟨-, h⟩
    · refine ⟨u, hu.next hst, ?_⟩
      rw [hlive, hsa.pool, htb.pool, h]
    · exact ⟨t, .last (hs.append (.single hst)), by rw [htb.pool, h]⟩

/-- **The free list.**  In every state of every run: following `Task.handle` from `free_task`
visits each `FREE` slot once and no other slot, and ends at 0; `async_call` returns a slot that
was `FREE` or is new; a slot is `FREE` after its task has been freed, or has ended as an orphan; and
the pool is as long as the largest number of tasks that were live in one of the states passed. -/
theorem free_list {s₀ s : Runtime Graph F V} {l : List (Op F V × Reply F V)} (h₀ : Start s₀)
    (hs : Steps Next s₀ l s) :
    (∃ slots, s.pool.FreeList slots ∧ slots.Nodup) ∧
      (∀ fn arg h t, Next s (.call fn arg, .handle h) t →
        s.pool.stateOf h = some .free ∨ h.idx = s.pool.len + 1) ∧
      (∀ h r t, Next s (.free h, r) t → t.pool.stateOf h = some .free) ∧
      (∀ data r t v, Next s (.ret data, r) t → s.pool.slot s.running = some v →
        v.orphaned = true → t.pool.stateOf s.running = some .free) ∧
      (∀ u, Passed s₀ l s u → u.pool.live ≤ s.pool.len) ∧
      ∃ u, Passed s₀ l s u ∧ u.pool.live = s.pool.len := by
  have hreached : Reached l s := ⟨s₀, h₀, hs⟩
  refine ⟨?_, fun fn arg h t hst => ?_, fun h r t hst => ?_, fun data r t v hst hv horphan => ?_,
    ?_, exists_live_eq_len h₀ hs⟩
  · obtain ⟨a, -, ha, hsa⟩ := hreached.model
    obtain ⟨slots, hslots⟩ := ha.pool.free
    rw [hsa.pool]
    exact ⟨slots, hslots, hslots.1.nodup⟩
  · obtain ⟨a, b, hsa, -, -, heff, -⟩ := hreached.effect hst
    rw [hsa.pool]
    cases heff with
    | call _ _ room => exact room.imp And.left And.left
  · obtain ⟨a, b, -, htb, -, heff, -⟩ := hreached.effect hst
    rw [htb.pool]
    exact heff.freed
  · obtain ⟨a, b, hsa, htb, ha, heff, -⟩ := hreached.effect hst
    rw [hsa.pool, hsa.running] at hv
    rw [htb.pool, hsa.running]
    exact heff.orphan_ended ha hv horphan
  · rintro u ⟨l₁, l₂, -, h₁, h₂⟩
    exact live_le_len h₂ ⟨s₀, h₀, h₁⟩

/-- `main` calls a task, awaits it and frees it. -/
theorem free_list_freed : ∃ s₀ s t : Runtime Graph Nat Nat,
    Next s (.free ⟨2⟩, .done) t ∧ t.pool.stateOf ⟨2⟩ = some .free ∧
    (∃ slots, t.pool.FreeList slots ∧ slots.Nodup) ∧
      ∃ u, Passed s₀ [(.call 7 0, .handle ⟨2⟩), (.await ⟨2⟩, .start 7 0), (.ret 5, .await 5),
        (.free ⟨2⟩, .done)] t u ∧ u.pool.live = t.pool.len := by
  obtain ⟨s₀, s, t, h₀, hs, hst⟩ : ∃ s₀ s t : Runtime Graph Nat Nat, Start s₀ ∧
      Steps Next s₀ [(.call 7 0, .handle ⟨2⟩), (.await ⟨2⟩, .start 7 0), (.ret 5, .await 5)] s ∧
      Next s (.free ⟨2⟩, .done) t :=
    by exact ⟨_, _, _, ⟨0, 0, rfl⟩, .cons rfl (.cons rfl (.single rfl)), rfl⟩
  obtain ⟨-, -, hfreed, -⟩ := free_list h₀ hs
  obtain ⟨hslots, -, -, -, -, hlive⟩ := free_list h₀ (hs.append (.single hst))
  exact ⟨s₀, s, t, hst, hfreed ⟨2⟩ .done t hst, hslots, hlive⟩

end CAsync
