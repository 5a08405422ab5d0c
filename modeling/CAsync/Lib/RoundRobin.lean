/-
# Round robin

`roundRobin lists` has the first elements of the lists, in the order of the lists, then the second
elements of those that have one, and so on.  Taking one element from each list at a time makes the
same list (`roundRobin_step`), and every element comes exactly once (`roundRobin_perm`).
-/
import Mathlib.Data.List.Basic

variable {α : Type}

/-- The greatest length. -/
def maxLength (lists : List (List α)) : Nat := lists.foldr (fun l n => max l.length n) 0

/-- For `r = 0, 1, …` below the greatest length, the element at `r` of each list that has one. -/
def roundRobin (lists : List (List α)) : List α :=
  (List.range (maxLength lists)).flatMap fun r => lists.filterMap fun l => l[r]?

theorem length_le_maxLength {lists : List (List α)} {l : List α} (hl : l ∈ lists) :
    l.length ≤ maxLength lists := by
  induction lists with
  | nil => cases hl
  | cons k lists ih =>
    have hmax : maxLength (k :: lists) = max k.length (maxLength lists) := rfl
    rw [hmax]
    rcases List.mem_cons.mp hl with rfl | hl
    · exact Nat.le_max_left _ _
    · exact Nat.le_trans (ih hl) (Nat.le_max_right _ _)

theorem maxLength_tails (lists : List (List α)) :
    maxLength (lists.filterMap List.tail?) = maxLength lists - 1 := by
  induction lists with
  | nil => rfl
  | cons l lists ih =>
    have hmax : ∀ (k : List α) ls, maxLength (k :: ls) = max k.length (maxLength ls) :=
      fun _ _ => rfl
    cases l with
    | nil =>
      rw [List.filterMap_cons_none (by rfl), ih, hmax]
      simp
    | cons a l =>
      rw [List.filterMap_cons_some (b := l) (by rfl), hmax, ih, hmax, List.length_cons]
      omega

/-- **The first round, and the rest.** -/
theorem roundRobin_step (lists : List (List α)) :
    roundRobin lists = lists.filterMap List.head? ++ roundRobin (lists.filterMap List.tail?) := by
  have hlater : ∀ r : Nat, (lists.filterMap fun l => l[r + 1]?) =
      (lists.filterMap List.tail?).filterMap fun l => l[r]? := by
    intro r
    rw [List.filterMap_filterMap]
    refine List.filterMap_congr fun l _ => ?_
    cases l with
    | nil => rfl
    | cons a l => exact List.getElem?_cons_succ
  unfold roundRobin
  rw [maxLength_tails]
  cases hn : maxLength lists with
  | zero =>
    -- all lists are empty
    have hnil : lists.filterMap List.head? = [] := by
      refine List.filterMap_eq_nil_iff.mpr fun l hl => ?_
      have hlen := length_le_maxLength hl
      rw [hn, Nat.le_zero, List.length_eq_zero_iff] at hlen
      rw [hlen]
      rfl
    rw [hnil]
    rfl
  | succ n =>
    rw [Nat.add_sub_cancel, List.range_succ_eq_map, List.flatMap_cons, List.flatMap_map]
    congr 1
    · refine List.filterMap_congr fun l _ => ?_
      exact List.head?_eq_getElem?.symm
    · exact List.flatMap_congr fun r _ => hlater r

/-- The first elements and the rests are all the elements. -/
theorem heads_tails_perm (lists : List (List α)) :
    (lists.filterMap List.head? ++ (lists.filterMap List.tail?).flatten).Perm lists.flatten := by
  induction lists with
  | nil => exact .refl _
  | cons l lists ih =>
    cases l with
    | nil =>
      rw [List.filterMap_cons_none (by rfl), List.filterMap_cons_none (by rfl), List.flatten_cons,
        List.nil_append]
      exact ih
    | cons a l =>
      have hmove : (lists.filterMap List.head? ++ (l ++ (lists.filterMap List.tail?).flatten)).Perm
          (l ++ (lists.filterMap List.head? ++ (lists.filterMap List.tail?).flatten)) := by
        rw [← List.append_assoc, ← List.append_assoc]
        exact List.perm_append_comm.append_right _
      rw [List.filterMap_cons_some (b := a) (by rfl), List.filterMap_cons_some (b := l) (by rfl),
        List.flatten_cons, List.flatten_cons]
      exact (hmove.trans (ih.append_left l)).cons a

/-- **Every element comes exactly once.** -/
theorem roundRobin_perm (lists : List (List α)) : (roundRobin lists).Perm lists.flatten := by
  induction hn : maxLength lists generalizing lists with
  | zero =>
    have hnil : lists.flatten = [] := by
      refine List.flatten_eq_nil_iff.mpr fun l hl => ?_
      have hlen := length_le_maxLength hl
      rwa [hn, Nat.le_zero, List.length_eq_zero_iff] at hlen
    unfold roundRobin
    rw [hn, hnil]
    exact .refl _
  | succ n ih =>
    rw [roundRobin_step]
    exact ((ih _ (by rw [maxLength_tails, hn, Nat.add_sub_cancel])).append_left _).trans
      (heads_tails_perm lists)
