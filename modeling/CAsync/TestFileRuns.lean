/-
# The parser of the test runner reads what a test file says

`parse_file`, line by line, does what `Reading.next` does (`Tracks.parseLine`): its strings hold the
texts (`Str.Holds`), its commands the words (`Command.Holds`), and its nodes the runs (`Chain`).  So
it finds the header of every file, or crashes at the first end of a run for which no input or no
output has been read (`test_file_reads`), and a header that was written is read back
(`test_file_round_trip`).

The nodes are followed from the first to the last, and the invariant says of every other address
that there is nothing (`Vacant`).  Before the first end of a run the only node is the one that
`run_test` made; from then on there is one node more than there are runs, which is not linked.  At
the end of the file it is freed (`Chain.deinit`), so the nodes of the list are all there are.

All sizes are `int`, so the files are shorter than `2 ^ 29`.
-/
import CAsync.Lib.Links
import CAsync.TestHeader
import Mathlib.Data.List.Forall2
import Mathlib.Data.List.TakeWhile

namespace CAsync

open Faulting Fields

namespace Runner

/-! ## 1. Strings -/

section

variable {s dst : Str} {text old : List UInt8}

/-- `STRING_OK` passes. -/
theorem stringOk_eq (h : s.Holds text) : stringOk s = .ok () := by
  cases h with
  | zero => rfl
  | @block _ rest k hk hlen =>
    have hcap := grownCap_lt hk
    have hlast : memcpyFrom (text ++ ([0] ++ rest)) text.length 1 = .ok [0] :=
      memcpyFrom_append text rfl rfl
    rw [List.singleton_append] at hlast
    unfold stringOk
    rw [if_neg (by simp), intOp_eq (by simp only; omega) (by simp only; omega), faulting_ok,
      ok_bind, require_of ⟨by simp only; omega, by simp⟩, ok_bind, hlast, faulting_ok, ok_bind,
      require_of rfl]

theorem append_eq (h : s.Holds text) (c : UInt8) (hint : text.length + 2 < 2 ^ 30) :
    ∃ t, stringAppend s c = .ok t ∧ t.Holds (text ++ [c]) ∧ t.cap ≠ 0 := by
  obtain ⟨t, happend, ht⟩ := h.append c hint
  refine ⟨t, ?_, ht⟩
  unfold stringAppend
  rw [stringOk_eq h, ok_bind, happend, faulting_ok]

theorem clear_eq (h : s.Holds text) :
    ∃ t, stringClear s = .ok t ∧ t.Holds [] ∧ t.cap = s.cap := by
  obtain ⟨t, hclear, ht⟩ := h.clear
  refine ⟨t, ?_, ht⟩
  unfold stringClear
  rw [stringOk_eq h, ok_bind, hclear, faulting_ok]

theorem concat_eq (h : s.Holds text) (b : StringRef) (hint : text.length + b.length + 2 < 2 ^ 30) :
    ∃ t, stringConcat s b = .ok t ∧ t.Holds (text ++ b) ∧ t.cap ≠ 0 := by
  obtain ⟨t, hconcat, ht⟩ := h.concat b hint
  refine ⟨t, ?_, ht⟩
  unfold stringConcat
  rw [stringOk_eq h, ok_bind, hconcat, faulting_ok, ok_bind, stringOk_eq ht.1, ok_bind]

theorem clone_eq (h : s.Holds text) (hdst : dst.Holds old) (hcap : s.cap ≠ 0)
    (hint : text.length + 2 < 2 ^ 30) : ∃ t, stringClone s dst = .ok t ∧ t.Holds text := by
  obtain ⟨t, hclone, ht⟩ := h.clone hdst hcap hint
  refine ⟨t, ?_, ht⟩
  unfold stringClone
  rw [stringOk_eq h, ok_bind, stringOk_eq hdst, ok_bind, hclone, faulting_ok, ok_bind,
    stringOk_eq ht, ok_bind]

/-- A string that is still NULL. -/
theorem clone_null (h : s.Holds text) (hdst : dst.Holds old) (hcap : s.cap = 0) :
    stringClone s dst = .error (.fault .nullDeref) := by
  obtain rfl := h.valid.eq_zero hcap
  unfold stringClone
  rw [stringOk_eq h, ok_bind, stringOk_eq hdst, ok_bind, Str.Holds.clone_null hdst, faulting_error,
    error_bind]

theorem ref_eq (h : s.Holds text) : stringRef s = .ok text := by
  unfold stringRef
  rw [stringOk_eq h, ok_bind, h.stringRef_eq]

/-- **`string_ref_clone`** appends a text, byte by byte. -/
theorem refClone_eq (ref : StringRef) (h : s.Holds text)
    (hint : text.length + ref.length + 1 < 2 ^ 30) :
    ∃ t, stringRefClone ref s = .ok t ∧ t.Holds (text ++ ref) ∧ (ref ≠ [] → t.cap ≠ 0) := by
  induction ref generalizing s text with
  | nil => exact ⟨s, rfl, by rwa [List.append_nil], fun h => absurd rfl h⟩
  | cons c ref ih =>
    rw [List.length_cons] at hint
    obtain ⟨t, happend, ht, hcap⟩ := append_eq h c (by omega)
    obtain ⟨u, hclone, hu, hkeep⟩ := ih ht (by
      rw [List.length_append, List.length_singleton]
      omega)
    refine ⟨u, ?_, ?_, fun _ => ?_⟩
    · unfold stringRefClone at hclone ⊢
      rw [List.foldlM_cons, happend]
      exact hclone
    · rwa [List.append_assoc, List.singleton_append] at hu
    · cases ref with
      | nil =>
        cases hclone
        exact hcap
      | cons d ref => exact hkeep (List.cons_ne_nil _ _)

end

/-- The loop of `string_read_line`, behind a text. -/
theorem readLineLoop_eq (file : List UInt8) {s : Str} {text : List UInt8} (h : s.Holds text)
    (hint : text.length + file.length + 2 < 2 ^ 30) :
    (Plain (· == 10) file ∧ ∃ t, readLineLoop file s = .ok (false, t, []) ∧
        t.Holds (text ++ file)) ∨
      ∃ l rest t, Plain (· == 10) l ∧ file = l ++ 10 :: rest ∧
        readLineLoop file s = .ok (true, t, rest) ∧ t.Holds (text ++ l) := by
  induction file generalizing s text with
  | nil => exact .inl ⟨Plain.nil, s, rfl, by rwa [List.append_nil]⟩
  | cons c file ih =>
    rw [List.length_cons] at hint
    by_cases hc : c = 10
    · exact .inr ⟨[], file, s, Plain.nil, by rw [hc]; rfl, if_pos hc, by rwa [List.append_nil]⟩
    have hplain : (c == 10) = false := beq_eq_false_iff_ne.mpr hc
    obtain ⟨t, happend, ht, -⟩ := append_eq h c (by omega)
    have hstep : readLineLoop (c :: file) s = readLineLoop file t := by
      rw [readLineLoop, if_neg hc, happend, ok_bind]
    have hleft : (text ++ [c]).length + file.length + 2 < 2 ^ 30 := by
      rw [List.length_append, List.length_singleton]
      omega
    rw [hstep]
    rcases ih ht hleft with ⟨hfile, u, hread, hu⟩ | ⟨l, rest, u, hl, rfl, hread, hu⟩
    · exact .inl ⟨List.forall_mem_cons.mpr ⟨hplain, hfile⟩, u, hread,
        by rwa [List.append_assoc, List.singleton_append] at hu⟩
    · exact .inr ⟨c :: l, rest, u, List.forall_mem_cons.mpr ⟨hplain, hl⟩, rfl, hread,
        by rwa [List.append_assoc, List.singleton_append] at hu⟩

/-- **`string_read_line`** reads up to the end of the line, or of the file. -/
theorem readLine_eq (file : List UInt8) {s : Str} (h : s.Holds [])
    (hint : file.length + 2 < 2 ^ 30) :
    (Plain (· == 10) file ∧ ∃ t, stringReadLine file s = .ok (false, t, []) ∧ t.Holds file) ∨
      ∃ l rest t, Plain (· == 10) l ∧ file = l ++ 10 :: rest ∧
        stringReadLine file s = .ok (true, t, rest) ∧ t.Holds l := by
  unfold stringReadLine
  rw [stringOk_eq h, ok_bind]
  exact readLineLoop_eq file h (by rw [List.length_nil]; omega)

/-! ## 2. Commands -/

/-- **A command holds words**: its first arguments are blocks that begin with them and a 0. -/
structure Command.Holds (cmd : Command) (words : List (List UInt8)) : Prop where
  len : cmd.len = words.length
  cap : cmd.args.length = cmd.cap
  grown : ∃ k ≤ 27, cmd.cap = grownCap k
  args : ∃ stored rest, cmd.args = stored ++ rest ∧
    List.Forall₂ (fun arg w => ∃ more, arg = some (w ++ 0 :: more)) stored words

/-- ... and NULL is behind them. -/
structure Command.Ends (cmd : Command) (words : List (List UInt8)) : Prop where
  len : cmd.len = words.length + 1
  args : ∃ stored rest, cmd.args = stored ++ none :: rest ∧
    List.Forall₂ (fun arg w => ∃ more, arg = some (w ++ 0 :: more)) stored words

namespace Command.Holds

variable {cmd : Command} {words : List (List UInt8)}

theorem init : commandInit.Holds [] :=
  ⟨rfl, rfl, ⟨0, by decide, rfl⟩, [], [], rfl, .nil⟩

/-- There is room for an argument. -/
theorem reserve (h : cmd.Holds words) (hint : words.length + 1 < 2 ^ 30) :
    ∃ t, commandReserve cmd = .ok t ∧ t.Holds words ∧ words.length < t.args.length := by
  have hlen := h.len
  have hcap := h.cap
  unfold commandReserve
  by_cases hfull : cmd.len + 1 ≥ cmd.cap
  · obtain ⟨k, -, hk⟩ := h.grown
    obtain ⟨hsmall, hsize⟩ := grownCap_le (k := k) (by omega)
    have hdouble : cmd.cap * 2 + 10 = grownCap (k + 1) := by rw [hk, grownCap_succ]
    obtain ⟨stored, rest, hargs, hstored⟩ := h.args
    have hcount : words.length ≤ cmd.args.length := by
      rw [hargs, List.length_append, ← hstored.length_eq]
      exact Nat.le_add_right _ _
    rw [if_pos hfull]
    dsimp only
    rw [hdouble, require_of hsize, ok_bind]
    refine ⟨_, rfl, ⟨hlen, ?_, ⟨k + 1, by omega, rfl⟩, stored,
      rest ++ List.replicate (grownCap (k + 1) - cmd.args.length) none, ?_, hstored⟩, ?_⟩
    · simp only [List.length_append, List.length_replicate]
      omega
    · simp only
      rw [hargs, List.append_assoc]
    · simp only [List.length_append, List.length_replicate]
      omega
  · rw [if_neg hfull]
    exact ⟨cmd, rfl, h, by omega⟩

/-- The next argument is the one behind the words. -/
theorem store_eq (h : cmd.Holds words) (hroom : words.length < cmd.args.length)
    (arg : Option (List UInt8)) : ∃ stored rest,
      store cmd.args cmd.len arg = .ok (stored ++ arg :: rest) ∧
        (stored ++ arg :: rest).length = cmd.args.length ∧
        List.Forall₂ (fun arg w => ∃ more, arg = some (w ++ 0 :: more)) stored words := by
  obtain ⟨stored, rest, hargs, hstored⟩ := h.args
  have hcount := hstored.length_eq
  rw [hargs, List.length_append] at hroom
  cases rest with
  | nil =>
    rw [List.length_nil] at hroom
    omega
  | cons b rest =>
    refine ⟨stored, rest, ?_, by rw [hargs]; simp, hstored⟩
    have hset : (stored ++ b :: rest).set words.length arg = stored ++ arg :: rest := by
      rw [← hcount]
      simp
    rw [hargs, h.len, CAsync.store_eq (by rw [List.length_append]; omega), hset]

/-- **`command_append`** adds a word. -/
theorem append (h : cmd.Holds words) {w : StringRef} (hw : w ≠ [])
    (hint : words.length + 1 < 2 ^ 30)
    (hsize : w.length + 1 < 2 ^ 30) : ∃ t, commandAppend cmd w = .ok t ∧
      t.Holds (words ++ [w]) := by
  obtain ⟨t, hreserve, ht, hroom⟩ := h.reserve hint
  obtain ⟨clone, hclone, hholds, hcap⟩ := refClone_eq w Str.Holds.zero (by
    rw [List.length_nil]
    omega)
  rw [List.nil_append] at hholds
  obtain ⟨more, hstr, -⟩ := hholds.exists_rest (hcap hw)
  obtain ⟨stored, rest, hstore, hlen, hstored⟩ := ht.store_eq hroom (some clone.str)
  unfold commandAppend
  rw [hreserve, ok_bind, hclone, ok_bind, hstore, faulting_ok, ok_bind]
  refine ⟨_, rfl, ?_, hlen.trans ht.cap, ht.grown, stored ++ [some clone.str], rest, by simp, ?_⟩
  · simp only [List.length_append, List.length_singleton]
    rw [ht.len]
  · exact List.rel_append hstored (.cons ⟨more, by rw [hstr]⟩ .nil)

/-- **`command_finish`** ends it. -/
theorem finish (h : cmd.Holds words) (hint : words.length + 1 < 2 ^ 30) :
    ∃ t, commandFinish cmd = .ok t ∧ t.Ends words := by
  obtain ⟨t, hreserve, ht, hroom⟩ := h.reserve hint
  obtain ⟨stored, rest, hstore, hlen, hstored⟩ := ht.store_eq hroom none
  unfold commandFinish
  rw [hreserve, ok_bind, hstore, faulting_ok, ok_bind]
  exact ⟨_, rfl, congrArg (· + 1) ht.len, stored, rest, rfl, hstored⟩

/-- **The words of a line.** -/
theorem appendWords (fuel : Nat) {line : StringRef} (h : cmd.Holds words)
    (hfuel : line.length < fuel)
    (hint : words.length + line.length + 1 < 2 ^ 30) :
    ∃ t, Runner.appendWords fuel line cmd = .ok t ∧ t.Holds (words ++ tokens isspace line) := by
  induction fuel generalizing line cmd words with
  | zero => omega
  | succ fuel ih =>
    rw [Runner.appendWords]
    rcases stringRefSplitWsOnce_eq line with ⟨hnone, hstop⟩ |
      ⟨token, rest, hone, hne, hlen, htokens⟩
    · rw [hnone, List.append_nil]
      generalize stringRefSplitWsOnce line = r at hstop
      obtain ⟨more, arg, rest⟩ := r
      obtain rfl : more = false := hstop
      exact ⟨cmd, rfl, h⟩
    · have hpos : 0 < token.length := List.length_pos_of_ne_nil hne
      obtain ⟨t, happend, ht⟩ := h.append hne (by omega) (by omega)
      have hleft : (words ++ [token]).length + rest.length + 1 < 2 ^ 30 := by
        rw [List.length_append, List.length_singleton]
        omega
      obtain ⟨u, hrest, hu⟩ := ih ht (by omega) hleft
      rw [hone]
      dsimp only
      rw [if_pos rfl, happend, ok_bind]
      refine ⟨u, hrest, ?_⟩
      rwa [List.append_assoc, List.singleton_append, ← htokens] at hu

end Command.Holds

/-! ## 3. Runs -/

/-- Where the nodes lead. -/
def linksOf (heap : Heap) : Nat → Option Nat := fun ptr => (heap.node ptr).bind RunList.next

/-- A node holds a run. -/
def HoldsRun (heap : Heap) (ptr : Nat) (r : List UInt8 × List UInt8) : Prop :=
  ∃ n, heap.node ptr = some n ∧ n.input.Holds r.1 ∧ n.output.Holds r.2

/-- There are no nodes but these. -/
def Vacant (heap : Heap) (l : List Nat) : Prop := ∀ a ∉ l, heap.node a = none

/-- A new node. -/
def emptyRun : RunList := { input := stringInit, output := stringInit, next := none }

/-- **The runs that have ended**, and the node that is left over: the first, or one
that is not linked yet. -/
inductive Chain (heap : Heap) (head : Nat) :
    Nat → Option Nat → List (List UInt8 × List UInt8) → Prop
  | start : heap.node head = some emptyRun → head < heap.brk → Vacant heap [head] →
      Chain heap head head none []
  | more {front : List Nat} {last next : Nat} {done : List (List UInt8 × List UInt8)} :
      Links (linksOf heap) (some head) (front ++ [last]) →
      List.Forall₂ (HoldsRun heap) (front ++ [last]) done →
      (∀ ptr ∈ front ++ [last], ptr < heap.brk) →
      heap.node next = some emptyRun → next < heap.brk → next ∉ front ++ [last] →
      Vacant heap (front ++ [last] ++ [next]) →
      Chain heap head last (some next) done

/-- The node for the next run is linked. -/
structure Linked (heap : Heap) (head : Nat) (front : List Nat) (ptr : Nat)
    (done : List (List UInt8 × List UInt8)) : Prop where
  links : Links (linksOf heap) (some head) (front ++ [ptr])
  runs : List.Forall₂ (HoldsRun heap) front done
  bound : ∀ a ∈ front ++ [ptr], a < heap.brk
  empty : heap.node ptr = some emptyRun
  vacant : Vacant heap (front ++ [ptr])

/-- A list of runs, as `run_test` walks through it; there is no node beside it. -/
def ListsRuns (heap : Heap) (head : Nat) (runs : List (List UInt8 × List UInt8)) : Prop :=
  ∃ l, Links (linksOf heap) (some head) l ∧ List.Forall₂ (HoldsRun heap) l runs ∧ Vacant heap l

section

variable {heap : Heap} {head last ptr : Nat} {this : Option Nat}
  {done : List (List UInt8 × List UInt8)} {front : List Nat}

@[simp] theorem store_self (heap : Heap) (ptr : Nat) (n : RunList) :
    (heap.store ptr n).node ptr = some n := by
  simp [Heap.store]

theorem store_of_ne (heap : Heap) (n : RunList) {a : Nat} (h : a ≠ ptr) :
    (heap.store ptr n).node a = heap.node a := by
  simp [Heap.store, h]

@[simp] theorem runListInit_self (heap : Heap) :
    (runListInit heap).1.node heap.brk = some emptyRun := by
  simp [runListInit, emptyRun]

theorem runListInit_of_ne {heap : Heap} {a : Nat} (h : a ≠ heap.brk) :
    (runListInit heap).1.node a = heap.node a := by
  simp [runListInit, h]

/-- Writing to a node takes no other address. -/
theorem Vacant.store {l : List Nat} (h : Vacant heap l) (hptr : ptr ∈ l) (n : RunList) :
    Vacant (heap.store ptr n) l := by
  intro a ha
  have hne : a ≠ ptr := by
    rintro rfl
    exact ha hptr
  rw [store_of_ne heap n hne, h a ha]

/-- A new node takes the next address. -/
theorem Vacant.init {l : List Nat} (h : Vacant heap l) :
    Vacant (runListInit heap).1 (l ++ [heap.brk]) := by
  intro a ha
  rw [List.mem_append, List.mem_singleton, not_or] at ha
  rw [runListInit_of_ne ha.2, h a ha.1]

/-- A node that is freed leaves its address. -/
theorem Vacant.free {l : List Nat} (h : Vacant heap (l ++ [ptr])) :
    Vacant { heap with node := Function.update heap.node ptr none } l := by
  intro a ha
  by_cases hap : a = ptr
  · rw [hap]
    exact Function.update_self ..
  · refine (Function.update_of_ne hap ..).trans (h a ?_)
    rw [List.mem_append, List.mem_singleton, not_or]
    exact ⟨ha, hap⟩

theorem load_of_node {n : RunList} (h : heap.node ptr = some n) : heap.load ptr = .ok n := by
  unfold Heap.load
  rw [h]

theorem linksOf_of_empty (h : heap.node ptr = some emptyRun) : linksOf heap ptr = none := by
  unfold linksOf
  rw [h]
  rfl

theorem linksOf_store (heap : Heap) (ptr : Nat) (n : RunList) :
    linksOf (heap.store ptr n) = Function.update (linksOf heap) ptr n.next := by
  funext a
  unfold linksOf
  by_cases ha : a = ptr
  · rw [ha, store_self, Function.update_self]
    rfl
  · rw [store_of_ne heap n ha, Function.update_of_ne ha]

/-- **The next node** is put behind the last one. -/
theorem Chain.nextRun (h : Chain heap head last this done) : ∃ heap' ptr front,
    nextRun heap last this = .ok (heap', ptr) ∧ Linked heap' head front ptr done := by
  cases h with
  | start hempty hbound hvacant =>
    refine ⟨heap, head, [], rfl, .cons (by rw [linksOf_of_empty hempty]; exact .nil), .nil, ?_,
      hempty, hvacant⟩
    simpa using hbound
  | @more front last next done hlinks hruns hbound hempty hnext haway hvacant =>
    obtain ⟨n, hn⟩ : ∃ n, heap.node last = some n := by
      have hmem : last ∈ front ++ [last] := by simp
      obtain ⟨i, hi, hlast⟩ := List.getElem_of_mem hmem
      have hget := (List.forall₂_iff_get.mp hruns).2 i hi (by rw [← hruns.length_eq]; exact hi)
      rw [List.get_eq_getElem, hlast] at hget
      obtain ⟨n, hn, -⟩ := hget
      exact ⟨n, hn⟩
    have hne : next ≠ last := by
      rintro rfl
      exact haway (by simp)
    refine ⟨heap.store last { n with next := some next }, next, front ++ [last], ?_, ?_, ?_, ?_, ?_,
      hvacant.store (by simp) _⟩
    · unfold Runner.nextRun
      dsimp only
      rw [load_of_node hn, ok_bind]
    · rw [linksOf_store, List.append_assoc]
      exact hlinks.concat haway (linksOf_of_empty hempty)
    · refine hruns.imp fun a r har => ?_
      obtain ⟨m, hm, hin, hout⟩ := har
      by_cases ha : a = last
      · rw [ha, hn] at hm
        cases hm
        exact ⟨{ n with next := some next }, by rw [ha, store_self], hin, hout⟩
      · exact ⟨m, (store_of_ne heap _ ha).trans hm, hin, hout⟩
    · intro a ha
      rcases List.mem_append.mp ha with ha | ha
      · exact hbound a ha
      · rw [List.mem_singleton.mp ha]
        exact hnext
    · exact (store_of_ne heap _ hne).trans hempty

/-- **A run that ends** is written to the next node, and a new one is made. -/
theorem Linked.fill (h : Linked heap head front ptr done) {n : RunList}
    {r : List UInt8 × List UInt8} (hin : n.input.Holds r.1) (hout : n.output.Holds r.2)
    (hnext : n.next = none) :
    Chain (runListInit (heap.store ptr n)).1 head ptr (some heap.brk) (done ++ [r]) := by
  have hbound : ∀ a ∈ front ++ [ptr], a ≠ heap.brk := fun a ha => Nat.ne_of_lt (h.bound a ha)
  have hfront : ∀ a ∈ front, a ≠ ptr ∧ a ≠ heap.brk := by
    intro a ha
    have hnd := List.nodup_append.mp h.links.nodup
    exact ⟨hnd.2.2 a ha ptr (by simp), hbound a (List.mem_append_left _ ha)⟩
  have hkeep : ∀ a, a ≠ heap.brk → (runListInit (heap.store ptr n)).1.node a =
      (heap.store ptr n).node a := fun a ha => runListInit_of_ne ha
  refine .more ?_ ?_ ?_ (runListInit_self (heap.store ptr n)) (Nat.lt_succ_self _)
    (fun hmem => hbound _ hmem rfl) (h.vacant.store (by simp) n).init
  · refine h.links.congr fun a ha => ?_
    have hmade : linksOf (runListInit (heap.store ptr n)).1 a = linksOf (heap.store ptr n) a := by
      unfold linksOf
      rw [hkeep a (hbound a ha)]
    rw [hmade, linksOf_store]
    by_cases hap : a = ptr
    · rw [hap, Function.update_self, linksOf_of_empty h.empty, hnext]
    · rw [Function.update_of_ne hap]
  · refine List.rel_append ?_ (.cons ?_ .nil)
    · refine ((List.forall₂_and_left front done).mpr ⟨hfront, h.runs⟩).imp fun a r har => ?_
      obtain ⟨⟨hptr, hbrk⟩, m, hm, hholds⟩ := har
      exact ⟨m, by rw [hkeep a hbrk, store_of_ne heap n hptr, hm], hholds⟩
    · exact ⟨n, by rw [hkeep ptr (hbound ptr (by simp)), store_self], hin, hout⟩
  · intro a ha
    exact Nat.lt_succ_of_lt (h.bound a ha)

end

/-! ## 4. A line -/

/-- **One of the two texts of a run**, input or output: `f` finds its lines, and `last` says that
the line before was one. -/
structure Side (f : Line → Option (List UInt8)) (last : Prop) (s : Str) (made : Bool)
    (block : List Line) (size : Nat) : Prop where
  holds : s.Holds (joined 10 f false block)
  made : s.cap ≠ 0 ↔ made = true
  last : last ↔ endsIn f false block = true
  size : (joined 10 f false block).length ≤ size

namespace Side

variable {f : Line → Option (List UInt8)} {last last' : Prop} {s : Str} {made : Bool}
  {block : List Line} {size size' : Nat} {l : Line}

theorem mono (h : Side f last s made block size) (hsize : size ≤ size') :
    Side f last s made block size' :=
  ⟨h.holds, h.made, h.last, Nat.le_trans h.size hsize⟩

/-- A text that has not been made is still NULL. -/
theorem cap_eq_zero (h : Side f last s made block size) (hmade : made = false) : s.cap = 0 := by
  by_contra hcap
  rw [h.made.mp hcap] at hmade
  cases hmade

/-- Another line. -/
theorem other (h : Side f last s made block size) (hl : f l = none) (hlast : ¬ last')
    (hsize : size ≤ size') : Side f last' s (made || (f l).isSome) (block ++ [l]) size' := by
  have hsame : joined 10 f false (block ++ [l]) = joined 10 f false block := by
    rw [joined_append, joined, hl]
    exact List.append_nil _
  refine ⟨by rw [hsame]; exact h.holds, ?_, ?_, by rw [hsame]; exact Nat.le_trans h.size hsize⟩
  · rw [hl, h.made]
    simp
  · rw [endsIn_append, endsIn, hl]
    exact ⟨fun hyes => absurd hyes hlast, fun hno => absurd hno Bool.false_ne_true⟩

/-- **A line of the text.** -/
theorem line [Decidable last] (h : Side f last s made block size) {t : List UInt8}
    (hl : f l = some t)
    (hlast : last') (hint : size + t.length + 4 < 2 ^ 30) :
    ∃ u, addLine s (decide last) t = .ok u ∧
      Side f last' u (made || (f l).isSome) (block ++ [l]) (size + t.length + 1) := by
  have hsize := h.size
  -- the newline, if the line before was one of the text
  obtain ⟨v, hv, hholds⟩ : ∃ v, (if decide last then stringAppend s 10 else .ok s) = .ok v ∧
      v.Holds (joined 10 f false block ++ if endsIn f false block then [10] else []) := by
    by_cases hyes : last
    · obtain ⟨v, hv, hholds, -⟩ := append_eq h.holds 10 (by omega)
      refine ⟨v, by rw [if_pos (by simpa using hyes), hv], ?_⟩
      rwa [if_pos (h.last.mp hyes)]
    · refine ⟨s, by rw [if_neg (by simpa using hyes)], ?_⟩
      rw [if_neg fun hend => hyes (h.last.mpr hend), List.append_nil]
      exact h.holds
  have hnl : (if endsIn f false block then [(10 : UInt8)] else []).length ≤ 1 := by
    split
    · exact Nat.le_refl 1
    · exact Nat.zero_le 1
  obtain ⟨u, hu, huholds, hcap⟩ := concat_eq hholds t (by
    rw [List.length_append]
    omega)
  have htext : joined 10 f false (block ++ [l]) =
      joined 10 f false block ++ (if endsIn f false block then [10] else []) ++ t := by
    rw [joined_append, joined, hl]
    cases endsIn f false block with
    | true => simp [joined]
    | false => simp [joined]
  refine ⟨u, ?_, ?_, ?_, ?_, ?_⟩
  · unfold addLine
    rw [hv, ok_bind, hu]
  · rwa [htext]
  · rw [hl]
    exact ⟨fun _ => by simp, fun _ => hcap⟩
  · rw [endsIn_append, endsIn, hl]
    exact ⟨fun _ => rfl, fun _ => hlast⟩
  · rw [htext, List.length_append, List.length_append]
    omega

/-- The end of the run. -/
theorem clear (h : Side f last s made block size) (hlast : ¬ last') (size' : Nat) :
    ∃ u, stringClear s = .ok u ∧ Side f last' u made [] size' := by
  obtain ⟨u, hu, hholds, hcap⟩ := clear_eq h.holds
  refine ⟨u, hu, hholds, by rw [hcap]; exact h.made, ?_, Nat.zero_le _⟩
  exact ⟨fun hyes => absurd hyes hlast, fun hno => absurd hno Bool.false_ne_true⟩

end Side

/-- **The parser keeps what the reader has read**: the two texts, the words of the commands, and the
runs that have ended. -/
structure Tracks (head size : Nat) (s : Parser) (p : Reading) : Prop where
  input : Side Line.inputText (s.lastLineKind = .input) s.input p.input p.block size
  output : Side Line.outputText (s.lastLineKind = .output) s.output p.output p.block size
  compile : s.compileCommand.Holds p.compile
  compileSize : p.compile.length ≤ size
  run : s.runCommand.Holds p.run
  runSize : p.run.length ≤ size
  runs : Chain s.heap head s.runs s.thisRun p.done

section

variable {head size : Nat} {s : Parser} {p : Reading} {l : StringRef}

theorem trimLeft_marked (c : UInt8) (l : StringRef) :
    (stringRefTrimLeft l c).1 = 2 ↔ marked c l = true := by
  simp [stringRefTrimLeft, marked]

theorem trimLeft_behind (c : UInt8) (l : StringRef) :
    (stringRefTrimLeftWs (stringRefTrimLeft l c).2).2 = behind c l := stringRefTrimLeftWs_eq _

theorem length_behind_le (c : UInt8) (l : StringRef) : (behind c l).length ≤ l.length :=
  Nat.le_trans (List.dropWhile_suffix _).length_le (List.dropWhile_suffix _).length_le

/-- The line of dashes. -/
theorem trimLeft_dashes (l : StringRef) :
    ((stringRefTrimLeft l 45).1 ≠ 0 ∧ (stringRefTrimLeft l 45).2.length = 0) ↔
      l ≠ [] ∧ l.all (· == 45) = true := by
  have hlen := stringRefTrimLeft_length l 45
  have hall : (stringRefTrimLeft l 45).2.length = 0 ↔ l.all (· == 45) = true := by
    simp [stringRefTrimLeft, List.dropWhile_eq_nil_iff]
  rw [← hall]
  constructor
  · rintro ⟨hpos, hzero⟩
    refine ⟨?_, hzero⟩
    rintro rfl
    exact hpos rfl
  · rintro ⟨hne, hzero⟩
    have hpos := List.length_pos_of_ne_nil hne
    exact ⟨by omega, hzero⟩

theorem Tracks.mono {size' : Nat} (h : Tracks head size s p) (hsize : size ≤ size') :
    Tracks head size' s p :=
  ⟨h.input.mono hsize, h.output.mono hsize, h.compile, Nat.le_trans h.compileSize hsize, h.run,
    Nat.le_trans h.runSize hsize, h.runs⟩

/-- The string for the line is not among what is kept. -/
theorem Tracks.setLine (h : Tracks head size s p) (line : Str) :
    Tracks head size { s with line := line } p :=
  ⟨h.input, h.output, h.compile, h.compileSize, h.run, h.runSize, h.runs⟩

/-- What a line leaves for the next one. -/
def Kept (head size : Nat) (s : Parser) (t : Parser) (q : Reading) : Prop :=
  Tracks head size t q ∧ t.line = s.line

/-- **The end of a run.** -/
theorem Tracks.endRun (h : Tracks head size s p) (hint : size + 2 < 2 ^ 30) (size' : Nat)
    (hsize : size ≤ size') : Lockstep (Kept head size' s) (endRun s) (p.next .split) := by
  obtain ⟨heap, ptr, front, hnext, hlinked⟩ := h.runs.nextRun
  have hin := h.input.size
  have hout := h.output.size
  unfold Runner.endRun Reading.next
  rw [hnext, ok_bind, if_pos (show Line.split.isSplit = true from rfl)]
  dsimp only
  rw [load_of_node hlinked.empty, ok_bind, show emptyRun.input = stringInit from rfl,
    show emptyRun.output = stringInit from rfl]
  cases hi : p.input with
  | false =>
    -- the input is still NULL
    rw [clone_null h.input.holds Str.Holds.zero (h.input.cap_eq_zero hi), error_bind,
      require_of_not (by simp), error_bind]
    exact .error _
  | true =>
  obtain ⟨input, hinput, hinholds⟩ :=
    clone_eq h.input.holds Str.Holds.zero (h.input.made.mpr hi) (by omega)
  rw [hinput, ok_bind]
  cases ho : p.output with
  | false =>
    rw [clone_null h.output.holds Str.Holds.zero (h.output.cap_eq_zero ho), error_bind,
      require_of_not (by simp), error_bind]
    exact .error _
  | true =>
  obtain ⟨output, houtput, houtholds⟩ :=
    clone_eq h.output.holds Str.Holds.zero (h.output.made.mpr ho) (by omega)
  obtain ⟨i, hiclear, hiside⟩ :=
    h.input.clear (show ¬ LastLineKind.split = .input by decide) size'
  obtain ⟨o, hoclear, hoside⟩ :=
    h.output.clear (show ¬ LastLineKind.split = .output by decide) size'
  rw [houtput, ok_bind, hiclear, ok_bind, hoclear, ok_bind, require_of ⟨rfl, rfl⟩, ok_bind]
  refine .ok ⟨⟨?_, ?_, h.compile, Nat.le_trans h.compileSize hsize, h.run,
    Nat.le_trans h.runSize hsize, ?_⟩, rfl⟩
  · simpa [hi] using hiside
  · simpa [ho] using hoside
  · exact hlinked.fill hinholds houtholds rfl

/-- **The marks of a line** say what it says. -/
theorem Tracks.marks (h : Tracks head size s p) (hint : size + l.length + 4 < 2 ^ 30) :
    Lockstep (Kept head (size + l.length + 1) s) (parseMarks s l) (p.next (classifyTrimmed l)) := by
  have hsize : size ≤ size + l.length + 1 := by omega
  have hkeep : ∀ {words : List (List UInt8)}, words.length ≤ size →
      (words ++ ([] : List (List UInt8))).length ≤ size + l.length + 1 := by
    intro words hwords
    rw [List.append_nil]
    omega
  have hmore : ∀ {words : List (List UInt8)} (c : UInt8), words.length ≤ size →
      (words ++ tokens isspace (behind c l)).length ≤ size + l.length + 1 := by
    intro words c hwords
    have htokens := length_tokens_le (p := isspace) (behind c l)
    have hbehind := length_behind_le c l
    rw [List.length_append]
    omega
  have hcompileKeep : s.compileCommand.Holds (p.compile ++ []) := by
    rw [List.append_nil]
    exact h.compile
  have hrunKeep : s.runCommand.Holds (p.run ++ []) := by
    rw [List.append_nil]
    exact h.run
  unfold parseMarks classifyTrimmed
  simp only [trimLeft_marked, trimLeft_behind, trimLeft_dashes]
  by_cases hcompile : marked 36 l = true
  · have hbehind := length_behind_le 36 l
    obtain ⟨cmd, hcmd, hholds⟩ := h.compile.appendWords ((behind 36 l).length + 1)
      (Nat.lt_succ_self _) (by have := h.compileSize; omega)
    rw [if_pos hcompile, if_pos hcompile, hcmd, ok_bind, Reading.next_of_not_split rfl]
    exact .ok ⟨⟨h.input.other rfl (of_decide_eq_false rfl) hsize,
      h.output.other rfl (of_decide_eq_false rfl) hsize, hholds,
      hmore 36 h.compileSize, hrunKeep,
      hkeep h.runSize, h.runs⟩, rfl⟩
  rw [if_neg hcompile, if_neg hcompile]
  by_cases hrun : marked 33 l = true
  · have hbehind := length_behind_le 33 l
    obtain ⟨cmd, hcmd, hholds⟩ := h.run.appendWords ((behind 33 l).length + 1)
      (Nat.lt_succ_self _) (by have := h.runSize; omega)
    rw [if_pos hrun, if_pos hrun, hcmd, ok_bind, Reading.next_of_not_split rfl]
    exact .ok ⟨⟨h.input.other rfl (of_decide_eq_false rfl) hsize,
      h.output.other rfl (of_decide_eq_false rfl) hsize,
      hcompileKeep, hkeep h.compileSize, hholds,
      hmore 33 h.runSize, h.runs⟩, rfl⟩
  rw [if_neg hrun, if_neg hrun]
  by_cases houtput : marked 35 l = true
  · have hbehind := length_behind_le 35 l
    obtain ⟨output, haddLine, hside⟩ :=
      h.output.line (l := .output (behind 35 l)) (t := behind 35 l) rfl
        (show LastLineKind.output = .output from rfl) (by omega)
    rw [if_pos houtput, if_pos houtput, haddLine, ok_bind, Reading.next_of_not_split rfl]
    exact .ok ⟨⟨h.input.other rfl (of_decide_eq_false rfl) hsize, hside.mono (by omega),
      hcompileKeep, hkeep h.compileSize, hrunKeep, hkeep h.runSize, h.runs⟩, rfl⟩
  rw [if_neg houtput, if_neg houtput]
  by_cases hinput : marked 37 l = true
  · have hbehind := length_behind_le 37 l
    obtain ⟨input, haddLine, hside⟩ :=
      h.input.line (l := .input (behind 37 l)) (t := behind 37 l) rfl
        (show LastLineKind.input = .input from rfl) (by omega)
    rw [if_pos hinput, if_pos hinput, haddLine, ok_bind, Reading.next_of_not_split rfl]
    exact .ok ⟨⟨hside.mono (by omega), h.output.other rfl (of_decide_eq_false rfl) hsize,
      hcompileKeep, hkeep h.compileSize, hrunKeep, hkeep h.runSize, h.runs⟩, rfl⟩
  rw [if_neg hinput, if_neg hinput]
  by_cases hsplit : l ≠ [] ∧ l.all (· == 45) = true
  · rw [if_pos hsplit, if_pos hsplit]
    exact h.endRun (by omega) _ hsize
  · rw [if_neg hsplit, if_neg hsplit, Reading.next_of_not_split rfl]
    exact .ok ⟨⟨h.input.other rfl (of_decide_eq_false rfl) hsize,
      h.output.other rfl (of_decide_eq_false rfl) hsize,
      hcompileKeep, hkeep h.compileSize,
      hrunKeep, hkeep h.runSize, h.runs⟩, rfl⟩

/-- **One line**, and the string for it is empty again. -/
theorem Tracks.parseLine (h : Tracks head size s p) (hline : s.line.Holds l)
    (hint : size + l.length + 4 < 2 ^ 30) :
    Lockstep (fun t q => Tracks head (size + l.length + 1) t q ∧ t.line.Holds [])
      (parseLine s) (p.next (classify l)) := by
  have htrim : (l.dropWhile isBlank).length ≤ l.length := (List.dropWhile_suffix _).length_le
  have hmarks := h.marks (l := l.dropWhile isBlank) (by omega)
  unfold Runner.parseLine classify
  rw [ref_eq hline, ok_bind, stringRefTrimLeftWs_eq]
  generalize parseMarks s (l.dropWhile isBlank) = x at hmarks ⊢
  generalize p.next (classifyTrimmed (l.dropWhile isBlank)) = y at hmarks ⊢
  cases hmarks with
  | error e => exact .error e
  | @ok t q htq =>
    obtain ⟨ht, hsame⟩ := htq
    obtain ⟨line, hclear, hempty, -⟩ := clear_eq hline
    rw [ok_bind, hsame, hclear, ok_bind]
    exact .ok ⟨(ht.mono (by omega)).setLine line, hempty⟩

/-- **The loop** reads the lines of the file that end. -/
theorem Tracks.loop (fuel : Nat) {file : List UInt8} (h : Tracks head size s p)
    (hline : s.line.Holds []) (hfuel : file.length < fuel)
    (hint : size + file.length + 4 < 2 ^ 30) :
    Lockstep (Tracks head (size + file.length)) (parseLoop fuel file s)
      (p.steps (fileLines file)) := by
  induction fuel generalizing file s p size with
  | zero => omega
  | succ fuel ih =>
    rw [parseLoop]
    rcases readLine_eq file hline (by omega) with
      ⟨hplain, t, hread, -⟩ | ⟨l, rest, t, hl, rfl, hread, ht⟩
    · -- the end of the file
      have hnone : fileLines file = [] := by
        unfold fileLines
        rw [terminated_of_plain hplain]
        rfl
      rw [hread, ok_bind, hnone, Reading.steps_nil]
      exact .ok ((h.mono (Nat.le_add_right _ _)).setLine t)
    · have hlines : fileLines (l ++ 10 :: rest) = classify l :: fileLines rest := by
        unfold fileLines
        rw [terminated_append hl rfl]
        rfl
      have hlen : (l ++ 10 :: rest).length = l.length + 1 + rest.length := by
        rw [List.length_append, List.length_cons]
        omega
      rw [hlen] at hfuel hint
      rw [hread, ok_bind, hlines, Reading.steps_cons]
      refine ((h.setLine t).parseLine ht (by omega)).bind fun u q huq => ?_
      have hrest : Lockstep (Tracks head (size + l.length + 1 + rest.length))
          (parseLoop fuel rest u) (q.steps (fileLines rest)) :=
        ih huq.1 huq.2 (by omega) (by omega)
      rwa [hlen, ← Nat.add_assoc, ← Nat.add_assoc]

end

/-! ## 5. The file -/

theorem runListDeinit_none (fuel : Nat) (heap : Heap) :
    runListDeinit fuel heap none = .ok heap := by
  cases fuel with
  | zero => rfl
  | succ fuel => rfl

/-- The node that is left over is freed. -/
theorem Chain.deinit {heap : Heap} {head last : Nat} {this : Option Nat}
    {done : List (List UInt8 × List UInt8)} (h : Chain heap head last this done) : ∃ heap',
      (if this ≠ none ∧ this ≠ some last then runListDeinit (heap.brk + 1) heap this
        else .ok heap) = .ok heap' ∧
      ListsRuns heap' head (if done = [] then [([], [])] else done) := by
  cases h with
  | start hempty hbound hvacant =>
    refine ⟨heap, if_neg (by simp), [head], .cons ?_, ?_, hvacant⟩
    · rw [linksOf_of_empty hempty]
      exact .nil
    · rw [if_pos rfl]
      exact .cons ⟨emptyRun, hempty, .zero, .zero⟩ .nil
  | @more front last next done hlinks hruns hbound hempty hnext haway hvacant =>
    have hne : next ≠ last := by
      rintro rfl
      exact haway (by simp)
    have hdone : done ≠ [] := by
      rintro rfl
      have hlen := hruns.length_eq
      simp at hlen
    let heap' : Heap := { heap with node := Function.update heap.node next none }
    have hkeep : ∀ a ∈ front ++ [last], heap'.node a = heap.node a := by
      intro a ha
      refine Function.update_of_ne ?_ _ _
      rintro rfl
      exact haway ha
    refine ⟨heap', ?_, front ++ [last], hlinks.congr fun a ha => ?_, ?_, hvacant.free⟩
    · rw [if_pos ⟨Option.some_ne_none _, fun heq => hne (Option.some.inj heq)⟩, runListDeinit,
        load_of_node hempty, ok_bind]
      exact runListDeinit_none _ _
    · unfold linksOf
      rw [hkeep a ha]
    · rw [if_neg hdone]
      refine ((List.forall₂_and_left _ _).mpr ⟨hkeep, hruns⟩).imp fun a r har => ?_
      obtain ⟨hsame, n, hn, hholds⟩ := har
      exact ⟨n, by rw [hsame, hn], hholds⟩

/-- **A setup holds a header**: the words of the two commands, and the list of runs, with no node
beside it. -/
structure Setup.Holds (setup : Setup) (runList : Nat) (h : TestHeader) : Prop where
  compile : setup.compileCommand.Ends h.compile
  run : setup.runCommand.Ends h.run
  runs : ListsRuns setup.heap runList h.testRuns

/-- The parser in front of the first line. -/
theorem Tracks.start (heap : Heap) {head : Nat} (h : heap.node head = some emptyRun)
    (hbound : head < heap.brk) (hvacant : Vacant heap [head]) :
    Tracks head 0 (parserInit commandInit commandInit heap head) Reading.start := by
  have hside : ∀ (f : Line → Option (List UInt8)) (last : Prop), ¬ last →
      Side f last stringInit false [] 0 := fun f last hlast =>
    ⟨.zero, ⟨fun h => absurd rfl h, fun h => absurd h Bool.false_ne_true⟩,
      ⟨fun h => absurd h hlast, fun h => absurd h Bool.false_ne_true⟩, Nat.le_refl 0⟩
  exact ⟨hside _ _ (of_decide_eq_false rfl), hside _ _ (of_decide_eq_false rfl), .init,
    Nat.le_refl 0, .init, Nat.le_refl 0, .start h hbound hvacant⟩

section

variable {file : List UInt8}

/-- The loop, in the file that `run_test` reads. -/
theorem prepareTest_loop (hsize : file.length < 2 ^ 29) : ∃ heap,
    prepareTest (some file) =
        (parseFile (some file) commandInit commandInit heap 0 >>= fun setup => .ok (setup, 0)) ∧
      Lockstep (Tracks 0 (0 + file.length))
        (parseLoop (file.length + 1) file (parserInit commandInit commandInit heap 0))
        (Reading.start.steps (fileLines file)) := by
  refine ⟨(runListInit { node := fun _ => none, brk := 0 }).1, rfl, ?_⟩
  have hvacant : Vacant { node := fun _ => none, brk := 0 } [] := fun _ _ => rfl
  have hstart := Tracks.start _ (runListInit_self _) Nat.one_pos hvacant.init
  exact hstart.loop (file.length + 1) .zero (Nat.lt_succ_self _) (by omega)

/-- A file whose runs all have input and output. -/
theorem prepareTest_of_ready (hsize : file.length < 2 ^ 29) (hready : Ready (fileLines file)) :
    ∃ setup runList, prepareTest (some file) = .ok (setup, runList) ∧
      setup.Holds runList (header (fileLines file)) := by
  obtain ⟨heap, hunfold, hloop⟩ := prepareTest_loop hsize
  obtain ⟨q, hq, hcompile, hrun, hdone⟩ :=
    Reading.reads_from (p := Reading.start) Plain.nil (Reading.readyFrom_start.mpr hready)
  rw [hq] at hloop
  obtain ⟨s, hs, htracks⟩ := hloop.ok_right
  obtain ⟨freed, hfreed, hruns⟩ := htracks.runs.deinit
  have hcsize := htracks.compileSize
  have hrsize := htracks.runSize
  obtain ⟨compile, hcfinish, hcends⟩ := htracks.compile.finish (by omega)
  obtain ⟨run, hrfinish, hrends⟩ := htracks.run.finish (by omega)
  rw [hunfold, parseFile, hs, ok_bind, hfreed, ok_bind, hcfinish, ok_bind, hrfinish, ok_bind,
    ok_bind]
  refine ⟨_, 0, rfl, ?_, ?_, ?_⟩
  · rw [hcompile] at hcends
    exact hcends
  · rw [hrun] at hrends
    exact hrends
  · rw [hdone] at hruns
    exact hruns

/-- A file with the end of a run that is too early. -/
theorem prepareTest_of_not_ready (hsize : file.length < 2 ^ 29)
    (hready : ¬ Ready (fileLines file)) :
    prepareTest (some file) = .error (.fault .nullDeref) := by
  obtain ⟨heap, hunfold, hloop⟩ := prepareTest_loop hsize
  have hstop := Reading.stops_from fun h => hready (Reading.readyFrom_start.mp h)
  rw [hstop] at hloop
  rw [hunfold, parseFile, hloop.error_iff.mpr rfl, error_bind, error_bind]

end

/-- **What `parse_file` finds** in a file: what its lines say, in nodes that are all there are, or
NULL instead of an input or output. -/
theorem test_file_reads (file : List UInt8) (hsize : file.length < 2 ^ 29) :
    (Ready (fileLines file) → ∃ setup runList, prepareTest (some file) = .ok (setup, runList) ∧
      setup.Holds runList (header (fileLines file))) ∧
    (¬ Ready (fileLines file) → prepareTest (some file) = .error (.fault .nullDeref)) :=
  ⟨prepareTest_of_ready hsize, prepareTest_of_not_ready hsize⟩

/-- A small test file, and one that ends a run too early. -/
theorem test_file_reads_small :
    (∃ setup runList, prepareTest (some [33, 33, 32, 97, 10, 36, 36, 32, 98, 10, 37, 37, 32, 49, 10,
        35, 35, 32, 50, 10, 45, 10]) = .ok (setup, runList) ∧
      setup.Holds runList { compile := [[98]], run := [[97]], runs := [([49], [50])] }) ∧
    prepareTest (some [37, 37, 10, 45, 10]) = .error (.fault .nullDeref) := by
  have hlines : fileLines [33, 33, 32, 97, 10, 36, 36, 32, 98, 10, 37, 37, 32, 49, 10, 35, 35, 32,
      50, 10, 45, 10] =
      [.run [[97]], .compile [[98]], .input [49], .output [50]] ++ .split :: [] := by
    decide
  have hearly : fileLines [37, 37, 10, 45, 10] = [.input []] ++ .split :: [] := by decide
  constructor
  · refine (test_file_reads _ (by decide)).1 ?_
    rw [hlines]
    exact ready_append (by unfold Plain; decide) ⟨.input [49], by decide, rfl⟩
      ⟨.output [50], by decide, rfl⟩
  · refine (test_file_reads _ (by decide)).2 fun hready => ?_
    rw [hearly] at hready
    obtain ⟨-, l, hl, hout⟩ := hready _ _ rfl
    rw [List.mem_singleton.mp hl] at hout
    cases hout

/-- **A header that was written is read back**, wherever it stands among lines that say nothing. -/
theorem test_file_round_trip {h : TestHeader} (hw : h.WellFormed) {pre post : List UInt8}
    (hpre : pre = [] ∨ ∃ front, pre = front ++ [10]) (hbefore : Silent (fileLines pre))
    (hbehind : Silent (fileLines post)) (hsize : (pre ++ (render h ++ post)).length < 2 ^ 29) :
    ∃ setup runList, prepareTest (some (pre ++ (render h ++ post))) = .ok (setup, runList) ∧
      setup.Holds runList h := by
  obtain ⟨hheader, hready⟩ := header_render hw hpre hbefore hbehind
  obtain ⟨setup, runList, hok, hholds⟩ := prepareTest_of_ready hsize hready
  rw [hheader] at hholds
  exact ⟨setup, runList, hok, hholds⟩

/-- The header of a test in a comment of C. -/
theorem test_file_round_trip_comment : ∃ setup runList,
    prepareTest (some ([47, 42, 10] ++ (render ⟨[[98]], [[97]], [([49, 10, 50], [51])]⟩ ++
      [42, 47, 10]))) = .ok (setup, runList) ∧
    setup.Holds runList { compile := [[98]], run := [[97]], runs := [([49, 10, 50], [51])] } := by
  have hsilent : Silent (fileLines [47, 42, 10]) ∧ Silent (fileLines [42, 47, 10]) := by
    unfold Silent
    decide
  refine test_file_round_trip ⟨?_, ?_, ?_⟩ (.inr ⟨[47, 42], rfl⟩) hsilent.1 hsilent.2 (by decide)
  · exact List.forall_mem_singleton.mpr ⟨List.cons_ne_nil _ _, List.forall_mem_singleton.mpr rfl⟩
  · exact List.forall_mem_singleton.mpr ⟨List.cons_ne_nil _ _, List.forall_mem_singleton.mpr rfl⟩
  · have hinput : ([49, 10, 50] : List UInt8).splitOn 10 = [[49], [50]] := rfl
    have houtput : ([51] : List UInt8).splitOn 10 = [[51]] := rfl
    refine List.forall_mem_singleton.mpr ⟨?_, ?_⟩
    · simp [Unindented, Begins, hinput, isBlank]
    · simp [Unindented, Begins, houtput, isBlank]

/-- **What is accepted is well formed**: a file that `parse_file` reads can be written again as its
header alone, and is read with the same result. -/
theorem test_file_accepted {file : List UInt8} (hsize : file.length < 2 ^ 29) {setup : Setup}
    {runList : Nat} (hok : prepareTest (some file) = .ok (setup, runList)) :
    ∃ h : TestHeader, h.WellFormed ∧ setup.Holds runList h ∧ ((render h).length < 2 ^ 29 →
      ∃ setup' runList', prepareTest (some (render h)) = .ok (setup', runList') ∧
        setup'.Holds runList' h) := by
  by_cases hready : Ready (fileLines file)
  · obtain ⟨setup', runList', hok', hholds⟩ := prepareTest_of_ready hsize hready
    rw [hok] at hok'
    cases hok'
    have hw := header_wellFormed file
    refine ⟨header (fileLines file), hw, hholds, fun hlen => ?_⟩
    have hnone : Silent (fileLines []) := fun l hl => absurd hl List.not_mem_nil
    obtain ⟨hsame, hagain⟩ := header_render hw (.inl rfl) hnone hnone
    rw [List.nil_append, List.append_nil] at hsame hagain
    obtain ⟨again, runList, hok, hholds⟩ := prepareTest_of_ready hlen hagain
    rw [hsame] at hholds
    exact ⟨again, runList, hok, hholds⟩
  · rw [prepareTest_of_not_ready hsize hready] at hok
    cases hok

/-- Lines that are indented, and apart: they are written in another way. -/
theorem test_file_accepted_small : ∃ setup runList,
    prepareTest (some [32, 37, 37, 49, 10, 10, 37, 37, 50, 10, 35, 35, 10, 45, 45, 10]) =
      .ok (setup, runList) ∧
    ∃ h : TestHeader, h.WellFormed ∧ setup.Holds runList h ∧ ((render h).length < 2 ^ 29 →
      ∃ setup' runList', prepareTest (some (render h)) = .ok (setup', runList') ∧
        setup'.Holds runList' h) := by
  have hlines : fileLines [32, 37, 37, 49, 10, 10, 37, 37, 50, 10, 35, 35, 10, 45, 45, 10] =
      [.input [49], .normal, .input [50], .output []] ++ .split :: [] := by decide
  have hready :
      Ready (fileLines [32, 37, 37, 49, 10, 10, 37, 37, 50, 10, 35, 35, 10, 45, 45, 10]) := by
    rw [hlines]
    exact ready_append (by unfold Plain; decide) ⟨.input [49], by decide, rfl⟩
      ⟨.output [], by decide, rfl⟩
  obtain ⟨setup, runList, hok, -⟩ := prepareTest_of_ready (by decide) hready
  exact ⟨setup, runList, hok, test_file_accepted (by decide) hok⟩

end Runner

end CAsync
