/-
# What a test file says

The format of test files, without strings and nodes.  A file is a list of lines (`fileLines`),
each of one kind (`classify`), and what the lines say together is a `TestHeader` (`header`): the
words of the two commands, and the input and the output of each run.  Only lines that end count,
and only runs that end.

`Reading` reads the lines one by one.  It stops at the end of a run if there has been no line with
input or none with output (`Ready`): the runner would copy a string that is still NULL.  Otherwise
it finds what the header says (`reads`).

`render` writes a header as lines again, and `header_render` reads it back, for the headers that are
`WellFormed`; those are all that a file can have (`header_wellFormed`).
-/
import CAsync.TestFile

namespace CAsync

open Faulting Fields

/-! ## 1. Lines -/

/-- What a line says. -/
inductive Line where
  | compile (words : List (List UInt8))
  | run (words : List (List UInt8))
  | output (text : List UInt8)
  | input (text : List UInt8)
  | split
  | normal
  deriving DecidableEq, Repr

namespace Line

def compileWords : Line → List (List UInt8)
  | .compile words => words
  | _ => []

def runWords : Line → List (List UInt8)
  | .run words => words
  | _ => []

def inputText : Line → Option (List UInt8)
  | .input text => some text
  | _ => none

def outputText : Line → Option (List UInt8)
  | .output text => some text
  | _ => none

def isSplit : Line → Bool
  | .split => true
  | _ => false

end Line

/-- A line begins with two marks, and not with three. -/
def marked (c : UInt8) (l : List UInt8) : Bool := (l.takeWhile (· == c)).length == 2

/-- What is behind the marks, and the blanks behind them. -/
def behind (c : UInt8) (l : List UInt8) : List UInt8 := (l.dropWhile (· == c)).dropWhile isBlank

/-- The kind of a line that does not begin with blanks. -/
def classifyTrimmed (l : List UInt8) : Line :=
  if marked 36 l then .compile (tokens isspace (behind 36 l))
  else if marked 33 l then .run (tokens isspace (behind 33 l))
  else if marked 35 l then .output (behind 35 l)
  else if marked 37 l then .input (behind 37 l)
  else if l ≠ [] ∧ l.all (· == 45) then .split
  else .normal

/-- The kind of a line. -/
def classify (l : List UInt8) : Line := classifyTrimmed (l.dropWhile isBlank)

/-- The lines of a file that end. -/
def fileLines (file : List UInt8) : List Line := (terminated (· == 10) file).map classify

/-! ## 2. Headers -/

/-- The header of a test file. -/
structure TestHeader where
  compile : List (List UInt8)
  run : List (List UInt8)
  runs : List (List UInt8 × List UInt8)
  deriving DecidableEq, Repr

/-- The input of a run: its lines with input, and between neighbours a newline. -/
def inputOf (block : List Line) : List UInt8 := joined 10 Line.inputText false block

/-- The output of a run. -/
def outputOf (block : List Line) : List UInt8 := joined 10 Line.outputText false block

/-- **What the lines of a file say.** -/
def header (ls : List Line) : TestHeader where
  compile := ls.flatMap Line.compileWords
  run := ls.flatMap Line.runWords
  runs := (terminated Line.isSplit ls).map fun block => (inputOf block, outputOf block)

/-- A file without the end of a run has one, without input and output. -/
def TestHeader.testRuns (h : TestHeader) : List (List UInt8 × List UInt8) :=
  if h.runs = [] then [([], [])] else h.runs

/-- In front of the end of a run there is a line with input, and one with output. -/
def Ready (ls : List Line) : Prop :=
  ∀ front back, ls = front ++ .split :: back →
    (∃ l ∈ front, l.inputText.isSome = true) ∧ ∃ l ∈ front, l.outputText.isSome = true

/-! ## 3. Line by line -/

/-- What has been read: the words, the runs that have ended, the lines of the next one, and whether
there have been lines with input and with output. -/
structure Reading where
  compile : List (List UInt8)
  run : List (List UInt8)
  done : List (List UInt8 × List UInt8)
  block : List Line
  input : Bool
  output : Bool

namespace Reading

def start : Reading :=
  { compile := [], run := [], done := [], block := [], input := false, output := false }

/-- One line. -/
def next (p : Reading) (l : Line) : Except Stop Reading :=
  if l.isSplit then do
    require (p.input = true ∧ p.output = true) (.fault .nullDeref)
    .ok { p with done := p.done ++ [(inputOf p.block, outputOf p.block)], block := [] }
  else .ok { p with
    compile := p.compile ++ l.compileWords, run := p.run ++ l.runWords, block := p.block ++ [l],
    input := p.input || l.inputText.isSome, output := p.output || l.outputText.isSome }

/-- All lines. -/
def steps (p : Reading) (ls : List Line) : Except Stop Reading := ls.foldlM next p

theorem steps_nil (p : Reading) : p.steps [] = .ok p := rfl

theorem steps_cons (p : Reading) (l : Line) (ls : List Line) :
    p.steps (l :: ls) = (p.next l >>= fun q => q.steps ls) := rfl

variable {p q : Reading} {l : Line} {ls : List Line}

theorem next_of_not_split (hl : l.isSplit = false) : p.next l = .ok { p with
    compile := p.compile ++ l.compileWords, run := p.run ++ l.runWords, block := p.block ++ [l],
    input := p.input || l.inputText.isSome, output := p.output || l.outputText.isSome } := by
  unfold next
  rw [if_neg (by simp [hl])]

/-- What is still missing in front of the end of a run. -/
def ReadyFrom (p : Reading) (ls : List Line) : Prop :=
  ∀ front back, ls = front ++ .split :: back →
    (p.input = true ∨ ∃ l ∈ front, l.inputText.isSome = true) ∧
      (p.output = true ∨ ∃ l ∈ front, l.outputText.isSome = true)

theorem readyFrom_start : start.ReadyFrom ls ↔ Ready ls := by
  simp [ReadyFrom, Ready, start]

/-- A line that does not end a run. -/
theorem readyFrom_cons (hl : l.isSplit = false) (hq : p.next l = .ok q) :
    p.ReadyFrom (l :: ls) ↔ q.ReadyFrom ls := by
  have hnext : q.input = (p.input || l.inputText.isSome) ∧
      q.output = (p.output || l.outputText.isSome) := by
    rw [next_of_not_split hl] at hq
    cases hq
    exact ⟨rfl, rfl⟩
  have hfront : ∀ front back, l :: ls = front ++ .split :: back ↔
      ∃ rest, front = l :: rest ∧ ls = rest ++ .split :: back := by
    intro front back
    cases front with
    | nil =>
      refine ⟨fun h => ?_, fun h => ?_⟩
      · cases h
        cases hl
      · obtain ⟨rest, h, -⟩ := h
        cases h
    | cons x front => simp [and_comm, eq_comm]
  constructor
  · intro h rest back heq
    have hready := h (l :: rest) back ((hfront _ _).mpr ⟨rest, rfl, heq⟩)
    rw [hnext.1, hnext.2]
    simpa [or_assoc] using hready
  · intro h front back heq
    obtain ⟨rest, rfl, hls⟩ := (hfront _ _).mp heq
    have hready := h rest back hls
    rw [hnext.1, hnext.2] at hready
    simpa [or_assoc] using hready

/-- **The lines say what the header says**, for the lines behind some that have been read. -/
theorem reads_from (hblock : Plain Line.isSplit p.block) (hready : p.ReadyFrom ls) :
    ∃ q, p.steps ls = .ok q ∧ q.compile = p.compile ++ ls.flatMap Line.compileWords ∧
      q.run = p.run ++ ls.flatMap Line.runWords ∧
      q.done = p.done ++ (terminated Line.isSplit (p.block ++ ls)).map fun block =>
        (inputOf block, outputOf block) := by
  induction ls generalizing p with
  | nil =>
    refine ⟨p, rfl, by simp, by simp, ?_⟩
    rw [List.append_nil, terminated_of_plain hblock]
    simp
  | cons l ls ih =>
    cases hl : l.isSplit with
    | true =>
      obtain rfl : l = .split := by
        cases l with
        | split => rfl
        | compile | run | output | input | normal => cases hl
      have hhere : p.input = true ∧ p.output = true := by simpa using hready [] ls rfl
      have hnext : p.next .split = .ok
          { p with done := p.done ++ [(inputOf p.block, outputOf p.block)], block := [] } := by
        unfold next
        rw [if_pos hl, require_of hhere]
        rfl
      obtain ⟨q, hq, hcompile, hrun, hdone⟩ :=
        ih (p := { p with done := p.done ++ [(inputOf p.block, outputOf p.block)], block := [] })
          Plain.nil fun _ _ _ => ⟨.inl hhere.1, .inl hhere.2⟩
      refine ⟨q, ?_, hcompile, hrun, ?_⟩
      · rw [steps_cons, hnext, ok_bind, hq]
      · rw [terminated_append hblock hl, hdone]
        simp
    | false =>
      have hnext := next_of_not_split (p := p) hl
      have hplain : Plain Line.isSplit (p.block ++ [l]) :=
          hblock.append (List.forall_mem_cons.mpr ⟨hl, Plain.nil⟩)
      obtain ⟨q, hq, hcompile, hrun, hdone⟩ := ih hplain ((readyFrom_cons hl hnext).mp hready)
      refine ⟨q, ?_, ?_, ?_, ?_⟩
      · rw [steps_cons, hnext, ok_bind, hq]
      · rw [hcompile, List.flatMap_cons, List.append_assoc]
      · rw [hrun, List.flatMap_cons, List.append_assoc]
      · rw [hdone, List.append_assoc]
        rfl

/-- ... or the reader stops, at the end of a run. -/
theorem stops_from (hready : ¬ p.ReadyFrom ls) : p.steps ls = .error (.fault .nullDeref) := by
  induction ls generalizing p with
  | nil => exact absurd (fun front back h => absurd h (by simp)) hready
  | cons l ls ih =>
    cases hl : l.isSplit with
    | true =>
      have hhere : ¬ (p.input = true ∧ p.output = true) := fun h =>
        hready fun _ _ _ => ⟨.inl h.1, .inl h.2⟩
      rw [steps_cons, next, if_pos hl, require_of_not hhere, error_bind, error_bind]
    | false =>
      have hnext := next_of_not_split (p := p) hl
      rw [steps_cons, hnext, ok_bind]
      exact ih fun h => hready ((readyFrom_cons hl hnext).mpr h)

end Reading

/-! ## 4. Writing a header -/

/-- A line with two marks. -/
def markLine (c : UInt8) (l : List UInt8) : List UInt8 := c :: c :: 32 :: l

/-- The lines for a text. -/
def textLines (c : UInt8) (text : List UInt8) : List (List UInt8) :=
  (text.splitOn 10).map (markLine c)

/-- The lines for a run. -/
def runLines (r : List UInt8 × List UInt8) : List (List UInt8) :=
  textLines 37 r.1 ++ (textLines 35 r.2 ++ [[45, 45, 45]])

/-- The lines for a header. -/
def headerLines (h : TestHeader) : List (List UInt8) :=
  markLine 33 ([32].intercalate h.run) :: markLine 36 ([32].intercalate h.compile) ::
    h.runs.flatMap runLines

/-- **A header as text.** -/
def render (h : TestHeader) : List UInt8 := (headerLines h).flatMap (· ++ [10])

/-- No line of the text begins with a blank. -/
def Unindented (text : List UInt8) : Prop := Begins (fun c => isBlank c = false) 10 text

/-- **A header that a file can have.** -/
structure TestHeader.WellFormed (h : TestHeader) : Prop where
  compile : ∀ w ∈ h.compile, w ≠ [] ∧ Plain isspace w
  run : ∀ w ∈ h.run, w ≠ [] ∧ Plain isspace w
  runs : ∀ r ∈ h.runs, Unindented r.1 ∧ Unindented r.2

/-! ## 5. Reading a line that was written -/

theorem isspace_of_isBlank {c : UInt8} (h : isBlank c = true) : isspace c = true := by
  unfold isBlank at h
  rcases Bool.or_eq_true _ _ ▸ h with h | h
  · rw [eq_of_beq h]
    rfl
  · rw [eq_of_beq h]
    rfl

section

variable {c : UInt8} {l : List UInt8}

theorem behind_markLine (hc : c ≠ 32) : behind c (markLine c l) = l.dropWhile isBlank := by
  have hspace : ¬ (32 : UInt8) = c := Ne.symm hc
  have hblank : isBlank 32 = true := rfl
  simp [behind, markLine, hspace, hblank]

/-- A line has the marks that were written. -/
theorem marked_markLine (d : UInt8) (hc : c ≠ 32) : marked d (markLine c l) = (c == d) := by
  have hspace : ¬ (32 : UInt8) = c := Ne.symm hc
  by_cases hd : c = d
  · subst hd
    simp [marked, markLine, hspace]
  · simp [marked, markLine, hd]

theorem dropWhile_markLine (hc : isBlank c = false) :
    (markLine c l).dropWhile isBlank = markLine c l :=
  List.dropWhile_cons_of_neg (by simp [hc])

theorem classify_run (ws : List UInt8) : classify (markLine 33 ws) = .run (tokens isspace ws) := by
  unfold classify classifyTrimmed
  rw [dropWhile_markLine rfl, marked_markLine _ (by decide), marked_markLine _ (by decide),
    behind_markLine (by decide), tokens_dropWhile fun _ => isspace_of_isBlank]
  rfl

theorem classify_compile (ws : List UInt8) :
    classify (markLine 36 ws) = .compile (tokens isspace ws) := by
  unfold classify classifyTrimmed
  rw [dropWhile_markLine rfl, marked_markLine _ (by decide), behind_markLine (by decide),
    tokens_dropWhile fun _ => isspace_of_isBlank]
  rfl

/-- The lines of a text. -/
theorem dropWhile_unindented {text : List UInt8} (h : Unindented text) (hl : l ∈ text.splitOn 10) :
    l.dropWhile isBlank = l := by
  cases l with
  | nil => rfl
  | cons x l => exact List.dropWhile_cons_of_neg (by simp [h _ hl x rfl])

theorem classify_output {text : List UInt8} (h : Unindented text) :
    (textLines 35 text).map classify = (text.splitOn 10).map .output := by
  unfold textLines
  rw [List.map_map]
  refine List.map_congr_left fun l hl => ?_
  have hdrop := dropWhile_unindented h hl
  rw [Function.comp_apply]
  unfold classify classifyTrimmed
  rw [dropWhile_markLine rfl, marked_markLine _ (by decide), marked_markLine _ (by decide),
    marked_markLine _ (by decide), behind_markLine (c := 35) (by decide), hdrop]
  rfl

theorem classify_input {text : List UInt8} (h : Unindented text) :
    (textLines 37 text).map classify = (text.splitOn 10).map .input := by
  unfold textLines
  rw [List.map_map]
  refine List.map_congr_left fun l hl => ?_
  have hdrop := dropWhile_unindented h hl
  rw [Function.comp_apply]
  unfold classify classifyTrimmed
  rw [dropWhile_markLine rfl, marked_markLine _ (by decide), marked_markLine _ (by decide),
    marked_markLine _ (by decide), marked_markLine _ (by decide),
    behind_markLine (c := 37) (by decide), hdrop]
  rfl

end

/-! ## 6. The round trip -/

/-- The lines of a run, as they are read. -/
def runSays (r : List UInt8 × List UInt8) : List Line :=
  (r.1.splitOn 10).map .input ++ ((r.2.splitOn 10).map .output ++ [.split])

theorem classify_runLines {r : List UInt8 × List UInt8} (h : Unindented r.1 ∧ Unindented r.2) :
    (runLines r).map classify = runSays r := by
  unfold runLines runSays
  rw [List.map_append, List.map_append, classify_input h.1, classify_output h.2]
  rfl

theorem classify_flatMap {rs : List (List UInt8 × List UInt8)}
    (hrs : ∀ r ∈ rs, Unindented r.1 ∧ Unindented r.2) :
    (rs.flatMap runLines).map classify = rs.flatMap runSays := by
  induction rs with
  | nil => rfl
  | cons r rs ih =>
    obtain ⟨hr, hrs⟩ := List.forall_mem_cons.mp hrs
    rw [List.flatMap_cons, List.flatMap_cons, List.map_append, classify_runLines hr, ih hrs]

/-- **The lines of a header** say what it says. -/
theorem classify_headerLines {h : TestHeader} (hw : h.WellFormed) :
    (headerLines h).map classify = .run h.run :: .compile h.compile :: h.runs.flatMap runSays := by
  unfold headerLines
  rw [List.map_cons, List.map_cons, classify_run, classify_compile,
    tokens_intercalate hw.run rfl, tokens_intercalate hw.compile rfl, classify_flatMap hw.runs]

theorem plain_markLine {c : UInt8} {l : List UInt8} (hc : c ≠ 10) (hl : Plain (· == 10) l) :
    Plain (· == 10) (markLine c l) := by
  have hfirst : (c == 10) = false := beq_eq_false_iff_ne.mpr hc
  exact List.forall_mem_cons.mpr ⟨hfirst, List.forall_mem_cons.mpr ⟨hfirst,
    List.forall_mem_cons.mpr ⟨rfl, hl⟩⟩⟩

theorem plain_textLines {c : UInt8} {l text : List UInt8} (hc : c ≠ 10)
    (hl : l ∈ textLines c text) : Plain (· == 10) l := by
  obtain ⟨part, hpart, rfl⟩ := List.mem_map.mp hl
  exact plain_markLine hc (plain_of_mem_splitOnP hpart)

/-- Words hold no newline, which is a space. -/
theorem plain_words {ws : List (List UInt8)} (hws : ∀ w ∈ ws, w ≠ [] ∧ Plain isspace w) :
    Plain (· == 10) ([32].intercalate ws) := by
  induction ws with
  | nil => exact Plain.nil
  | cons w ws ih =>
    obtain ⟨⟨-, hw⟩, hrest⟩ := List.forall_mem_cons.mp hws
    have hplain : Plain (· == 10) w := by
      intro x hx
      refine beq_eq_false_iff_ne.mpr ?_
      rintro rfl
      have hspace := hw 10 hx
      cases hspace
    cases ws with
    | nil => simpa using hplain
    | cons v ws =>
      rw [List.intercalate_cons_cons, List.append_assoc]
      exact hplain.append (List.forall_mem_cons.mpr ⟨rfl, ih hrest⟩)

/-- No line holds a newline. -/
theorem plain_headerLines {h : TestHeader} (hw : h.WellFormed) :
    ∀ l ∈ headerLines h, Plain (· == 10) l := by
  refine List.forall_mem_cons.mpr ⟨plain_markLine (by decide) (plain_words hw.run),
    List.forall_mem_cons.mpr ⟨plain_markLine (by decide) (plain_words hw.compile), fun l hl => ?_⟩⟩
  obtain ⟨r, -, hl⟩ := List.mem_flatMap.mp hl
  rcases List.mem_append.mp hl with hl | hl
  · exact plain_textLines (by decide) hl
  rcases List.mem_append.mp hl with hl | hl
  · exact plain_textLines (by decide) hl
  · obtain rfl := List.mem_singleton.mp hl
    simp [Plain]

/-- Lines that say nothing. -/
def Silent (ls : List Line) : Prop := ∀ l ∈ ls, l = .normal

theorem Silent.plain {ls : List Line} (h : Silent ls) : Plain Line.isSplit ls := by
  intro l hl
  rw [h l hl]
  rfl

theorem Silent.words {ls : List Line} (h : Silent ls) :
    ls.flatMap Line.compileWords = [] ∧ ls.flatMap Line.runWords = [] := by
  refine ⟨List.flatMap_eq_nil_iff.mpr fun l hl => ?_, List.flatMap_eq_nil_iff.mpr fun l hl => ?_⟩
  · rw [h l hl]
    rfl
  · rw [h l hl]
    rfl

/-- **The lines of a file with a header in it**, between lines that say nothing. -/
theorem fileLines_render {h : TestHeader} (hw : h.WellFormed) {pre post : List UInt8}
    (hpre : pre = [] ∨ ∃ front, pre = front ++ [10]) :
    fileLines (pre ++ (render h ++ post)) = fileLines pre ++
      (.run h.run :: .compile h.compile :: (h.runs.flatMap runSays ++ fileLines post)) := by
  have hfile : terminated (· == 10) (pre ++ (render h ++ post)) =
      terminated (· == 10) pre ++ terminated (· == 10) (render h ++ post) := by
    rcases hpre with rfl | ⟨front, rfl⟩
    · rfl
    · rw [List.append_assoc, List.singleton_append]
      exact terminated_concat rfl front (render h ++ post)
  unfold fileLines
  rw [hfile, render, terminated_flatMap (plain_headerLines hw) rfl, List.map_append,
    List.map_append, classify_headerLines hw]
  rfl

/-- A run, behind lines without input, output or the end of a run. -/
theorem inputOf_run {front : List Line} (hin : ∀ l ∈ front, l.inputText = none)
    (r : List UInt8 × List UInt8) :
    inputOf (front ++ ((r.1.splitOn 10).map .input ++ (r.2.splitOn 10).map .output)) = r.1 := by
  unfold inputOf
  rw [joined_append, joined_of_none hin, endsIn_of_none hin, List.nil_append,
    joined_map (g := Line.input) (fun _ => rfl) (List.splitOn_ne_nil 10 r.1),
    List.intercalate_splitOn]
  intro l hl
  obtain ⟨t, -, rfl⟩ := List.mem_map.mp hl
  rfl

theorem outputOf_run {front : List Line} (hout : ∀ l ∈ front, l.outputText = none)
    (r : List UInt8 × List UInt8) :
    outputOf (front ++ ((r.1.splitOn 10).map .input ++ (r.2.splitOn 10).map .output)) = r.2 := by
  have hnone : ∀ l ∈ front ++ (r.1.splitOn 10).map Line.input, l.outputText = none := by
    intro l hl
    rcases List.mem_append.mp hl with hl | hl
    · exact hout l hl
    · obtain ⟨t, -, rfl⟩ := List.mem_map.mp hl
      rfl
  have hmap : joined 10 Line.outputText false ((r.2.splitOn 10).map Line.output ++ []) =
      [10].intercalate (r.2.splitOn 10) :=
    joined_map (g := Line.output) (fun _ => rfl) (List.splitOn_ne_nil 10 r.2) fun _ h =>
      absurd h List.not_mem_nil
  rw [List.append_nil] at hmap
  unfold outputOf
  rw [← List.append_assoc, joined_append, joined_of_none hnone, endsIn_of_none hnone,
    List.nil_append, hmap, List.intercalate_splitOn]

/-- In front of the end of a run, none ends. -/
theorem plain_run (r : List UInt8 × List UInt8) :
    Plain Line.isSplit ((r.1.splitOn 10).map .input ++ (r.2.splitOn 10).map .output) := by
  intro l hl
  rcases List.mem_append.mp hl with hl | hl
  · obtain ⟨t, -, rfl⟩ := List.mem_map.mp hl
    rfl
  · obtain ⟨t, -, rfl⟩ := List.mem_map.mp hl
    rfl

theorem flatMap_runSays_cons (r : List UInt8 × List UInt8) (rs : List (List UInt8 × List UInt8))
    (front back : List Line) : front ++ ((r :: rs).flatMap runSays ++ back) =
      (front ++ ((r.1.splitOn 10).map .input ++ (r.2.splitOn 10).map .output)) ++
        .split :: (rs.flatMap runSays ++ back) := by
  simp [runSays]

/-- **The runs that were written**, behind lines that say nothing about runs and in front of
lines that end none. -/
theorem runs_flatMap (rs : List (List UInt8 × List UInt8)) {front back : List Line}
    (hin : ∀ l ∈ front, l.inputText = none) (hout : ∀ l ∈ front, l.outputText = none)
    (hfront : Plain Line.isSplit front) (hback : Plain Line.isSplit back) :
    ((terminated Line.isSplit (front ++ (rs.flatMap runSays ++ back))).map fun block =>
      (inputOf block, outputOf block)) = rs := by
  induction rs generalizing front with
  | nil =>
    rw [List.flatMap_nil, List.nil_append, terminated_of_plain (hfront.append hback)]
    rfl
  | cons r rs ih =>
    have hrest := @ih [] (fun _ h => absurd h List.not_mem_nil)
      (fun _ h => absurd h List.not_mem_nil) Plain.nil
    rw [List.nil_append] at hrest
    rw [flatMap_runSays_cons, terminated_append (hfront.append (plain_run r)) rfl, List.map_cons,
      inputOf_run hin, outputOf_run hout, hrest]

/-- Behind a line with input and one with output every run may end. -/
theorem ready_append {front back : List Line} (hfront : Plain Line.isSplit front)
    (hin : ∃ l ∈ front, l.inputText.isSome = true)
    (hout : ∃ l ∈ front, l.outputText.isSome = true) :
    Ready (front ++ back) := by
  intro before after heq
  have hsub : front ⊆ before := by
    rcases List.append_eq_append_iff.mp heq with ⟨more, rfl, -⟩ | ⟨more, rfl, hmore⟩
    · exact List.subset_append_left _ _
    · cases more with
      | nil => rw [List.append_nil]; exact List.Subset.refl _
      | cons l more =>
        rw [List.cons_append] at hmore
        obtain ⟨rfl, -⟩ := List.cons.inj hmore
        have hno := hfront .split (by simp)
        cases hno
  obtain ⟨i, hi, hi'⟩ := hin
  obtain ⟨o, ho, ho'⟩ := hout
  exact ⟨⟨i, hsub hi, hi'⟩, ⟨o, hsub ho, ho'⟩⟩

theorem ready_of_plain {ls : List Line} (h : Plain Line.isSplit ls) : Ready ls := by
  rintro front back rfl
  have hno := h .split (by simp)
  cases hno

section

variable {h : TestHeader} {pre post : List UInt8}

/-- The lines in front of the first run. -/
theorem front_silent {ls : List Line} (hls : Silent ls) (ws vs : List (List UInt8)) :
    let front := ls ++ [.run ws, .compile vs]
    (∀ l ∈ front, l.inputText = none) ∧ (∀ l ∈ front, l.outputText = none) ∧
      Plain Line.isSplit front := by
  have hall : ∀ l ∈ ls ++ [.run ws, .compile vs],
      l.inputText = none ∧ l.outputText = none ∧ l.isSplit = false := by
    intro l hl
    rcases List.mem_append.mp hl with hl | hl
    · rw [hls l hl]
      exact ⟨rfl, rfl, rfl⟩
    · rcases List.mem_cons.mp hl with rfl | hl
      · exact ⟨rfl, rfl, rfl⟩
      · obtain rfl := List.mem_singleton.mp hl
        exact ⟨rfl, rfl, rfl⟩
  exact ⟨fun l hl => (hall l hl).1, fun l hl => (hall l hl).2.1, fun l hl => (hall l hl).2.2⟩

/-- The lines of a run hold no words. -/
theorem flatMap_runSays_words (rs : List (List UInt8 × List UInt8)) :
    (rs.flatMap runSays).flatMap Line.compileWords = [] ∧
      (rs.flatMap runSays).flatMap Line.runWords = [] := by
  have hnone : ∀ l ∈ rs.flatMap runSays, l.compileWords = [] ∧ l.runWords = [] := by
    intro l hl
    obtain ⟨r, -, hl⟩ := List.mem_flatMap.mp hl
    rcases List.mem_append.mp hl with hl | hl
    · obtain ⟨t, -, rfl⟩ := List.mem_map.mp hl
      exact ⟨rfl, rfl⟩
    rcases List.mem_append.mp hl with hl | hl
    · obtain ⟨t, -, rfl⟩ := List.mem_map.mp hl
      exact ⟨rfl, rfl⟩
    · obtain rfl := List.mem_singleton.mp hl
      exact ⟨rfl, rfl⟩
  exact ⟨List.flatMap_eq_nil_iff.mpr fun l hl => (hnone l hl).1,
    List.flatMap_eq_nil_iff.mpr fun l hl => (hnone l hl).2⟩

/-- **A header that was written is read back**, wherever it stands among lines that say nothing. -/
theorem header_render (hw : h.WellFormed) (hpre : pre = [] ∨ ∃ front, pre = front ++ [10])
    (hbefore : Silent (fileLines pre)) (hbehind : Silent (fileLines post)) :
    header (fileLines (pre ++ (render h ++ post))) = h ∧
      Ready (fileLines (pre ++ (render h ++ post))) := by
  have hlines : fileLines (pre ++ (render h ++ post)) =
      (fileLines pre ++ [.run h.run, .compile h.compile]) ++
        (h.runs.flatMap runSays ++ fileLines post) := by
    rw [fileLines_render hw hpre]
    simp
  obtain ⟨hin, hout, hfront⟩ := front_silent hbefore h.run h.compile
  obtain ⟨hbefore₁, hbefore₂⟩ := hbefore.words
  obtain ⟨hbehind₁, hbehind₂⟩ := hbehind.words
  obtain ⟨hruns₁, hruns₂⟩ := flatMap_runSays_words h.runs
  rw [hlines]
  constructor
  · unfold header
    rw [runs_flatMap h.runs hin hout hfront hbehind.plain]
    simp only [List.flatMap_append, hbefore₁, hbefore₂, hbehind₁, hbehind₂, hruns₁, hruns₂,
      List.append_nil, List.nil_append]
    simp [Line.compileWords, Line.runWords]
  · cases hrs : h.runs with
    | nil => exact ready_of_plain (hfront.append hbehind.plain)
    | cons r rs =>
      obtain ⟨i, is, hi⟩ := List.exists_cons_of_ne_nil (List.splitOn_ne_nil 10 r.1)
      obtain ⟨o, os, ho⟩ := List.exists_cons_of_ne_nil (List.splitOn_ne_nil 10 r.2)
      rw [flatMap_runSays_cons]
      exact ready_append (hfront.append (plain_run r)) ⟨.input i, by simp [hi], rfl⟩
        ⟨.output o, by simp [ho], rfl⟩

end

/-! ## 7. Every header is well formed -/

theorem classify_words (l : List UInt8) :
    (∀ w ∈ (classify l).compileWords, w ≠ [] ∧ Plain isspace w) ∧
      ∀ w ∈ (classify l).runWords, w ≠ [] ∧ Plain isspace w := by
  have hnil : ∀ w ∈ ([] : List (List UInt8)), w ≠ [] ∧ Plain isspace w :=
    fun _ h => absurd h List.not_mem_nil
  unfold classify classifyTrimmed
  split
  · exact ⟨fun w hw => mem_tokens hw, hnil⟩
  split
  · exact ⟨hnil, fun w hw => mem_tokens hw⟩
  split
  · exact ⟨hnil, hnil⟩
  split
  · exact ⟨hnil, hnil⟩
  split
  · exact ⟨hnil, hnil⟩
  · exact ⟨hnil, hnil⟩

/-- What is behind the marks of a line. -/
theorem classify_texts {l : List UInt8} (hl : Plain (· == 10) l) :
    (∀ t, (classify l).inputText = some t → (10 : UInt8) ∉ t ∧ ∀ x ∈ t.head?, isBlank x = false) ∧
      ∀ t, (classify l).outputText = some t → (10 : UInt8) ∉ t ∧
        ∀ x ∈ t.head?, isBlank x = false := by
  have hbehind : ∀ c, (10 : UInt8) ∉ behind c (l.dropWhile isBlank) ∧
      ∀ x ∈ (behind c (l.dropWhile isBlank)).head?, isBlank x = false := by
    intro c
    constructor
    · intro hmem
      have hin : (10 : UInt8) ∈ l := (List.dropWhile_suffix _).subset
        ((List.dropWhile_suffix _).subset ((List.dropWhile_suffix _).subset hmem))
      have hno := hl 10 hin
      cases hno
    · intro x hx
      have hhead := List.head?_dropWhile_not isBlank ((l.dropWhile isBlank).dropWhile (· == c))
      unfold behind at hx
      rw [Option.mem_def.mp hx] at hhead
      exact hhead
  unfold classify classifyTrimmed
  split
  · exact ⟨nofun, nofun⟩
  split
  · exact ⟨nofun, nofun⟩
  split
  · refine ⟨nofun, fun t ht => ?_⟩
    cases ht
    exact hbehind 35
  split
  · refine ⟨fun t ht => ?_, nofun⟩
    cases ht
    exact hbehind 37
  split
  · exact ⟨nofun, nofun⟩
  · exact ⟨nofun, nofun⟩

/-- **A file has a header that is well formed.** -/
theorem header_wellFormed (file : List UInt8) : (header (fileLines file)).WellFormed := by
  have hline : ∀ l ∈ fileLines file, ∃ bytes, Plain (· == 10) bytes ∧ l = classify bytes := by
    intro l hl
    obtain ⟨bytes, hbytes, rfl⟩ := List.mem_map.mp hl
    exact ⟨bytes, plain_of_mem_terminated hbytes, rfl⟩
  constructor
  · intro w hw
    obtain ⟨l, hl, hw⟩ := List.mem_flatMap.mp hw
    obtain ⟨bytes, -, rfl⟩ := hline l hl
    exact (classify_words bytes).1 w hw
  · intro w hw
    obtain ⟨l, hl, hw⟩ := List.mem_flatMap.mp hw
    obtain ⟨bytes, -, rfl⟩ := hline l hl
    exact (classify_words bytes).2 w hw
  · intro r hr
    obtain ⟨block, hblock, rfl⟩ := List.mem_map.mp hr
    have hblock := subset_of_mem_terminated hblock
    constructor
    · refine Begins.joined (fun l hl t ht => ?_) false
      obtain ⟨bytes, hplain, rfl⟩ := hline l (hblock hl)
      exact (classify_texts hplain).1 t ht
    · refine Begins.joined (fun l hl t ht => ?_) false
      obtain ⟨bytes, hplain, rfl⟩ := hline l (hblock hl)
      exact (classify_texts hplain).2 t ht

end CAsync
