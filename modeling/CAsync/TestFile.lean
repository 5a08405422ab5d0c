/-
# Test files (`tests/runner.c`)

A test is a C file whose first comment says how to compile and run it, and what it should print:
`$$` and `!!` begin the lines with the words of the two commands, `%%` and `##` those with the input
and the output of a run, and a line of dashes ends the run.  `parse_file` reads them.

The runner has strings of its own.  They are those of `str.c`, but each function checks its strings
first (`STRING_OK`), and exits if one is not valid.  A run is a node of a linked list, made before
its lines are read, so one node is left over at the end.

A file is the list of its bytes; `fgetc` fails at its end only.  The functions that fork and `exec`
the commands are not here.
-/
import CAsync.StrRef

namespace CAsync

open Faulting

/-- Why the runner stops in `parse_file`: `exit(1)` in `STRING_OK` or if there is no file, the
assertion in `command_append` and `command_finish`, and what else can stop the program. -/
inductive Stop where
  | stringInvalid
  | noFile
  | commandNull
  | fault (e : Fault)
  deriving DecidableEq, Repr

/-- What `str.c` does, in the runner. -/
def faulting {α : Type} (x : Except Fault α) : Except Stop α := x.mapError .fault

@[simp] theorem faulting_ok {α : Type} (a : α) : faulting (.ok a) = .ok a := rfl

@[simp] theorem faulting_error {α : Type} (e : Fault) :
    faulting (.error e : Except Fault α) = .error (.fault e) := rfl

namespace Runner

/-! ## 1. Strings -/

/-- `STRING_OK`. -/
def stringOk (s : Str) : Except Stop Unit :=
  if s.cap = 0 ∧ s.len = 0 ∧ s.str = [] then .ok ()
  else do
    let size ← faulting (intOp (s.len + 1))
    require (s.cap ≥ size ∧ s.str ≠ []) .stringInvalid
    let last ← faulting (memcpyFrom s.str s.len 1)
    require (last = [0]) .stringInvalid

/-- `string_append`. -/
def stringAppend (s : Str) (c : UInt8) : Except Stop Str := do
  stringOk s
  faulting (CAsync.stringAppend s c)

/-- `string_clear`. -/
def stringClear (s : Str) : Except Stop Str := do
  stringOk s
  faulting (CAsync.stringClear s)

/-- `string_clone`. -/
def stringClone (src dst : Str) : Except Stop Str := do
  stringOk src
  stringOk dst
  let dst ← faulting (CAsync.stringClone src dst)
  stringOk dst
  .ok dst

/-- `string_ref`. -/
def stringRef (s : Str) : Except Stop StringRef := do
  stringOk s
  .ok (CAsync.stringRef s)

/-- `string_ref_clone`. -/
def stringRefClone (ref : StringRef) (out : Str) : Except Stop Str := ref.foldlM stringAppend out

/-- `string_concat`. -/
def stringConcat (a : Str) (b : StringRef) : Except Stop Str := do
  stringOk a
  let a ← faulting (CAsync.stringConcat a b)
  stringOk a
  .ok a

/-- The loop of `string_read_line`: whether it stops at the end of a line, the line, and what
is left of the file. -/
def readLineLoop : List UInt8 → Str → Except Stop (Bool × Str × List UInt8)
  | [], out => .ok (false, out, [])
  | c :: file, out =>
    if c = 10 then .ok (true, out, file)
    else do
      let out ← stringAppend out c
      readLineLoop file out

/-- `string_read_line`. -/
def stringReadLine (file : List UInt8) (out : Str) : Except Stop (Bool × Str × List UInt8) := do
  stringOk out
  readLineLoop file out

/-! ## 2. Commands -/

/-- `Command`.  An argument is the block of its bytes, or NULL. -/
structure Command where
  args : List (Option (List UInt8))
  len : Nat
  cap : Nat
  deriving DecidableEq, Repr

/-- `command_init`. -/
def commandInit : Command := { args := [], len := 0, cap := 0 }

/-- The part that `command_append` and `command_finish` share: room for one more argument.  The
arguments that `realloc` adds are indeterminate, and NULL here. -/
def commandReserve (cmd : Command) : Except Stop Command :=
  if cmd.len + 1 ≥ cmd.cap then do
    let cap := cmd.cap * 2 + 10
    require (cap < 2 ^ 31) (.fault .intOverflow)
    .ok { cmd with args := cmd.args ++ List.replicate (cap - cmd.args.length) none, cap := cap }
  else .ok cmd

/-- `command_append`. -/
def commandAppend (cmd : Command) (arg : StringRef) : Except Stop Command := do
  let cmd ← commandReserve cmd
  let clone ← stringRefClone arg stringInit
  let args ← faulting (store cmd.args cmd.len (some clone.str))
  .ok { cmd with args := args, len := cmd.len + 1 }

/-- `command_finish`. -/
def commandFinish (cmd : Command) : Except Stop Command := do
  let cmd ← commandReserve cmd
  let args ← faulting (store cmd.args cmd.len none)
  .ok { cmd with args := args, len := cmd.len + 1 }

/-- The loop over the words of a line. -/
def appendWords : Nat → StringRef → Command → Except Stop Command
  | 0, _, _ => .error (.fault .endlessChain)
  | fuel + 1, line, cmd =>
    let (more, arg, line) := stringRefSplitWsOnce line
    if more then do
      let cmd ← commandAppend cmd arg
      appendWords fuel line cmd
    else .ok cmd

/-! ## 3. Runs -/

/-- `RunList`. -/
structure RunList where
  input : Str
  output : Str
  next : Option Nat
  deriving DecidableEq, Repr

/-- The nodes that have been allocated, by their addresses, and the next address.  There is nothing
at an address that is free. -/
structure Heap where
  node : Nat → Option RunList
  brk : Nat

/-- `*ptr`, for a node. -/
def Heap.load (heap : Heap) (ptr : Nat) : Except Stop RunList :=
  match heap.node ptr with
  | some n => .ok n
  | none => .error (.fault .outOfBounds)

/-- `*ptr = n`. -/
def Heap.store (heap : Heap) (ptr : Nat) (n : RunList) : Heap :=
  { heap with node := Function.update heap.node ptr (some n) }

/-- `run_list_init`. -/
def runListInit (heap : Heap) : Heap × Nat :=
  ({ node := Function.update heap.node heap.brk
      (some { input := stringInit, output := stringInit, next := none }),
     brk := heap.brk + 1 }, heap.brk)

/-- `run_list_deinit`. -/
def runListDeinit : Nat → Heap → Option Nat → Except Stop Heap
  | _, heap, none => .ok heap
  | 0, _, some _ => .error (.fault .endlessChain)
  | fuel + 1, heap, some ptr => do
    let n ← heap.load ptr
    runListDeinit fuel { heap with node := Function.update heap.node ptr none } n.next

/-! ## 4. `parse_file` -/

/-- `LastLineKind`. -/
inductive LastLineKind where
  | normal
  | compile
  | run
  | input
  | output
  | split
  deriving DecidableEq, Repr

/-- The variables of `parse_file`, and what its pointers lead to. -/
structure Parser where
  lastLineKind : LastLineKind
  line : Str
  input : Str
  output : Str
  compileCommand : Command
  runCommand : Command
  heap : Heap
  runs : Nat
  thisRun : Option Nat

/-- The node for the run that ends: the first one is there, the others are put behind the last. -/
def nextRun (heap : Heap) (runs : Nat) (thisRun : Option Nat) : Except Stop (Heap × Nat) :=
  match thisRun with
  | none => .ok (heap, runs)
  | some ptr => do
    let n ← heap.load runs
    .ok (heap.store runs { n with next := some ptr }, ptr)

/-- The line of dashes. -/
def endRun (s : Parser) : Except Stop Parser := do
  let (heap, runs) ← nextRun s.heap s.runs s.thisRun
  let n ← heap.load runs
  let input ← stringClone s.input n.input
  let output ← stringClone s.output n.output
  let heap := heap.store runs { n with input := input, output := output }
  let clearedInput ← stringClear s.input
  let clearedOutput ← stringClear s.output
  let (heap, next) := runListInit heap
  .ok { s with
    lastLineKind := .split, input := clearedInput, output := clearedOutput,
    heap := heap, runs := runs, thisRun := some next }

/-- What the lines with input and those with output share. -/
def addLine (text : Str) (again : Bool) (ref : StringRef) : Except Stop Str := do
  let text ← (if again then stringAppend text 10 else .ok text)
  stringConcat text ref

/-- The marks in front of a line, and what they are for. -/
def parseMarks (s : Parser) (l : StringRef) : Except Stop Parser :=
  let compileLine := stringRefTrimLeft l 36
  let runLine := stringRefTrimLeft l 33
  let outputLine := stringRefTrimLeft l 35
  let inputLine := stringRefTrimLeft l 37
  let splitLine := stringRefTrimLeft l 45
  if compileLine.1 = 2 then do
    let words := (stringRefTrimLeftWs compileLine.2).2
    let cmd ← appendWords (words.length + 1) words s.compileCommand
    .ok { s with lastLineKind := .compile, compileCommand := cmd }
  else if runLine.1 = 2 then do
    let words := (stringRefTrimLeftWs runLine.2).2
    let cmd ← appendWords (words.length + 1) words s.runCommand
    .ok { s with lastLineKind := .run, runCommand := cmd }
  else if outputLine.1 = 2 then do
    let output ← addLine s.output (s.lastLineKind = .output) (stringRefTrimLeftWs outputLine.2).2
    .ok { s with lastLineKind := .output, output := output }
  else if inputLine.1 = 2 then do
    let input ← addLine s.input (s.lastLineKind = .input) (stringRefTrimLeftWs inputLine.2).2
    .ok { s with lastLineKind := .input, input := input }
  else if splitLine.1 ≠ 0 ∧ splitLine.2.length = 0 then endRun s
  else .ok { s with lastLineKind := .normal }

/-- The body of the loop, from `string_ref` on. -/
def parseLine (s : Parser) : Except Stop Parser := do
  let ref ← stringRef s.line
  let s ← parseMarks s (stringRefTrimLeftWs ref).2
  let line ← stringClear s.line
  .ok { s with line := line }

/-- The loop. -/
def parseLoop : Nat → List UInt8 → Parser → Except Stop Parser
  | 0, _, _ => .error (.fault .endlessChain)
  | fuel + 1, file, s => do
    let (more, line, file) ← stringReadLine file s.line
    let s := { s with line := line }
    if more then do
      let s ← parseLine s
      parseLoop fuel file s
    else .ok s

/-- What `parse_file` leaves to its caller: the two commands, and the nodes. -/
structure Setup where
  compileCommand : Command
  runCommand : Command
  heap : Heap

/-- The variables of `parse_file` in front of the loop. -/
def parserInit (compileCommand runCommand : Command) (heap : Heap) (runs : Nat) : Parser where
  lastLineKind := .normal
  line := stringInit
  input := stringInit
  output := stringInit
  compileCommand := compileCommand
  runCommand := runCommand
  heap := heap
  runs := runs
  thisRun := none

/-- `parse_file`. -/
def parseFile (file : Option (List UInt8)) (compileCommand runCommand : Command) (heap : Heap)
    (runs : Nat) : Except Stop Setup :=
  match file with
  | none => .error .noFile
  | some file => do
    let s ← parseLoop (file.length + 1) file (parserInit compileCommand runCommand heap runs)
    let heap ← (if s.thisRun ≠ none ∧ s.thisRun ≠ some s.runs then
        runListDeinit (s.heap.brk + 1) s.heap s.thisRun
      else .ok s.heap)
    let compileCommand ← commandFinish s.compileCommand
    let runCommand ← commandFinish s.runCommand
    .ok { compileCommand := compileCommand, runCommand := runCommand, heap := heap }

/-- Where `run_test` calls `parse_file`: the setup, and its list of runs. -/
def prepareTest (file : Option (List UInt8)) : Except Stop (Setup × Nat) := do
  let (heap, runList) := runListInit { node := fun _ => none, brk := 0 }
  let setup ← parseFile file commandInit commandInit heap runList
  .ok (setup, runList)

end Runner

end CAsync
