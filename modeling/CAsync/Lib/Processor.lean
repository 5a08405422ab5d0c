/-
# Some instructions of an x86-64 processor

Registers, the zero flag and a memory, and the instructions that move words between registers and
the stack, compare with 0, jump forward, call and return.  Code is a list of instructions, a label
is a position in it, and `exec` runs the code until control leaves it: by a return, by a call
through a register, or by a trap.

Section 2 is about blocks of pushes and pops: pops in the reverse order of the pushes find the
words that the registers had.
-/
import CAsync.Lib.Memory

namespace Processor

open Memory

/-! ## 1. Execution -/

inductive Reg where
  | rbx
  | rbp
  | r12
  | r13
  | r14
  | r15
  | rsp
  | rdi
  | rsi
  | rdx
  | rcx
  | r8
  deriving DecidableEq, Repr

structure Cpu where
  regs : Reg → Word
  zero : Bool
  mem : Mem

namespace Cpu

def set (c : Cpu) (r : Reg) (v : Word) : Cpu := { c with regs := Function.update c.regs r v }

def setZero (c : Cpu) (b : Bool) : Cpu := { c with zero := b }

def setMem (c : Cpu) (m : Mem) : Cpu := { c with mem := m }

variable (c : Cpu) {r s : Reg} (v : Word) (b : Bool) (m : Mem)

@[simp] theorem set_regs_self : (c.set r v).regs r = v := Function.update_self ..

@[simp] theorem set_regs_of_ne (h : s ≠ r) : (c.set r v).regs s = c.regs s :=
  Function.update_of_ne h ..

@[simp] theorem set_mem : (c.set r v).mem = c.mem := rfl

@[simp] theorem set_zero : (c.set r v).zero = c.zero := rfl

@[simp] theorem setZero_regs : (c.setZero b).regs = c.regs := rfl

@[simp] theorem setZero_zero : (c.setZero b).zero = b := rfl

@[simp] theorem setZero_mem : (c.setZero b).mem = c.mem := rfl

@[simp] theorem setMem_regs : (c.setMem m).regs = c.regs := rfl

@[simp] theorem setMem_zero : (c.setMem m).zero = c.zero := rfl

@[simp] theorem setMem_mem : (c.setMem m).mem = m := rfl

end Cpu

inductive Instr where
  /-- `pushq r` -/
  | push (r : Reg)
  /-- `popq r` -/
  | pop (r : Reg)
  /-- `movq src, dst` -/
  | mov (src dst : Reg)
  /-- `movq src, (dst)` -/
  | store (src dst : Reg)
  /-- `cmpq $0x0, r` -/
  | cmp0 (r : Reg)
  /-- `je label` -/
  | je (label : Nat)
  /-- `call *r` -/
  | call (r : Reg)
  /-- `int $3` -/
  | int3
  | ret
  deriving DecidableEq, Repr

/-- How control leaves a piece of code. -/
inductive Exit where
  | returned (pc : Word)
  | called (pc : Word)
  | trapped
  deriving DecidableEq, Repr

/-- Where the processor goes on. -/
def Exit.pc : Exit → Option Word
  | .returned pc => some pc
  | .called pc => some pc
  | .trapped => none

def pushWord (c : Cpu) (v : Word) : Cpu :=
  (c.set .rsp (c.regs .rsp - 8)).setMem (writeWord c.mem (c.regs .rsp - 8) v)

def popWord (c : Cpu) (r : Reg) : Cpu :=
  (c.set .rsp (c.regs .rsp + 8)).set r (readWord c.mem (c.regs .rsp))

/-- One instruction: where execution goes on, or how it leaves the code.  `here` is the address of
each position. -/
def Instr.exec (here : Nat → Word) (pc : Nat) (c : Cpu) : Instr → Cpu × (Nat ⊕ Exit)
  | push r => (pushWord c (c.regs r), .inl (pc + 1))
  | pop r => (popWord c r, .inl (pc + 1))
  | mov src dst => (c.set dst (c.regs src), .inl (pc + 1))
  | store src dst => (c.setMem (writeWord c.mem (c.regs dst) (c.regs src)), .inl (pc + 1))
  | cmp0 r => (c.setZero (c.regs r = 0), .inl (pc + 1))
  | je label => (c, .inl (if c.zero then label else pc + 1))
  | call r => (pushWord c (here (pc + 1)), .inr (.called (c.regs r)))
  | int3 => (c, .inr .trapped)
  | ret => (c.set .rsp (c.regs .rsp + 8), .inr (.returned (readWord c.mem (c.regs .rsp))))

/-- The code from `pc` on, until control leaves it; nothing if `fuel` instructions are not enough or
`pc` is not in it. -/
def exec (code : List Instr) (here : Nat → Word) : Nat → Nat → Cpu → Option (Cpu × Exit)
  | 0, _, _ => none
  | fuel + 1, pc, c =>
    match code[pc]? with
    | none => none
    | some i =>
      match i.exec here pc c with
      | (c, .inl pc) => exec code here fuel pc c
      | (c, .inr e) => some (c, e)

/-! ## 2. Pushes and pops -/

def pushRegs (rs : List Reg) (c : Cpu) : Cpu := rs.foldl (fun c r => pushWord c (c.regs r)) c

def popRegs (rs : List Reg) (c : Cpu) : Cpu := rs.foldl popWord c

variable {code : List Instr} {here : Nat → Word} {fuel pc : Nat} {c : Cpu} {rs : List Reg}

theorem exec_succ {i : Instr} (hi : code[pc]? = some i) : exec code here (fuel + 1) pc c =
    match i.exec here pc c with
    | (c, .inl pc) => exec code here fuel pc c
    | (c, .inr e) => some (c, e) := by
  rw [exec, hi]

/-- A block of instructions that only move words, one after the other. -/
theorem exec_block (f : Cpu → Reg → Cpu) (instr : Reg → Instr)
    (hf : ∀ pc c r, (instr r).exec here pc c = (f c r, .inl (pc + 1))) {rest : List Instr}
    (h : code.drop pc = rs.map instr ++ rest) :
    exec code here (fuel + rs.length) pc c =
      exec code here fuel (pc + rs.length) (rs.foldl f c) := by
  induction rs generalizing pc c with
  | nil => rfl
  | cons r rs ih =>
    have hi : code[pc]? = some (instr r) := by
      rw [← List.head?_drop, h]
      rfl
    have hrest : code.drop (pc + 1) = rs.map instr ++ rest := by
      rw [← List.drop_drop, h]
      rfl
    rw [List.length_cons, ← Nat.add_assoc, exec_succ hi, hf]
    dsimp only
    rw [ih hrest, List.foldl_cons, Nat.add_assoc, Nat.add_comm 1]

theorem exec_pushes (rs : List Reg) {rest : List Instr} (h : code.drop pc = rs.map .push ++ rest) :
    exec code here (fuel + rs.length) pc c =
      exec code here fuel (pc + rs.length) (pushRegs rs c) :=
  exec_block (fun c r => pushWord c (c.regs r)) .push (fun _ _ _ => rfl) h

theorem exec_pops (rs : List Reg) {rest : List Instr} (h : code.drop pc = rs.map .pop ++ rest) :
    exec code here (fuel + rs.length) pc c =
      exec code here fuel (pc + rs.length) (popRegs rs c) :=
  exec_block popWord .pop (fun _ _ _ => rfl) h

theorem pushWord_rsp (c : Cpu) (v : Word) : (pushWord c v).regs .rsp = c.regs .rsp - 8 := by
  rw [pushWord, Cpu.setMem_regs, Cpu.set_regs_self]

theorem pushWord_regs (v : Word) {r : Reg} (hr : r ≠ .rsp) : (pushWord c v).regs r = c.regs r := by
  rw [pushWord, Cpu.setMem_regs, Cpu.set_regs_of_ne _ _ hr]

theorem pushRegs_cons (s : Reg) (rs : List Reg) (c : Cpu) :
    pushRegs (s :: rs) c = pushRegs rs (pushWord c (c.regs s)) := rfl

theorem popRegs_cons (s : Reg) (rs : List Reg) (c : Cpu) :
    popRegs (s :: rs) c = popRegs rs (popWord c s) := rfl

theorem pushRegs_regs {r : Reg} (hr : r ≠ .rsp) : (pushRegs rs c).regs r = c.regs r := by
  induction rs generalizing c with
  | nil => rfl
  | cons s rs ih =>
    rw [pushRegs_cons, ih, pushWord_regs _ hr]

theorem pushRegs_rsp (h : 8 * rs.length ≤ (c.regs .rsp).toNat) :
    (pushRegs rs c).regs .rsp = c.regs .rsp - BitVec.ofNat 64 (8 * rs.length) := by
  induction rs generalizing c with
  | nil => simp [pushRegs]
  | cons s rs ih =>
    have hrsp := pushWord_rsp c (c.regs s)
    rw [List.length_cons] at h ⊢
    have hsub := toNat_sub_eight (a := c.regs .rsp) (by omega)
    rw [pushRegs_cons, ih (by rw [hrsp]; omega), hrsp]
    bv_omega

/-- Pushes write below the stack pointer. -/
theorem pushRegs_agreeOn (h : 8 * rs.length ≤ (c.regs .rsp).toNat) {lo hi : Nat}
    (hout : hi + 8 * rs.length ≤ (c.regs .rsp).toNat ∨ (c.regs .rsp).toNat ≤ lo) :
    AgreeOn lo hi c.mem (pushRegs rs c).mem := by
  induction rs generalizing c with
  | nil => exact .refl _ _ _
  | cons s rs ih =>
    have hrsp := pushWord_rsp c (c.regs s)
    rw [List.length_cons] at h hout
    have hsub := toNat_sub_eight (a := c.regs .rsp) (by omega)
    have hlt := (c.regs .rsp).isLt
    rw [pushRegs_cons]
    refine .trans (agreeOn_writeWord (v := c.regs s) (a := c.regs .rsp - 8) ?_ ?_)
      (ih (c := pushWord c (c.regs s)) ?_ ?_)
    · omega
    · omega
    · rw [hrsp]
      omega
    · rw [hrsp]
      omega

/-- **What pushes leave on the stack**: the words of the registers, the last one first. -/
theorem pushRegs_wordsAt (hrs : Reg.rsp ∉ rs) {vs : List Word}
    (hroom : 8 * rs.length ≤ (c.regs .rsp).toNat)
    (hwrap : (c.regs .rsp).toNat + 8 * vs.length < 2 ^ 64) (h : WordsAt c.mem (c.regs .rsp) vs) :
    WordsAt (pushRegs rs c).mem ((pushRegs rs c).regs .rsp) (rs.reverse.map c.regs ++ vs) := by
  induction rs generalizing c vs with
  | nil => exact h
  | cons s rs ih =>
    have hrsp := pushWord_rsp c (c.regs s)
    rw [List.length_cons] at hroom
    have hsub := toNat_sub_eight (a := c.regs .rsp) (by omega)
    rw [List.mem_cons, not_or] at hrs
    have hregs : rs.reverse.map (pushWord c (c.regs s)).regs = rs.reverse.map c.regs := by
      refine List.map_congr_left fun r hr => pushWord_regs _ ?_
      rintro rfl
      exact hrs.2 (List.mem_reverse.mp hr)
    have hpushed : WordsAt (pushWord c (c.regs s)).mem ((pushWord c (c.regs s)).regs .rsp)
        (c.regs s :: vs) := by
      rw [hrsp]
      exact h.push (by omega) hwrap _
    have hmain := ih hrs.2 (by rw [hrsp]; omega) (by rw [hrsp, List.length_cons]; omega) hpushed
    rw [hregs] at hmain
    rw [pushRegs_cons, List.reverse_cons, List.map_append, List.append_assoc]
    exact hmain

theorem popRegs_mem : (popRegs rs c).mem = c.mem := by
  induction rs generalizing c with
  | nil => rfl
  | cons s rs ih =>
    rw [popRegs_cons, ih]
    rfl

/-- **What pops take from the stack.**  If the words there are `f` of the registers, then these
registers hold them, and the others are as they were. -/
theorem popRegs_regs (hrs : Reg.rsp ∉ rs) {f : Reg → Word}
    (h : WordsAt c.mem (c.regs .rsp) (rs.map f)) :
    (∀ r ∈ rs, (popRegs rs c).regs r = f r) ∧
      (∀ r, r ∉ rs → r ≠ .rsp → (popRegs rs c).regs r = c.regs r) ∧
      (popRegs rs c).regs .rsp = c.regs .rsp + BitVec.ofNat 64 (8 * rs.length) := by
  induction rs generalizing c with
  | nil => simp [popRegs]
  | cons s rs ih =>
    rw [List.mem_cons, not_or] at hrs
    have hrsp : (popWord c s).regs .rsp = c.regs .rsp + 8 := by
      unfold popWord
      rw [Cpu.set_regs_of_ne _ _ hrs.1, Cpu.set_regs_self]
    have hself : (popWord c s).regs s = f s := (Cpu.set_regs_self ..).trans h.1
    have hother : ∀ r, r ≠ s → r ≠ .rsp → (popWord c s).regs r = c.regs r := by
      intro r hrs' hr
      unfold popWord
      rw [Cpu.set_regs_of_ne _ _ hrs', Cpu.set_regs_of_ne _ _ hr]
    have hwords : WordsAt (popWord c s).mem ((popWord c s).regs .rsp) (rs.map f) := by
      rw [hrsp]
      exact h.2
    obtain ⟨hin, hout, hsp⟩ := ih hrs.2 hwords
    rw [popRegs_cons]
    refine ⟨fun r hr => ?_, fun r hr hne => ?_, ?_⟩
    · by_cases hmem : r ∈ rs
      · exact hin r hmem
      · obtain rfl := (List.mem_cons.mp hr).resolve_right hmem
        rw [hout r hmem (Ne.symm hrs.1), hself]
    · rw [List.mem_cons, not_or] at hr
      rw [hout r hr.2 hne, hother r hr.1 hne]
    · rw [hsp, hrsp, List.length_cons]
      bv_omega

end Processor
