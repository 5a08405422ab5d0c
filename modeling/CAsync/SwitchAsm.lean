/-
# The switch itself (`switch.c`, `async_switch_asm`)

`async_switch_asm` is assembly: it pushes the registers that a C function must leave as they were,
stores the stack pointer for the task that is left, takes the one of the task that goes on, and
either calls the function of a new task or pops the registers of an old one and returns.

`async_switch_asm` is entered by a call, so the word at the stack pointer is the address it returns
to.  Its arguments are in `rdi` (where to store the old stack pointer, or NULL), `rsi` (the new
stack pointer), `rdx` (whether the new task starts), `rcx` (its function) and `r8` (its argument).
-/
import CAsync.Lib.Processor

namespace CAsync

open Memory Processor

/-- The inline assembly, and the return of the C function around it. -/
def asyncSwitchAsm : List Instr := [
  .push .rbx,
  .push .r12,
  .push .r13,
  .push .r14,
  .push .r15,
  .push .rbp,
  .cmp0 .rdi,
  .je 9,
  .store .rsp .rdi,
  -- the label `2`
  .mov .rsi .rsp,
  .cmp0 .rdx,
  .je 15,
  .mov .r8 .rdi,
  .call .rcx,
  .int3,
  -- the label `1`
  .pop .rbp,
  .pop .r15,
  .pop .r14,
  .pop .r13,
  .pop .r12,
  .pop .rbx,
  .ret]

/-- The registers that are saved, in the order of the pushes. -/
def savedRegs : List Reg := [.rbx, .r12, .r13, .r14, .r15, .rbp]

/-- Where the `int $3` behind the call is. -/
def trapAt : Nat := 14

variable {here : Nat → Word} {c : Cpu}

/-- After the store of the stack pointer. -/
def park (c : Cpu) : Cpu :=
  let pushed := pushRegs savedRegs c
  let stored := if c.regs .rdi = 0 then pushed.mem
    else writeWord pushed.mem (c.regs .rdi) (pushed.regs .rsp)
  (pushed.setZero (c.regs .rdi = 0)).setMem stored

/-- After the second comparison. -/
def takeStack (c : Cpu) : Cpu := (c.set .rsp (c.regs .rsi)).setZero (c.regs .rdx = 0)

theorem park_regs {r : Reg} (hr : r ≠ .rsp) : (park c).regs r = c.regs r := by
  unfold park
  rw [Cpu.setMem_regs, Cpu.setZero_regs, pushRegs_regs hr]

theorem takeStack_rsp (c : Cpu) : (takeStack c).regs .rsp = c.regs .rsi := by
  rw [takeStack, Cpu.setZero_regs, Cpu.set_regs_self]

theorem takeStack_regs {r : Reg} (hr : r ≠ .rsp) : (takeStack c).regs r = c.regs r := by
  rw [takeStack, Cpu.setZero_regs, Cpu.set_regs_of_ne _ _ hr]

/-- The part of the code up to the label `2`. -/
theorem exec_park (here : Nat → Word) (c : Cpu) : ∃ fuel,
    exec asyncSwitchAsm here 22 0 c = exec asyncSwitchAsm here (fuel + 13) 9 (park c) := by
  have hpush : exec asyncSwitchAsm here 22 0 c =
      exec asyncSwitchAsm here 16 6 (pushRegs savedRegs c) :=
    exec_pushes savedRegs rfl
  have hrdi : (pushRegs savedRegs c).regs .rdi = c.regs .rdi := pushRegs_regs (by decide)
  unfold park
  rw [hpush, exec_succ (i := .cmp0 .rdi) rfl]
  dsimp only [Instr.exec]
  rw [exec_succ (i := .je 9) rfl]
  dsimp only [Instr.exec]
  rw [hrdi]
  by_cases h0 : c.regs .rdi = 0
  · refine ⟨1, ?_⟩
    simp only [h0, decide_true, Cpu.setZero_zero, if_true]
    rfl
  · refine ⟨0, ?_⟩
    simp only [h0, decide_false, Cpu.setZero_zero, Bool.false_eq_true, if_false]
    rw [exec_succ (i := .store .rsp .rdi) rfl]
    dsimp only [Instr.exec]
    simp only [Cpu.setZero_regs, Cpu.setZero_mem, hrdi]

/-- From the label `2` on, up to the second jump. -/
theorem exec_take {fuel : Nat} : exec asyncSwitchAsm here (fuel + 13) 9 c =
    exec asyncSwitchAsm here (fuel + 10) (if c.regs .rdx = 0 then 15 else 12) (takeStack c) := by
  have hrdx : (c.set .rsp (c.regs .rsi)).regs .rdx = c.regs .rdx := c.set_regs_of_ne _ (by decide)
  rw [exec_succ (i := .mov .rsi .rsp) rfl]
  dsimp only [Instr.exec]
  rw [exec_succ (i := .cmp0 .rdx) rfl]
  dsimp only [Instr.exec]
  rw [exec_succ (i := .je 15) rfl]
  dsimp only [Instr.exec]
  rw [hrdx, Cpu.setZero_zero]
  simp only [decide_eq_true_eq]
  rfl

/-- **A task that starts**: its function is entered on the new stack, with its argument and with the
address of the `int $3` to return to. -/
theorem exec_start (hrdx : c.regs .rdx ≠ 0) : ∃ c',
    exec asyncSwitchAsm here 22 0 c = some (c', .called (c.regs .rcx)) ∧
      c'.regs .rdi = c.regs .r8 ∧ c'.regs .rsp = c.regs .rsi - 8 ∧
      c'.mem = writeWord (park c).mem (c.regs .rsi - 8) (here trapAt) := by
  obtain ⟨fuel, hpark⟩ := exec_park here c
  have htake : ∀ r, r ≠ Reg.rsp → (takeStack (park c)).regs r = c.regs r := fun r hr =>
    (takeStack_regs hr).trans (park_regs hr)
  have hsp : (takeStack (park c)).regs .rsp = c.regs .rsi := by
    rw [takeStack_rsp, park_regs (by decide)]
  generalize hd : (takeStack (park c)).set .rdi ((takeStack (park c)).regs .r8) = d
  have hrcx : d.regs .rcx = c.regs .rcx := by
    rw [← hd, Cpu.set_regs_of_ne _ _ (by decide), htake _ (by decide)]
  have hrsp : d.regs .rsp = c.regs .rsi := by
    rw [← hd, Cpu.set_regs_of_ne _ _ (by decide), hsp]
  have hexec : exec asyncSwitchAsm here 22 0 c =
      some (pushWord d (here trapAt), .called (c.regs .rcx)) := by
    rw [hpark, exec_take, park_regs (by decide), if_neg hrdx, exec_succ (i := .mov .r8 .rdi) rfl]
    dsimp only [Instr.exec]
    rw [hd, exec_succ (i := .call .rcx) rfl]
    dsimp only [Instr.exec]
    rw [hrcx]
    rfl
  refine ⟨_, hexec, ?_, ?_, ?_⟩
  · rw [pushWord_regs _ (by decide), ← hd, Cpu.set_regs_self, htake _ (by decide)]
  · rw [pushWord_rsp, hrsp]
  · rw [pushWord, Cpu.setMem_mem, hrsp, ← hd]
    rfl

/-- The registers after the pops. -/
def popped (c : Cpu) : Cpu := popRegs savedRegs.reverse (takeStack (park c))

theorem popped_mem (c : Cpu) : (popped c).mem = (park c).mem := popRegs_mem

/-- Without a new task, the code pops the registers and returns. -/
theorem exec_return (hrdx : c.regs .rdx = 0) : exec asyncSwitchAsm here 22 0 c =
    some ((popped c).set .rsp ((popped c).regs .rsp + 8),
      .returned (readWord (popped c).mem ((popped c).regs .rsp))) := by
  obtain ⟨fuel, hpark⟩ := exec_park here c
  have hpops : exec asyncSwitchAsm here (fuel + 4 + 6) 15 (takeStack (park c)) =
      exec asyncSwitchAsm here (fuel + 4) (15 + 6) (popped c) :=
    exec_pops savedRegs.reverse rfl
  rw [hpark, exec_take, park_regs (by decide), if_pos hrdx]
  refine hpops.trans ?_
  rw [exec_succ (i := .ret) rfl]
  rfl

/-- **A task that goes on**: the registers and the address to return to are those on its stack. -/
theorem exec_resume (hrdx : c.regs .rdx = 0) {f : Reg → Word} {pc : Word}
    (h : WordsAt (park c).mem (c.regs .rsi) (savedRegs.reverse.map f ++ [pc])) : ∃ c',
    exec asyncSwitchAsm here 22 0 c = some (c', .returned pc) ∧
      (∀ r ∈ savedRegs, c'.regs r = f r) ∧ c'.regs .rsp = c.regs .rsi + 56 ∧
      c'.mem = (park c).mem := by
  have hsp : (takeStack (park c)).regs .rsp = c.regs .rsi := by
    rw [takeStack_rsp, park_regs (by decide)]
  have hwords : WordsAt (takeStack (park c)).mem ((takeStack (park c)).regs .rsp)
      (savedRegs.reverse.map f ++ [pc]) := by
    rw [hsp]
    exact h
  have hsaved : (∀ r ∈ savedRegs.reverse, (popped c).regs r = f r) ∧ _ ∧
      (popped c).regs .rsp = _ := popRegs_regs (by decide) hwords.left
  obtain ⟨hsaved, -, hrsp⟩ := hsaved
  have hret : readWord (popped c).mem ((popped c).regs .rsp) = pc := by
    have hright := hwords.right
    rw [List.length_map] at hright
    rw [popped_mem, hrsp]
    exact hright.1
  refine ⟨_, by rw [exec_return hrdx, hret], fun r hr => ?_, ?_, ?_⟩
  · rw [Cpu.set_regs_of_ne _ _ (by rintro rfl; exact absurd hr (by decide)),
      hsaved r (List.mem_reverse.mpr hr)]
  · rw [Cpu.set_regs_self, hrsp, hsp]
    have hlen : 8 * savedRegs.reverse.length = 48 := rfl
    rw [hlen, BitVec.add_assoc]
    rfl
  · rw [Cpu.set_mem, popped_mem]

/-- The code writes to the stack that it leaves, to `*rdi`, and to the stack of
a task that starts. -/
theorem exec_total (here : Nat → Word) (c : Cpu) : ∃ c' e pc,
    exec asyncSwitchAsm here 22 0 c = some (c', e) ∧ e.pc = some pc ∧
      c'.mem = if c.regs .rdx = 0 then (park c).mem
        else writeWord (park c).mem (c.regs .rsi - 8) (here trapAt) := by
  by_cases hrdx : c.regs .rdx = 0
  · exact ⟨_, _, _, exec_return hrdx, rfl, by rw [if_pos hrdx, Cpu.set_mem, popped_mem]⟩
  · obtain ⟨c', hexec, -, -, hmem⟩ := @exec_start here c hrdx
    exact ⟨c', _, _, hexec, rfl, by rw [if_neg hrdx, hmem]⟩

/-- A stretch of memory outside of both. -/
theorem park_agreeOn {lo hi : Nat} (hroom : 48 ≤ (c.regs .rsp).toNat)
    (hstack : hi + 48 ≤ (c.regs .rsp).toNat ∨ (c.regs .rsp).toNat ≤ lo)
    (hptr : c.regs .rdi = 0 ∨ (c.regs .rdi).toNat + 8 ≤ 2 ^ 64 ∧
      (hi ≤ (c.regs .rdi).toNat ∨ (c.regs .rdi).toNat + 8 ≤ lo)) :
    AgreeOn lo hi c.mem (park c).mem := by
  have hpushed : AgreeOn lo hi c.mem (pushRegs savedRegs c).mem := by
    refine pushRegs_agreeOn ?_ ?_
    · exact hroom
    · exact hstack
  unfold park
  rw [Cpu.setMem_mem]
  split
  · exact hpushed
  · rename_i h0
    obtain ⟨hwrap, hout⟩ := hptr.resolve_left h0
    exact hpushed.trans (agreeOn_writeWord hwrap hout)

/-- **What is left on the stack**: the registers, and the address to return to. -/
theorem park_wordsAt (hroom : 48 ≤ (c.regs .rsp).toNat) (hwrap : (c.regs .rsp).toNat + 8 < 2 ^ 64)
    (hptr : c.regs .rdi = 0 ∨ (c.regs .rdi).toNat + 8 ≤ 2 ^ 64 ∧
      ((c.regs .rsp).toNat + 8 ≤ (c.regs .rdi).toNat ∨
        (c.regs .rdi).toNat + 8 + 48 ≤ (c.regs .rsp).toNat)) :
    WordsAt (park c).mem (c.regs .rsp - 48)
      (savedRegs.reverse.map c.regs ++ [readWord c.mem (c.regs .rsp)]) := by
  have hsub : (c.regs .rsp - 48).toNat = (c.regs .rsp).toNat - 48 := by bv_omega
  have hpushed : WordsAt (pushRegs savedRegs c).mem ((pushRegs savedRegs c).regs .rsp)
      (savedRegs.reverse.map c.regs ++ [readWord c.mem (c.regs .rsp)]) :=
    pushRegs_wordsAt (by decide) hroom hwrap ⟨rfl, trivial⟩
  have hrsp : (pushRegs savedRegs c).regs .rsp = c.regs .rsp - 48 := pushRegs_rsp hroom
  rw [hrsp] at hpushed
  unfold park
  rw [Cpu.setMem_mem]
  split
  · exact hpushed
  · rename_i h0
    obtain ⟨hwrap', hout⟩ := hptr.resolve_left h0
    have hagree : AgreeOn ((c.regs .rsp).toNat - 48) ((c.regs .rsp).toNat + 8)
        (pushRegs savedRegs c).mem (writeWord (pushRegs savedRegs c).mem (c.regs .rdi)
          ((pushRegs savedRegs c).regs .rsp)) :=
      agreeOn_writeWord hwrap' (by omega)
    refine hpushed.congr hagree (by omega) ?_ hwrap
    rw [List.length_append, List.length_map]
    have hlen : savedRegs.reverse.length = 6 := rfl
    rw [hlen, hsub, List.length_singleton]
    omega

/-- The stored stack pointer. -/
theorem park_ptr (h0 : c.regs .rdi ≠ 0) (hroom : 48 ≤ (c.regs .rsp).toNat) :
    readWord (park c).mem (c.regs .rdi) = c.regs .rsp - 48 := by
  have hrsp : (pushRegs savedRegs c).regs .rsp = c.regs .rsp - 48 := pushRegs_rsp hroom
  unfold park
  rw [Cpu.setMem_mem, if_neg h0, readWord_writeWord, hrsp]

/-- A task function that returns is stopped by a trap. -/
theorem exec_trap (here : Nat → Word) (c : Cpu) :
    exec asyncSwitchAsm here 1 trapAt c = some (c, .trapped) := rfl

end CAsync
