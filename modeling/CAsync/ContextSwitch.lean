/-
# A task goes on where it was

Between the switch away from a task and the switch back, other tasks run on the same processor, and
the pool may move.  The switch back finds all that the switch away has left (`context_restored`),
and a new task starts on an empty stack (`first_entry`).

Code that runs in between may write to the stack of the task that is away, as `recv` into a buffer
of the caller does.  The registers and the return address come back if nobody has written to the 56
bytes that hold them, and every other byte of the stack is as it was if nobody has written it.  The
first entry depends on neither.
-/
import CAsync.StackRuns

namespace CAsync

open Faulting Memory Processor TaskPool

variable {F V : Type}

namespace Stacks

variable {s t u : Stacks F V} {h i src dst : Handle} {code : F → Word} {word : V → Word}
  {here : Nat → Word}

/-! ## 1. Away and back -/

/-- The bytes where `async_switch_asm`, entered with `c`, keeps the registers and finds the return
address, are not in `W`. -/
def Untouched (c : Cpu) (W : Set Word) : Prop :=
  ∀ a : Word, (c.regs .rsp).toNat ≤ a.toNat + 48 → a.toNat < (c.regs .rsp).toNat + 8 → a ∉ W

/-- What the task of slot `h` has left behind, when it entered `async_switch_asm` with `c`, and has
since been written at addresses of `W`. -/
structure Parked (s : Stacks F V) (h : Handle) (c : Cpu) (W : Set Word) : Prop where
  room : s.low h + 48 ≤ (c.regs .rsp).toNat
  inside : (c.regs .rsp).toNat + 8 ≤ s.high h
  ptr : s.stackPtr h = c.regs .rsp - 48
  words : WordsAt s.cpu.mem (c.regs .rsp - 48)
    (savedRegs.reverse.map c.regs ++ [readWord c.mem (c.regs .rsp)])
  above : AgreeOff W ((c.regs .rsp).toNat + 8) (s.high h) c.mem s.cpu.mem

theorem saved_of_agree {c : Cpu} {m m' : Mem} {pc : Word} {lo hi : Nat}
    (h : WordsAt m (c.regs .rsp - 48) (savedRegs.reverse.map c.regs ++ [pc]))
    (hagree : AgreeOn lo hi m m') (hroom : 48 ≤ (c.regs .rsp).toNat)
    (hlo : lo ≤ (c.regs .rsp).toNat - 48) (hinside : (c.regs .rsp).toNat + 8 ≤ hi)
    (hwrap : hi < 2 ^ 64) :
    WordsAt m' (c.regs .rsp - 48) (savedRegs.reverse.map c.regs ++ [pc]) := by
  have hsub : (c.regs .rsp - 48).toNat = (c.regs .rsp).toNat - 48 := by bv_omega
  have hlen : (savedRegs.reverse.map c.regs ++ [pc]).length = 7 := rfl
  exact h.congr hagree (by omega) (by rw [hlen]; omega) hwrap

theorem Parked.undisturbed {c : Cpu} {W W' : Set Word} (hp : Parked s h c W)
    (hst : Undisturbed s t h W') (hsafe : Untouched c W') (hwrap : s.high h < 2 ^ 64) :
    Parked t h c (W ∪ W') := by
  have hroom := hp.room
  have hinside := hp.inside
  -- nobody has written to the words themselves
  have hwords : AgreeOn ((c.regs .rsp).toNat - 48) ((c.regs .rsp).toNat + 8) s.cpu.mem
      t.cpu.mem := (hst.mem.mono (by omega) hinside).agreeOn fun a h₁ h₂ => hsafe a (by omega) h₂
  refine ⟨by rw [hst.low]; exact hroom, by rw [hst.high]; exact hinside, hst.ptr.trans hp.ptr,
    saved_of_agree hp.words hwords (by omega) (Nat.le_refl _) (Nat.le_refl _) (by omega), ?_⟩
  rw [hst.high]
  exact hp.above.trans (hst.mem.mono (by omega) (Nat.le_refl _))

/-- **A switch away leaves everything behind.** -/
theorem Sound.left (hs : Sound s) {frame : Frame} {control : Control F V}
    (hst : Step code word here s (.lib (.switch h dst frame control)) t) (h0 : h.idx ≠ 0) :
    Parked t h s.cpu ∅ ∧ h ≠ t.running ∧
      ∃ v, t.pool.slot h = some v ∧ v.state ≠ .init ∧ v.stackPtr = some frame := by
  cases hst with
  | @switch _ _ _ _ _ u e pool task args stack asm pc blocks =>
    obtain ⟨⟨v, top, hsw⟩, hrun, hleaves⟩ := pool.switch_inv
    obtain rfl : h = s.running := hleaves.resolve_right fun h' => h0 h'.1
    have hrun : t.running = dst := hrun
    have hne := hsw.ne
    have hroom := stack.room
    have hinside := stack.inside
    have hwrap := hs.layout.high s.running hs.present
    have hbounds := hs.layout.ptrAt_bounds (h := s.running) (by omega) hs.present
    have harray := hs.layout.array
    have hapart := hs.layout.apart s.running hs.present
    have haddr := hs.layout.ptrAt_toNat (h := s.running) (by omega) hs.present
    obtain ⟨hdst, hdstlen⟩ := slot_bounds task
    have hother := hs.layout.disjoint s.running dst hne hs.present hdstlen
    have hdstapart := hs.layout.apart dst hdstlen
    have hrdi : s.cpu.regs .rdi = BitVec.ofNat 64 (s.ptrAt s.running) := by
      rw [args.rdi, if_neg h0]
    have hrdi0 : s.cpu.regs .rdi ≠ 0 := by
      intro heq
      have hzero : (0 : Word).toNat = s.ptrAt s.running := by rw [← haddr, ← hrdi, heq]
      have h0' : (0 : Word).toNat = 0 := rfl
      omega
    -- what a new task adds is on another stack
    have hlater : ∀ {lo hi : Nat}, (hi + 8 ≤ s.high dst ∨ s.high dst ≤ lo) →
        AgreeOn lo hi (park s.cpu).mem t.cpu.mem := by
      intro lo hi hout
      obtain ⟨c', e', pc', hexec, -, hmem⟩ := exec_total here s.cpu
      rw [asm] at hexec
      cases hexec
      rw [hmem]
      by_cases hinit : u.state = .init
      · have hrdx : s.cpu.regs .rdx ≠ 0 := by
          rw [args.rdx, if_pos hinit]
          decide
        have htop := hs.layout.high dst hdstlen
        obtain ⟨hnew, hlow⟩ := hs.top task args hinit
        rw [if_neg hrdx]
        exact agreeOn_writeWord (by omega) (by omega)
      · have hrdx : s.cpu.regs .rdx = 0 := by rw [args.rdx, if_neg hinit]
        rw [if_pos hrdx]
        exact .refl _ _ _
    have hlow : s.low dst + 8 ≤ s.high dst := by
      unfold Stacks.low Stacks.high stackSize
      rw [if_neg (by omega), if_neg (by omega)]
      omega
    refine ⟨⟨?_, ?_, ?_, ?_, ?_⟩, by rwa [hrun], ?_⟩
    · rw [blocks.low]
      exact hroom
    · rw [blocks.high]
      exact hinside
    · have hread := park_ptr hrdi0 (by omega)
      have hagree : AgreeOn (s.ptrAt s.running) (s.ptrAt s.running + 8) (park s.cpu).mem
          t.cpu.mem := hlater (by omega)
      unfold Stacks.stackPtr
      rw [blocks.ptrAt, hagree.readWord (by omega) (by omega) (by omega), ← hrdi, hread]
    · have hwords := park_wordsAt (c := s.cpu) (by omega) (by omega)
        (.inr ⟨by rw [hrdi, haddr]; omega, by rw [hrdi, haddr]; omega⟩)
      have hagree : AgreeOn (s.low s.running) (s.high s.running) (park s.cpu).mem t.cpu.mem :=
        hlater (by omega)
      exact saved_of_agree hwords hagree (by omega) (by omega) hinside hwrap
    · rw [blocks.high]
      exact (hs.switch_agreeOn task args stack hs.present asm (.inr (by omega))
        (fun _ => by omega) (by omega)).off _
    · obtain ⟨w, hw⟩ := Option.isSome_iff_exists.mp (hsw.source.resolve_left h0)
      have hawake := hs.awake hw
      refine ⟨w.suspend frame, ?_, hawake, rfl⟩
      rw [hsw.slot, Function.update_of_ne hne, Function.update_self, hw]
      rfl

/-- A switch to a task that has started goes on with its topmost frame. -/
theorem Step.resumed {frame frame' : Frame} {control : Control F V} {v : Task F V}
    (hst : Step code word here s (.lib (.switch src h frame' control)) t)
    (hv : s.pool.slot h = some v) (hinit : v.state ≠ .init) (hframe : v.stackPtr = some frame) :
    control = .resumed frame := by
  cases hst with
  | switch pool task args stack asm pc blocks =>
    obtain ⟨⟨w, top, hsw⟩, -, -⟩ := pool.switch_inv
    have hw : s.pool.slot h = some w := hsw.task
    rw [hv] at hw
    cases hw
    have htop := hsw.stackPtr
    rw [hframe] at htop
    cases htop
    rw [hsw.control, if_neg hinit]

/-- **A switch back takes everything up again.** -/
theorem Sound.back (hs : Sound s) {frame' : Frame} {control : Control F V} {c : Cpu}
    {W : Set Word} {v : Task F V}
    (hst : Step code word here s (.lib (.switch src h frame' control)) t)
    (hp : Parked s h c W) (haway : h ≠ s.running) (hv : s.pool.slot h = some v)
    (hinit : v.state ≠ .init) : t.pc = readWord c.mem (c.regs .rsp) ∧
      (∀ r ∈ savedRegs, t.cpu.regs r = c.regs r) ∧ t.cpu.regs .rsp = c.regs .rsp + 8 ∧
      AgreeOff W ((c.regs .rsp).toNat + 8) (s.high h) c.mem t.cpu.mem := by
  cases hst with
  | @switch _ _ _ _ _ u e pool task args stack asm pc blocks =>
    rw [hv] at task
    cases task
    obtain ⟨⟨w, top, hsw⟩, -, -⟩ := pool.switch_inv
    have hw : s.pool.slot h = some w := hsw.task
    rw [hv] at hw
    cases hw
    obtain ⟨hpos, hlen⟩ := slot_bounds hv
    have hwrap := hs.layout.high h hlen
    have hapart := hs.layout.apart h hlen
    have hdisjoint := hs.layout.disjoint h s.running haway hlen hs.present
    have hroom := stack.room
    have hinside := stack.inside
    have hsrc := source_le hsw
    have hrdx : s.cpu.regs .rdx = 0 := by rw [args.rdx, if_neg hinit]
    have hagree : AgreeOn (s.low h) (s.high h) s.cpu.mem (park s.cpu).mem := by
      refine hs.park_agreeOn args stack hsrc (by omega) fun h0 => ?_
      have hbounds := hs.layout.ptrAt_bounds h0 hsrc
      omega
    have hproom := hp.room
    have hwords := saved_of_agree hp.words hagree (by omega) (by omega) hp.inside hwrap
    rw [← hp.ptr, ← args.rsi] at hwords
    obtain ⟨c', hexec, hsaved, hrsp, hmem⟩ := exec_resume hrdx hwords
    obtain ⟨rfl, rfl⟩ := Prod.mk.inj (Option.some.inj (asm.symm.trans hexec))
    refine ⟨(Option.some.inj pc).symm, hsaved, ?_, ?_⟩
    · rw [hrsp, args.rsi, hp.ptr]
      bv_omega
    · rw [hmem]
      have hkept : AgreeOn ((c.regs .rsp).toNat + 8) (s.high h) s.cpu.mem (park s.cpu).mem :=
        hagree.mono (by omega) (Nat.le_refl _)
      have habove := hp.above.trans (hkept.off ∅)
      rwa [Set.union_empty] at habove

/-- **The first switch to a task.** -/
theorem Sound.start (hs : Sound s) {frame : Frame} {control : Control F V} {v : Task F V}
    (hst : Step code word here s (.lib (.switch src h frame control)) t)
    (hv : s.pool.slot h = some v) (hinit : v.state = .init) :
    control = .entered v.fn v.data ∧ t.pc = code v.fn ∧ t.cpu.regs .rdi = word v.data ∧
      (t.cpu.regs .rsp).toNat + 8 = t.high h ∧ ((t.cpu.regs .rsp).toNat + 8) % 16 = 0 ∧
      readWord t.cpu.mem (t.cpu.regs .rsp) = here trapAt := by
  cases hst with
  | @switch _ _ _ _ _ u e pool task args stack asm pc blocks =>
    rw [hv] at task
    cases task
    obtain ⟨⟨w, top, hsw⟩, -, -⟩ := pool.switch_inv
    have hw : s.pool.slot h = some w := hsw.task
    rw [hv] at hw
    cases hw
    have hrdx : s.cpu.regs .rdx ≠ 0 := by
      rw [args.rdx, if_pos hinit]
      decide
    obtain ⟨hpos, hlen⟩ := slot_bounds hv
    obtain ⟨haddr, hlow⟩ := hs.top hv args hinit
    obtain ⟨c', hexec, hrdi, hrsp, hmem⟩ := exec_start hrdx
    obtain ⟨rfl, rfl⟩ := Prod.mk.inj (Option.some.inj (asm.symm.trans hexec))
    have hbase : s.bases.getD (h.idx - 1) 0 % 16 = 0 := by
      rw [List.getD_eq_getElem _ _ (by rw [hs.layout.bases]; omega)]
      exact hs.layout.aligned _ (List.getElem_mem _)
    have hhigh : s.high h = s.bases.getD (h.idx - 1) 0 + 16384 := by
      unfold Stacks.high stackSize
      rw [if_neg (by omega)]
    have hsp : (t.cpu.regs .rsp).toNat + 8 = s.high h := by
      rw [hrsp, haddr]
      omega
    refine ⟨?_, ?_, ?_, ?_, ?_, ?_⟩
    · rw [hsw.control, if_pos hinit]
    · rw [← args.rcx]
      exact (Option.some.inj pc).symm
    · rw [hrdi, args.r8]
    · rw [blocks.high, hsp]
    · rw [hsp, hhigh]
      omega
    · rw [hmem, hrsp, readWord_writeWord]

/-- Where the task of slot `h` goes on in `t`, if it entered `async_switch_asm` in `s`, and `W` has
been written since: behind its call, with the registers that a call preserves, and with its
stack. -/
structure GoesOn (h : Handle) (W : Set Word) (s t : Stacks F V) : Prop where
  pc : t.pc = readWord s.cpu.mem (s.cpu.regs .rsp)
  saved : ∀ r ∈ savedRegs, t.cpu.regs r = s.cpu.regs r
  rsp : t.cpu.regs .rsp = s.cpu.regs .rsp + 8
  stack : AgreeOff W ((s.cpu.regs .rsp).toNat + 8) (s.high h) s.cpu.mem t.cpu.mem

/-- **Away and back.** -/
theorem Sound.goesOn {s₁ s₂ : Stacks F V} {l : List (StackOp F V)} {k j : Handle}
    {frame frame' : Frame} {control control' : Control F V} (hs : Sound s)
    (hout : Step code word here s (.lib (.switch h k frame control)) s₁) (hh : h.idx ≠ 0)
    (hrun : Steps (Step code word here) s₁ l s₂) (haway : ∀ op ∈ l, StaysAway h op)
    (hin : Step code word here s₂ (.lib (.switch j h frame' control')) t) :
    control' = .resumed frame ∧
      (Untouched s.cpu (written l) → GoesOn h (written l) s t) := by
  have hs₁ := hs.step hout
  obtain ⟨hparked, hne, v, hv, hinit, hframe⟩ := hs.left hout hh
  obtain ⟨hpos, hlen⟩ := slot_bounds hv
  have hstill := hs₁.undisturbed_run hrun haway hne hpos hlen
  obtain ⟨w, hw, hlater⟩ := hstill.task v hv
  have hhigh : s₂.high h = s.high h := by
    rw [hstill.high]
    cases hout with
    | switch pool task args stack asm pc blocks => exact blocks.high h
  refine ⟨hin.resumed hw (hlater.not_init hinit) (hlater.1.trans hframe), fun hsafe => ?_⟩
  have hthere := hparked.undisturbed hstill hsafe (hs₁.layout.high h hlen)
  rw [Set.empty_union] at hthere
  obtain ⟨hpc, hsaved, hrsp, hstack⟩ :=
    (hs₁.steps hrun).back hin hthere hstill.away hw (hlater.not_init hinit)
  rw [hhigh] at hstack
  exact ⟨hpc, hsaved, hrsp, hstack⟩

/-- How the task of slot `h` enters `fn(data)` in `t`. -/
structure Enters (code : F → Word) (word : V → Word) (here : Nat → Word) (h : Handle) (fn : F)
    (data : V) (t : Stacks F V) : Prop where
  pc : t.pc = code fn
  rdi : t.cpu.regs .rdi = word data
  top : (t.cpu.regs .rsp).toNat + 8 = t.high h
  aligned : ((t.cpu.regs .rsp).toNat + 8) % 16 = 0
  word : readWord t.cpu.mem (t.cpu.regs .rsp) = here trapAt

/-- **Created, and switched to for the first time.** -/
theorem Sound.enters {s₁ s₂ : Stacks F V} {l : List (StackOp F V)} {j : Handle} {fn : F}
    {data : V} {frame : Frame} {control : Control F V} (hs : Sound s)
    (halloc : Step code word here s (.lib (.alloc fn data h)) s₁)
    (hrun : Steps (Step code word here) s₁ l s₂) (haway : ∀ op ∈ l, StaysAway h op)
    (hin : Step code word here s₂ (.lib (.switch j h frame control)) t) :
    control = .entered fn data ∧ Enters code word here h fn data t := by
  have hs₁ := hs.step halloc
  obtain ⟨v, hv, hvinit, rfl, rfl, hne⟩ : ∃ v, s₁.pool.slot h = some v ∧ v.state = .init ∧
      v.fn = fn ∧ v.data = data ∧ h ≠ s₁.running := by
    cases halloc with
    | alloc pool bases osLow osHigh layout keeps stackPtr =>
      obtain ⟨⟨v, took⟩, hunused, hrunning⟩ := pool.alloc_inv
      have hrunning : s₁.running = s.running := hrunning
      refine ⟨v, ?_, took.state, took.fn, took.data, by rwa [hrunning]⟩
      rw [took.slot, Function.update_self]
  obtain ⟨hpos, hlen⟩ := slot_bounds hv
  have hstill := hs₁.undisturbed_run hrun haway hne hpos hlen
  obtain ⟨w, hw, -, hlater⟩ := hstill.task v hv
  -- a task that has finished is not switched to
  have hlive : w.state = .init ∨ w.state = .running := by
    cases hin with
    | switch pool task args stack asm pc blocks =>
      obtain ⟨⟨u, top, hsw⟩, -, -⟩ := pool.switch_inv
      have hu : s₂.pool.slot h = some u := hsw.task
      rw [hw] at hu
      cases hu
      exact hsw.state
  obtain ⟨hst, hfn, hdata⟩ : w.state = v.state ∧ w.fn = v.fn ∧ w.data = v.data := by
    refine hlater.resolve_right fun hdone => ?_
    rcases hdone with hdone | hdone <;> rw [hdone] at hlive <;> simp at hlive
  obtain ⟨hcontrol, hpc, hrdi, hrsp, halign, hword⟩ :=
    (hs₁.steps hrun).start hin hw (hst.trans hvinit)
  rw [hfn, hdata] at hcontrol
  rw [hfn] at hpc
  rw [hdata] at hrdi
  exact ⟨hcontrol, hpc, hrdi, hrsp, halign, hword⟩

/-- **Every switch enters a new task or goes on with one that has left**, in every run. -/
theorem Booted.switched {s₀ : Stacks F V} {l : List (StackOp F V)} {j : Handle} {frame : Frame}
    {control : Control F V} (h₀ : Booted s₀) (hrun : Steps (Step code word here) s₀ l s)
    (hin : Step code word here s (.lib (.switch j h frame control)) t) :
    (∃ fn data, LastOf h l (.alloc fn data h) ∧ control = .entered fn data ∧
      Enters code word here h fn data t) ∨
    ∃ l₁ k frame' control' l₂ a, l = l₁ ++ .lib (.switch h k frame' control') :: l₂ ∧
      (∀ op ∈ l₂, StaysAway h op) ∧ Steps (Step code word here) s₀ l₁ a ∧
      control = .resumed frame' ∧
      (Untouched a.cpu (written l₂) → GoesOn h (written l₂) a t) := by
  obtain ⟨hs, htracked⟩ := h₀.run hrun
  obtain ⟨u, hu, hstate, hleaves⟩ : ∃ u, s.pool.slot h = some u ∧
      (u.state = .init ∨ u.state = .running) ∧
      (h ≠ s.running ∨ LeavesNothing s.pool s.running) := by
    cases hin with
    | switch pool task args stack asm pc blocks =>
      obtain ⟨⟨u, top, hsw⟩, -, hleaves⟩ := pool.switch_inv
      refine ⟨u, hsw.task, hsw.state, hleaves.imp (fun heq => ?_) And.right⟩
      rw [← show j = s.running from heq]
      exact Ne.symm hsw.ne
  rcases hstate with hinit | hstate
  · obtain ⟨l₁, l₂, rfl, haway⟩ := htracked.fresh hu hinit
    obtain ⟨a, hreach, hrest⟩ := Steps.append_iff.mp hrun
    obtain ⟨b, halloc, hrest⟩ := Steps.cons_iff.mp hrest
    obtain ⟨hcontrol, henters⟩ := (h₀.sound.steps hreach).enters halloc hrest haway hin
    exact .inl ⟨u.fn, u.data, ⟨l₁, l₂, rfl, haway⟩, hcontrol, henters⟩
  · have hne : h ≠ s.running := by
      -- a task that has finished leaves nothing, and is not switched to
      rintro rfl
      have hrunning := stateOf_eq hu
      rw [hstate] at hrunning
      rcases hleaves with hne | h0 | hdone | hdone
      · exact hne rfl
      · have hpos := (slot_bounds hu).1
        omega
      · rw [hrunning] at hdone
        cases hdone
      · rw [hrunning] at hdone
        cases hdone
    obtain ⟨k, frame', control', l₁, l₂, rfl, haway⟩ := htracked.parked hu hstate hne
    obtain ⟨a, hreach, hrest⟩ := Steps.append_iff.mp hrun
    obtain ⟨b, hout, hrest⟩ := Steps.cons_iff.mp hrest
    have hpos : h.idx ≠ 0 := by
      have hbounds := slot_bounds hu
      omega
    exact .inr ⟨l₁, k, frame', control', l₂, a, rfl, haway, hreach,
      (h₀.sound.steps hreach).goesOn hout hpos hrest haway hin⟩

/-! ## 2. The machine takes these steps -/

/-- The switch of the pool is one of the machine: the running code passes the arguments, and the
assembly does not trap. -/
theorem Sound.exists_switch (hs : Sound s) {frame : Frame} {control : Control F V}
    {q : TaskPool F V} {r : Handle} (hroom : s.low s.running + 64 ≤ s.high s.running)
    (hst : PoolStep (s.pool, s.running) (.switch src dst frame control) (q, r)) : ∃ s' t,
    Step code word here s (.run ∅) s' ∧
      Step code word here s' (.lib (.switch src dst frame control)) t ∧ t.pool = q ∧
      t.running = r ∧ SameBlocks s t := by
  obtain ⟨⟨u, top, hsw⟩, hrun, hleaves⟩ := hst.switch_inv
  have hwrap := hs.layout.high s.running hs.present
  let regs : Reg → Word := fun
    | .rdi => if src.idx = 0 then 0 else BitVec.ofNat 64 (s.ptrAt src)
    | .rsi => s.stackPtr dst
    | .rdx => if u.state = .init then 1 else 0
    | .rcx => code u.fn
    | .r8 => word u.data
    | .rsp => BitVec.ofNat 64 (s.low s.running + 48)
    | _ => 0
  let s' : Stacks F V := { s with cpu := { regs := regs, zero := false, mem := s.cpu.mem } }
  obtain ⟨c, e, pc, hexec, hpc, -⟩ := exec_total here s'.cpu
  have hrsp : (s'.cpu.regs .rsp).toNat = s.low s.running + 48 := by
    change (BitVec.ofNat 64 (s.low s.running + 48)).toNat = _
    rw [BitVec.toNat_ofNat, Nat.mod_eq_of_lt (by omega)]
  have hstack : OnStack s' := ⟨Nat.le_of_eq hrsp.symm, by rw [hrsp]; exact (by omega :
    s.low s.running + 48 + 8 ≤ s.high s.running)⟩
  let t : Stacks F V := { s' with pool := q, running := r, cpu := c, pc := pc }
  refine ⟨s', t, .run rfl rfl ⟨rfl, rfl, rfl, rfl⟩ ⟨fun _ _ _ => (AgreeOn.refl _ _ _).off _,
      fun _ _ _ _ => rfl⟩,
    .switch (t := t) hst hsw.task ⟨rfl, rfl, rfl, rfl, rfl⟩ hstack hexec hpc ⟨rfl, rfl, rfl, rfl⟩,
    rfl, rfl, ⟨rfl, rfl, rfl, rfl⟩⟩

/-- `start_new_task` only stores the stack pointer, if the array of the tasks stays where it is. -/
theorem Sound.exists_alloc (hs : Sound s) {fn : F} {data : V}
    (hst : PoolStep (s.pool, s.running) (.alloc fn data h) (t.pool, t.running))
    (hbases : ∃ b, t.bases = s.bases ++ b) (htasks : t.tasks = s.tasks)
    (hosLow : t.osLow = s.osLow) (hosHigh : t.osHigh = s.osHigh) (hlayout : Layout t) : ∃ m,
    Step code word here s (.lib (.alloc fn data h)) { t with cpu := s.cpu.setMem m } := by
  obtain ⟨⟨v, took⟩, -, -⟩ := hst.alloc_inv
  have hslot : t.pool.slot h = some v := by rw [took.slot, Function.update_self]
  obtain ⟨hpos, hlen⟩ := slot_bounds hslot
  have hmono : s.pool.len ≤ t.pool.len := took.len
  have hbounds := hlayout.ptrAt_bounds hpos hlen
  have haddr := hlayout.ptrAt_toNat hpos hlen
  have harray := hlayout.array
  obtain ⟨b, hb⟩ := hbases
  refine ⟨writeWord s.cpu.mem (BitVec.ofNat 64 (t.ptrAt h)) (BitVec.ofNat 64 (t.high h)),
    .alloc hst ⟨b, hb⟩ hosLow hosHigh (hlayout.same ⟨rfl, rfl, rfl, rfl⟩ rfl rfl)
      ⟨fun i _ hi => ?_, fun i hipos hi hne => ?_⟩ (readWord_writeWord _ _ _)⟩
  · have hapart := hlayout.apart i (hi.trans hmono)
    have hbases : i.idx ≤ s.bases.length := by rwa [hs.layout.bases]
    rw [low_eq_of_append hb hosLow hbases, high_eq_of_append hb hosHigh hbases] at hapart
    exact (agreeOn_writeWord (by omega) (by omega)).off _
  · have hne : i ≠ h := fun heq => hne (by rw [heq])
    have hdisj := Layout.ptrAt_ne t hipos hpos hne
    have hibounds := hlayout.ptrAt_bounds hipos (hi.trans hmono)
    have hiaddr := hlayout.ptrAt_toNat hipos (hi.trans hmono)
    have hptr : s.ptrAt i = t.ptrAt i := by
      unfold Stacks.ptrAt
      rw [htasks]
    unfold Stacks.stackPtr
    rw [hptr]
    change readWord (writeWord s.cpu.mem (BitVec.ofNat 64 (t.ptrAt h)) _)
      (BitVec.ofNat 64 (t.ptrAt i)) = _
    exact readWord_writeWord_of_disjoint (by omega) (by omega) (by omega)

/-- The tasks at 4096, the stack of the process behind them, and the other stacks 32 KiB apart. -/
structure Placed (s : Stacks F V) (p : TaskPool F V) (running : Handle) : Prop where
  pool : s.pool = p
  running : s.running = running
  tasks : s.tasks = 4096
  bases : s.bases = (List.range p.len).map fun i => 32768 * (i + 1)
  osLow : s.osLow = 8192
  osHigh : s.osHigh = 16384

namespace Placed

variable {s t : Stacks F V} {p q : TaskPool F V} {h i j src dst : Handle}

theorem low_high (hs : Placed s p i) (hh : h.idx ≤ p.len) :
    h.idx = 0 ∧ s.low h = 8192 ∧ s.high h = 16384 ∨
      0 < h.idx ∧ s.low h = 32768 * h.idx ∧ s.high h = 32768 * h.idx + 16384 := by
  unfold Stacks.low Stacks.high stackSize
  rw [hs.bases, hs.osLow, hs.osHigh]
  by_cases h0 : h.idx = 0
  · rw [if_pos h0, if_pos h0]
    exact .inl ⟨h0, rfl, rfl⟩
  · have hget : ((List.range p.len).map fun i => 32768 * (i + 1)).getD (h.idx - 1) 0 =
        32768 * h.idx := by
      rw [List.getD_eq_getElem _ _ (by simp; omega)]
      simp
      omega
    rw [if_neg h0, if_neg h0, hget]
    exact .inr ⟨by omega, rfl, rfl⟩

theorem layout (hs : Placed s p i) (hlen : p.len ≤ p.cap) (hcap : p.cap ≤ 10) : Layout s := by
  obtain rfl := hs.pool
  refine ⟨?_, hlen, ?_, ?_, fun h hh => ?_, fun b hb => ?_, fun h i hne hh hi => ?_,
    fun h hh => ?_⟩
  · rw [hs.bases]
    simp
  · rw [hs.tasks]
    decide
  · rw [hs.tasks]
    unfold sizeofTask
    omega
  · have hbounds := hs.low_high hh
    omega
  · rw [hs.bases] at hb
    obtain ⟨k, -, rfl⟩ := List.mem_map.mp hb
    omega
  · have hidx : h.idx ≠ i.idx := fun heq => hne (Handle.eq_of_idx heq)
    have hfirst := hs.low_high hh
    have hsecond := hs.low_high hi
    omega
  · have hbounds := hs.low_high hh
    rw [hs.tasks]
    unfold sizeofTask
    omega

/-- `async_call`, with `realloc` and `mmap` as above. -/
theorem alloc (hsound : Sound s) (hs : Placed s p i) {fn : F} {data : V}
    (hst : PoolStep (p, i) (.alloc fn data h) (q, j)) (hlen : q.len ≤ q.cap) (hcap : q.cap ≤ 10) :
    ∃ t, Step code word here s (.lib (.alloc fn data h)) t ∧ Placed t q j := by
  obtain rfl := hs.pool
  obtain rfl := hs.running
  have hmono : s.pool.len ≤ q.len := by
    obtain ⟨⟨v, took⟩, -, -⟩ := hst.alloc_inv
    exact took.len
  let t : Stacks F V := { s with
    pool := q, running := j, bases := (List.range q.len).map fun i => 32768 * (i + 1) }
  have ht : Placed t q j := ⟨rfl, rfl, hs.tasks, rfl, hs.osLow, hs.osHigh⟩
  have hbases : t.bases = s.bases ++ t.bases.drop s.pool.len := by
    have htake : s.bases = t.bases.take s.pool.len := by
      rw [hs.bases, ht.bases, ← List.map_take, List.take_range, Nat.min_eq_left hmono]
    exact ((congrArg (· ++ _) htake).trans (List.take_append_drop _ _)).symm
  obtain ⟨m, hm⟩ : ∃ m, Step code word here s (.lib (.alloc fn data h))
      { t with cpu := s.cpu.setMem m } :=
    hsound.exists_alloc hst ⟨_, hbases⟩ rfl rfl rfl (ht.layout hlen hcap)
  exact ⟨_, hm, rfl, rfl, hs.tasks, rfl, hs.osLow, hs.osHigh⟩

/-- `async_switch`. -/
theorem switch (hsound : Sound s) (hs : Placed s p i) {frame : Frame} {control : Control F V}
    (hst : PoolStep (p, i) (.switch src dst frame control) (q, j)) : ∃ s' t,
    Step code word here s (.run ∅) s' ∧
      Step code word here s' (.lib (.switch src dst frame control)) t ∧ Placed t q j := by
  obtain rfl := hs.pool
  obtain rfl := hs.running
  have hbounds := hs.low_high hsound.present
  have hlen : q.len = s.pool.len := by
    obtain ⟨⟨u, top, hsw⟩, -, -⟩ := hst.switch_inv
    exact hsw.len
  obtain ⟨s', t, hrun, hsw, hpool, hrunning, hb⟩ := hsound.exists_switch (by omega) hst
  refine ⟨s', t, hrun, hsw, hpool, hrunning, hb.tasks.trans hs.tasks, ?_,
    hb.osLow.trans hs.osLow, hb.osHigh.trans hs.osHigh⟩
  rw [hb.bases, hs.bases, hlen]

end Placed

end Stacks

/-! ## 3. Whole runs -/

open Stacks

variable {code : F → Word} {word : V → Word} {here : Nat → Word}

def mainTask (state : State) (frame : Frame) : Task Nat Nat :=
  { stackBase := some 0, stackPtr := some frame, fn := 0, data := 0, state := state,
    orphaned := false, handle := ⟨1⟩ }

def calledTask (state : State) (frame : Frame) : Task Nat Nat :=
  { stackBase := some 1, stackPtr := some frame, fn := 1, data := 7, state := state,
    orphaned := false, handle := ⟨2⟩ }

def poolOf (tasks : List (Task Nat Nat)) : TaskPool Nat Nat :=
  { tasks := tasks, cap := 10, freeTask := ⟨0⟩ }

/-- The steps of `run_async_main`, and the code before its `async_switch`. -/
def mainOps : List (StackOp Nat Nat) :=
  [.lib (.alloc 0 0 ⟨1⟩), .run ∅, .lib (.switch ⟨0⟩ ⟨1⟩ .entry (.entered 0 0))]

/-- `main` starts, and calls a function. -/
theorem exists_called (code : Nat → Word) (word : Nat → Word) (here : Nat → Word) : ∃ s₀ s s₁,
    Booted s₀ ∧ Steps (Step code word here) s₀ mainOps s ∧
      Placed s (poolOf [mainTask .running .entry]) ⟨1⟩ ∧
      Step code word here s (.lib (.alloc 1 7 ⟨2⟩)) s₁ ∧
      Placed s₁ (poolOf [mainTask .running .entry, calledTask .init .entry]) ⟨1⟩ := by
  let s₀ : Stacks Nat Nat :=
    { pool := { tasks := [], cap := 0, freeTask := ⟨0⟩ }, running := ⟨0⟩,
      cpu := { regs := fun _ => 0, zero := false, mem := fun _ => 0 }, pc := 0, tasks := 4096,
      bases := [], osLow := 8192, osHigh := 16384 }
  have h₀ : Placed s₀ s₀.pool ⟨0⟩ := ⟨rfl, rfl, rfl, rfl, rfl, rfl⟩
  have hboot : Booted s₀ := ⟨rfl, rfl, h₀.layout (Nat.le_refl _) (by decide)⟩
  have hmain : PoolStep (s₀.pool, ⟨0⟩) (.alloc 0 0 ⟨1⟩) (poolOf [mainTask .init .entry], ⟨0⟩) :=
    .alloc rfl (by decide)
  obtain ⟨a, hsa, ha⟩ := h₀.alloc hboot.sound hmain (by decide) (by decide)
  have hsounda := hboot.sound.step hsa
  have hstart : PoolStep (poolOf [mainTask .init .entry], ⟨0⟩)
      (.switch ⟨0⟩ ⟨1⟩ .entry (.entered 0 0)) (poolOf [mainTask .running .entry], ⟨1⟩) :=
    .switch (t := ⟨_, (), _⟩) rfl (.inl rfl)
  obtain ⟨b, c, hab, hbc, hc⟩ := ha.switch hsounda hstart
  have hsoundc := (hsounda.step hab).step hbc
  have hcall : PoolStep (poolOf [mainTask .running .entry], ⟨1⟩) (.alloc 1 7 ⟨2⟩)
      (poolOf [mainTask .running .entry, calledTask .init .entry], ⟨1⟩) := .alloc rfl (by decide)
  obtain ⟨d, hcd, hd⟩ := hc.alloc hsoundc hcall (by decide) (by decide)
  exact ⟨s₀, c, d, hboot, .cons hsa (.cons hab (.single hbc)), hc, hcd, hd⟩

/-- `main` skips, and the task that it has called starts. -/
theorem poolStep_skip : PoolStep (poolOf [mainTask .running .entry, calledTask .init .entry], ⟨1⟩)
    (.switch ⟨1⟩ ⟨2⟩ .asyncSkip (.entered 1 7))
    (poolOf [mainTask .running .asyncSkip, calledTask .running .entry], ⟨2⟩) :=
  .switch (t := ⟨_, (), _⟩) rfl (.inl rfl)

/-- It skips, and `main` goes on. -/
theorem poolStep_skip_back :
    PoolStep (poolOf [mainTask .running .asyncSkip, calledTask .running .entry], ⟨2⟩)
      (.switch ⟨2⟩ ⟨1⟩ .asyncSkip (.resumed .asyncSkip))
      (poolOf [mainTask .running .asyncSkip, calledTask .running .asyncSkip], ⟨1⟩) :=
  .switch (t := ⟨_, (), _⟩) rfl (.inl rfl)

/-- **A task goes on where it was.**  The task of slot `h` leaves the processor inside `frame`, with
the registers and the memory of `s`; then anything runs, as long as the slot is not used again,
nothing switches to it, and nobody writes to the 56 bytes where the switch keeps its registers; then
a switch goes back.  It goes on inside `frame`, behind its call of `async_switch_asm`, with the
registers that a call preserves, and each byte of its stack is as it was if no code that has run in
between has written it. -/
theorem context_restored {s₀ s s₁ s₂ t : Stacks F V} {l₀ l : List (StackOp F V)}
    {h k j : Handle} {frame frame' : Frame} {control control' : Control F V} (h₀ : Booted s₀)
    (hreach : Steps (Step code word here) s₀ l₀ s)
    (hout : Step code word here s (.lib (.switch h k frame control)) s₁) (hh : h.idx ≠ 0)
    (hrun : Steps (Step code word here) s₁ l s₂) (haway : ∀ op ∈ l, StaysAway h op)
    (hsafe : Untouched s.cpu (written l))
    (hin : Step code word here s₂ (.lib (.switch j h frame' control')) t) :
    control' = .resumed frame ∧ t.pc = readWord s.cpu.mem (s.cpu.regs .rsp) ∧
      (∀ r ∈ savedRegs, t.cpu.regs r = s.cpu.regs r) ∧ t.cpu.regs .rsp = s.cpu.regs .rsp + 8 ∧
      AgreeOff (written l) ((s.cpu.regs .rsp).toNat + 8) (s.high h) s.cpu.mem t.cpu.mem := by
  obtain ⟨hcontrol, hback⟩ :=
    (h₀.sound.steps hreach).goesOn hout hh hrun haway hin
  have hback := hback hsafe
  exact ⟨hcontrol, hback.pc, hback.saved, hback.rsp, hback.stack⟩

/-- `main` skips, and so does the task that it has called. -/
theorem context_restored_skip : ∃ (s₀ s s₁ s₂ t : Stacks Nat Nat)
    (l₀ l : List (StackOp Nat Nat)) (control control' : Control Nat Nat),
    Booted s₀ ∧
    Steps (Step (BitVec.ofNat 64) (BitVec.ofNat 64) (BitVec.ofNat 64)) s₀ l₀ s ∧
    Step (BitVec.ofNat 64) (BitVec.ofNat 64) (BitVec.ofNat 64) s
      (.lib (.switch ⟨1⟩ ⟨2⟩ .asyncSkip control)) s₁ ∧
    Steps (Step (BitVec.ofNat 64) (BitVec.ofNat 64) (BitVec.ofNat 64)) s₁ l s₂ ∧
    Step (BitVec.ofNat 64) (BitVec.ofNat 64) (BitVec.ofNat 64) s₂
      (.lib (.switch ⟨2⟩ ⟨1⟩ .asyncSkip control')) t ∧
    control' = .resumed .asyncSkip ∧ t.pc = readWord s.cpu.mem (s.cpu.regs .rsp) ∧
    (∀ r ∈ savedRegs, t.cpu.regs r = s.cpu.regs r) ∧ t.cpu.regs .rsp = s.cpu.regs .rsp + 8 ∧
    AgreeOff (written l) ((s.cpu.regs .rsp).toNat + 8) (s.high ⟨1⟩) s.cpu.mem t.cpu.mem := by
  obtain ⟨s₀, a, b, hboot, hrun, -, hcall, hb⟩ :=
    exists_called (BitVec.ofNat 64) (BitVec.ofNat 64) (BitVec.ofNat 64)
  have hsound := (hboot.sound.steps hrun).step hcall
  obtain ⟨c, d, hbc, hcd, hd⟩ := hb.switch hsound poolStep_skip
  have hsoundd := (hsound.step hbc).step hcd
  obtain ⟨e, f, hde, hef, -⟩ := hd.switch hsoundd poolStep_skip_back
  have hreach := (hrun.append (.single hcall)).append (.single hbc)
  exact ⟨s₀, c, d, e, f, _, _, _, _, hboot, hreach, hcd, .single hde, hef,
    context_restored hboot hreach hcd (by decide) (.single hde) (by simp [StaysAway])
      (by simp [Untouched, written, StackOp.wrote]) hef⟩

/-- **A new task starts on an empty stack.**  A slot is taken for `fn(data)`, and the next switch to
it, whatever has run in between and wherever it has written, enters `fn` with `data` in the register
of the first argument.  The stack holds one word, the address of the `int $3`, so a function that
returns is stopped by the trap; and the stack pointer is aligned as it has to be when a function is
entered. -/
theorem first_entry {s₀ s s₁ s₂ t : Stacks F V} {l₀ l : List (StackOp F V)}
    {h j : Handle} {fn : F} {data : V} {frame : Frame} {control : Control F V} (h₀ : Booted s₀)
    (hreach : Steps (Step code word here) s₀ l₀ s)
    (halloc : Step code word here s (.lib (.alloc fn data h)) s₁)
    (hrun : Steps (Step code word here) s₁ l s₂) (haway : ∀ op ∈ l, StaysAway h op)
    (hin : Step code word here s₂ (.lib (.switch j h frame control)) t) :
    control = .entered fn data ∧ t.pc = code fn ∧ t.cpu.regs .rdi = word data ∧
      (t.cpu.regs .rsp).toNat + 8 = t.high h ∧ ((t.cpu.regs .rsp).toNat + 8) % 16 = 0 ∧
      readWord t.cpu.mem (t.cpu.regs .rsp) = here trapAt ∧
      ∀ c, exec asyncSwitchAsm here 1 trapAt c = some (c, .trapped) := by
  obtain ⟨hcontrol, henter⟩ := (h₀.sound.steps hreach).enters halloc hrun haway hin
  exact ⟨hcontrol, henter.pc, henter.rdi, henter.top, henter.aligned, henter.word,
    fun c => exec_trap here c⟩

/-- `main` calls a function and skips. -/
theorem first_entry_call : ∃ (s₀ s s₁ s₂ t : Stacks Nat Nat)
    (l₀ l : List (StackOp Nat Nat)) (control : Control Nat Nat),
    Booted s₀ ∧
    Steps (Step (BitVec.ofNat 64) (BitVec.ofNat 64) (BitVec.ofNat 64)) s₀ l₀ s ∧
    Step (BitVec.ofNat 64) (BitVec.ofNat 64) (BitVec.ofNat 64) s (.lib (.alloc 1 7 ⟨2⟩)) s₁ ∧
    Steps (Step (BitVec.ofNat 64) (BitVec.ofNat 64) (BitVec.ofNat 64)) s₁ l s₂ ∧
    Step (BitVec.ofNat 64) (BitVec.ofNat 64) (BitVec.ofNat 64) s₂
      (.lib (.switch ⟨1⟩ ⟨2⟩ .asyncSkip control)) t ∧
    control = .entered 1 7 ∧ t.pc = 1 ∧ t.cpu.regs .rdi = 7 ∧
    (t.cpu.regs .rsp).toNat + 8 = t.high ⟨2⟩ ∧ ((t.cpu.regs .rsp).toNat + 8) % 16 = 0 ∧
    readWord t.cpu.mem (t.cpu.regs .rsp) = BitVec.ofNat 64 trapAt ∧
    ∀ c, exec asyncSwitchAsm (BitVec.ofNat 64) 1 trapAt c = some (c, .trapped) := by
  obtain ⟨s₀, a, b, hboot, hrun, -, hcall, hb⟩ :=
    exists_called (BitVec.ofNat 64) (BitVec.ofNat 64) (BitVec.ofNat 64)
  have hsound := (hboot.sound.steps hrun).step hcall
  obtain ⟨c, d, hbc, hcd, -⟩ := hb.switch hsound poolStep_skip
  exact ⟨s₀, a, b, c, d, _, _, _, hboot, hrun, hcall, .single hbc, hcd,
    first_entry hboot hrun hcall (.single hbc) (by simp [StaysAway]) hcd⟩

end CAsync
