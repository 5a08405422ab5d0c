/-
# What a run leaves alone

`Sound` is the invariant of the tasks on their stacks: the blocks do not overlap, and a task that
has not started has an empty stack.  What a step leaves alone of a task that is not running is said
once (`Undisturbed`), and by induction a whole run leaves it alone, until the task is switched to or
its slot is used again; but for the addresses that running code has written on its stack, which the
labels of the run name.

`Tracked` looks the other way: a task that can be switched to was created, or has left, in a step
of the run since which nothing has gone on with it.
-/
import CAsync.Lib.Runs
import CAsync.Stacks

namespace CAsync

open Faulting Memory Processor TaskPool

variable {F V S : Type}

/-! ## 1. The pool -/

/-- What an `async_switch` that passes does to the pool. -/
structure Switched (p q : TaskPool F V) (src dst : Handle) (frame : Frame) (u : Task F V)
    (top : Frame) (control : Control F V) : Prop where
  source : src.idx = 0 ∨ (p.slot src).isSome
  task : p.slot dst = some u
  ne : src ≠ dst
  state : u.state = .init ∨ u.state = .running
  stackPtr : u.stackPtr = some top
  slot : q.slot = Function.update
    (Function.update p.slot src ((p.slot src).map (Task.suspend frame))) dst (some u.run)
  len : q.len = p.len
  cap : q.cap = p.cap
  control : control = if u.state = .init then .entered u.fn u.data else .resumed top

theorem saveStack_cap (p : TaskPool F V) (src : Handle) (f1 : Option (Task F V)) (frame : Frame) :
    (saveStack p src f1 frame).cap = p.cap := by
  cases f1 with
  | none => rfl
  | some f1 => rfl

theorem asyncSwitch_ok {s t : Runtime S F V} {src dst : Handle} {frame : Frame}
    {control : Control F V} (hok : asyncSwitch s src dst frame = .ok (t, control)) :
    ∃ u top, Switched s.pool t.pool src dst frame u top control ∧ t.running = dst := by
  have hcopy := hok
  unfold asyncSwitch at hcopy
  obtain ⟨-, -, hcopy⟩ := bind_eq_ok.mp hcopy
  obtain ⟨_, hne, hcopy⟩ := bind_eq_ok.mp hcopy
  obtain ⟨f1, hf1, hcopy⟩ := bind_eq_ok.mp hcopy
  obtain ⟨u, hu, hcopy⟩ := bind_eq_ok.mp hcopy
  obtain ⟨_, hfree, hcopy⟩ := bind_eq_ok.mp hcopy
  obtain ⟨_, hready, hcopy⟩ := bind_eq_ok.mp hcopy
  rw [require_eq_ok] at hne hfree hready
  rw [getTask_eq_ok] at hu
  have hsource : src.idx = 0 ∨ (s.pool.slot src).isSome := by
    unfold getTaskOrNull at hf1
    split at hf1
    · exact .inl ‹_›
    · obtain ⟨v, hv, -⟩ := bind_eq_ok.mp hf1
      rw [getTask_eq_ok] at hv
      exact .inr (by rw [hv]; rfl)
  have hstate : u.state = .init ∨ u.state = .running := by
    cases hst : u.state <;> simp_all
  have hdiff : src ≠ dst := fun heq => hne (congrArg Handle.idx heq)
  split at hcopy
  · cases hcopy
  rename_i top htop
  obtain ⟨q, hq, hslot, -, hlen⟩ := asyncSwitch_eq frame hsource hu hdiff hstate htop
  rw [hok] at hq
  cases hq
  refine ⟨u, top, ⟨hsource, hu, hdiff, hstate, htop, hslot, hlen, ?_, rfl⟩, rfl⟩
  split at hcopy <;> cases hcopy <;> exact saveStack_cap _ _ _ _

/-- What `start_new_task` does to the pool. -/
structure TookSlot (p q : TaskPool F V) (fn : F) (data : V) (h : Handle) (t : Task F V) :
    Prop where
  state : t.state = .init
  fn : t.fn = fn
  data : t.data = data
  slot : q.slot = Function.update p.slot h (some t)
  len : p.len ≤ q.len

theorem allocTask_ok {p q : TaskPool F V} {fn : F} {data : V} {h : Handle}
    (hok : allocTask p fn data = .ok (q, h)) : ∃ t, TookSlot p q fn data h t := by
  unfold allocTask at hok
  split at hok
  · cases hok
    refine ⟨_, rfl, rfl, rfl, slot_push _ _, ?_⟩
    simp [len]
  · rename_i h0
    dsimp only at hok
    obtain ⟨-, -, hok⟩ := bind_eq_ok.mp hok
    obtain ⟨-, -, hok⟩ := bind_eq_ok.mp hok
    obtain ⟨u, hu, hok⟩ := bind_eq_ok.mp hok
    obtain ⟨-, -, hok⟩ := bind_eq_ok.mp hok
    obtain ⟨-, -, hok⟩ := bind_eq_ok.mp hok
    cases hok
    have hslot : p.slot p.freeTask = some u := by
      unfold slot
      rw [if_neg h0]
      exact load_eq_ok.mp hu
    exact ⟨_, rfl, rfl, rfl, slot_setTask (p := { p with freeTask := u.handle }) hslot _,
      Nat.le_of_eq setTask_len.symm⟩

namespace PoolStep

variable {x y : TaskPool F V × Handle} {h src dst : Handle} {frame : Frame}
  {control : Control F V}

theorem alloc_inv {fn : F} {data : V} (hst : PoolStep x (.alloc fn data h) y) :
    (∃ t, TookSlot x.1 y.1 fn data h t) ∧ h ≠ x.2 ∧ y.2 = x.2 := by
  cases hst with
  | alloc ok unused => exact ⟨allocTask_ok ok, unused, rfl⟩

theorem write_inv (hst : PoolStep x (.write h) y) : ∃ t u, x.1.slot h = some u ∧
    t.stackPtr = u.stackPtr ∧ (t.state = u.state ∧ t.fn = u.fn ∧ t.data = u.data ∨
      t.state = .ready ∨ t.state = .free) ∧ y.1.slot = Function.update x.1.slot h (some t) ∧
    y.1.len = x.1.len ∧ y.1.cap = x.1.cap ∧ y.2 = x.2 := by
  cases hst with
  | write task stackPtr state slot len cap =>
    exact ⟨_, _, task, stackPtr, state, slot, len, cap, rfl⟩

theorem switch_inv (hst : PoolStep x (.switch src dst frame control) y) :
    (∃ u top, Switched x.1 y.1 src dst frame u top control) ∧ y.2 = dst ∧
      (src = x.2 ∨ src.idx = 0 ∧ LeavesNothing x.1 x.2) := by
  cases hst with
  | switch ok leaves =>
    obtain ⟨u, top, hsw, hrun⟩ := asyncSwitch_ok ok
    exact ⟨⟨u, top, hsw⟩, hrun, leaves⟩

end PoolStep

/-- What may have become of a task that is not running. -/
def Task.Later (u v : Task F V) : Prop :=
  v.stackPtr = u.stackPtr ∧
    (v.state = u.state ∧ v.fn = u.fn ∧ v.data = u.data ∨ v.state = .ready ∨ v.state = .free)

theorem Task.Later.refl (u : Task F V) : u.Later u := ⟨rfl, .inl ⟨rfl, rfl, rfl⟩⟩

theorem Task.Later.trans {u v w : Task F V} (h : u.Later v) (h' : v.Later w) : u.Later w := by
  obtain ⟨hptr, hst⟩ := h
  obtain ⟨hptr', hst'⟩ := h'
  refine ⟨hptr'.trans hptr, ?_⟩
  rcases hst' with ⟨h1, h2, h3⟩ | hst'
  · rw [h1, h2, h3]
    exact hst
  · exact .inr hst'

theorem Task.Later.not_init {u v : Task F V} (h : u.Later v) (hu : u.state ≠ .init) :
    v.state ≠ .init := by
  rcases h.2 with ⟨hst, -⟩ | hst | hst
  · rwa [hst]
  · rw [hst]
    decide
  · rw [hst]
    decide

namespace Stacks

variable {s t u : Stacks F V} {h i src dst : Handle} {code : F → Word} {word : V → Word}
  {here : Nat → Word}

/-! ## 2. Addresses -/

theorem SameBlocks.low (hb : SameBlocks s t) (h : Handle) : t.low h = s.low h := by
  unfold Stacks.low
  rw [hb.osLow, hb.bases]

theorem SameBlocks.high (hb : SameBlocks s t) (h : Handle) : t.high h = s.high h := by
  unfold Stacks.high
  rw [hb.osHigh, hb.bases]

theorem SameBlocks.ptrAt (hb : SameBlocks s t) (h : Handle) : t.ptrAt h = s.ptrAt h := by
  unfold Stacks.ptrAt
  rw [hb.tasks]

theorem low_eq_of_append {b : List Nat} (hb : t.bases = s.bases ++ b) (hos : t.osLow = s.osLow)
    (hh : h.idx ≤ s.bases.length) : t.low h = s.low h := by
  unfold Stacks.low
  rw [hb, hos]
  split
  · rfl
  · rw [List.getD_append _ _ _ _ (by omega)]

theorem high_eq_of_append {b : List Nat} (hb : t.bases = s.bases ++ b) (hos : t.osHigh = s.osHigh)
    (hh : h.idx ≤ s.bases.length) : t.high h = s.high h := by
  unfold Stacks.high
  rw [hb, hos]
  split
  · rfl
  · rw [List.getD_append _ _ _ _ (by omega)]

namespace Layout

theorem same (hs : Layout s) (hb : SameBlocks s t) (hlen : t.pool.len = s.pool.len)
    (hcap : t.pool.cap = s.pool.cap) : Layout t := by
  refine ⟨?_, ?_, ?_, ?_, fun h hh => ?_, ?_, fun h i hne hh hi => ?_, fun h hh => ?_⟩
  · rw [hb.bases, hlen, hs.bases]
  · rw [hlen, hcap]
    exact hs.cap
  · rw [hb.tasks]
    exact hs.null
  · rw [hb.tasks, hcap]
    exact hs.array
  · rw [hb.high]
    exact hs.high h (by rwa [← hlen])
  · rw [hb.bases]
    exact hs.aligned
  · rw [hb.high, hb.high, hb.low, hb.low]
    exact hs.disjoint h i hne (by rwa [← hlen]) (by rwa [← hlen])
  · rw [hb.high, hb.low, hb.tasks, hcap]
    exact hs.apart h (by rwa [← hlen])

/-- The field is in the array. -/
theorem ptrAt_bounds (hs : Layout s) (hpos : 0 < h.idx) (hh : h.idx ≤ s.pool.len) :
    s.tasks < s.ptrAt h ∧ s.ptrAt h + 8 ≤ s.tasks + sizeofTask * s.pool.cap := by
  have hcap := hs.cap
  unfold Stacks.ptrAt sizeofTask stackPtrOffset
  omega

theorem ptrAt_toNat (hs : Layout s) (hpos : 0 < h.idx) (hh : h.idx ≤ s.pool.len) :
    (BitVec.ofNat 64 (s.ptrAt h)).toNat = s.ptrAt h := by
  have hbounds := hs.ptrAt_bounds hpos hh
  have harray := hs.array
  rw [BitVec.toNat_ofNat, Nat.mod_eq_of_lt (by omega)]

/-- Two fields do not overlap. -/
theorem ptrAt_ne (s : Stacks F V) (hh : 0 < h.idx) (hi : 0 < i.idx) (hne : h ≠ i) :
    s.ptrAt h + 8 ≤ s.ptrAt i ∨ s.ptrAt i + 8 ≤ s.ptrAt h := by
  have hidx : h.idx ≠ i.idx := fun heq => hne (Handle.eq_of_idx heq)
  unfold Stacks.ptrAt sizeofTask stackPtrOffset
  omega

end Layout

/-! ## 3. The invariant -/

/-- The blocks are apart, a task that has not started has an empty stack, and the running task has
started. -/
structure Sound (s : Stacks F V) : Prop where
  layout : Layout s
  fresh : ∀ {h u}, s.pool.slot h = some u → u.state = .init →
    s.stackPtr h = BitVec.ofNat 64 (s.high h)
  awake : ∀ {u}, s.pool.slot s.running = some u → u.state ≠ .init
  present : s.running.idx ≤ s.pool.len

theorem Booted.sound (hs : Booted s) : Sound s := by
  have hnone : ∀ h, s.pool.slot h = none := by
    intro h
    unfold TaskPool.slot
    rw [hs.tasks]
    split <;> simp
  refine ⟨hs.layout, fun {h u} hu => ?_, fun {u} hu => ?_, ?_⟩
  · rw [hnone] at hu
    cases hu
  · rw [hnone] at hu
    cases hu
  · rw [hs.running]
    exact Nat.zero_le _

/-- What the pushes and the store of the stack pointer leave alone. -/
theorem Sound.park_agreeOn (hs : Sound s) {u : Task F V} (args : Args code word s src dst u)
    (stack : OnStack s) (hsrc : src.idx ≤ s.pool.len) {lo hi : Nat}
    (hstack : hi + 48 ≤ (s.cpu.regs .rsp).toNat ∨ (s.cpu.regs .rsp).toNat ≤ lo)
    (hptr : 0 < src.idx → hi ≤ s.ptrAt src ∨ s.ptrAt src + 8 ≤ lo) :
    AgreeOn lo hi s.cpu.mem (park s.cpu).mem := by
  have hroom := stack.room
  refine CAsync.park_agreeOn (by omega) hstack ?_
  rw [args.rdi]
  by_cases h0 : src.idx = 0
  · exact .inl (if_pos h0)
  · rw [if_neg h0, hs.layout.ptrAt_toNat (by omega) hsrc]
    have hbounds := hs.layout.ptrAt_bounds (h := src) (by omega) hsrc
    have harray := hs.layout.array
    exact .inr ⟨by omega, hptr (by omega)⟩

/-- The first word of a stack that is empty. -/
theorem Sound.top (hs : Sound s) {u : Task F V} (task : s.pool.slot dst = some u)
    (args : Args code word s src dst u) (hinit : u.state = .init) :
    (s.cpu.regs .rsi - 8).toNat = s.high dst - 8 ∧ s.low dst + 8 ≤ s.high dst := by
  obtain ⟨hdst, hdstlen⟩ := slot_bounds task
  have htop := hs.layout.high dst hdstlen
  have hlow : s.low dst + 8 ≤ s.high dst := by
    unfold Stacks.low Stacks.high stackSize
    rw [if_neg (by omega), if_neg (by omega)]
    omega
  refine ⟨?_, hlow⟩
  rw [args.rsi, hs.fresh task hinit]
  bv_omega

/-- The switch writes to the stack that it leaves, to the field of the task that it leaves, and to
the stack of a task that starts. -/
theorem Sound.switch_agreeOn (hs : Sound s) {u : Task F V} {e : Exit}
    (task : s.pool.slot dst = some u) (args : Args code word s src dst u) (stack : OnStack s)
    (hsrc : src.idx ≤ s.pool.len) (asm : exec asyncSwitchAsm here 22 0 s.cpu = some (t.cpu, e))
    {lo hi : Nat}
    (hstack : hi + 48 ≤ (s.cpu.regs .rsp).toNat ∨ (s.cpu.regs .rsp).toNat ≤ lo)
    (hptr : 0 < src.idx → hi ≤ s.ptrAt src ∨ s.ptrAt src + 8 ≤ lo)
    (hnew : hi + 8 ≤ s.high dst ∨ s.high dst ≤ lo) : AgreeOn lo hi s.cpu.mem t.cpu.mem := by
  have hpark := hs.park_agreeOn args stack hsrc hstack hptr
  obtain ⟨c', e', pc, hexec, -, hmem⟩ := exec_total here s.cpu
  rw [asm] at hexec
  cases hexec
  rw [hmem]
  by_cases hinit : u.state = .init
  · have hrdx : s.cpu.regs .rdx ≠ 0 := by
      rw [args.rdx, if_pos hinit]
      decide
    have htop := hs.layout.high dst (slot_bounds task).2
    obtain ⟨haddr, hlow⟩ := hs.top task args hinit
    rw [if_neg hrdx]
    exact hpark.trans (agreeOn_writeWord (by omega) (by omega))
  · have hrdx : s.cpu.regs .rdx = 0 := by rw [args.rdx, if_neg hinit]
    rw [if_pos hrdx]
    exact hpark

/-- The stack of a task that is not running, and is not switched to. -/
theorem Sound.switch_stack (hs : Sound s) {u : Task F V} {e : Exit}
    (task : s.pool.slot dst = some u) (args : Args code word s src dst u) (stack : OnStack s)
    (hsrc : src.idx ≤ s.pool.len) (asm : exec asyncSwitchAsm here 22 0 s.cpu = some (t.cpu, e))
    (hrun : h ≠ s.running) (hdst : h ≠ dst) (hh : h.idx ≤ s.pool.len) :
    AgreeOn (s.low h) (s.high h) s.cpu.mem t.cpu.mem := by
  have hroom := stack.room
  have hinside := stack.inside
  have hapart := hs.layout.apart h hh
  obtain ⟨hpos, hlen⟩ := slot_bounds task
  have hdisjoint := hs.layout.disjoint h s.running hrun hh hs.present
  have hother := hs.layout.disjoint h dst hdst hh hlen
  have hlow : s.low dst + 8 ≤ s.high dst := by
    unfold Stacks.low Stacks.high stackSize
    rw [if_neg (by omega), if_neg (by omega)]
    omega
  refine hs.switch_agreeOn task args stack hsrc asm (by omega) (fun h0 => ?_) (by omega)
  have hbounds := hs.layout.ptrAt_bounds h0 hsrc
  omega

/-- The field of a task that is not left. -/
theorem Sound.switch_ptr (hs : Sound s) {u : Task F V} {e : Exit}
    (task : s.pool.slot dst = some u) (args : Args code word s src dst u) (stack : OnStack s)
    (hsrc : src.idx ≤ s.pool.len) (asm : exec asyncSwitchAsm here 22 0 s.cpu = some (t.cpu, e))
    (hb : SameBlocks s t) (hne : h ≠ src) (hpos : 0 < h.idx) (hh : h.idx ≤ s.pool.len) :
    t.stackPtr h = s.stackPtr h := by
  have hroom := stack.room
  have hinside := stack.inside
  have harray := hs.layout.array
  obtain ⟨hdst, hdstlen⟩ := slot_bounds task
  have hbounds := hs.layout.ptrAt_bounds hpos hh
  have haddr := hs.layout.ptrAt_toNat hpos hh
  have hrunning := hs.layout.apart s.running hs.present
  have hother := hs.layout.apart dst hdstlen
  have hlow : s.low dst + 8 ≤ s.high dst := by
    unfold Stacks.low Stacks.high stackSize
    rw [if_neg (by omega), if_neg (by omega)]
    omega
  have hagree : AgreeOn (s.ptrAt h) (s.ptrAt h + 8) s.cpu.mem t.cpu.mem :=
    hs.switch_agreeOn task args stack hsrc asm (by omega)
      (fun h0 => Layout.ptrAt_ne s hpos h0 hne) (by omega)
  unfold Stacks.stackPtr
  rw [hb.ptrAt]
  exact hagree.readWord (by omega) (by omega) (by omega)

/-! ## 4. What a step leaves alone -/

/-- A task that is not running: its stack, but for the addresses of `W`, the saved stack pointer,
and what the pool says of it. -/
structure Undisturbed (s t : Stacks F V) (h : Handle) (W : Set Word) : Prop where
  away : h ≠ t.running
  low : t.low h = s.low h
  high : t.high h = s.high h
  mem : AgreeOff W (s.low h) (s.high h) s.cpu.mem t.cpu.mem
  ptr : t.stackPtr h = s.stackPtr h
  task : ∀ u, s.pool.slot h = some u → ∃ v, t.pool.slot h = some v ∧ u.Later v

theorem Undisturbed.refl (hne : h ≠ s.running) : Undisturbed s s h ∅ :=
  ⟨hne, rfl, rfl, (AgreeOn.refl _ _ _).off _, rfl, fun u hu => ⟨u, hu, .refl u⟩⟩

theorem Undisturbed.trans {W W' : Set Word} (hst : Undisturbed s t h W)
    (htu : Undisturbed t u h W') : Undisturbed s u h (W ∪ W') := by
  refine ⟨htu.away, htu.low.trans hst.low, htu.high.trans hst.high, hst.mem.trans ?_,
    htu.ptr.trans hst.ptr, fun v hv => ?_⟩
  · have hmem := htu.mem
    rwa [hst.low, hst.high] at hmem
  · obtain ⟨w, hw, hvw⟩ := hst.task v hv
    obtain ⟨z, hz, hwz⟩ := htu.task w hw
    exact ⟨z, hz, hvw.trans hwz⟩

/-- The step does not go on with the task of slot `h`, and does not use the slot again. -/
def StaysAway (h : Handle) : StackOp F V → Prop
  | .run _ => True
  | .lib op => op.Leaves h

/-- The slot of the source of a switch. -/
theorem source_le {p q : TaskPool F V} {frame top : Frame} {u : Task F V} {control : Control F V}
    (hsw : Switched p q src dst frame u top control) : src.idx ≤ p.len := by
  rcases hsw.source with h0 | hsome
  · omega
  · exact (slot_isSome.mp hsome).2

/-- **Every step leaves the tasks alone that it does not go on with.** -/
theorem Sound.undisturbed (hs : Sound s) {op : StackOp F V}
    (hst : Step code word here s op t) (hop : StaysAway h op) (hne : h ≠ s.running)
    (hpos : 0 < h.idx) (hh : h.idx ≤ s.pool.len) : Undisturbed s t h op.wrote := by
  cases hst with
  | run pool running blocks keeps =>
    refine ⟨by rwa [running], blocks.low h, blocks.high h, keeps.others h hne hh,
      keeps.ptrs h hpos hh (by simp), fun u hu => ⟨u, ?_, .refl u⟩⟩
    rwa [pool]
  | @alloc _ _ _ i pool bases osLow osHigh layout keeps stackPtr =>
    have hbases : h.idx ≤ s.bases.length := by rwa [hs.layout.bases]
    obtain ⟨b, hb⟩ := bases
    obtain ⟨⟨v, took⟩, -, hrun⟩ := pool.alloc_inv
    have hrun : t.running = s.running := hrun
    have hi : i ≠ h := hop
    refine ⟨by rwa [hrun], low_eq_of_append hb osLow hbases, high_eq_of_append hb osHigh hbases,
      keeps.others h hne hh, keeps.ptrs h hpos hh ?_, fun u hu => ⟨u, ?_, .refl u⟩⟩
    · intro heq
      cases heq
      exact hi rfl
    · rw [took.slot, Function.update_of_ne (Ne.symm hi), hu]
  | @write _ i pool blocks keeps =>
    obtain ⟨v, w, hw, hptr, hstate, hslot, -, -, hrun⟩ := pool.write_inv
    have hrun : t.running = s.running := hrun
    refine ⟨by rwa [hrun], blocks.low h, blocks.high h, keeps.others h hne hh,
      keeps.ptrs h hpos hh (by simp), fun u hu => ?_⟩
    by_cases hi : h = i
    · subst hi
      have hwu : s.pool.slot h = some w := hw
      rw [hu] at hwu
      cases hwu
      refine ⟨v, ?_, hptr, hstate⟩
      rw [hslot, Function.update_self]
    · refine ⟨u, ?_, .refl u⟩
      rw [hslot, Function.update_of_ne hi, hu]
  | @switch _ src dst frame control u e pool task args stack asm pc blocks =>
    obtain ⟨⟨v, top, hsw⟩, hrun, hleaves⟩ := pool.switch_inv
    have hrun : t.running = dst := hrun
    have hdst : h ≠ dst := Ne.symm hop
    have hsrc : h ≠ src := by
      rcases hleaves with heq | ⟨h0, -⟩
      · rw [heq]
        exact hne
      · rintro rfl
        omega
    refine ⟨by rwa [hrun], blocks.low h, blocks.high h,
      (hs.switch_stack task args stack (source_le hsw) asm hne hdst hh).off _,
      hs.switch_ptr task args stack (source_le hsw) asm blocks hsrc hpos hh,
      fun w hw => ⟨w, ?_, .refl w⟩⟩
    rw [hsw.slot, Function.update_of_ne hdst, Function.update_of_ne hsrc, hw]

/-- **The invariant is kept.** -/
theorem Sound.step (hs : Sound s) {op : StackOp F V} (hst : Step code word here s op t) :
    Sound t := by
  cases hst with
  | run pool running blocks keeps =>
    refine ⟨hs.layout.same blocks (by rw [pool]) (by rw [pool]), fun {h u} hu hinit => ?_,
      fun {u} hu => ?_, ?_⟩
    · rw [pool] at hu
      obtain ⟨hpos, hlen⟩ := slot_bounds hu
      rw [keeps.ptrs h hpos hlen (by simp), blocks.high, hs.fresh hu hinit]
    · rw [pool, running] at hu
      exact hs.awake hu
    · rw [pool, running]
      exact hs.present
  | @alloc _ fn data i pool bases osLow osHigh layout keeps stackPtr =>
    obtain ⟨⟨v, took⟩, hunused, hrun⟩ := pool.alloc_inv
    have hunused : i ≠ s.running := hunused
    have hrun : t.running = s.running := hrun
    have hlen : s.pool.len ≤ t.pool.len := took.len
    refine ⟨layout, fun {h u} hu hinit => ?_, fun {u} hu => ?_, ?_⟩
    · rw [took.slot] at hu
      by_cases hi : h = i
      · subst hi
        exact stackPtr
      · rw [Function.update_of_ne hi] at hu
        obtain ⟨hpos, hle⟩ := slot_bounds hu
        obtain ⟨b, hb⟩ := bases
        rw [keeps.ptrs h hpos hle (by simpa using hi), hs.fresh hu hinit,
          high_eq_of_append hb osHigh (by rw [hs.layout.bases]; exact hle)]
    · rw [took.slot, hrun, Function.update_of_ne (Ne.symm hunused)] at hu
      exact hs.awake hu
    · rw [hrun]
      exact hs.present.trans hlen
  | @write _ i pool blocks keeps =>
    obtain ⟨v, w, hw, hptr, hstate, hslot, hlen, hcap, hrun⟩ := pool.write_inv
    have hrun : t.running = s.running := hrun
    have hlater : w.Later v := ⟨hptr, hstate⟩
    refine ⟨hs.layout.same blocks hlen hcap, fun {h u} hu hinit => ?_, fun {u} hu => ?_, ?_⟩
    · obtain ⟨w', hw', hinit'⟩ : ∃ w', s.pool.slot h = some w' ∧ w'.state = .init := by
        rw [hslot] at hu
        by_cases hi : h = i
        · subst hi
          rw [Function.update_self] at hu
          cases hu
          refine ⟨w, hw, ?_⟩
          by_contra hne
          exact hlater.not_init hne hinit
        · rw [Function.update_of_ne hi] at hu
          exact ⟨u, hu, hinit⟩
      obtain ⟨hpos, hle⟩ := slot_bounds hw'
      rw [keeps.ptrs h hpos hle (by simp), blocks.high, hs.fresh hw' hinit']
    · rw [hslot, hrun] at hu
      by_cases hi : s.running = i
      · rw [hi, Function.update_self] at hu
        cases hu
        rw [← hi] at hw
        exact hlater.not_init (hs.awake hw)
      · rw [Function.update_of_ne hi] at hu
        exact hs.awake hu
    · rw [hrun, hlen]
      exact hs.present
  | @switch _ src dst frame control u e pool task args stack asm pc blocks =>
    obtain ⟨⟨v, top, hsw⟩, hrun, hleaves⟩ := pool.switch_inv
    have hrun : t.running = dst := hrun
    have hdst := slot_bounds hsw.task
    refine ⟨hs.layout.same blocks hsw.len hsw.cap, fun {h w} hw hinit => ?_, fun {w} hw => ?_, ?_⟩
    · have hne : h ≠ dst := by
        rintro rfl
        rw [hsw.slot, Function.update_self] at hw
        cases hw
        cases hinit
      rw [hsw.slot, Function.update_of_ne hne] at hw
      have hnesrc : h ≠ src := by
        rintro rfl
        rw [Function.update_self] at hw
        rcases hleaves with heq | ⟨h0, -⟩
        · have heq : h = s.running := heq
          subst heq
          obtain ⟨w', hw', rfl⟩ := Option.map_eq_some_iff.mp hw
          exact hs.awake hw' hinit
        · rw [show h = ⟨0⟩ from Handle.eq_of_idx h0, slot_zero] at hw
          cases hw
      rw [Function.update_of_ne hnesrc] at hw
      obtain ⟨hpos, hle⟩ := slot_bounds hw
      rw [hs.switch_ptr task args stack (source_le hsw) asm blocks hnesrc hpos hle, blocks.high,
        hs.fresh hw hinit]
    · rw [hsw.slot, hrun, Function.update_self] at hw
      cases hw
      exact fun h => by cases h
    · rw [hrun, hsw.len]
      exact hdst.2

theorem Sound.steps (hs : Sound s) {l : List (StackOp F V)}
    (hst : Steps (Step code word here) s l t) : Sound t :=
  hst.invariant (fun _ _ _ hs hst => hs.step hst) hs

theorem Step.len_le {op : StackOp F V} (hst : Step code word here s op t) :
    s.pool.len ≤ t.pool.len := by
  cases hst with
  | run pool running blocks keeps => rw [pool]
  | alloc pool bases osLow osHigh layout keeps stackPtr =>
    obtain ⟨⟨v, took⟩, -, -⟩ := pool.alloc_inv
    exact took.len
  | write pool blocks keeps =>
    obtain ⟨v, w, -, -, -, -, hlen, -, -⟩ := pool.write_inv
    exact Nat.le_of_eq hlen.symm
  | switch pool task args stack asm pc blocks =>
    obtain ⟨⟨v, top, hsw⟩, -, -⟩ := pool.switch_inv
    exact Nat.le_of_eq hsw.len.symm

theorem written_cons (op : StackOp F V) (l : List (StackOp F V)) :
    written (op :: l) = op.wrote ∪ written l := by
  ext a
  simp [written]

/-- **A whole run leaves a task alone** that it does not go on with, but for what running code has
written there. -/
theorem Sound.undisturbed_run (hs : Sound s) {l : List (StackOp F V)}
    (hst : Steps (Step code word here) s l t) (hl : ∀ op ∈ l, StaysAway h op)
    (hne : h ≠ s.running) (hpos : 0 < h.idx) (hh : h.idx ≤ s.pool.len) :
    Undisturbed s t h (written l) := by
  induction hst with
  | refl s => simpa [written] using Undisturbed.refl hne
  | @cons s t u op l hst _ ih =>
    have hfirst := hs.undisturbed hst (hl _ List.mem_cons_self) hne hpos hh
    rw [written_cons]
    exact hfirst.trans (ih (hs.step hst) (fun op hop => hl op (List.mem_cons_of_mem _ hop))
      hfirst.away (hh.trans hst.len_le))

/-! ## 5. Where a task was left -/

/-- Since this step, nothing has gone on with the task of slot `h`. -/
def LastOf (h : Handle) (l : List (StackOp F V)) (op : PoolOp F V) : Prop :=
  ∃ l₁ l₂, l = l₁ ++ .lib op :: l₂ ∧ ∀ op ∈ l₂, StaysAway h op

theorem LastOf.last (h : Handle) (l : List (StackOp F V)) (op : PoolOp F V) :
    LastOf h (l ++ [.lib op]) op := ⟨l, [], rfl, fun _ hop => absurd hop List.not_mem_nil⟩

theorem LastOf.snoc {l : List (StackOp F V)} {op : PoolOp F V} (hl : LastOf h l op)
    {op' : StackOp F V} (hop : StaysAway h op') : LastOf h (l ++ [op']) op := by
  obtain ⟨l₁, l₂, rfl, haway⟩ := hl
  refine ⟨l₁, l₂ ++ [op'], by rw [List.append_assoc]; rfl, fun x hx => ?_⟩
  rcases List.mem_append.mp hx with hx | hx
  · exact haway x hx
  · rwa [List.mem_singleton.mp hx]

/-- **A task that waits to be switched to has a last step**: its slot was taken for it, and it has
not started, or it has left the processor in a switch. -/
structure Tracked (l : List (StackOp F V)) (s : Stacks F V) : Prop where
  fresh : ∀ {h u}, s.pool.slot h = some u → u.state = .init →
    LastOf h l (.alloc u.fn u.data h)
  parked : ∀ {h u}, s.pool.slot h = some u → u.state = .running → h ≠ s.running →
    ∃ k frame control, LastOf h l (.switch h k frame control)

theorem Booted.tracked (hs : Booted s) : Tracked [] s := by
  have hnone : ∀ h, s.pool.slot h = none := by
    intro h
    unfold TaskPool.slot
    rw [hs.tasks]
    split <;> simp
  refine ⟨fun {h u} hu => ?_, fun {h u} hu => ?_⟩ <;>
  · rw [hnone] at hu
    cases hu

/-- A task that the step does not touch. -/
theorem Tracked.kept {l : List (StackOp F V)} (hl : Tracked l s) (op : StackOp F V) {u : Task F V}
    (hu : s.pool.slot h = some u) (hop : StaysAway h op) :
    (u.state = .init → LastOf h (l ++ [op]) (.alloc u.fn u.data h)) ∧
      (u.state = .running → h ≠ s.running →
        ∃ k frame control, LastOf h (l ++ [op]) (.switch h k frame control)) := by
  refine ⟨fun hinit => (hl.fresh hu hinit).snoc hop, fun hst hne => ?_⟩
  obtain ⟨k, frame, control, hlast⟩ := hl.parked hu hst hne
  exact ⟨k, frame, control, hlast.snoc hop⟩

theorem Tracked.step {l : List (StackOp F V)} (hl : Tracked l s)
    {op : StackOp F V} (hst : Step code word here s op t) : Tracked (l ++ [op]) t := by
  cases hst with
  | @run _ wrote pool running blocks keeps =>
    refine ⟨fun {h u} hu => ?_, fun {h u} hu => ?_⟩ <;> rw [pool] at hu
    · exact (hl.kept (.run wrote) hu trivial).1
    · rw [running]
      exact (hl.kept (.run wrote) hu trivial).2
  | @alloc _ fn data i pool bases osLow osHigh layout keeps stackPtr =>
    obtain ⟨⟨v, took⟩, -, hrun⟩ := pool.alloc_inv
    have hrun : t.running = s.running := hrun
    have hslot : ∀ {h u}, t.pool.slot h = some u → h ≠ i → s.pool.slot h = some u := by
      intro h u hu hi
      rwa [took.slot, Function.update_of_ne hi] at hu
    refine ⟨fun {h u} hu hinit => ?_, fun {h u} hu hst hne => ?_⟩
    · by_cases hi : h = i
      · subst hi
        rw [took.slot, Function.update_self, Option.some.injEq] at hu
        rw [← hu, took.fn, took.data]
        exact .last _ _ _
      · exact (hl.kept (.lib (.alloc fn data i)) (hslot hu hi) (Ne.symm hi)).1 hinit
    · by_cases hi : h = i
      · subst hi
        rw [took.slot, Function.update_self, Option.some.injEq] at hu
        rw [← hu, took.state] at hst
        cases hst
      · rw [hrun] at hne
        exact (hl.kept (.lib (.alloc fn data i)) (hslot hu hi) (Ne.symm hi)).2 hst hne
  | @write _ i pool blocks keeps =>
    obtain ⟨v, w, hw, hptr, hstate, hslot, -, -, hrun⟩ := pool.write_inv
    have hrun : t.running = s.running := hrun
    -- the write lets a task be as it was, or ends it
    have hbefore : ∀ {h u}, t.pool.slot h = some u → u.state = .init ∨ u.state = .running →
        ∃ u', s.pool.slot h = some u' ∧ u'.state = u.state ∧ u'.fn = u.fn ∧
          u'.data = u.data := by
      intro h u hu hlive
      by_cases hi : h = i
      · subst hi
        rw [hslot, Function.update_self, Option.some.injEq] at hu
        subst hu
        rcases hstate with ⟨hst, hfn, hdata⟩ | hdone | hdone
        · exact ⟨w, hw, hst.symm, hfn.symm, hdata.symm⟩
        · rw [hdone] at hlive
          simp at hlive
        · rw [hdone] at hlive
          simp at hlive
      · rw [hslot, Function.update_of_ne hi] at hu
        exact ⟨u, hu, rfl, rfl, rfl⟩
    refine ⟨fun {h u} hu hinit => ?_, fun {h u} hu hst hne => ?_⟩
    · obtain ⟨u', hu', hst', hfn, hdata⟩ := hbefore hu (.inl hinit)
      rw [← hfn, ← hdata]
      exact (hl.kept (.lib (.write i)) hu' trivial).1 (hst'.trans hinit)
    · obtain ⟨u', hu', hst', -⟩ := hbefore hu (.inr hst)
      rw [hrun] at hne
      exact (hl.kept (.lib (.write i)) hu' trivial).2 (hst'.trans hst) hne
  | @switch _ src dst frame control u e pool task args stack asm pc blocks =>
    obtain ⟨⟨v, top, hsw⟩, hrun, hleaves⟩ := pool.switch_inv
    have hrun : t.running = dst := hrun
    -- the source is suspended, and the others are as they were
    have hbefore : ∀ {h u}, t.pool.slot h = some u → h ≠ dst →
        ∃ u', s.pool.slot h = some u' ∧ u'.state = u.state ∧ u'.fn = u.fn ∧
          u'.data = u.data := by
      intro h u hu hdst
      rw [hsw.slot, Function.update_of_ne hdst] at hu
      by_cases hsrc : h = src
      · subst hsrc
        rw [Function.update_self] at hu
        obtain ⟨u', hu', rfl⟩ := Option.map_eq_some_iff.mp hu
        exact ⟨u', hu', rfl, rfl, rfl⟩
      · rw [Function.update_of_ne hsrc] at hu
        exact ⟨u, hu, rfl, rfl, rfl⟩
    refine ⟨fun {h w} hw hinit => ?_, fun {h w} hw hst hne => ?_⟩
    · have hdst : h ≠ dst := by
        rintro rfl
        rw [hsw.slot, Function.update_self, Option.some.injEq] at hw
        rw [← hw] at hinit
        cases hinit
      obtain ⟨w', hw', hst', hfn, hdata⟩ := hbefore hw hdst
      rw [← hfn, ← hdata]
      exact (hl.kept (.lib (.switch src dst frame control)) hw' (Ne.symm hdst)).1
        (hst'.trans hinit)
    · have hdst : h ≠ dst := by rwa [hrun] at hne
      obtain ⟨w', hw', hst', -⟩ := hbefore hw hdst
      by_cases hcur : h = s.running
      · -- the task that runs: it leaves now, since it has not finished
        have hstate : s.pool.stateOf s.running = some .running := by
          rw [← hcur]
          exact (stateOf_eq hw').trans (congrArg some (hst'.trans hst))
        obtain rfl : src = h := by
          rcases hleaves with heq | ⟨-, h0 | hdone | hdone⟩
          · exact heq.trans hcur.symm
          · have hpos := (slot_bounds hw').1
            rw [hcur] at hpos
            have h0 : s.running.idx = 0 := h0
            omega
          · have hdone : s.pool.stateOf s.running = some .ready := hdone
            rw [hstate] at hdone
            cases hdone
          · have hdone : s.pool.stateOf s.running = some .free := hdone
            rw [hstate] at hdone
            cases hdone
        exact ⟨_, _, _, .last _ _ _⟩
      · exact (hl.kept (.lib (.switch src dst frame control)) hw' (Ne.symm hdst)).2
          (hst'.trans hst) hcur

/-- Both invariants of a whole run. -/
theorem Booted.run {s₀ : Stacks F V} (h₀ : Booted s₀) {l : List (StackOp F V)}
    (hrun : Steps (Step code word here) s₀ l s) : Sound s ∧ Tracked l s :=
  hrun.history (P := fun l s => Sound s ∧ Tracked l s) ⟨h₀.sound, h₀.tracked⟩
    fun _ _ _ _ _ hs hst => ⟨hs.1.step hst, hs.2.step hst⟩

end Stacks
end CAsync
