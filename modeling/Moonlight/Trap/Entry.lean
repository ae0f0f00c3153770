/-
The machine-mode trap entry.

`trapEntry` is `trap_entry` of trap.S, one instruction a line.  It saves the
interrupted registers into a `trap_frame_t` below the trap stack top, calls
`syscall_handler` on that frame, steps `mepc` over an environment call and
restores the registers.

The interrupted stack pointer comes back through `mscratch`, yet the restore also
loads it into `t0`, after `t0` itself has been restored.
-/
import Moonlight.Lib.Riscv
import Moonlight.Syscall.Boot
import Moonlight.Syscall.Handler

namespace Moonlight

open Riscv

variable {σ : Type}

/-- The registers of `trap_frame_t` in the order of its fields. -/
def trapFrameRegs : List Reg :=
  [.ra, .sp, .gp, .tp, .t0, .t1, .t2, .t3, .t4, .t5, .t6,
    .a0, .a1, .a2, .a3, .a4, .a5, .a6, .a7,
    .s0, .s1, .s2, .s3, .s4, .s5, .s6, .s7, .s8, .s9, .s10, .s11]

/-- The offset of a register's field in `trap_frame_t`. -/
def trapFrameOffset (r : Reg) : BitVec 12 := BitVec.ofNat 12 (8 * trapFrameRegs.idxOf r)

def trapEntry : List Instr :=
  [ .csrrw .sp .mscratch .sp,
    .addi .sp .sp (-272),
    .sd .ra 0 .sp,
    .sd .t0 32 .sp,
    .sd .t1 40 .sp,
    .sd .t2 48 .sp,
    .sd .t3 56 .sp,
    .sd .t4 64 .sp,
    .sd .t5 72 .sp,
    .sd .t6 80 .sp,
    .sd .a0 88 .sp,
    .sd .a1 96 .sp,
    .sd .a2 104 .sp,
    .sd .a3 112 .sp,
    .sd .a4 120 .sp,
    .sd .a5 128 .sp,
    .sd .a6 136 .sp,
    .sd .a7 144 .sp,
    .sd .s0 152 .sp,
    .sd .s1 160 .sp,
    .sd .s2 168 .sp,
    .sd .s3 176 .sp,
    .sd .s4 184 .sp,
    .sd .s5 192 .sp,
    .sd .s6 200 .sp,
    .sd .s7 208 .sp,
    .sd .s8 216 .sp,
    .sd .s9 224 .sp,
    .sd .s10 232 .sp,
    .sd .s11 240 .sp,
    .csrr .t0 .mscratch,
    .sd .t0 8 .sp,
    .sd .gp 16 .sp,
    .sd .tp 24 .sp,
    .csrr .t0 .mcause,
    .csrr .t1 .mepc,
    .sd .t1 248 .sp,
    .sd .t0 256 .sp,
    .mv .a0 .sp,
    .li .a1 0,
    .call,
    .ld .t0 256 .sp,
    .ld .t1 248 .sp,
    .li .t2 8,
    .blt .t0 .t2 4,  -- .Lno_adv
    .li .t2 12,
    .bge .t0 .t2 2,  -- .Lno_adv
    .addi .t1 .t1 4,
    -- .Lno_adv:
    .csrw .mepc .t1,
    .sfenceVma,
    .fenceI,
    .ld .ra 0 .sp,
    .ld .t0 32 .sp,
    .ld .t1 40 .sp,
    .ld .t2 48 .sp,
    .ld .t3 56 .sp,
    .ld .t4 64 .sp,
    .ld .t5 72 .sp,
    .ld .t6 80 .sp,
    .ld .a0 88 .sp,
    .ld .a1 96 .sp,
    .ld .a2 104 .sp,
    .ld .a3 112 .sp,
    .ld .a4 120 .sp,
    .ld .a5 128 .sp,
    .ld .a6 136 .sp,
    .ld .a7 144 .sp,
    .ld .s0 152 .sp,
    .ld .s1 160 .sp,
    .ld .s2 168 .sp,
    .ld .s3 176 .sp,
    .ld .s4 184 .sp,
    .ld .s5 192 .sp,
    .ld .s6 200 .sp,
    .ld .s7 208 .sp,
    .ld .s8 216 .sp,
    .ld .s9 224 .sp,
    .ld .s10 232 .sp,
    .ld .s11 240 .sp,
    .ld .gp 16 .sp,
    .ld .tp 24 .sp,
    .ld .t0 8 .sp,
    .addi .sp .sp 272,
    .csrrw .sp .mscratch .sp,
    .mret ]

/-- `mcause` of an environment call, from any privilege mode. -/
def IsEcall (mcause : UInt64) : Prop := 8 ≤ mcause ∧ mcause ≤ 11

instance (mcause : UInt64) : Decidable (IsEcall mcause) := inferInstanceAs (Decidable (_ ∧ _))

/-- The frame the trap entry builds, below the trap stack top in `mscratch`. -/
def trapFrame (m : Machine σ) : UInt64 := m.csrs .mscratch - 272

/-- The machine as `syscall_handler` gets it. -/
def atCall (link : UInt64) (m : Machine σ) : Machine σ :=
  (line m (trapEntry.take 40)).setReg .ra link

/-- What a call of `syscall_handler` keeps: the registers the C calling convention
preserves, `mscratch`, and the frame at `a0` outside its field `a0`. -/
structure AbiReturn (m m' : Machine σ) : Prop where
  regs : ∀ r ∈ [Reg.sp, .gp, .tp, .s0, .s1, .s2, .s3, .s4, .s5, .s6, .s7, .s8, .s9, .s10, .s11],
    m'.reg r = m.reg r
  mscratch : m'.csrs .mscratch = m.csrs .mscratch
  frame : ∀ d, d < 272 → ¬ (88 ≤ d ∧ d < 96) →
    m'.mem (m.reg .a0 + UInt64.ofNat d) = m.mem (m.reg .a0 + UInt64.ofNat d)

/-! ### Saving the interrupted registers -/

/-- The registers stored before the stack pointer is fetched from `mscratch`. -/
def savedSlots : List (Reg × BitVec 12) :=
  (trapFrameRegs.filter fun r => r ∉ [.sp, .gp, .tp]).map fun r => (r, trapFrameOffset r)

/-- The three registers stored while `t0` holds the interrupted stack pointer. -/
def pointerSlots : List (Reg × BitVec 12) := [(.t0, 8), (.gp, 16), (.tp, 24)]

def trapSlots : List (Reg × BitVec 12) := [(.t1, 248), (.t0, 256)]

def prologue : List Instr :=
  [.csrrw .sp .mscratch .sp, .addi .sp .sp (-272)] ++ (saveBlock .sp savedSlots ++
    ((.csrr .t0 .mscratch :: saveBlock .sp pointerSlots) ++
      ((.csrr .t0 .mcause :: .csrr .t1 .mepc :: saveBlock .sp trapSlots) ++
        [.mv .a0 .sp, .li .a1 0])))

theorem trapEntry_take : trapEntry.take 40 = prologue := by rfl

theorem prologue_straight : ∀ i ∈ prologue, i.straight = true := by decide

theorem savedSlots_apart :
    savedSlots.Pairwise fun s t => Apart (offset t.2) (offset s.2) := by decide

theorem pointerSlots_apart :
    pointerSlots.Pairwise fun s t => Apart (offset t.2) (offset s.2) := by decide

theorem trapSlots_apart :
    trapSlots.Pairwise fun s t => Apart (offset t.2) (offset s.2) := by decide

theorem savedSlots_pointerSlots :
    ∀ s ∈ savedSlots, ∀ t ∈ pointerSlots, Apart (offset t.2) (offset s.2) := by decide

theorem slots_trapSlots :
    ∀ s ∈ savedSlots ++ pointerSlots, ∀ t ∈ trapSlots, Apart (offset t.2) (offset s.2) := by decide

theorem savedSlots_ne_sp : ∀ s ∈ savedSlots, s.1 ≠ .sp := by decide

theorem trapFrameOffset_sp : trapFrameOffset .sp = 8 := by decide

theorem trapFrameOffset_a0 : trapFrameOffset .a0 = 88 := by decide

/-- Every register has its own field of the frame among the slots. -/
theorem mem_trapFrameRegs {r : Reg} (h : r ≠ .zero) : r ∈ trapFrameRegs := by
  cases r <;> first | exact absurd rfl h | decide

theorem trapFrameOffset_mem (r : Reg) (h : r ≠ .zero) :
    (r, trapFrameOffset r) ∈ savedSlots ∨ r = .sp ∨ r = .gp ∨ r = .tp := by
  by_cases hptr : r ∈ [Reg.sp, .gp, .tp]
  · exact Or.inr (by simpa using hptr)
  · refine Or.inl (List.mem_map.mpr ⟨r, List.mem_filter.mpr ⟨mem_trapFrameRegs h, ?_⟩, rfl⟩)
    exact decide_eq_true hptr

/-- The swap with `mscratch` and the step down to the frame. -/
def enter (m : Machine σ) : Machine σ :=
  line m [.csrrw .sp .mscratch .sp, .addi .sp .sp (-272)]

theorem enter_sp (m : Machine σ) : (enter m).reg .sp = trapFrame m := by
  show m.csrs .mscratch + offset (-272) = m.csrs .mscratch - 272
  rw [show offset (-272) = -272 from rfl, ← UInt64.sub_eq_add_neg]

theorem enter_reg {r : Reg} (h : r ≠ .sp) (m : Machine σ) : (enter m).reg r = m.reg r := by
  show ((m.setCsr .mscratch (m.reg .sp)).setReg .sp _ |>.setReg .sp _).reg r = m.reg r
  rw [Machine.reg_setReg_of_ne h, Machine.reg_setReg_of_ne h, Machine.reg_setCsr]

/-- The stack pointer on its way from `mscratch` to the frame, with `gp` and `tp`. -/
def savePointers (m : Machine σ) : Machine σ :=
  line (m.setReg .t0 (m.csrs .mscratch)) (saveBlock .sp pointerSlots)

theorem line_savePointers (m : Machine σ) :
    line m (.csrr .t0 .mscratch :: saveBlock .sp pointerSlots) = savePointers m := by
  rw [line_cons, savePointers]
  rfl

theorem savePointers_reg {r : Reg} (h : r ≠ .t0) (m : Machine σ) :
    (savePointers m).reg r = m.reg r := by
  rw [savePointers, reg_saveBlock, Machine.reg_setReg_of_ne h]

theorem savePointers_csrs (m : Machine σ) : (savePointers m).csrs = m.csrs := by
  rw [savePointers, csrs_saveBlock, Machine.setReg_csrs]

theorem savePointers_kept {m : Machine σ} {s : Reg × BitVec 12} {v : UInt64} (hs : s ∈ savedSlots)
    (h : m.Holds .sp s.2 v) : (savePointers m).Holds .sp s.2 v :=
  (h.setReg (by decide) _).saveBlock (savedSlots_pointerSlots s hs)

theorem savePointers_sp (m : Machine σ) : (savePointers m).Holds .sp 8 (m.csrs .mscratch) := by
  have hsaved := holds_saveBlock .sp pointerSlots_apart (r := .t0) (o := 8) (by decide)
    (m.setReg .t0 (m.csrs .mscratch))
  rw [Machine.reg_setReg (by decide)] at hsaved
  exact hsaved

theorem savePointers_pointer {m : Machine σ} {r : Reg} {o : BitVec 12}
    (hmem : (r, o) ∈ pointerSlots) (h : r ≠ .t0) : (savePointers m).Holds .sp o (m.reg r) := by
  have hsaved := holds_saveBlock .sp pointerSlots_apart hmem
    (m.setReg .t0 (m.csrs .mscratch))
  rw [Machine.reg_setReg_of_ne h] at hsaved
  exact hsaved

/-- `mepc` and `mcause` on their way to the frame. -/
def saveTrap (m : Machine σ) : Machine σ :=
  line ((m.setReg .t0 (m.csrs .mcause)).setReg .t1 (m.csrs .mepc)) (saveBlock .sp trapSlots)

theorem line_saveTrap (m : Machine σ) :
    line m (.csrr .t0 .mcause :: .csrr .t1 .mepc :: saveBlock .sp trapSlots) = saveTrap m := by
  rw [line_cons, line_cons, saveTrap]
  rfl

theorem saveTrap_csrs (m : Machine σ) : (saveTrap m).csrs = m.csrs := by
  rw [saveTrap, csrs_saveBlock, Machine.setReg_csrs, Machine.setReg_csrs]

theorem saveTrap_sp (m : Machine σ) : (saveTrap m).reg .sp = m.reg .sp := by
  rw [saveTrap, reg_saveBlock, Machine.reg_setReg_of_ne (by decide),
    Machine.reg_setReg_of_ne (by decide)]

theorem saveTrap_kept {m : Machine σ} {s : Reg × BitVec 12} {v : UInt64}
    (hs : s ∈ savedSlots ++ pointerSlots) (h : m.Holds .sp s.2 v) :
    (saveTrap m).Holds .sp s.2 v :=
  ((h.setReg (by decide) _).setReg (by decide) _).saveBlock (slots_trapSlots s hs)

theorem saveTrap_pc (m : Machine σ) : (saveTrap m).Holds .sp 248 (m.csrs .mepc) := by
  have hsaved := holds_saveBlock .sp trapSlots_apart (r := .t1) (o := 248) (by decide)
    ((m.setReg .t0 (m.csrs .mcause)).setReg .t1 (m.csrs .mepc))
  rw [Machine.reg_setReg (by decide)] at hsaved
  exact hsaved

theorem saveTrap_cause (m : Machine σ) : (saveTrap m).Holds .sp 256 (m.csrs .mcause) := by
  have hsaved := holds_saveBlock .sp trapSlots_apart (r := .t0) (o := 256) (by decide)
    ((m.setReg .t0 (m.csrs .mcause)).setReg .t1 (m.csrs .mepc))
  rw [Machine.reg_setReg_of_ne (by decide), Machine.reg_setReg (by decide)] at hsaved
  exact hsaved

/-- The machine with every interrupted register, `mepc` and `mcause` in the frame. -/
structure Saved (m mc : Machine σ) : Prop where
  sp : mc.reg .sp = trapFrame m
  mscratch : mc.csrs .mscratch = m.reg .sp
  regs : ∀ r, r ≠ .zero → mc.Holds .sp (trapFrameOffset r) (m.reg r)
  pc : mc.Holds .sp 248 (m.csrs .mepc)
  cause : mc.Holds .sp 256 (m.csrs .mcause)

theorem Saved.setReg {m mc : Machine σ} (h : Saved m mc) {r : Reg} (hr : Reg.sp ≠ r) (v : UInt64) :
    Saved m (mc.setReg r v) :=
  { sp := (Machine.reg_setReg_of_ne hr mc v).trans h.sp
    mscratch := h.mscratch
    regs := fun r' hr' => (h.regs r' hr').setReg hr v
    pc := h.pc.setReg hr v
    cause := h.cause.setReg hr v }

theorem saveTrap_saved (m : Machine σ) :
    Saved m (saveTrap (savePointers (line (enter m) (saveBlock .sp savedSlots)))) := by
  generalize hm₁ : line (enter m) (saveBlock .sp savedSlots) = m₁
  have hcsrs : m₁.csrs = (enter m).csrs := by rw [← hm₁, csrs_saveBlock]
  have hregs : ∀ r, m₁.reg r = (enter m).reg r := fun r => by rw [← hm₁, reg_saveBlock]
  refine { sp := ?_, mscratch := ?_, regs := fun r hr => ?_, pc := ?_, cause := ?_ }
  · rw [saveTrap_sp, savePointers_reg (by decide), hregs, enter_sp]
  · rw [saveTrap_csrs, savePointers_csrs, hcsrs]
    rfl
  · rcases trapFrameOffset_mem r hr with hr | rfl | rfl | rfl
    · have hsaved := holds_saveBlock .sp savedSlots_apart hr (enter m)
      rw [hm₁, enter_reg (savedSlots_ne_sp _ hr)] at hsaved
      have hkept := savePointers_kept (s := (r, trapFrameOffset r)) hr hsaved
      exact saveTrap_kept (s := (r, trapFrameOffset r)) (List.mem_append_left _ hr) hkept
    · have hsaved := savePointers_sp m₁
      rw [hcsrs] at hsaved
      exact saveTrap_kept (s := (.t0, 8)) (by decide) hsaved
    · have hsaved := savePointers_pointer (m := m₁) (r := .gp) (o := 16) (by decide) (by decide)
      rw [hregs, enter_reg (by decide)] at hsaved
      exact saveTrap_kept (s := (.gp, 16)) (by decide) hsaved
    · have hsaved := savePointers_pointer (m := m₁) (r := .tp) (o := 24) (by decide) (by decide)
      rw [hregs, enter_reg (by decide)] at hsaved
      exact saveTrap_kept (s := (.tp, 24)) (by decide) hsaved
  · have hpc := saveTrap_pc (savePointers m₁)
    rw [savePointers_csrs, hcsrs] at hpc
    exact hpc
  · have hcause := saveTrap_cause (savePointers m₁)
    rw [savePointers_csrs, hcsrs] at hcause
    exact hcause

theorem line_arguments (mc : Machine σ) :
    line mc [.mv .a0 .sp, .li .a1 0] = (mc.setReg .a0 (mc.addr 0 .sp)).setReg .a1 0 := rfl

theorem atCall_eq (link : UInt64) (m : Machine σ) :
    ∃ mc, Saved m mc ∧
      atCall link m = ((mc.setReg .a0 (mc.addr 0 .sp)).setReg .a1 0).setReg .ra link := by
  have hline : line m prologue =
      line (saveTrap (savePointers (line (enter m) (saveBlock .sp savedSlots))))
        [.mv .a0 .sp, .li .a1 0] := by
    rw [prologue, line_append, line_append, line_append, line_append, line_savePointers,
      line_saveTrap, enter]
  exact ⟨_, saveTrap_saved m, by rw [atCall, trapEntry_take, hline, line_arguments]⟩

theorem atCall_saved (link : UInt64) (m : Machine σ) : Saved m (atCall link m) := by
  obtain ⟨mc, hmc, heq⟩ := atCall_eq link m
  rw [heq]
  exact ((hmc.setReg (by decide) _).setReg (by decide) _).setReg (by decide) _

/-- The handler gets the frame at the top of its stack as its first argument. -/
theorem atCall_a0 (link : UInt64) (m : Machine σ) :
    (atCall link m).reg .a0 = (atCall link m).reg .sp := by
  obtain ⟨mc, -, heq⟩ := atCall_eq link m
  rw [heq, Machine.reg_setReg_of_ne (by decide), Machine.reg_setReg_of_ne (by decide),
    Machine.reg_setReg (by decide), Machine.reg_setReg_of_ne (by decide),
    Machine.reg_setReg_of_ne (by decide), Machine.reg_setReg_of_ne (by decide), Machine.addr]
  exact UInt64.add_zero _

/-! ### Back from the handler -/

theorem AbiReturn.holds {mc mr : Machine σ} (h : AbiReturn mc mr) (ha0 : mc.reg .a0 = mc.reg .sp)
    {o : BitVec 12} {d : Nat} {v : UInt64} (ho : offset o = UInt64.ofNat d)
    (hd : d + 8 ≤ 88 ∨ 96 ≤ d ∧ d + 8 ≤ 272) (hv : mc.Holds .sp o v) : mr.Holds .sp o v := by
  have hsp : mr.reg .sp = mc.reg .sp := h.regs .sp (by decide)
  rw [Machine.Holds, ← hv, Machine.addr, Machine.addr, hsp]
  refine load64_congr fun i hi => ?_
  have hframe := h.frame (d + i) (by omega) (by omega)
  rw [ha0, UInt64.ofNat_add, ← UInt64.add_assoc, ← ho] at hframe
  exact hframe

/-- The offset of a register other than `a0` is outside the field the handler
writes. -/
theorem trapFrameOffset_spec (r : Reg) (hr : r ≠ .zero) (ha0 : r ≠ .a0) :
    ∃ d, offset (trapFrameOffset r) = UInt64.ofNat d ∧ (d + 8 ≤ 88 ∨ 96 ≤ d ∧ d + 8 ≤ 272) := by
  refine ⟨8 * trapFrameRegs.idxOf r, ?_⟩
  cases r <;> first | exact absurd rfl hr | exact absurd rfl ha0 | decide

/-- What the handler leaves of a saved machine. -/
structure Returned (m mr : Machine σ) : Prop where
  sp : mr.reg .sp = trapFrame m
  mscratch : mr.csrs .mscratch = m.reg .sp
  regs : ∀ r, r ≠ .zero → r ≠ .a0 → mr.Holds .sp (trapFrameOffset r) (m.reg r)
  pc : mr.Holds .sp 248 (m.csrs .mepc)
  cause : mr.Holds .sp 256 (m.csrs .mcause)

theorem AbiReturn.returned {link : UInt64} {m mr : Machine σ} (h : AbiReturn (atCall link m) mr) :
    Returned m mr := by
  have hsaved := atCall_saved link m
  have ha0 := atCall_a0 link m
  refine { sp := ?_, mscratch := ?_, regs := fun r hr hra0 => ?_, pc := ?_, cause := ?_ }
  · rw [h.regs .sp (by decide), hsaved.sp]
  · rw [h.mscratch, hsaved.mscratch]
  · obtain ⟨d, ho, hd⟩ := trapFrameOffset_spec r hr hra0
    exact h.holds ha0 ho hd (hsaved.regs r hr)
  · exact h.holds ha0 (d := 248) rfl (by omega) hsaved.pc
  · exact h.holds ha0 (d := 256) rfl (by omega) hsaved.cause

/-! ### Stepping over an environment call -/

/-- The two signed comparisons single out the causes 8 to 11. -/
theorem isEcall_iff (cause : UInt64) :
    IsEcall cause ↔ cause.toBitVec.slt (8 : UInt64).toBitVec = false ∧
      cause.toBitVec.slt (12 : UInt64).toBitVec = true := by
  have hlt : cause.toNat < 2 ^ 64 := cause.toNat_lt
  have hlow : (8 : UInt64).toBitVec.toInt = 8 := rfl
  have hhigh : (12 : UInt64).toBitVec.toInt = 12 := rfl
  rw [IsEcall, UInt64.le_iff_toNat_le, UInt64.le_iff_toNat_le, BitVec.slt_eq_decide,
    BitVec.slt_eq_decide, decide_eq_false_iff_not, decide_eq_true_iff, hlow, hhigh,
    BitVec.toInt_eq_toNat_cond, UInt64.toNat_toBitVec]
  show 8 ≤ cause.toNat ∧ cause.toNat ≤ 11 ↔ _
  generalize cause.toNat = n at hlt
  by_cases hsign : 2 * n < 2 ^ 64
  · rw [if_pos hsign]
    omega
  · rw [if_neg hsign]
    omega

/-- The saved cause and program counter with the bound in `t2`. -/
def compared (mr : Machine σ) (pc cause bound : UInt64) : Machine σ :=
  ((mr.setReg .t0 cause).setReg .t1 pc).setReg .t2 bound

theorem compared_line {mr : Machine σ} {pc cause : UInt64} (hpc : mr.Holds .sp 248 pc)
    (hcause : mr.Holds .sp 256 cause) :
    line mr [.ld .t0 256 .sp, .ld .t1 248 .sp, .li .t2 8] = compared mr pc cause 8 := by
  have hpc' : (mr.setReg .t0 cause).Holds .sp 248 pc := hpc.setReg (by decide) cause
  rw [Machine.Holds] at hpc hcause hpc'
  simp only [line_cons, line_nil, exec, Instr.li, hcause, hpc', compared]
  rfl

/-- What the comparison leaves for the restore: `t1` with the resume address. -/
structure Advanced (mr m₂ : Machine σ) (pc cause : UInt64) : Prop where
  mem : m₂.mem = mr.mem
  csrs : m₂.csrs = mr.csrs
  sp : m₂.reg .sp = mr.reg .sp
  t1 : m₂.reg .t1 = if IsEcall cause then pc + 4 else pc

theorem compared_advanced {mr : Machine σ} {pc cause bound : UInt64} (h : ¬ IsEcall cause) :
    Advanced mr (compared mr pc cause bound) pc cause :=
  { mem := rfl, csrs := rfl, sp := rfl, t1 := (if_neg h).symm }

theorem yields_advance (callee : Machine σ → Option (Machine σ)) (link : UInt64) {mr : Machine σ}
    {pc cause : UInt64} (hpc : mr.Holds .sp 248 pc) (hcause : mr.Holds .sp 256 cause) :
    ∃ m₂, Advanced mr m₂ pc cause ∧
      ∀ r, Fuel.Yields (fun fuel => run callee link trapEntry fuel 48 m₂) r →
        Fuel.Yields (fun fuel => run callee link trapEntry fuel 41 mr) r := by
  have hload : ∀ r, Fuel.Yields (fun fuel => run callee link trapEntry fuel 44
      (compared mr pc cause 8)) r →
      Fuel.Yields (fun fuel => run callee link trapEntry fuel 41 mr) r := by
    intro r h
    rw [← compared_line hpc hcause] at h
    exact yields_line [.ld .t0 256 .sp, .ld .t1 248 .sp, .li .t2 8] (trapEntry.drop 44) rfl
      (by decide) h
  have hblt : exec (compared mr pc cause 8) (.blt .t0 .t2 4) = (compared mr pc cause 8,
      .jump (if cause.toBitVec.slt (8 : UInt64).toBitVec then 4 else 1)) := rfl
  have hbge : exec (compared mr pc cause 12) (.bge .t0 .t2 2) = (compared mr pc cause 12,
      .jump (if cause.toBitVec.slt (12 : UInt64).toBitVec then 1 else 2)) := rfl
  have hli : exec (compared mr pc cause 8) (.li .t2 12) = (compared mr pc cause 12, .jump 1) := by
    simp only [exec, Instr.li, compared, Machine.setReg, Function.update_idem]
    rfl
  by_cases hlow : cause.toBitVec.slt (8 : UInt64).toBitVec = true
  · have hnot : ¬ IsEcall cause := fun h => by
      rw [isEcall_iff, hlow] at h
      cases h.1
    rw [if_pos hlow] at hblt
    exact ⟨_, compared_advanced hnot, fun r h => hload r (yields_jump rfl hblt h)⟩
  rw [if_neg hlow] at hblt
  by_cases hhigh : cause.toBitVec.slt (12 : UInt64).toBitVec = true
  · have hecall : IsEcall cause := (isEcall_iff cause).mpr ⟨by simpa using hlow, hhigh⟩
    rw [if_pos hhigh] at hbge
    refine ⟨(compared mr pc cause 12).setReg .t1 (pc + 4), ?_, fun r h => hload r ?_⟩
    · exact { mem := rfl, csrs := rfl, sp := rfl, t1 := (if_pos hecall).symm }
    · exact yields_jump rfl hblt (yields_jump rfl hli (yields_jump rfl hbge
        (yields_jump (i := .addi .t1 .t1 4) rfl rfl h)))
  · have hnot : ¬ IsEcall cause := fun h => hhigh ((isEcall_iff cause).mp h).2
    rw [if_neg hhigh] at hbge
    exact ⟨_, compared_advanced hnot, fun r h => hload r
      (yields_jump rfl hblt (yields_jump rfl hli (yields_jump rfl hbge h)))⟩

/-! ### Restoring the interrupted registers -/

def restoredSlots : List (Reg × BitVec 12) := savedSlots ++ [(.gp, 16), (.tp, 24)]

/-- The `mepc` update and the two fences. -/
def resumeAt (m : Machine σ) : Machine σ := line m [.csrw .mepc .t1, .sfenceVma, .fenceI]

/-- The last load, the step back up the trap stack and the swap with `mscratch`. -/
def leave (m : Machine σ) : Machine σ :=
  line m [.ld .t0 8 .sp, .addi .sp .sp 272, .csrrw .sp .mscratch .sp]

def epilogue : List Instr :=
  [.csrw .mepc .t1, .sfenceVma, .fenceI] ++ (loadBlock .sp restoredSlots ++
    [.ld .t0 8 .sp, .addi .sp .sp 272, .csrrw .sp .mscratch .sp])

theorem trapEntry_drop : trapEntry.drop 48 = epilogue ++ [.mret] := by rfl

theorem epilogue_straight : ∀ i ∈ epilogue, i.straight = true := by decide

theorem sp_notMem_restoredSlots : Reg.sp ∉ restoredSlots.map Prod.fst := by decide

theorem restoredSlots_nodup : (restoredSlots.map Prod.fst).Nodup := by decide

theorem trapFrameOffset_mem_restored (r : Reg) (h : r ≠ .zero) (hsp : r ≠ .sp) :
    (r, trapFrameOffset r) ∈ restoredSlots := by
  rw [restoredSlots, List.mem_append]
  rcases trapFrameOffset_mem r h with hmem | rfl | rfl | rfl
  · exact Or.inl hmem
  · exact absurd rfl hsp
  · exact Or.inr (by decide)
  · exact Or.inr (by decide)

theorem line_epilogue (m : Machine σ) :
    line m epilogue = leave (line (resumeAt m) (loadBlock .sp restoredSlots)) := by
  rw [epilogue, line_append, line_append, resumeAt, leave]

theorem resumeAt_reg {r : Reg} (h : r ≠ .zero) (m : Machine σ) :
    (resumeAt m).reg r = m.reg r := by
  show ((m.setCsr .mepc (m.reg .t1)).setReg .zero _).reg r = m.reg r
  rw [Machine.reg_setReg_of_ne h, Machine.reg_setCsr]

theorem resumeAt_holds {m : Machine σ} {o : BitVec 12} {v : UInt64} (h : m.Holds .sp o v) :
    (resumeAt m).Holds .sp o v := by
  rw [Machine.Holds, Machine.addr, resumeAt_reg (by decide)]
  exact h

theorem leave_reg {r : Reg} (hsp : r ≠ .sp) (ht0 : r ≠ .t0) (m : Machine σ) :
    (leave m).reg r = m.reg r := by
  show ((((m.setReg .t0 _).setReg .sp _).setCsr .mscratch _).setReg .sp _).reg r = m.reg r
  rw [Machine.reg_setReg_of_ne hsp, Machine.reg_setCsr, Machine.reg_setReg_of_ne hsp,
    Machine.reg_setReg_of_ne ht0]

theorem leave_t0 {m : Machine σ} {v : UInt64} (h : m.Holds .sp 8 v) : (leave m).reg .t0 = v := h

theorem leave_sp (m : Machine σ) : (leave m).reg .sp = m.csrs .mscratch := rfl

theorem leave_mscratch (m : Machine σ) : (leave m).csrs .mscratch = m.reg .sp + 272 := rfl

theorem leave_mepc (m : Machine σ) : (leave m).csrs .mepc = m.csrs .mepc := rfl

/-- The machine the interrupted code gets back, `m` being the one at the trap and
`mr` the one the handler left. -/
structure Resumed (m mr m' : Machine σ) : Prop where
  regs : ∀ r, r ≠ .zero → r ≠ .a0 → r ≠ .t0 → m'.reg r = m.reg r
  t0 : m'.reg .t0 = m.reg .sp
  a0 : m'.reg .a0 = load64 mr.mem (trapFrame m + 88)
  mscratch : m'.csrs .mscratch = m.csrs .mscratch
  mepc : m'.csrs .mepc =
    if IsEcall (m.csrs .mcause) then m.csrs .mepc + 4 else m.csrs .mepc

theorem epilogue_resumed {m mr m₂ : Machine σ} (hr : Returned m mr)
    (ha : Advanced mr m₂ (m.csrs .mepc) (m.csrs .mcause)) : Resumed m mr (line m₂ epilogue) := by
  have hholds : ∀ {o v}, mr.Holds .sp o v → (resumeAt m₂).Holds .sp o v := by
    intro o v h
    have h₂ : m₂.Holds .sp o v := by
      rw [Machine.Holds, Machine.addr, ha.mem, ha.sp]
      exact h
    exact resumeAt_holds h₂
  have hload : ∀ {r v}, r ≠ .zero → r ≠ .sp → mr.Holds .sp (trapFrameOffset r) v →
      (line (resumeAt m₂) (loadBlock .sp restoredSlots)).reg r = v := fun hz hsp h =>
    reg_loadBlock sp_notMem_restoredSlots restoredSlots_nodup hz
      (trapFrameOffset_mem_restored _ hz hsp) (hholds h)
  have hsp : (line (resumeAt m₂) (loadBlock .sp restoredSlots)).reg .sp = trapFrame m := by
    rw [reg_loadBlock_of_notMem .sp sp_notMem_restoredSlots, resumeAt_reg (by decide), ha.sp, hr.sp]
  rw [line_epilogue]
  refine { regs := fun r hz ha0 ht0 => ?_, t0 := ?_, a0 := ?_, mscratch := ?_, mepc := ?_ }
  · by_cases hrsp : r = .sp
    · subst hrsp
      rw [leave_sp, csrs_loadBlock]
      show m₂.csrs .mscratch = m.reg .sp
      rw [ha.csrs, hr.mscratch]
    · rw [leave_reg hrsp ht0, hload hz hrsp (hr.regs r hz ha0)]
  · have hslot := hholds (hr.regs .sp (by decide) (by decide))
    rw [trapFrameOffset_sp] at hslot
    refine leave_t0 ?_
    rw [Machine.Holds, Machine.addr, hsp, mem_loadBlock, ← hr.sp, ← ha.sp,
      ← resumeAt_reg (by decide)]
    exact hslot
  · have hslot : mr.Holds .sp (trapFrameOffset .a0) (load64 mr.mem (trapFrame m + 88)) := by
      rw [Machine.Holds, Machine.addr, hr.sp, trapFrameOffset_a0]
      rfl
    rw [leave_reg (by decide) (by decide), hload (by decide) (by decide) hslot]
  · rw [leave_mscratch, hsp, trapFrame, UInt64.sub_add_cancel]
  · rw [leave_mepc, csrs_loadBlock]
    exact ha.t1

/-- The whole trap: it returns whenever the handler does, with everything restored
except `t0`. -/
theorem trapEntry_resumed {callee : Machine σ → Option (Machine σ)} {link : UInt64}
    {m mr : Machine σ} (hcall : callee (atCall link m) = some mr)
    (habi : AbiReturn (atCall link m) mr) :
    ∃ m', Fuel.Yields (fun fuel => run callee link trapEntry fuel 0 m) m' ∧ Resumed m mr m' := by
  have hret := habi.returned
  obtain ⟨m₂, hadv, hback⟩ := yields_advance callee link hret.pc hret.cause
  refine ⟨line m₂ epilogue, ?_, epilogue_resumed hret hadv⟩
  have hend : Fuel.Yields (fun fuel => run callee link trapEntry fuel 48 m₂) (line m₂ epilogue) :=
    yields_line epilogue [.mret] trapEntry_drop epilogue_straight (yields_mret rfl)
  have hmiddle : Fuel.Yields (fun fuel => run callee link trapEntry fuel 40 (line m prologue))
      (line m₂ epilogue) := yields_call rfl (by rw [← trapEntry_take]; exact hcall) (hback _ hend)
  exact yields_line prologue (trapEntry.drop 40) rfl prologue_straight hmiddle

/-! ### The handler behind the call -/

/-- The fields of the frame the handler reads. -/
def frameAt (mem : UInt64 → UInt8) (frame : UInt64) : TrapFrame :=
  { a0 := load64 mem (frame + 88), a1 := load64 mem (frame + 96), a2 := load64 mem (frame + 104),
    a3 := load64 mem (frame + 112), a7 := load64 mem (frame + 144) }

/-- `syscall_handler(a0, a1)` with the frame in memory and the kernel's own state
beside it. -/
def syscallCall (entry now : UInt64) (m : Machine Kernel) : Option (Machine Kernel) :=
  if m.reg .a0 = 0 then some (m.setReg .a0 KError.invalidArg.code)
  else
    match syscallHandler m.world (frameAt m.mem (m.reg .a0)) (m.reg .a1).toUInt32 entry now with
    | none => none
    | some (e, f, k) =>
      some { m.setReg .a0 e.code with mem := store64 m.mem (m.reg .a0 + 88) f.a0, world := k }

theorem store64_frame {mem : UInt64 → UInt8} {frame v : UInt64} {d : Nat} (hd : d < 272)
    (hout : ¬ (88 ≤ d ∧ d < 96)) :
    store64 mem (frame + 88) v (frame + UInt64.ofNat d) = mem (frame + UInt64.ofNat d) := by
  have hsub : frame + UInt64.ofNat d - (frame + 88) = UInt64.ofNat d - 88 := by grind
  have hfar : ¬ (UInt64.ofNat d - 88).toNat < 8 := by
    rw [UInt64.toNat_sub, UInt64.toNat_ofNat', Nat.mod_eq_of_lt (show d < 2 ^ 64 by omega)]
    show ¬ (2 ^ 64 - 88 + d) % 2 ^ 64 < 8
    omega
  simp only [store64, storeBytes, hsub, if_neg hfar]

/-- The handler of the model keeps what the trap entry relies on. -/
theorem syscallCall_abi {entry now : UInt64} {m m' : Machine Kernel}
    (h : syscallCall entry now m = some m') : AbiReturn m m' := by
  have hregs : ∀ (v : UInt64), ∀ r ∈ [Reg.sp, .gp, .tp, .s0, .s1, .s2, .s3, .s4, .s5, .s6, .s7, .s8,
      .s9, .s10, .s11], (m.setReg .a0 v).reg r = m.reg r := by
    intro v r hr
    exact Machine.reg_setReg_of_ne (by rintro rfl; exact absurd hr (by decide)) m v
  unfold syscallCall at h
  split_ifs at h
  · cases h
    exact { regs := hregs _, mscratch := rfl, frame := fun _ _ _ => rfl }
  · split at h
    · cases h
    · cases h
      exact { regs := hregs _, mscratch := rfl, frame := fun d hd hout => store64_frame hd hout }

/-- A yield of the boot state's first thread, with the given value in `t0`. -/
def yieldTrap (t0 : UInt64) : Machine Kernel :=
  { regs := fun r =>
      match r with
      | .sp => 0x80500000
      | .t0 => t0
      | .a7 => 3
      | _ => 0
    csrs := fun c =>
      match c with
      | .mscratch => 0x80200000
      | .mepc => 0x80001000
      | .mcause => 8
    mem := fun _ => 0
    world := bootKernel plainBoot }

theorem syscallHandler_yield {f : TrapFrame} (h : Syscall.ofWord f.a7 = some .yield) (k : Kernel)
    (cur : UInt32) (entry now : UInt64) : ∃ r, syscallHandler k f cur entry now = some r := by
  obtain ⟨sys, hadm, heq⟩ | ⟨-, e, -, heq⟩ := syscallHandler_cases k f cur entry now
  · have hsys : sys = .yield := Option.some.inj (hadm.number.symm.trans h)
    subst hsys
    obtain ⟨e, f', hdone⟩ := finish_done k k f entry now .ok
    exact ⟨_, heq.trans hdone⟩
  · exact ⟨_, heq⟩

theorem yieldTrap_returns (link entry now t0 : UInt64) :
    ∃ mr, syscallCall entry now (atCall link (yieldTrap t0)) = some mr := by
  have hsaved := atCall_saved link (yieldTrap t0)
  have ha0 := atCall_a0 link (yieldTrap t0)
  generalize atCall link (yieldTrap t0) = mc at hsaved ha0
  have hnumber : Syscall.ofWord (frameAt mc.mem (mc.reg .a0)).a7 = some .yield := by
    have hslot : mc.Holds .sp 144 3 := hsaved.regs .a7 (by decide)
    rw [Machine.Holds, Machine.addr, ← ha0] at hslot
    show Syscall.ofWord (load64 mc.mem (mc.reg .a0 + 144)) = some .yield
    rw [show (144 : UInt64) = offset 144 from rfl, hslot]
    rfl
  unfold syscallCall
  split_ifs
  · exact ⟨_, rfl⟩
  · obtain ⟨r, hr⟩ := syscallHandler_yield hnumber mc.world (mc.reg .a1).toUInt32 entry now
    rw [hr]
    exact ⟨_, rfl⟩

/-! ### The interrupted context -/

/-- The interrupted context after a trap: at an environment call every register but
`a0` is back, `a0` is what the handler left in the frame, the trap stack is empty
again and `mepc` is past the call; at any other trap `mepc` stays. -/
structure ContextPreserved (m mr m' : Machine σ) : Prop where
  regs : IsEcall (m.csrs .mcause) → ∀ r, r ≠ .zero → r ≠ .a0 → m'.reg r = m.reg r
  a0 : IsEcall (m.csrs .mcause) → m'.reg .a0 = load64 mr.mem (trapFrame m + 88)
  mscratch : IsEcall (m.csrs .mcause) → m'.csrs .mscratch = m.csrs .mscratch
  mepc : IsEcall (m.csrs .mcause) → m'.csrs .mepc = m.csrs .mepc + 4
  other : ¬ IsEcall (m.csrs .mcause) → m'.csrs .mepc = m.csrs .mepc

theorem Resumed.contextPreserved_iff {m mr m' : Machine σ} (h : Resumed m mr m') :
    ContextPreserved m mr m' ↔ (IsEcall (m.csrs .mcause) → m.reg .t0 = m.reg .sp) := by
  constructor
  · intro hctx hecall
    rw [← hctx.regs hecall .t0 (by decide) (by decide), h.t0]
  · intro heq
    refine { regs := fun hecall r hz ha0 => ?_, a0 := fun _ => h.a0, mscratch := fun _ => h.mscratch,
             mepc := fun hecall => ?_, other := fun hnot => ?_ }
    · by_cases ht0 : r = .t0
      · subst ht0
        rw [h.t0, heq hecall]
      · exact h.regs r hz ha0 ht0
    · rw [h.mepc, if_pos hecall]
    · rw [h.mepc, if_neg hnot]

/-- The trap path preserves the interrupted context exactly when an environment call
finds the same value in `t0` and in the stack pointer. -/
theorem trapEntry_preserves_context_iff {callee : Machine σ → Option (Machine σ)} {link : UInt64}
    {m mr : Machine σ} (hcall : callee (atCall link m) = some mr)
    (habi : AbiReturn (atCall link m) mr) :
    (∃ m', Fuel.Yields (fun fuel => run callee link trapEntry fuel 0 m) m' ∧
      ContextPreserved m mr m') ↔ (IsEcall (m.csrs .mcause) → m.reg .t0 = m.reg .sp) := by
  obtain ⟨m', hyields, hres⟩ := trapEntry_resumed hcall habi
  constructor
  · rintro ⟨m'', hyields', hctx⟩
    rw [hyields'.unique hyields] at hctx
    exact hres.contextPreserved_iff.mp hctx
  · intro heq
    exact ⟨m', hyields, hres.contextPreserved_iff.mpr heq⟩

theorem trapEntry_preserves_context_equal :
    ∃ mr, syscallCall 0 0 (atCall 0x80000100 (yieldTrap 0x80500000)) = some mr ∧
      ∃ m', Fuel.Yields
        (fun fuel => run (syscallCall 0 0) 0x80000100 trapEntry fuel 0 (yieldTrap 0x80500000)) m' ∧
      ContextPreserved (yieldTrap 0x80500000) mr m' := by
  obtain ⟨mr, hmr⟩ := yieldTrap_returns 0x80000100 0 0 0x80500000
  exact ⟨mr, hmr, (trapEntry_preserves_context_iff hmr (syscallCall_abi hmr)).mpr fun _ => rfl⟩

/-- A yield with 7 in `t0` resumes with the stack pointer there. -/
theorem trapEntry_clobbers_t0 :
    IsEcall ((yieldTrap 7).csrs .mcause) ∧
      ∃ mr, syscallCall 0 0 (atCall 0x80000100 (yieldTrap 7)) = some mr ∧
        AbiReturn (atCall 0x80000100 (yieldTrap 7)) mr ∧
        ¬ ∃ m', Fuel.Yields
          (fun fuel => run (syscallCall 0 0) 0x80000100 trapEntry fuel 0 (yieldTrap 7)) m' ∧
          ContextPreserved (yieldTrap 7) mr m' := by
  obtain ⟨mr, hmr⟩ := yieldTrap_returns 0x80000100 0 0 7
  have habi := syscallCall_abi hmr
  refine ⟨by decide, mr, hmr, habi, ?_⟩
  rintro ⟨m', hyields, hctx⟩
  obtain ⟨m'', hyields', hres⟩ := trapEntry_resumed hmr habi
  rw [hyields.unique hyields'] at hctx
  have heq := hres.contextPreserved_iff.mp hctx (by decide)
  exact absurd heq (by decide)

end Moonlight
