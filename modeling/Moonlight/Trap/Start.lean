/-
The code the processor starts in.

Every hart begins at `_start`.  Hart 0 sets up its stack, clears the BSS, points `mtvec` and
`mscratch` at the trap entry and its stack, and calls `kernel_boot`; the others wait in a
loop.  The clearing loop stores whole double words and compares after the store, so it may
go past the end of the BSS by up to seven bytes.

The code is the one of the build without CHERI.  As in `Moonlight.Lib.Riscv` the program
counter counts instructions, `la` and `li` among them, and a branch names the one it goes to.
A control register holds what was written to it last.
-/
import Mathlib.Logic.Function.Iterate
import Moonlight.Lib.Riscv

namespace Moonlight

open Riscv

/-! ### The machine -/

inductive StartCsr where
  | mhartid
  | mtvec
  | mscratch
  | medeleg
  | mideleg
  | mstatus
  deriving DecidableEq, Repr

inductive StartInstr where
  | csrr (rd : Reg) (csr : StartCsr)
  | csrw (csr : StartCsr) (rs : Reg)
  | csrs (csr : StartCsr) (rs : Reg)
  | la (rd : Reg) (symbol : UInt64)
  | li (rd : Reg) (imm : UInt64)
  | addi (rd rs : Reg) (imm : BitVec 12)
  | sd (rs : Reg) (imm : BitVec 12) (base : Reg)
  | bnez (rs : Reg) (target : Nat)
  | beq (rs rs' : Reg) (target : Nat)
  | bltu (rs rs' : Reg) (target : Nat)
  | j (target : Nat)
  | call
  | sfenceVma
  | fenceI
  | wfi

/-- What belongs to one hart. -/
structure StartHart where
  pc : Nat
  regs : Reg → UInt64
  csrs : StartCsr → UInt64

/-- A hart with the memory it shares with the others. -/
structure StartState extends StartHart where
  mem : UInt64 → UInt8

namespace StartState

def reg (s : StartState) (r : Reg) : UInt64 := if r = .zero then 0 else s.regs r

def setReg (s : StartState) (r : Reg) (v : UInt64) : StartState :=
  { s with pc := s.pc + 1, regs := Function.update s.regs r v }

def setCsr (s : StartState) (c : StartCsr) (v : UInt64) : StartState :=
  { s with pc := s.pc + 1, csrs := Function.update s.csrs c v }

def branch (s : StartState) (taken : Bool) (target : Nat) : StartState :=
  { s with pc := if taken then target else s.pc + 1 }

end StartState

/-- One instruction; a call leaves the code. -/
def startExec (s : StartState) : StartInstr → Option StartState
  | .csrr rd csr => some (s.setReg rd (s.csrs csr))
  | .csrw csr rs => some (s.setCsr csr (s.reg rs))
  | .csrs csr rs => some (s.setCsr csr (s.csrs csr ||| s.reg rs))
  | .la rd symbol => some (s.setReg rd symbol)
  | .li rd imm => some (s.setReg rd imm)
  | .addi rd rs imm => some (s.setReg rd (s.reg rs + offset imm))
  | .sd rs imm base =>
      some { s with pc := s.pc + 1, mem := store64 s.mem (s.reg base + offset imm) (s.reg rs) }
  | .bnez rs target => some (s.branch (s.reg rs != 0) target)
  | .beq rs rs' target => some (s.branch (s.reg rs == s.reg rs') target)
  | .bltu rs rs' target => some (s.branch (decide (s.reg rs < s.reg rs')) target)
  | .j target => some { s with pc := target }
  | .call => none
  | .sfenceVma => some { s with pc := s.pc + 1 }
  | .fenceI => some { s with pc := s.pc + 1 }
  | .wfi => some { s with pc := s.pc + 1 }

/-- The symbols `start.S` takes from the linker. -/
structure StartLayout where
  globalPointer : UInt64
  stackTop : UInt64
  bss : UInt64
  bssEnd : UInt64
  trapEntry : UInt64
  trapStackTop : UInt64

/-- `_start`, with `.Lbss_clear` at 7, `.Lbss_done` at 10 and `.Lpark` at 21. -/
def startCode (l : StartLayout) : List StartInstr :=
  [.csrr .t0 .mhartid,
   .bnez .t0 21,
   .la .gp l.globalPointer,
   .la .sp l.stackTop,
   .la .t0 l.bss,
   .la .t1 l.bssEnd,
   .beq .t0 .t1 10,
   .sd .zero 0 .t0,
   .addi .t0 .t0 8,
   .bltu .t0 .t1 7,
   .la .t0 l.trapEntry,
   .csrw .mtvec .t0,
   .la .t0 l.trapStackTop,
   .csrw .mscratch .t0,
   .csrw .medeleg .zero,
   .csrw .mideleg .zero,
   .li .t0 ((1 : UInt64) <<< 13 ||| (1 : UInt64) <<< 15),
   .csrs .mstatus .t0,
   .sfenceVma,
   .fenceI,
   .call,
   .wfi,
   .j 21]

/-- The index of the call of `kernel_boot`. -/
def bootCall : Nat := 20

def startStep (l : StartLayout) (s : StartState) : Option StartState :=
  (startCode l)[s.pc]?.bind (startExec s)

/-- The state after one step; a hart that has left for `kernel_boot` stays at the call. -/
def startNext (l : StartLayout) (s : StartState) : StartState := (startStep l s).getD s

/-! ### The harts together -/

structure StartSystem (ι : Type) where
  harts : ι → StartHart
  mem : UInt64 → UInt8

variable {ι : Type}

namespace StartSystem

/-- The machine as hart `i` sees it. -/
def view (h : StartSystem ι) (i : ι) : StartState := { toStartHart := h.harts i, mem := h.mem }

/-- Hart `i` executes its next instruction. -/
def step [DecidableEq ι] (l : StartLayout) (h : StartSystem ι) (i : ι) : StartSystem ι :=
  { harts := Function.update h.harts i (startNext l (h.view i)).toStartHart,
    mem := (startNext l (h.view i)).mem }

/-- The harts execute in the order of the list. -/
def run [DecidableEq ι] (l : StartLayout) (h : StartSystem ι) (order : List ι) : StartSystem ι :=
  order.foldl (step l) h

end StartSystem

variable {l : StartLayout} {s : StartState}

/-! ### Hart 0 alone -/

/-- The double words the loop stores. -/
def bssWords (l : StartLayout) : Nat := (l.bssEnd.toNat - l.bss.toNat + 7) / 8

/-- Memory with the bytes from `a` on up to `b` cleared. -/
def cleared (mem : UInt64 → UInt8) (a b : Nat) : UInt64 → UInt8 :=
  fun x => if a ≤ x.toNat ∧ x.toNat < b then 0 else mem x

/-- The linker's symbols are in order, and the loop's pointer does not wrap. -/
structure StartLayout.Sound (l : StartLayout) : Prop where
  ordered : l.bss.toNat ≤ l.bssEnd.toNat
  bounded : l.bssEnd.toNat + 8 ≤ 2 ^ 64

/-- The steps of hart 0 up to the call. -/
def startSteps (l : StartLayout) : Nat := 17 + 3 * bssWords l

/-- What hart 0 has set up when it calls `kernel_boot`. -/
structure Booted (l : StartLayout) (s s' : StartState) : Prop where
  atCall : s'.pc = bootCall
  sp : s'.reg .sp = l.stackTop
  gp : s'.reg .gp = l.globalPointer
  mtvec : s'.csrs .mtvec = l.trapEntry
  mscratch : s'.csrs .mscratch = l.trapStackTop
  medeleg : s'.csrs .medeleg = 0
  mideleg : s'.csrs .mideleg = 0
  mstatus : s'.csrs .mstatus = s.csrs .mstatus ||| ((1 : UInt64) <<< 13 ||| (1 : UInt64) <<< 15)
  mem : s'.mem = cleared s.mem l.bss.toNat (l.bss.toNat + 8 * bssWords l)

theorem cleared_self (mem : UInt64 → UInt8) (a : Nat) : cleared mem a a = mem := by
  funext x
  exact if_neg (by omega)

/-- One store of zero moves the end of the cleared bytes up by eight. -/
theorem store64_cleared (mem : UInt64 → UInt8) {a : Nat} {p : UInt64} (ha : a ≤ p.toNat)
    (hp : p.toNat + 8 ≤ 2 ^ 64) :
    store64 (cleared mem a p.toNat) p 0 = cleared mem a (p.toNat + 8) := by
  funext x
  have hx := x.toNat_lt
  have hsub : (x - p).toNat = (2 ^ 64 - p.toNat + x.toNat) % 2 ^ 64 := UInt64.toNat_sub ..
  by_cases hin : p.toNat ≤ x.toNat ∧ x.toNat < p.toNat + 8
  · have hlt : (x - p).toNat < 8 := by omega
    have hmem : a ≤ x.toNat ∧ x.toNat < p.toNat + 8 := by omega
    simp only [store64, storeBytes, cleared, hlt, hmem, if_true, UInt64.toNat_zero, Nat.zero_div]
    rfl
  · have hlt : ¬ (x - p).toNat < 8 := by omega
    have hiff : a ≤ x.toNat ∧ x.toNat < p.toNat ↔ a ≤ x.toNat ∧ x.toNat < p.toNat + 8 := by omega
    simp only [store64, storeBytes, cleared, hlt, if_false, hiff]

/-- One pass of the loop. -/
theorem startNext_clear (regs : Reg → UInt64) (csrs : StartCsr → UInt64) (mem : UInt64 → UInt8) :
    (startNext l)^[3] ⟨⟨7, regs, csrs⟩, mem⟩ =
      ⟨⟨if regs .t0 + 8 < regs .t1 then 7 else 10, Function.update regs .t0 (regs .t0 + 8), csrs⟩,
        store64 mem (regs .t0) 0⟩ := by
  have hstore : startNext l ⟨⟨7, regs, csrs⟩, mem⟩ =
      ⟨⟨8, regs, csrs⟩, store64 mem (regs .t0 + offset 0) 0⟩ := rfl
  have hzero : regs .t0 + offset 0 = regs .t0 := UInt64.add_zero _
  have hadd : startNext l ⟨⟨8, regs, csrs⟩, store64 mem (regs .t0) 0⟩ =
      ⟨⟨9, Function.update regs .t0 (regs .t0 + 8), csrs⟩, store64 mem (regs .t0) 0⟩ := rfl
  have hback : ∀ regs' mem', startNext l ⟨⟨9, regs', csrs⟩, mem'⟩ =
      ⟨⟨if decide (regs' .t0 < regs' .t1) = true then 7 else 10, regs', csrs⟩, mem'⟩ :=
    fun _ _ => rfl
  rw [Function.iterate_succ_apply, hstore, hzero, Function.iterate_succ_apply, hadd,
    Function.iterate_succ_apply, hback, Function.iterate_zero_apply]
  have ht1 := Function.update_of_ne (show Reg.t1 ≠ .t0 by decide) (regs .t0 + 8) regs
  simp only [decide_eq_true_iff, Function.update_self, ht1]

theorem toNat_add_eight {p : UInt64} (h : p.toNat + 8 < 2 ^ 64) :
    (p + 8).toNat = p.toNat + 8 := by
  rw [UInt64.toNat_add]
  exact Nat.mod_eq_of_lt h

/-- The loop with `k + 1` double words to go. -/
theorem startNext_loop (hend : l.bssEnd.toNat + 8 ≤ 2 ^ 64) {a : Nat} (mem : UInt64 → UInt8)
    (csrs : StartCsr → UInt64) {k : Nat} (regs : Reg → UInt64) (ht1 : regs .t1 = l.bssEnd)
    (ha : a ≤ (regs .t0).toNat) (hmore : (regs .t0).toNat + 8 * k < l.bssEnd.toNat)
    (hlast : l.bssEnd.toNat ≤ (regs .t0).toNat + 8 * (k + 1)) :
    ∃ regs', (startNext l)^[3 * (k + 1)] ⟨⟨7, regs, csrs⟩, cleared mem a (regs .t0).toNat⟩ =
        ⟨⟨10, regs', csrs⟩, cleared mem a ((regs .t0).toNat + 8 * (k + 1))⟩ ∧
      regs' .sp = regs .sp ∧ regs' .gp = regs .gp := by
  induction k generalizing regs with
  | zero =>
    have hnext : (regs .t0 + 8).toNat = (regs .t0).toNat + 8 := toNat_add_eight (by omega)
    have hstop : ¬ regs .t0 + 8 < regs .t1 := by
      rw [ht1, UInt64.lt_iff_toNat_lt]
      omega
    refine ⟨Function.update regs .t0 (regs .t0 + 8), ?_, rfl, rfl⟩
    rw [startNext_clear, store64_cleared mem ha (by omega), if_neg hstop]
  | succ k ih =>
    have hnext : (regs .t0 + 8).toNat = (regs .t0).toNat + 8 := toNat_add_eight (by omega)
    have hagain : regs .t0 + 8 < regs .t1 := by
      rw [ht1, UInt64.lt_iff_toNat_lt]
      omega
    have hptr : Function.update regs .t0 (regs .t0 + 8) .t0 = regs .t0 + 8 :=
      Function.update_self ..
    have hrest := ih (Function.update regs .t0 (regs .t0 + 8)) ht1
    rw [hptr, hnext] at hrest
    obtain ⟨regs', hrun, hsp, hgp⟩ := hrest (by omega) (by omega) (by omega)
    refine ⟨regs', ?_, hsp, hgp⟩
    rw [Nat.mul_succ, Function.iterate_add_apply, startNext_clear,
      store64_cleared mem ha (by omega), if_pos hagain, hrun]
    congr 2
    omega

/-- The registers once the symbols are loaded. -/
def startRegs (l : StartLayout) (regs : Reg → UInt64) : Reg → UInt64 :=
  Function.update (Function.update (Function.update (Function.update regs .gp l.globalPointer)
    .sp l.stackTop) .t0 l.bss) .t1 l.bssEnd

/-- From the head of `_start` to the test whether the BSS is empty. -/
theorem startNext_head (regs : Reg → UInt64) {csrs : StartCsr → UInt64} (mem : UInt64 → UInt8)
    (hhart : csrs .mhartid = 0) :
    (startNext l)^[7] ⟨⟨0, regs, csrs⟩, mem⟩ =
      ⟨⟨if l.bss = l.bssEnd then 10 else 7, startRegs l (Function.update regs .t0 0), csrs⟩,
        mem⟩ := by
  have hid : startNext l ⟨⟨0, regs, csrs⟩, mem⟩ =
      ⟨⟨1, Function.update regs .t0 (csrs .mhartid), csrs⟩, mem⟩ := rfl
  have hgo : startNext l ⟨⟨1, Function.update regs .t0 0, csrs⟩, mem⟩ =
      ⟨⟨2, Function.update regs .t0 0, csrs⟩, mem⟩ := rfl
  have hload : ∀ regs', (startNext l)^[4] ⟨⟨2, regs', csrs⟩, mem⟩ =
      ⟨⟨6, startRegs l regs', csrs⟩, mem⟩ := fun _ => rfl
  have htest : ∀ regs', startNext l ⟨⟨6, startRegs l regs', csrs⟩, mem⟩ =
      ⟨⟨if (l.bss == l.bssEnd) = true then 10 else 7, startRegs l regs', csrs⟩, mem⟩ :=
    fun _ => rfl
  rw [Function.iterate_succ_apply, hid, hhart, Function.iterate_succ_apply, hgo,
    Function.iterate_succ_apply' _ 4, hload, htest]
  simp only [beq_iff_eq]

/-- Hart 0 before it sets up its traps. -/
theorem startNext_bss (hl : l.Sound) (regs : Reg → UInt64) {csrs : StartCsr → UInt64}
    (mem : UInt64 → UInt8) (hhart : csrs .mhartid = 0) :
    ∃ regs', (startNext l)^[7 + 3 * bssWords l] ⟨⟨0, regs, csrs⟩, mem⟩ =
        ⟨⟨10, regs', csrs⟩, cleared mem l.bss.toNat (l.bss.toNat + 8 * bssWords l)⟩ ∧
      regs' .sp = l.stackTop ∧ regs' .gp = l.globalPointer := by
  rw [Nat.add_comm 7, Function.iterate_add_apply, startNext_head regs mem hhart]
  by_cases hempty : l.bss = l.bssEnd
  · have hwords : bssWords l = 0 := by simp [bssWords, hempty]
    rw [if_pos hempty, hwords]
    refine ⟨startRegs l (Function.update regs .t0 0), ?_, rfl, rfl⟩
    rw [Nat.mul_zero, Nat.add_zero, cleared_self, Function.iterate_zero_apply]
  · have hlt : l.bss.toNat < l.bssEnd.toNat :=
      Nat.lt_of_le_of_ne hl.ordered fun h => hempty (UInt64.toNat_inj.mp h)
    obtain ⟨k, hk⟩ : ∃ k, bssWords l = k + 1 := ⟨bssWords l - 1, by unfold bssWords; omega⟩
    have hbounds : l.bss.toNat + 8 * k < l.bssEnd.toNat ∧
        l.bssEnd.toNat ≤ l.bss.toNat + 8 * (k + 1) := by
      unfold bssWords at hk
      omega
    obtain ⟨regs', hrun, hsp, hgp⟩ := startNext_loop hl.bounded (a := l.bss.toNat) mem csrs
      (k := k) (startRegs l (Function.update regs .t0 0)) rfl (Nat.le_refl _)
      hbounds.1 hbounds.2
    rw [if_neg hempty, hk]
    refine ⟨regs', ?_, hsp, hgp⟩
    have hptr : startRegs l (Function.update regs .t0 0) .t0 = l.bss := rfl
    rwa [hptr, cleared_self] at hrun

/-- The control registers once hart 0 has set up its traps. -/
def startCsrs (l : StartLayout) (csrs : StartCsr → UInt64) : StartCsr → UInt64
  | .mhartid => csrs .mhartid
  | .mtvec => l.trapEntry
  | .mscratch => l.trapStackTop
  | .medeleg => 0
  | .mideleg => 0
  | .mstatus => csrs .mstatus ||| ((1 : UInt64) <<< 13 ||| (1 : UInt64) <<< 15)

/-- From `.Lbss_done` to the call. -/
theorem startNext_traps (regs : Reg → UInt64) (csrs : StartCsr → UInt64) (mem : UInt64 → UInt8) :
    ∃ t0, (startNext l)^[10] ⟨⟨10, regs, csrs⟩, mem⟩ =
      ⟨⟨bootCall, Function.update regs .t0 t0, startCsrs l csrs⟩, mem⟩ := by
  have hvector : ∀ regs csrs, (startNext l)^[2] ⟨⟨10, regs, csrs⟩, mem⟩ =
      ⟨⟨12, Function.update regs .t0 l.trapEntry, Function.update csrs .mtvec l.trapEntry⟩,
        mem⟩ := fun _ _ => rfl
  have hstack : ∀ regs csrs, (startNext l)^[2] ⟨⟨12, regs, csrs⟩, mem⟩ =
      ⟨⟨14, Function.update regs .t0 l.trapStackTop,
        Function.update csrs .mscratch l.trapStackTop⟩, mem⟩ := fun _ _ => rfl
  have hdeleg : ∀ regs csrs, (startNext l)^[2] ⟨⟨14, regs, csrs⟩, mem⟩ =
      ⟨⟨16, regs, Function.update (Function.update csrs .medeleg 0) .mideleg 0⟩, mem⟩ :=
    fun _ _ => rfl
  have hstatus : ∀ regs csrs, (startNext l)^[2] ⟨⟨16, regs, csrs⟩, mem⟩ =
      ⟨⟨18, Function.update regs .t0 ((1 : UInt64) <<< 13 ||| (1 : UInt64) <<< 15),
        Function.update csrs .mstatus
          (csrs .mstatus ||| ((1 : UInt64) <<< 13 ||| (1 : UInt64) <<< 15))⟩, mem⟩ :=
    fun _ _ => rfl
  have hfence : ∀ regs csrs, (startNext l)^[2] ⟨⟨18, regs, csrs⟩, mem⟩ =
      ⟨⟨bootCall, regs, csrs⟩, mem⟩ := fun _ _ => rfl
  refine ⟨(1 : UInt64) <<< 13 ||| (1 : UInt64) <<< 15, ?_⟩
  rw [Function.iterate_add_apply _ 8 2, hvector, Function.iterate_add_apply _ 6 2, hstack,
    Function.iterate_add_apply _ 4 2, hdeleg, Function.iterate_add_apply _ 2 2, hstatus, hfence,
    Function.update_idem, Function.update_idem]
  congr 2
  funext c
  cases c <;> rfl

/-- Hart 0 by itself. -/
theorem booted_startNext (hl : l.Sound) (hpc : s.pc = 0) (hhart : s.csrs .mhartid = 0) :
    Booted l s ((startNext l)^[startSteps l] s) := by
  obtain ⟨⟨pc, regs, csrs⟩, mem⟩ := s
  cases hpc
  obtain ⟨regs', hrun, hsp, hgp⟩ := startNext_bss hl regs mem hhart
  have hsteps : startSteps l = 10 + (7 + 3 * bssWords l) := by
    unfold startSteps
    omega
  obtain ⟨t0, htraps⟩ := startNext_traps (l := l) regs' csrs
    (cleared mem l.bss.toNat (l.bss.toNat + 8 * bssWords l))
  rw [hsteps, Function.iterate_add_apply, hrun, htraps]
  exact ⟨rfl, hsp, hgp, rfl, rfl, rfl, rfl, rfl, rfl⟩

/-! ### Every order of the harts -/

/-- A hart that is not hart 0 goes from the test to the waiting loop. -/
structure Parked (hart : StartHart) : Prop where
  other : hart.csrs .mhartid ≠ 0
  waits : hart.pc = 0 ∨ hart.pc = 1 ∧ hart.regs .t0 = hart.csrs .mhartid ∨ hart.pc = 21 ∨
    hart.pc = 22

theorem Parked.not_atCall {hart : StartHart} (h : Parked hart) : hart.pc ≠ bootCall := by
  have hwaits := h.waits
  unfold bootCall
  omega

theorem Parked.startNext (h : Parked s.toStartHart) :
    Parked (startNext l s).toStartHart ∧ (startNext l s).mem = s.mem := by
  obtain ⟨⟨pc, regs, csrs⟩, mem⟩ := s
  obtain ⟨hother, hwaits⟩ := h
  rcases hwaits with hpc | ⟨hpc, ht0⟩ | hpc | hpc
  · cases hpc
    exact ⟨⟨hother, .inr (.inl ⟨rfl, rfl⟩)⟩, rfl⟩
  · cases hpc
    have hne : (regs .t0 != 0) = true := bne_iff_ne.mpr fun h0 => hother (ht0.symm.trans h0)
    have hjump : Moonlight.startNext l ⟨⟨1, regs, csrs⟩, mem⟩ =
        ⟨⟨if (regs .t0 != 0) = true then 21 else 2, regs, csrs⟩, mem⟩ := rfl
    rw [hjump, if_pos hne]
    exact ⟨⟨hother, .inr (.inr (.inl rfl))⟩, rfl⟩
  · cases hpc
    exact ⟨⟨hother, .inr (.inr (.inr rfl))⟩, rfl⟩
  · cases hpc
    exact ⟨⟨hother, .inr (.inr (.inl rfl))⟩, rfl⟩

/-- An instruction that stores, stores zero. -/
def StartInstr.storesZero : StartInstr → Bool
  | .sd rs _ _ => rs = .zero
  | _ => true

theorem startExec_mem {i : StartInstr} {s' : StartState} (hi : i.storesZero = true)
    (hexec : startExec s i = some s') (a : UInt64) : s'.mem a = s.mem a ∨ s'.mem a = 0 := by
  cases i with
  | sd rs imm base =>
    have hrs : rs = .zero := of_decide_eq_true hi
    cases hexec
    cases hrs
    have hzero : s.reg .zero = 0 := rfl
    simp only [hzero, store64, storeBytes, UInt64.toNat_zero, Nat.zero_div]
    split
    · exact .inr rfl
    · exact .inl rfl
  | call => cases hexec
  | _ =>
    cases hexec
    exact .inl rfl

theorem startNext_mem (l : StartLayout) (s : StartState) (a : UInt64) :
    (startNext l s).mem a = s.mem a ∨ (startNext l s).mem a = 0 := by
  have hcode : (startCode l).all StartInstr.storesZero = true := rfl
  cases hstep : startStep l s with
  | none => exact .inl (by rw [startNext, hstep, Option.getD_none])
  | some s' =>
    obtain ⟨i, hfetch, hexec⟩ := Option.bind_eq_some_iff.mp hstep
    have hi := List.all_eq_true.mp hcode i (List.mem_of_getElem? hfetch)
    rw [startNext, hstep, Option.getD_some]
    exact startExec_mem hi hexec a

theorem startNext_iterate_mem (l : StartLayout) (s : StartState) (n : Nat) (a : UInt64) :
    ((startNext l)^[n] s).mem a = s.mem a ∨ ((startNext l)^[n] s).mem a = 0 := by
  induction n with
  | zero => exact .inl rfl
  | succ n ih =>
    rw [Function.iterate_succ_apply']
    rcases startNext_mem l ((startNext l)^[n] s) a with hsame | hzero
    · rwa [hsame]
    · exact .inr hzero

/-- A hart at the call stays there. -/
theorem startNext_iterate_of_atCall (hpc : s.pc = bootCall) (n : Nat) :
    (startNext l)^[n] s = s := by
  obtain ⟨⟨pc, regs, csrs⟩, mem⟩ := s
  cases hpc
  exact Function.iterate_fixed rfl n

/-- What is not cleared in the end is never written: every store is one of zero, so a byte that
was not zero would show it. -/
theorem startNext_iterate_outside (hbooted : Booted l s ((startNext l)^[startSteps l] s)) (n : Nat)
    {a : UInt64} (hout : a.toNat < l.bss.toNat ∨ l.bss.toNat + 8 * bssWords l ≤ a.toNat) :
    ((startNext l)^[n] s).mem a = s.mem a := by
  have hlast : ((startNext l)^[startSteps l] s).mem a = s.mem a := by
    rw [hbooted.mem, cleared]
    exact if_neg (by omega)
  rcases Nat.le_total n (startSteps l) with hle | hle
  · rw [← Nat.sub_add_cancel hle, Function.iterate_add_apply] at hlast
    rcases startNext_iterate_mem l s n a with hsame | hzero
    · exact hsame
    · rcases startNext_iterate_mem l ((startNext l)^[n] s) (startSteps l - n) a with hkept | hend
      · exact hkept.symm.trans hlast
      · rw [hzero, ← hlast, hend]
  · rw [← Nat.sub_add_cancel hle, Function.iterate_add_apply,
      startNext_iterate_of_atCall hbooted.atCall, hlast]

/-- In every order hart 0 sees what it would see alone. -/
theorem view_run [DecidableEq ι] {h : StartSystem ι} {b : ι}
    (hparked : ∀ i, i ≠ b → Parked (h.harts i)) (order : List ι) :
    (h.run l order).view b = (startNext l)^[order.count b] (h.view b) ∧
      ∀ i, i ≠ b → Parked ((h.run l order).harts i) := by
  induction order generalizing h with
  | nil => exact ⟨rfl, hparked⟩
  | cons j order ih =>
    have hnext : ∀ i, i ≠ b → Parked ((h.step l j).harts i) := by
      intro i hi
      by_cases hij : i = j
      · have hpark := (Parked.startNext (l := l) (s := h.view i) (hparked i hi)).1
        rw [hij] at hpark ⊢
        simpa only [StartSystem.step, Function.update_self] using hpark
      · simpa only [StartSystem.step, Function.update_of_ne hij] using hparked i hi
    obtain ⟨hview, hrest⟩ := ih hnext
    refine ⟨hview.trans ?_, hrest⟩
    by_cases hj : j = b
    · have hstep : (h.step l b).view b = startNext l (h.view b) := by
        simp only [StartSystem.view, StartSystem.step, Function.update_self]
      rw [hj, hstep, List.count_cons_self, Function.iterate_succ_apply]
    · have hmem : (startNext l (h.view j)).mem = h.mem :=
        (Parked.startNext (s := h.view j) (hparked j hj)).2
      have hstep : (h.step l j).view b = h.view b := by
        simp only [StartSystem.view, StartSystem.step, Function.update_of_ne (Ne.symm hj)]
        rw [← StartSystem.view, hmem]
      rw [hstep, List.count_cons_of_ne hj]

/-- However the harts take turns, only hart 0 comes to the call of `kernel_boot`; it comes
there after a fixed number of its own steps, with the stack, the trap entry and the BSS set
up.  No hart ever changes a byte outside the double words of the BSS. -/
theorem only_hart_zero_boots [DecidableEq ι] (l : StartLayout) (h : StartSystem ι) (b : ι)
    (hl : l.Sound) (hpc : ∀ i, (h.harts i).pc = 0)
    (hid : ∀ i, (h.harts i).csrs .mhartid = 0 ↔ i = b) (order : List ι) :
    (∀ i, ((h.run l order).harts i).pc = bootCall →
      i = b ∧ Booted l (h.view b) ((h.run l order).view b)) ∧
    (startSteps l ≤ order.count b → ((h.run l order).harts b).pc = bootCall) ∧
    ∀ a : UInt64, a.toNat < l.bss.toNat ∨ l.bss.toNat + 8 * bssWords l ≤ a.toNat →
      (h.run l order).mem a = h.mem a := by
  have hparked : ∀ i, i ≠ b → Parked (h.harts i) :=
    fun i hi => ⟨fun h0 => hi ((hid i).mp h0), .inl (hpc i)⟩
  have hbooted : Booted l (h.view b) ((startNext l)^[startSteps l] (h.view b)) :=
    booted_startNext hl (hpc b) ((hid b).mpr rfl)
  obtain ⟨hview, hrest⟩ := view_run (l := l) hparked order
  refine ⟨fun i hcall => ?_, fun hcount => ?_, fun a hout => ?_⟩
  · by_cases hi : i = b
    · -- At the call nothing moves any more, so the state there is the one of the full run.
      have hat : ((startNext l)^[order.count b] (h.view b)).pc = bootCall := by
        rw [← hview, ← hi]
        exact hcall
      have hsame : (startNext l)^[startSteps l] (h.view b) =
          (startNext l)^[order.count b] (h.view b) := by
        rcases Nat.le_total (order.count b) (startSteps l) with hle | hle
        · rw [← Nat.sub_add_cancel hle, Function.iterate_add_apply,
            startNext_iterate_of_atCall hat]
        · rw [← Nat.sub_add_cancel hle, Function.iterate_add_apply,
            startNext_iterate_of_atCall hbooted.atCall]
      rw [hsame, ← hview] at hbooted
      exact ⟨hi, hbooted⟩
    · exact absurd hcall (hrest i hi).not_atCall
  · have hfull : (h.run l order).view b = (startNext l)^[startSteps l] (h.view b) := by
      rw [hview, ← Nat.sub_add_cancel hcount, Function.iterate_add_apply,
        startNext_iterate_of_atCall hbooted.atCall]
    rw [← hfull] at hbooted
    exact hbooted.atCall
  · have hmem := startNext_iterate_outside hbooted (order.count b) hout
    rwa [← hview] at hmem

/-- Two harts and a BSS of twelve bytes. -/
def twoHarts : StartSystem Bool where
  harts i := { pc := 0, regs := fun _ => 1, csrs := fun _ => if i then 1 else 0 }
  mem := fun _ => 7

def smallLayout : StartLayout where
  globalPointer := 0x80002800
  stackTop := 0x8000a000
  bss := 0x80001000
  bssEnd := 0x8000100c
  trapEntry := 0x80000100
  trapStackTop := 0x80012000

theorem only_hart_zero_boots_two :
    smallLayout.Sound ∧ (∀ i, (twoHarts.harts i).pc = 0) ∧
    (∀ i, (twoHarts.harts i).csrs .mhartid = 0 ↔ i = false) ∧
    Booted smallLayout (twoHarts.view false)
      ((twoHarts.run smallLayout (List.replicate 23 [false, true]).flatten).view false) := by
  have hl : smallLayout.Sound := ⟨by decide, by decide⟩
  have hid : ∀ i, (twoHarts.harts i).csrs .mhartid = 0 ↔ i = false := by decide
  have hmain := only_hart_zero_boots smallLayout twoHarts false hl (fun _ => rfl) hid
    (List.replicate 23 [false, true]).flatten
  have hcount : startSteps smallLayout ≤
      (List.replicate 23 [false, true]).flatten.count false := by decide
  exact ⟨hl, fun _ => rfl, hid, (hmain.1 false (hmain.2.1 hcount)).2⟩

end Moonlight
