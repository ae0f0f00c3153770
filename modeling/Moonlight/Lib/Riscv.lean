/-
A fragment of the 64-bit RISC-V machine.

Memory is byte addressed and wraps at `2 ^ 64`; a double word is stored with its
low byte first and at any alignment.  The program counter counts instructions
from the start of the code, and a branch carries its distance in instructions.

`call` runs a function outside the code, which is a parameter: it gets the whole
machine, together with a state `world` that the code itself does not address,
and it may have no result.

A block of straight code is folded over the machine by `line`.  Saving registers
to a table of slots and loading them back are such blocks, and what they do to
memory and to the registers is stated once for every table.
-/
import Mathlib.Algebra.Group.Nat.Defs
import Mathlib.Data.Nat.Basic
import Mathlib.Logic.Function.Basic
import Moonlight.Lib.Fuel

namespace Riscv

/-! ### Bytes and double words -/

/-- The number in the `n` bytes from `a` on, low byte first. -/
def loadBytes (mem : UInt64 → UInt8) (a : UInt64) : Nat → Nat
  | 0 => 0
  | n + 1 => (mem a).toNat + 256 * loadBytes mem (a + 1) n

/-- The low `n` bytes of `v` written from `a` on. -/
def storeBytes (mem : UInt64 → UInt8) (a : UInt64) (n v : Nat) : UInt64 → UInt8 :=
  fun x => if (x - a).toNat < n then UInt8.ofNat (v / 256 ^ (x - a).toNat) else mem x

def load64 (mem : UInt64 → UInt8) (a : UInt64) : UInt64 := UInt64.ofNat (loadBytes mem a 8)

def store64 (mem : UInt64 → UInt8) (a v : UInt64) : UInt64 → UInt8 := storeBytes mem a 8 v.toNat

theorem add_ofNat_succ (a : UInt64) (i : Nat) :
    a + UInt64.ofNat i + 1 = a + UInt64.ofNat (i + 1) := by
  rw [UInt64.ofNat_add, UInt64.add_assoc]
  rfl

theorem toNat_offset (a : UInt64) {i : Nat} (hi : i < 2 ^ 64) :
    (a + UInt64.ofNat i - a).toNat = i := by
  rw [UInt64.add_comm, UInt64.add_sub_cancel, UInt64.toNat_ofNat', Nat.mod_eq_of_lt hi]

theorem loadBytes_storeBytes (mem : UInt64 → UInt8) (a : UInt64) (v : Nat) {i j n : Nat}
    (hij : i + j ≤ n) (hn : n ≤ 2 ^ 64) :
    loadBytes (storeBytes mem a n v) (a + UInt64.ofNat i) j = v / 256 ^ i % 256 ^ j := by
  induction j generalizing i with
  | zero => rw [loadBytes, Nat.pow_zero, Nat.mod_one]
  | succ j ih =>
    have hbyte : (storeBytes mem a n v (a + UInt64.ofNat i)).toNat = v / 256 ^ i % 256 := by
      have hoff : (a + UInt64.ofNat i - a).toNat = i := toNat_offset a (by omega)
      have hlt : i < n := by omega
      simp only [storeBytes, hoff, hlt, if_true, UInt8.toNat_ofNat']
    have hrest := ih (i := i + 1) (by omega)
    rw [loadBytes, hbyte, add_ofNat_succ, hrest, Nat.pow_succ 256 i, ← Nat.div_div_eq_div_mul,
      Nat.pow_succ', Nat.mod_mul]

theorem loadBytes_congr {mem mem' : UInt64 → UInt8} {a : UInt64} {n : Nat}
    (h : ∀ i, i < n → mem' (a + UInt64.ofNat i) = mem (a + UInt64.ofNat i)) :
    loadBytes mem' a n = loadBytes mem a n := by
  have hshift : ∀ j i, i + j ≤ n →
      loadBytes mem' (a + UInt64.ofNat i) j = loadBytes mem (a + UInt64.ofNat i) j := by
    intro j
    induction j with
    | zero => intro i _; rfl
    | succ j ih =>
      intro i hij
      rw [loadBytes, loadBytes, h i (by omega), add_ofNat_succ, ih (i + 1) (by omega)]
  have hzero := hshift n 0 (by omega)
  simpa using hzero

theorem load64_store64 (mem : UInt64 → UInt8) (a v : UInt64) : load64 (store64 mem a v) a = v := by
  have hload := loadBytes_storeBytes mem a v.toNat (i := 0) (j := 8) (n := 8) (by omega) (by omega)
  have hlt : v.toNat < 256 ^ 8 := v.toNat_lt
  rw [show UInt64.ofNat 0 = 0 from rfl, UInt64.add_zero, Nat.pow_zero, Nat.div_one,
    Nat.mod_eq_of_lt hlt] at hload
  rw [load64, store64, hload, UInt64.ofNat_toNat]

theorem load64_congr {mem mem' : UInt64 → UInt8} {a : UInt64}
    (h : ∀ i, i < 8 → mem' (a + UInt64.ofNat i) = mem (a + UInt64.ofNat i)) :
    load64 mem' a = load64 mem a := by
  rw [load64, load64, loadBytes_congr h]

/-- Two double words that share no byte. -/
def Apart (a b : UInt64) : Prop := 8 ≤ (b - a).toNat ∧ 8 ≤ (a - b).toNat

instance (a b : UInt64) : Decidable (Apart a b) := inferInstanceAs (Decidable (_ ∧ _))

theorem load64_store64_of_apart {a b : UInt64} (h : Apart a b) (mem : UInt64 → UInt8)
    (v : UInt64) : load64 (store64 mem a v) b = load64 mem b := by
  refine load64_congr fun i hi => ?_
  have hoff : ¬ (b + UInt64.ofNat i - a).toNat < 8 := by
    have hlow := h.1
    have hhigh := h.2
    have hneg : (a - b).toNat = 2 ^ 64 - (b - a).toNat := by
      have hsub : a - b = 0 - (b - a) := by rw [UInt64.zero_sub, UInt64.neg_sub]
      rw [hsub, UInt64.toNat_sub]
      have hlt : (b - a).toNat < 2 ^ 64 := (b - a).toNat_lt
      show (2 ^ 64 - (b - a).toNat + 0) % 2 ^ 64 = _
      rw [Nat.add_zero, Nat.mod_eq_of_lt (by omega)]
    have hcomm : b + UInt64.ofNat i - a = (b - a) + UInt64.ofNat i := by grind
    rw [hneg] at hhigh
    rw [hcomm, UInt64.toNat_add, UInt64.toNat_ofNat', Nat.mod_eq_of_lt (show i < 2 ^ 64 by omega)]
    show ¬ ((b - a).toNat + i) % 2 ^ 64 < 8
    rw [Nat.mod_eq_of_lt (by omega)]
    omega
  simp only [store64, storeBytes, hoff, if_false]

/-- Double words at two offsets from one base are apart when the offsets are. -/
theorem Apart.offset {o o' : UInt64} (h : Apart o o') (base : UInt64) :
    Apart (base + o) (base + o') := by
  have hcancel : ∀ x y : UInt64, base + x - (base + y) = x - y := fun x y => by grind
  exact ⟨by rw [hcancel]; exact h.1, by rw [hcancel]; exact h.2⟩

/-! ### Registers and instructions -/

/-- The integer registers under their ABI names. -/
inductive Reg where
  | zero | ra | sp | gp | tp
  | t0 | t1 | t2
  | s0 | s1
  | a0 | a1 | a2 | a3 | a4 | a5 | a6 | a7
  | s2 | s3 | s4 | s5 | s6 | s7 | s8 | s9 | s10 | s11
  | t3 | t4 | t5 | t6
  deriving DecidableEq, Repr

inductive Csr where
  | mscratch
  | mepc
  | mcause
  deriving DecidableEq, Repr

inductive Instr where
  | sd (rs : Reg) (imm : BitVec 12) (base : Reg)
  | ld (rd : Reg) (imm : BitVec 12) (base : Reg)
  | addi (rd rs : Reg) (imm : BitVec 12)
  | csrrw (rd : Reg) (csr : Csr) (rs : Reg)
  | csrr (rd : Reg) (csr : Csr)
  | blt (rs rs' : Reg) (distance : Nat)
  | bge (rs rs' : Reg) (distance : Nat)
  | call
  | sfenceVma
  | fenceI
  | mret
  deriving DecidableEq, Repr

namespace Instr

/-! The pseudo-instructions stand for what the assembler makes of them. -/

def li (rd : Reg) (imm : BitVec 12) : Instr := .addi rd .zero imm

def mv (rd rs : Reg) : Instr := .addi rd rs 0

def csrw (csr : Csr) (rs : Reg) : Instr := .csrrw .zero csr rs

/-- Execution goes on with the next instruction. -/
def straight : Instr → Bool
  | .blt .. | .bge .. | .call | .mret => false
  | _ => true

end Instr

structure Machine (σ : Type) where
  regs : Reg → UInt64
  csrs : Csr → UInt64
  mem : UInt64 → UInt8
  world : σ

variable {σ : Type}

namespace Machine

/-- Register `zero` reads as zero. -/
def reg (m : Machine σ) (r : Reg) : UInt64 := if r = .zero then 0 else m.regs r

def setReg (m : Machine σ) (r : Reg) (v : UInt64) : Machine σ :=
  { m with regs := Function.update m.regs r v }

def setCsr (m : Machine σ) (c : Csr) (v : UInt64) : Machine σ :=
  { m with csrs := Function.update m.csrs c v }

end Machine

/-- An immediate as the instructions add it. -/
def offset (imm : BitVec 12) : UInt64 := UInt64.ofBitVec (imm.signExtend 64)

namespace Machine

/-- The address `imm(base)`. -/
def addr (m : Machine σ) (imm : BitVec 12) (base : Reg) : UInt64 := m.reg base + offset imm

@[simp] theorem setReg_mem (m : Machine σ) (r : Reg) (v : UInt64) : (m.setReg r v).mem = m.mem := rfl

@[simp] theorem setReg_csrs (m : Machine σ) (r : Reg) (v : UInt64) :
    (m.setReg r v).csrs = m.csrs := rfl

@[simp] theorem setReg_world (m : Machine σ) (r : Reg) (v : UInt64) :
    (m.setReg r v).world = m.world := rfl

theorem reg_setReg {r : Reg} (h : r ≠ .zero) (m : Machine σ) (v : UInt64) :
    (m.setReg r v).reg r = v := by
  simp only [reg, setReg, if_neg h, Function.update_self]

theorem reg_setReg_of_ne {r r' : Reg} (h : r' ≠ r) (m : Machine σ) (v : UInt64) :
    (m.setReg r v).reg r' = m.reg r' := by
  simp only [reg, setReg, Function.update_of_ne h]

@[simp] theorem reg_setCsr (m : Machine σ) (c : Csr) (v : UInt64) (r : Reg) :
    (m.setCsr c v).reg r = m.reg r := rfl

end Machine

/-- Where execution goes after an instruction. -/
inductive Next where
  | jump (distance : Nat)
  | call
  | exit
  deriving DecidableEq, Repr

/-- One instruction.  The two fences only order memory accesses. -/
def exec (m : Machine σ) : Instr → Machine σ × Next
  | .sd rs imm base =>
      ({ m with mem := store64 m.mem (m.addr imm base) (m.reg rs) }, .jump 1)
  | .ld rd imm base => (m.setReg rd (load64 m.mem (m.addr imm base)), .jump 1)
  | .addi rd rs imm => (m.setReg rd (m.addr imm rs), .jump 1)
  | .csrrw rd csr rs => ((m.setCsr csr (m.reg rs)).setReg rd (m.csrs csr), .jump 1)
  | .csrr rd csr => (m.setReg rd (m.csrs csr), .jump 1)
  | .blt rs rs' d => (m, .jump (if (m.reg rs).toBitVec.slt (m.reg rs').toBitVec then d else 1))
  | .bge rs rs' d => (m, .jump (if (m.reg rs).toBitVec.slt (m.reg rs').toBitVec then 1 else d))
  | .call => (m, .call)
  | .sfenceVma => (m, .jump 1)
  | .fenceI => (m, .jump 1)
  | .mret => (m, .exit)

/-- The code from instruction `pc` on, to the `mret` that leaves it.  `link` is the
address a call leaves in `ra`. -/
def run (callee : Machine σ → Option (Machine σ)) (link : UInt64) (code : List Instr) :
    Nat → Nat → Machine σ → Option (Machine σ)
  | 0, _, _ => none
  | fuel + 1, pc, m =>
    match code[pc]? with
    | none => none
    | some i =>
      match exec m i with
      | (m', .jump d) => run callee link code fuel (pc + d) m'
      | (m', .call) =>
        match callee (m'.setReg .ra link) with
        | none => none
        | some m'' => run callee link code fuel (pc + 1) m''
      | (m', .exit) => some m'

/-! ### Running code -/

section Running

variable {callee : Machine σ → Option (Machine σ)} {link : UInt64} {code : List Instr}
  {pc d : Nat} {m m' r : Machine σ} {i : Instr}

theorem yields_jump (hfetch : code[pc]? = some i) (hexec : exec m i = (m', .jump d))
    (h : Fuel.Yields (fun fuel => run callee link code fuel (pc + d) m') r) :
    Fuel.Yields (fun fuel => run callee link code fuel pc m) r := by
  refine Fuel.Yields.unfold (fun fuel => ?_) h
  simp only [run, hfetch, hexec]

theorem yields_of_jump (hfetch : code[pc]? = some i) (hexec : exec m i = (m', .jump d))
    (h : Fuel.Yields (fun fuel => run callee link code fuel pc m) r) :
    Fuel.Yields (fun fuel => run callee link code fuel (pc + d) m') r := by
  refine Fuel.Yields.of_unfold (fun fuel => ?_) h
  simp only [run, hfetch, hexec]

theorem yields_call (hfetch : code[pc]? = some .call) (hcall : callee (m.setReg .ra link) = some m')
    (h : Fuel.Yields (fun fuel => run callee link code fuel (pc + 1) m') r) :
    Fuel.Yields (fun fuel => run callee link code fuel pc m) r := by
  refine Fuel.Yields.unfold (fun fuel => ?_) h
  simp only [run, hfetch, exec, hcall]

/-- Code that gets past a call has its result. -/
theorem yields_of_call (hfetch : code[pc]? = some .call)
    (h : Fuel.Yields (fun fuel => run callee link code fuel pc m) r) :
    ∃ m', callee (m.setReg .ra link) = some m' ∧
      Fuel.Yields (fun fuel => run callee link code fuel (pc + 1) m') r := by
  cases hcall : callee (m.setReg .ra link) with
  | none =>
    have hnone := Fuel.Yields.of_unfold (g := fun _ => none) (fun fuel => ?_) h
    · exact absurd hnone (Fuel.not_yields_of_forall (fun _ => rfl) r)
    · simp only [run, hfetch, exec, hcall]
  | some m' =>
    refine ⟨m', rfl, Fuel.Yields.of_unfold (fun fuel => ?_) h⟩
    simp only [run, hfetch, exec, hcall]

theorem yields_mret (hfetch : code[pc]? = some .mret) :
    Fuel.Yields (fun fuel => run callee link code fuel pc m) m := by
  refine ⟨1, fun fuel hfuel => ?_⟩
  obtain ⟨n, rfl⟩ : ∃ n, fuel = n + 1 := ⟨fuel - 1, by omega⟩
  simp only [run, hfetch, exec]

end Running

/-- A block of straight code, folded over the machine. -/
def line (m : Machine σ) (blk : List Instr) : Machine σ := blk.foldl (fun m i => (exec m i).1) m

@[simp] theorem line_nil (m : Machine σ) : line m [] = m := rfl

@[simp] theorem line_cons (m : Machine σ) (i : Instr) (blk : List Instr) :
    line m (i :: blk) = line (exec m i).1 blk := rfl

theorem line_append (m : Machine σ) (blk blk' : List Instr) :
    line m (blk ++ blk') = line (line m blk) blk' := by
  rw [line, List.foldl_append]
  rfl

theorem exec_straight {i : Instr} (h : i.straight = true) (m : Machine σ) :
    exec m i = ((exec m i).1, .jump 1) := by
  cases i <;> first | rfl | cases h

/-- Straight code in the middle of a program runs to its end. -/
theorem yields_line {callee : Machine σ → Option (Machine σ)} {link : UInt64} {code : List Instr}
    {pc : Nat} (blk post : List Instr) (hcode : code.drop pc = blk ++ post)
    (hblk : ∀ i ∈ blk, i.straight = true) {m r : Machine σ}
    (h : Fuel.Yields (fun fuel => run callee link code fuel (pc + blk.length) (line m blk)) r) :
    Fuel.Yields (fun fuel => run callee link code fuel pc m) r := by
  induction blk generalizing pc m with
  | nil => exact h
  | cons i blk ih =>
    have hfetch : code[pc]? = some i := by
      rw [← List.head?_drop, hcode]
      rfl
    have hrest : code.drop (pc + 1) = blk ++ post := by
      rw [← List.drop_drop, hcode]
      rfl
    refine yields_jump hfetch (exec_straight (hblk i List.mem_cons_self) m) ?_
    refine ih hrest (fun j hj => hblk j (List.mem_cons_of_mem i hj)) ?_
    rw [List.length_cons, line_cons] at h
    rw [Nat.add_assoc, Nat.add_comm 1]
    exact h

theorem yields_of_line {callee : Machine σ → Option (Machine σ)} {link : UInt64}
    {code : List Instr} {pc : Nat} (blk post : List Instr) (hcode : code.drop pc = blk ++ post)
    (hblk : ∀ i ∈ blk, i.straight = true) {m r : Machine σ}
    (h : Fuel.Yields (fun fuel => run callee link code fuel pc m) r) :
    Fuel.Yields (fun fuel => run callee link code fuel (pc + blk.length) (line m blk)) r := by
  induction blk generalizing pc m with
  | nil => exact h
  | cons i blk ih =>
    have hfetch : code[pc]? = some i := by
      rw [← List.head?_drop, hcode]
      rfl
    have hrest : code.drop (pc + 1) = blk ++ post := by
      rw [← List.drop_drop, hcode]
      rfl
    rw [List.length_cons, Nat.add_comm blk.length, ← Nat.add_assoc, line_cons]
    refine ih hrest (fun j hj => hblk j (List.mem_cons_of_mem i hj)) ?_
    exact yields_of_jump hfetch (exec_straight (hblk i List.mem_cons_self) m) h

/-! ### The state outside the code -/

theorem world_exec (m : Machine σ) (i : Instr) : (exec m i).1.world = m.world := by
  cases i <;> rfl

@[simp] theorem world_line (m : Machine σ) (blk : List Instr) : (line m blk).world = m.world := by
  induction blk generalizing m with
  | nil => rfl
  | cons i blk ih => rw [line_cons, ih, world_exec]

/-- Jumps go forward, so code that has passed its last call leaves the outside as it
is. -/
theorem world_run {callee : Machine σ → Option (Machine σ)} {link : UInt64} {code : List Instr}
    {fuel pc : Nat} {m m' : Machine σ} (hcode : .call ∉ code.drop pc)
    (h : run callee link code fuel pc m = some m') : m'.world = m.world := by
  induction fuel generalizing pc m with
  | zero => cases h
  | succ fuel ih =>
    have hworld := world_exec m
    unfold run at h
    cases hfetch : code[pc]? with
    | none =>
      rw [hfetch] at h
      cases h
    | some i =>
      have hdrop : code.drop pc = i :: code.drop (pc + 1) := by
        obtain ⟨hlt, hget⟩ := List.getElem?_eq_some_iff.mp hfetch
        rw [List.drop_eq_getElem_cons hlt, hget]
      have hne : i ≠ .call := by
        rintro rfl
        exact hcode (by rw [hdrop]; exact List.mem_cons_self)
      rw [hfetch] at h
      simp only at h
      split at h
      · next m₁ d hexec =>
        have hsub : code.drop (pc + d) ⊆ code.drop pc := by
          rw [← List.drop_drop]
          exact List.drop_subset d _
        rw [ih (fun hmem => hcode (hsub hmem)) h, ← hworld i, hexec]
      · next m₁ hexec =>
        cases i <;> first | exact absurd rfl hne | cases hexec
      · next m₁ hexec =>
        cases h
        rw [← hworld i, hexec]

/-! ### Saving registers to a table of slots and loading them back -/

def saveBlock (base : Reg) (slots : List (Reg × BitVec 12)) : List Instr :=
  slots.map fun s => .sd s.1 s.2 base

def loadBlock (base : Reg) (slots : List (Reg × BitVec 12)) : List Instr :=
  slots.map fun s => .ld s.1 s.2 base

theorem line_saveBlock (m : Machine σ) (base : Reg) (slots : List (Reg × BitVec 12)) :
    line m (saveBlock base slots) = { m with mem := (line m (saveBlock base slots)).mem } := by
  induction slots generalizing m with
  | nil => rfl
  | cons s slots ih =>
    exact ih (exec m (.sd s.1 s.2 base)).1

@[simp] theorem reg_saveBlock (m : Machine σ) (base : Reg) (slots : List (Reg × BitVec 12))
    (r : Reg) : (line m (saveBlock base slots)).reg r = m.reg r := by
  rw [line_saveBlock]
  rfl

@[simp] theorem csrs_saveBlock (m : Machine σ) (base : Reg) (slots : List (Reg × BitVec 12)) :
    (line m (saveBlock base slots)).csrs = m.csrs := by
  rw [line_saveBlock]

@[simp] theorem world_saveBlock (m : Machine σ) (base : Reg) (slots : List (Reg × BitVec 12)) :
    (line m (saveBlock base slots)).world = m.world := by
  rw [line_saveBlock]

/-- The double word at `imm(base)` is `v`. -/
def Machine.Holds (m : Machine σ) (base : Reg) (imm : BitVec 12) (v : UInt64) : Prop :=
  load64 m.mem (m.addr imm base) = v

theorem Machine.Holds.setReg {m : Machine σ} {base r : Reg} {o : BitVec 12} {v : UInt64}
    (h : m.Holds base o v) (hr : base ≠ r) (x : UInt64) : (m.setReg r x).Holds base o v := by
  rw [Holds, addr, reg_setReg_of_ne hr, setReg_mem]
  exact h

/-- A slot apart from all the slots of a table survives a save into it. -/
theorem Machine.Holds.saveBlock {base : Reg} {slots : List (Reg × BitVec 12)} {o : BitVec 12}
    {v : UInt64} {m : Machine σ} (hm : m.Holds base o v)
    (h : ∀ s ∈ slots, Apart (offset s.2) (offset o)) :
    (line m (saveBlock base slots)).Holds base o v := by
  induction slots generalizing m with
  | nil => exact hm
  | cons s slots ih =>
    refine ih ?_ fun t ht => h t (List.mem_cons_of_mem s ht)
    have happart := (h s List.mem_cons_self).offset (m.reg base)
    exact (load64_store64_of_apart happart m.mem (m.reg s.1)).trans hm

/-- Every saved register stands in its slot when no two slots overlap. -/
theorem holds_saveBlock (base : Reg) {slots : List (Reg × BitVec 12)}
    (hslots : slots.Pairwise fun s t => Apart (offset t.2) (offset s.2)) {r : Reg} {o : BitVec 12}
    (hmem : (r, o) ∈ slots) (m : Machine σ) :
    (line m (saveBlock base slots)).Holds base o (m.reg r) := by
  induction slots generalizing m with
  | nil => cases hmem
  | cons s slots ih =>
    obtain ⟨hhead, htail⟩ := List.pairwise_cons.mp hslots
    rcases List.mem_cons.mp hmem with rfl | hmem
    · have hstored : (exec m (.sd r o base)).1.Holds base o (m.reg r) :=
        load64_store64 m.mem (m.addr o base) (m.reg r)
      exact hstored.saveBlock hhead
    · exact ih htail hmem (exec m (.sd s.1 s.2 base)).1

theorem line_loadBlock (m : Machine σ) (base : Reg) (slots : List (Reg × BitVec 12)) :
    line m (loadBlock base slots) = { m with regs := (line m (loadBlock base slots)).regs } := by
  induction slots generalizing m with
  | nil => rfl
  | cons s slots ih =>
    exact ih (exec m (.ld s.1 s.2 base)).1

@[simp] theorem mem_loadBlock (m : Machine σ) (base : Reg) (slots : List (Reg × BitVec 12)) :
    (line m (loadBlock base slots)).mem = m.mem := by
  rw [line_loadBlock]

@[simp] theorem csrs_loadBlock (m : Machine σ) (base : Reg) (slots : List (Reg × BitVec 12)) :
    (line m (loadBlock base slots)).csrs = m.csrs := by
  rw [line_loadBlock]

@[simp] theorem world_loadBlock (m : Machine σ) (base : Reg) (slots : List (Reg × BitVec 12)) :
    (line m (loadBlock base slots)).world = m.world := by
  rw [line_loadBlock]

theorem reg_loadBlock_of_notMem (base : Reg) {slots : List (Reg × BitVec 12)} {r : Reg}
    (h : r ∉ slots.map Prod.fst) (m : Machine σ) :
    (line m (loadBlock base slots)).reg r = m.reg r := by
  induction slots generalizing m with
  | nil => rfl
  | cons s slots ih =>
    rw [List.map_cons, List.mem_cons, not_or] at h
    have hrest := ih h.2 (exec m (.ld s.1 s.2 base)).1
    exact hrest.trans (Machine.reg_setReg_of_ne h.1 m _)

/-- Every loaded register gets what its slot holds, when the base is not among them
and none is loaded twice. -/
theorem reg_loadBlock {base : Reg} {slots : List (Reg × BitVec 12)}
    (hbase : base ∉ slots.map Prod.fst) (hnodup : (slots.map Prod.fst).Nodup) {r : Reg}
    {o : BitVec 12} (hr : r ≠ .zero) (hmem : (r, o) ∈ slots) {m : Machine σ} {v : UInt64}
    (hm : m.Holds base o v) : (line m (loadBlock base slots)).reg r = v := by
  induction slots generalizing m with
  | nil => cases hmem
  | cons s slots ih =>
    rw [List.map_cons, List.mem_cons, not_or] at hbase
    obtain ⟨hhead, htail⟩ := List.nodup_cons.mp hnodup
    rcases List.mem_cons.mp hmem with rfl | hmem
    · have hkept := reg_loadBlock_of_notMem base hhead (exec m (.ld r o base)).1
      exact (hkept.trans (Machine.reg_setReg hr m _)).trans hm
    · exact ih hbase.2 htail hmem (hm.setReg hbase.1 _)

end Riscv
