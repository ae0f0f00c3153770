/-
Address translation of the RISC-V privileged architecture in Sv39 mode.

Physical memory is read in words of 64 bits.  The supervisor accesses no user page, an
executable page is not readable for that, and a clear accessed or dirty bit faults.  A
fault, for whatever reason, is `none`.
-/
import Mathlib.Algebra.Group.Nat.Defs
import Mathlib.Tactic.SplitIfs

namespace Mmu

inductive Access where
  | fetch
  | load
  | store
  deriving DecidableEq, Repr

inductive Priv where
  | user
  | supervisor
  deriving DecidableEq, Repr

def bit (w : UInt64) (n : Nat) : Bool := w.toNat.testBit n

/-- Index `level` of the virtual address. -/
def vpn (level : Nat) (va : UInt64) : UInt64 := UInt64.ofNat (va.toNat / 2 ^ (12 + 9 * level) % 512)

/-- The physical page number of an entry, of 44 bits. -/
def ppn (pte : UInt64) : Nat := pte.toNat / 2 ^ 10 % 2 ^ 44

inductive Entry where
  | fault
  | pointer
  | leaf
  deriving DecidableEq, Repr

/-- What an entry is: reserved encodings and reserved bits are faults. -/
def decode (pte : UInt64) : Entry :=
  if bit pte 0 = false ∨ (bit pte 1 = false ∧ bit pte 2 = true) ∨ 2 ^ 54 ≤ pte.toNat then .fault
  else if bit pte 1 = true ∨ bit pte 3 = true then .leaf
  else if bit pte 4 = true ∨ bit pte 6 = true ∨ bit pte 7 = true then .fault
  else .pointer

/-- The level and the value of the leaf entry for `va`. -/
def walk (mem : UInt64 → UInt64) (va : UInt64) : Nat → UInt64 → Option (Nat × UInt64)
  | 0, table =>
      let pte := mem (table + 8 * vpn 0 va)
      match decode pte with
      | .leaf => some (0, pte)
      | _ => none
  | level + 1, table =>
      let pte := mem (table + 8 * vpn (level + 1) va)
      match decode pte with
      | .leaf => some (level + 1, pte)
      | .pointer => walk mem va level (UInt64.ofNat (ppn pte * 4096))
      | .fault => none

/-- The permission bit an access needs. -/
def Access.bit : Access → Nat
  | .load => 1
  | .store => 2
  | .fetch => 3

/-- The leaf entry admits the access. -/
def allows (priv : Priv) (acc : Access) (pte : UInt64) : Bool :=
  bit pte acc.bit && (bit pte 4 == decide (priv = .user)) && bit pte 6 &&
    (decide (acc ≠ .store) || bit pte 7)

/-- Bits 63 to 39 of a virtual address are equal to bit 38. -/
def canonical (va : UInt64) : Bool := va.toNat < 2 ^ 38 ∨ 2 ^ 64 - 2 ^ 38 ≤ va.toNat

/-- The physical address of an access under this value of `satp`. -/
def translate (mem : UInt64 → UInt64) (satp : UInt64) (priv : Priv) (acc : Access) (va : UInt64) :
    Option UInt64 :=
  if satp.toNat / 2 ^ 60 = 0 then some va
  else if satp.toNat / 2 ^ 60 ≠ 8 ∨ canonical va = false then none
  else
    match walk mem va 2 (UInt64.ofNat (satp.toNat % 2 ^ 44 * 4096)) with
    | none => none
    | some (level, pte) =>
        if allows priv acc pte = true ∧ ppn pte % 2 ^ (9 * level) = 0 then
          some (UInt64.ofNat (ppn pte * 4096 + va.toNat % 2 ^ (12 + 9 * level)))
        else none

/-! ### A walk through pointers -/

variable {mem : UInt64 → UInt64} {va : UInt64} {level : Nat} {table : UInt64}

theorem walk_fault (h : decode (mem (table + 8 * vpn level va)) = .fault) :
    walk mem va level table = none := by
  cases level with
  | zero => simp only [walk, h]
  | succ level => simp only [walk, h]

theorem walk_pointer {pte : UInt64} (hpte : mem (table + 8 * vpn (level + 1) va) = pte)
    (h : decode pte = .pointer) :
    walk mem va (level + 1) table = walk mem va level (UInt64.ofNat (ppn pte * 4096)) := by
  rw [walk, hpte, h]

theorem walk_leaf {pte : UInt64} (hpte : mem (table + 8 * vpn level va) = pte)
    (h : decode pte = .leaf) : walk mem va level table = some (level, pte) := by
  cases level with
  | zero => simp only [walk, hpte, h]
  | succ level => simp only [walk, hpte, h]

/-- A leaf table holds pages only: an entry that is no leaf ends the walk. -/
theorem walk_bottom {pte : UInt64} (hpte : mem (table + 8 * vpn 0 va) = pte)
    (h : decode pte ≠ .leaf) : walk mem va 0 table = none := by
  rw [walk, hpte]
  cases hd : decode pte with
  | leaf => exact absurd hd h
  | pointer => rfl
  | fault => rfl

end Mmu
