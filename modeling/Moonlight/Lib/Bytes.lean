/-
Little-endian reads from a byte string.

A read takes a machine word as its offset and has no result when one of its bytes lies
outside the string.  The offsets of the bytes after the first are sums of machine words,
so a read at the very end of the address space continues at offset 0.

`readLE_isSome` and `readLE_eq_none` are the two facts a bounds check is about: a read
that fits succeeds, and a read that starts past the end does not.
-/
import Mathlib.Algebra.Group.Nat.Defs
import Mathlib.Data.List.Basic

namespace Bytes

/-- The `n` bytes from `off` on, the first one least significant. -/
def readLE (bs : List UInt8) (off : UInt64) : Nat → Option Nat
  | 0 => some 0
  | n + 1 => do
    let b ← bs[off.toNat]?
    let rest ← readLE bs (off + 1) n
    return b.toNat + 256 * rest

def read8 (bs : List UInt8) (off : UInt64) : Option UInt8 := (readLE bs off 1).map UInt8.ofNat

def read16 (bs : List UInt8) (off : UInt64) : Option UInt16 := (readLE bs off 2).map UInt16.ofNat

def read32 (bs : List UInt8) (off : UInt64) : Option UInt32 := (readLE bs off 4).map UInt32.ofNat

def read64 (bs : List UInt8) (off : UInt64) : Option UInt64 := (readLE bs off 8).map UInt64.ofNat

/-- The string is one that a machine word can measure. -/
def Sized (bs : List UInt8) : Prop := bs.length < 2 ^ 64

theorem toNat_add_of_le {bs : List UInt8} (hs : Sized bs) {off k : UInt64} {n : Nat}
    (h : off.toNat + k.toNat + n ≤ bs.length) : (off + k).toNat = off.toNat + k.toNat := by
  unfold Sized at hs
  rw [UInt64.toNat_add]
  exact Nat.mod_eq_of_lt (by omega)

theorem readLE_isSome {bs : List UInt8} (hs : Sized bs) {off : UInt64} {n : Nat}
    (h : off.toNat + n ≤ bs.length) : ∃ v, readLE bs off n = some v := by
  induction n generalizing off with
  | zero => exact ⟨0, rfl⟩
  | succ n ih =>
    have hone : (1 : UInt64).toNat = 1 := rfl
    have hnext : (off + 1).toNat = off.toNat + 1 :=
      toNat_add_of_le hs (show off.toNat + (1 : UInt64).toNat + n ≤ bs.length by omega)
    obtain ⟨rest, hrest⟩ : ∃ v, readLE bs (off + 1) n = some v := ih (by omega)
    have hlt : off.toNat < bs.length := by omega
    refine ⟨(bs.get ⟨off.toNat, hlt⟩).toNat + 256 * rest, ?_⟩
    rw [readLE, List.getElem?_eq_getElem hlt, hrest]
    rfl

theorem readLE_eq_none {bs : List UInt8} {off : UInt64} (h : bs.length ≤ off.toNat) (n : Nat) :
    readLE bs off (n + 1) = none := by
  rw [readLE, List.getElem?_eq_none h]
  rfl

section Words

variable {bs : List UInt8} {off : UInt64}

theorem read8_isSome (hs : Sized bs) (h : off.toNat + 1 ≤ bs.length) :
    ∃ v, read8 bs off = some v := by
  obtain ⟨v, hv⟩ := readLE_isSome hs h
  exact ⟨UInt8.ofNat v, by rw [read8, hv, Option.map_some]⟩

theorem read16_isSome (hs : Sized bs) (h : off.toNat + 2 ≤ bs.length) :
    ∃ v, read16 bs off = some v := by
  obtain ⟨v, hv⟩ := readLE_isSome hs h
  exact ⟨UInt16.ofNat v, by rw [read16, hv, Option.map_some]⟩

theorem read32_isSome (hs : Sized bs) (h : off.toNat + 4 ≤ bs.length) :
    ∃ v, read32 bs off = some v := by
  obtain ⟨v, hv⟩ := readLE_isSome hs h
  exact ⟨UInt32.ofNat v, by rw [read32, hv, Option.map_some]⟩

theorem read64_isSome (hs : Sized bs) (h : off.toNat + 8 ≤ bs.length) :
    ∃ v, read64 bs off = some v := by
  obtain ⟨v, hv⟩ := readLE_isSome hs h
  exact ⟨UInt64.ofNat v, by rw [read64, hv, Option.map_some]⟩

theorem read32_eq_none (h : bs.length ≤ off.toNat) : read32 bs off = none := by
  rw [read32, readLE_eq_none h, Option.map_none]

end Words

end Bytes
