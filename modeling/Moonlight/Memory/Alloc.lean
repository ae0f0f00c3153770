/-
The cache-colouring frame allocator: a bump pointer that skips forward to the
next page of the partition's colour.

The per-colour free lists of `frame_alloc_t` are never used by the code and are
left out.
-/
import Moonlight.Capability.Cap

namespace Moonlight

/-- `frame_alloc_t`. -/
structure FrameAlloc where
  base : UInt64
  next : UInt64
  top : UInt64
  frames : Nat → Cap
  frameCount : UInt32

def allocInit (base size : UInt64) : FrameAlloc :=
  { base := base, next := base, top := base + size, frames := fun _ => Cap.zero, frameCount := 0 }

/-- The colour of a physical address, `(paddr >> 12) % NUM_COLORS`. -/
def colorOf (paddr : UInt64) : UInt64 := (paddr >>> 12) % 16

def allocColorForPartition (partitionId : UInt32) : UInt16 := (partitionId * 2 % 16).toUInt16

def allocColorIsValid (partitionId : UInt32) (color : UInt16) : Bool :=
  color = allocColorForPartition partitionId ∨ color = allocColorForPartition partitionId + 1

/-- `while (colour of paddr != color) paddr += PAGE_SIZE;`.  Sixteen rounds are
enough for every colour, see `colorOf_alignToColor`. -/
def alignToColor : Nat → UInt64 → UInt64 → UInt64
  | 0, paddr, _ => paddr
  | n + 1, paddr, color =>
      if colorOf paddr = color then paddr else alignToColor n (paddr + pageSize) color

/-- `alloc_frame` with non-null pointers; the option is the capability stored
through `out`. -/
def allocFrame (a : FrameAlloc) (partitionId : UInt32) (size : UInt64) :
    KError × Option Cap × FrameAlloc :=
  if size % pageSize ≠ 0 then (.invalidArg, none, a)
  else if partitionId ≥ 8 then (.invalidArg, none, a)
  else
    let color := allocColorForPartition partitionId
    let paddr := alignToColor 16 a.next color.toUInt64
    if paddr + size > a.top then (.noMem, none, a)
    else
      let out : Cap :=
        { type := .frame
          rights := cheriPermLoad ||| cheriPermStore ||| cheriPermLoadCap ||| cheriPermStoreCap
          badge := 0, isSealed := 1, isValid := 1, color := color
          u := Payload.ofFrame paddr color
          hwCap := { base := paddr, top := paddr + size, addr := paddr, perms := 0,
                     otype := otypeFrame, tag := 1, sealed := 1 } }
      (.ok, some out,
        { a with
          next := paddr + size
          frames := if a.frameCount < 512 then Function.update a.frames a.frameCount.toNat out
            else a.frames
          frameCount := if a.frameCount < 512 then a.frameCount + 1 else a.frameCount })

/-! ### The colour search -/

theorem toNat_colorOf (paddr : UInt64) : (colorOf paddr).toNat = paddr.toNat / 4096 % 16 := by
  simp only [colorOf, UInt64.toNat_mod, UInt64.toNat_shiftRight]
  show paddr.toNat >>> 12 % 16 = _
  rw [Nat.shiftRight_eq_div_pow]

/-- The search moves forward by fewer pages than it has rounds. -/
theorem alignToColor_eq (n : Nat) (paddr color : UInt64) :
    ∃ k, k ≤ n ∧ alignToColor n paddr color = paddr + UInt64.ofNat (4096 * k) := by
  induction n generalizing paddr with
  | zero => exact ⟨0, Nat.le_refl 0, by simp [alignToColor]⟩
  | succ n ih =>
    rw [alignToColor]
    by_cases hc : colorOf paddr = color
    · exact ⟨0, Nat.zero_le _, by simp [hc]⟩
    · obtain ⟨k, hk, heq⟩ := ih (paddr + pageSize)
      refine ⟨k + 1, Nat.succ_le_succ hk, ?_⟩
      have hadd : pageSize + UInt64.ofNat (4096 * k) = UInt64.ofNat (4096 * (k + 1)) := by
        rw [Nat.mul_succ, Nat.add_comm, UInt64.ofNat_add]
        rfl
      rw [if_neg hc, heq, UInt64.add_assoc, hadd]

theorem colorOf_next (paddr : UInt64) :
    (colorOf (paddr + pageSize)).toNat = ((colorOf paddr).toNat + 1) % 16 := by
  have hlt := paddr.toNat_lt
  rw [toNat_colorOf, toNat_colorOf, UInt64.toNat_add]
  show (paddr.toNat + 4096) % 2 ^ 64 / 4096 % 16 = _
  omega

/-- The search ends: after at most fifteen pages the colour is met. -/
theorem colorOf_alignToColor {n : Nat} {paddr color : UInt64} (hcolor : color.toNat < 16)
    (hn : (color.toNat + 16 - (colorOf paddr).toNat) % 16 < n) :
    colorOf (alignToColor n paddr color) = color := by
  induction n generalizing paddr with
  | zero => omega
  | succ n ih =>
    rw [alignToColor]
    by_cases hc : colorOf paddr = color
    · rw [if_pos hc]
      exact hc
    · rw [if_neg hc]
      have hne : (colorOf paddr).toNat ≠ color.toNat := fun h => hc (UInt64.toNat_inj.mp h)
      have hlt : (colorOf paddr).toNat < 16 := by
        rw [toNat_colorOf]
        omega
      refine ih ?_
      rw [colorOf_next]
      omega

/-! ### What one allocation can do -/

/-- An accepted allocation starts at most fifteen pages above the bump pointer
and ends at the new one. -/
theorem allocFrame_cases (a : FrameAlloc) (partitionId : UInt32) (size : UInt64) :
    (∃ e, e ≠ .ok ∧ allocFrame a partitionId size = (e, none, a)) ∨
    ∃ c a' k, allocFrame a partitionId size = (.ok, some c, a') ∧ k ≤ 16 ∧
      c.u.framePaddr = a.next + UInt64.ofNat (4096 * k) ∧ a'.next = c.u.framePaddr + size := by
  unfold allocFrame
  split
  · exact Or.inl ⟨.invalidArg, by decide, rfl⟩
  split
  · exact Or.inl ⟨.invalidArg, by decide, rfl⟩
  simp only
  split
  · exact Or.inl ⟨.noMem, by decide, rfl⟩
  · obtain ⟨k, hk, heq⟩ :=
      alignToColor_eq 16 a.next (allocColorForPartition partitionId).toUInt64
    exact Or.inr ⟨_, _, k, rfl, hk, heq, rfl⟩

end Moonlight
