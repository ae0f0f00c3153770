/-
Capabilities: the simulated CHERI word, the kernel metadata around it, and the
two ways the kernel makes one capability out of another.

The model follows the non-purecap build, where `hw_cap` is the `sim_cap_t`
record of `cheri.h`.
-/
import Moonlight.Kernel.Types
import Moonlight.Lib.Word

namespace Moonlight

/-- `cap_type_t`.  The invoke handler casts a user word to this enumeration, so
a stored type can lie outside the declared constants; such a value keeps its
number. -/
inductive CapType where
  | null
  | untyped
  | cnode
  | tcb
  | vspace
  | frame
  | endpoint
  | notification
  | irq
  | iommu
  | schedContext
  | timePartition
  | unknown (v : UInt32) (h : 12 ≤ v)
  deriving DecidableEq, Repr

namespace CapType

def val : CapType → UInt32
  | null => 0
  | untyped => 1
  | cnode => 2
  | tcb => 3
  | vspace => 4
  | frame => 5
  | endpoint => 6
  | notification => 7
  | irq => 8
  | iommu => 9
  | schedContext => 10
  | timePartition => 11
  | unknown v _ => v

/-- `(cap_type_t)w`: the cast keeps the low 32 bits. -/
def ofWord (w : UInt64) : CapType :=
  if h : 12 ≤ w.toUInt32 then unknown w.toUInt32 h
  else
    match w.toUInt32.toNat with
    | 0 => null
    | 1 => untyped
    | 2 => cnode
    | 3 => tcb
    | 4 => vspace
    | 5 => frame
    | 6 => endpoint
    | 7 => notification
    | 8 => irq
    | 9 => iommu
    | 10 => schedContext
    | _ => timePartition

end CapType

/-- `sim_cap_t`. -/
structure SimCap where
  base : UInt64
  top : UInt64
  addr : UInt64
  perms : UInt32
  otype : UInt32
  tag : UInt8
  sealed : UInt8
  deriving DecidableEq, Repr

def SimCap.zero : SimCap :=
  { base := 0, top := 0, addr := 0, perms := 0, otype := 0, tag := 0, sealed := 0 }

/-- The union `u` of `cap_t`, as the four 64-bit words it occupies.  Code that
stores one member and reads another goes through the same words, which is how
`cap_retype` fills the payload of every object type through `u.frame.paddr`. -/
structure Payload where
  w0 : UInt64
  w1 : UInt64
  w2 : UInt64
  w3 : UInt64
  deriving DecidableEq, Repr

namespace Payload

def zero : Payload := { w0 := 0, w1 := 0, w2 := 0, w3 := 0 }

def untypedPaddr (u : Payload) : UInt64 := u.w0

def untypedSize (u : Payload) : UInt64 := u.w1

def tcbPtr (u : Payload) : UInt64 := u.w0

def rootPt (u : Payload) : UInt64 := u.w0

def framePaddr (u : Payload) : UInt64 := u.w0

/-- `u.frame.perms`, the byte at offset 8. -/
def framePerms (u : Payload) : UInt8 := u.w1.toUInt8

/-- `u.frame.color`, the half word at offset 10. -/
def frameColor (u : Payload) : UInt16 := (u.w1 >>> 16).toUInt16

def epPtr (u : Payload) : UInt64 := u.w0

/-- `u.iommu.dev_id`, the low word at offset 0. -/
def iommuDevId (u : Payload) : UInt32 := u.w0.toUInt32

/-- `u.frame.paddr = paddr` and, when a colour is given, `u.frame.color = color`
in a zeroed payload. -/
def ofFrame (paddr : UInt64) (color : UInt16) : Payload :=
  { w0 := paddr, w1 := color.toUInt64 <<< 16, w2 := 0, w3 := 0 }

end Payload

/-- `cap_t`. -/
structure Cap where
  type : CapType
  rights : UInt32
  badge : UInt32
  isSealed : UInt8
  isValid : UInt8
  color : UInt16
  u : Payload
  hwCap : SimCap
  deriving DecidableEq, Repr

def Cap.zero : Cap :=
  { type := .null, rights := 0, badge := 0, isSealed := 0, isValid := 0, color := 0,
    u := Payload.zero, hwCap := SimCap.zero }

def capRightsRead : UInt32 := 1

def capRightsWrite : UInt32 := 2

def capRightsGrant : UInt32 := 4

def cheriPermLoad : UInt32 := 1

def cheriPermStore : UInt32 := 2

def cheriPermLoadCap : UInt32 := 8

def cheriPermStoreCap : UInt32 := 16

def otypeFrame : UInt32 := 0x105

def capHasRight (c : Cap) (r : UInt32) : Bool := c.rights &&& r = r

/-- `cap_is_valid` on a non-null pointer. -/
def capIsValid (c : Cap) : Bool :=
  c.isValid ≠ 0 && c.type ≠ .null && c.hwCap.tag ≠ 0

/-- `cap_derive`: the child is the parent with fewer rights and a new badge, or
an invalid capability when a right would be gained. -/
def capDerive (parent : Cap) (newRights newBadge : UInt32) : Cap :=
  if newRights &&& ~~~parent.rights ≠ 0 then { parent with isValid := 0 }
  else { parent with rights := newRights, badge := newBadge }

def capCanRetype (untyped : Cap) (newType : CapType) (size : UInt64) : Bool :=
  if untyped.type ≠ .untyped then false
  else if untyped.isValid = 0 then false
  else if untyped.u.untypedSize < size then false
  else if newType = .untyped then false
  else if size &&& (size - 1) ≠ 0 then false
  else if size < 4096 then false
  else true

def capRetype (untyped : Cap) (newType : CapType) (paddr size : UInt64) : Cap :=
  if capCanRetype untyped newType size then
    { type := newType, rights := 0xF, badge := 0, isSealed := 1, isValid := 1, color := 0,
      u := Payload.ofFrame paddr 0,
      hwCap :=
        { base := paddr, top := paddr + size, addr := paddr, perms := 0,
          otype := otypeFrame + (newType.val - CapType.frame.val), tag := 1, sealed := 1 } }
  else Cap.zero

theorem capCanRetype_iff {untyped : Cap} {newType : CapType} {size : UInt64} :
    capCanRetype untyped newType size = true ↔
      untyped.type = .untyped ∧ untyped.isValid ≠ 0 ∧ size ≤ untyped.u.untypedSize ∧
        newType ≠ .untyped ∧ size &&& (size - 1) = 0 ∧ 4096 ≤ size := by
  unfold capCanRetype
  split_ifs <;> simp_all

theorem capRetype_isValid {untyped : Cap} {newType : CapType} {paddr size : UInt64}
    (h : capCanRetype untyped newType size = true) :
    (capRetype untyped newType paddr size).isValid = 1 := by
  simp [capRetype, h]

/-! ### Derivation only attenuates -/

/-- Every right of `c` is a right of `o`. -/
def RightsSubset (c o : UInt32) : Prop := c &&& o = c

theorem rightsSubset_refl (r : UInt32) : RightsSubset r r := UInt32.and_self

theorem rightsSubset_trans {a b c : UInt32} (hab : RightsSubset a b) (hbc : RightsSubset b c) :
    RightsSubset a c := by
  unfold RightsSubset at *
  rw [← hab, UInt32.and_assoc, hbc]

theorem rightsSubset_iff (a b : UInt32) : RightsSubset a b ↔ a &&& ~~~b = 0 :=
  (Word.and_compl_eq_zero_iff a b).symm

theorem capHasRight_mono {c o : Cap} {r : UInt32} (h : RightsSubset c.rights o.rights)
    (hc : capHasRight c r = true) : capHasRight o r = true := by
  simp only [capHasRight, decide_eq_true_eq] at hc ⊢
  have hrc : RightsSubset r c.rights := by
    unfold RightsSubset
    rw [UInt32.and_comm]
    exact hc
  have hro : r &&& o.rights = r := rightsSubset_trans hrc h
  rw [UInt32.and_comm]
  exact hro

theorem capDerive_of_subset {parent : Cap} {rights badge : UInt32}
    (h : rights &&& ~~~parent.rights = 0) :
    capDerive parent rights badge = { parent with rights := rights, badge := badge } := by
  simp [capDerive, h]

end Moonlight
