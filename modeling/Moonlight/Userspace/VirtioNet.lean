/-
The network driver and its DMA windows.

The driver binds an IOMMU, registers windows for buffers and takes them back by their base
address.  A micro-reboot unmaps one window, the one at the base of the pool, and forgets
the IOMMU; a window registered beside it stays.

There is one IOMMU, so `g_iommu` is null or not.  The model follows the host build, where
`net_driver_init` points the registers at a buffer of its own.
-/
import Moonlight.Memory.DmaAuthority

namespace Moonlight

/-- `drv_caps_t`. -/
structure DrvCaps where
  mmioBase : UInt64
  mmioLen : UInt64
  irq : UInt32
  deriving DecidableEq

/-- The static variables of the driver.  `virtioRegs` and `iommu` say that the pointer is
not null. -/
structure NetDriver where
  caps : DrvCaps
  virtioRegs : Bool
  iommu : Bool
  iommuCap : Cap
  devId : UInt64
  dmaBase : UInt64
  dmaLen : UInt64
  iommuBound : Bool
  deriving DecidableEq

def NetDriver.zero : NetDriver :=
  { caps := { mmioBase := 0, mmioLen := 0, irq := 0 }, virtioRegs := false, iommu := false
    iommuCap := Cap.zero, devId := 0, dmaBase := 0, dmaLen := 0, iommuBound := false }

def netDriverInit (d : NetDriver) (c : DrvCaps) : Bool × NetDriver :=
  let d := { d with caps := c }
  if c.mmioLen < 0x1000 ∨ c.mmioBase = 0 then (false, d)
  else if c.mmioBase < 0x10000000 ∨ c.mmioBase + c.mmioLen > 0x20000000 then (false, d)
  else if c.mmioBase + c.mmioLen - c.mmioBase < c.mmioLen then (false, d)
  else (true, { d with virtioRegs := true })

/-- `net_driver_set_iommu`, with `present` for a pointer that is not null. -/
def netDriverSetIommu (d : NetDriver) (io : IommuState) (iommuCap : Cap) (present : Bool)
    (devId dmaPaddr dmaSize : UInt64) : Bool × NetDriver × IommuState :=
  if ¬ present then (false, d, io)
  else if iommuCap.type ≠ .iommu then (false, d, io)
  else if iommuCap.isValid = 0 ∨ iommuCap.hwCap.tag = 0 then (false, d, io)
  else
    let d :=
      { d with
        iommu := true, iommuCap := iommuCap, devId := devId, dmaBase := dmaPaddr, dmaLen := dmaSize
        iommuBound := false }
    match iommuMap io iommuCap devId dmaPaddr dmaSize (cheriPermLoad ||| cheriPermStore) with
    | (.ok, io') => (true, { d with iommuBound := true }, io')
    | (_, io') => (false, d, io')

def netDriverDmaMap (d : NetDriver) (io : IommuState) (paddr size : UInt64) (perms : UInt32) :
    Bool × IommuState :=
  if ¬ d.iommu ∨ ¬ d.iommuBound then (false, io)
  else if size % pageSize ≠ 0 ∨ paddr % pageSize ≠ 0 then (false, io)
  else if paddr < d.dmaBase ∨ paddr + size > d.dmaBase + d.dmaLen then (false, io)
  else
    let r := iommuMap io d.iommuCap d.devId paddr size perms
    (r.1 = .ok, r.2)

def netDriverDmaUnmap (d : NetDriver) (io : IommuState) (paddr : UInt64) : Bool × IommuState :=
  if ¬ d.iommu then (false, io)
  else
    let r := iommuUnmap io d.devId paddr
    (r.1 = .ok, r.2)

def netDriverReboot (d : NetDriver) (io : IommuState) : NetDriver × IommuState :=
  let unmaps := d.iommu ∧ d.iommuBound
  let io' := if unmaps then (iommuUnmap io d.devId d.dmaBase).2 else io
  let d' :=
    { d with
      iommuBound := if unmaps then false else d.iommuBound
      iommu := false, dmaBase := 0, dmaLen := 0 }
  ((netDriverInit d' d'.caps).2, io')

/-! ### Runs -/

inductive NetCall where
  | setIommu (iommuCap : Cap) (present : Bool) (devId dmaPaddr dmaSize : UInt64)
  | dmaMap (paddr size : UInt64) (perms : UInt32)
  | dmaUnmap (paddr : UInt64)

structure NetState where
  driver : NetDriver
  iommu : IommuState

def netStep (s : NetState) : NetCall → NetState
  | .setIommu iommuCap present devId dmaPaddr dmaSize =>
      let r := netDriverSetIommu s.driver s.iommu iommuCap present devId dmaPaddr dmaSize
      ⟨r.2.1, r.2.2⟩
  | .dmaMap paddr size perms => { s with iommu := (netDriverDmaMap s.driver s.iommu paddr size perms).2 }
  | .dmaUnmap paddr => { s with iommu := (netDriverDmaUnmap s.driver s.iommu paddr).2 }

def NetState.reboot (s : NetState) : NetState :=
  let r := netDriverReboot s.driver s.iommu
  ⟨r.1, r.2⟩

/-! ### What a reboot leaves -/

/-- Entry `i` holds a window of the device. -/
def IommuState.Holds (io : IommuState) (devId : UInt64) (i : Nat) : Prop :=
  i < maxIommuWindows ∧ (io.windows i).valid = true ∧ (io.windows i).devId = devId

/-- The device has no window, and every request of it is refused. -/
structure DmaDropped (io : IommuState) (devId : UInt64) : Prop where
  windows : ∀ i, ¬ io.Holds devId i
  check : ∀ paddr len isWrite, iommuCheck io devId paddr len isWrite = false

/-- The one window of the device, if there is one, is that of the pool, and the driver is
bound. -/
def OnlyPool (s : NetState) : Prop :=
  ∀ i, s.iommu.Holds s.driver.devId i →
    s.driver.iommu = true ∧ s.driver.iommuBound = true ∧
      (s.iommu.windows i).paddrBase = s.driver.dmaBase ∧
      ∀ j, s.iommu.Holds s.driver.devId j → j = i

theorem dmaDropped_iff {io : IommuState} {devId : UInt64} :
    DmaDropped io devId ↔ ∀ i, ¬ io.Holds devId i := by
  refine ⟨DmaDropped.windows, fun hnone => ⟨hnone, fun paddr len isWrite => ?_⟩⟩
  rw [← Bool.not_eq_true, iommuCheck_iff]
  intro h
  obtain ⟨i, hi, hmatch, -, -⟩ := h
  obtain ⟨hv, hd, -, -⟩ := iommuMatches_iff.mp hmatch
  exact hnone i ⟨hi, hv, hd⟩

theorem netDriverInit_devId (d : NetDriver) (c : DrvCaps) :
    (netDriverInit d c).2.devId = d.devId := by
  unfold netDriverInit
  simp only
  split_ifs <;> rfl

theorem reboot_devId (s : NetState) : s.reboot.driver.devId = s.driver.devId :=
  netDriverInit_devId ..

theorem reboot_bound {s : NetState} (h : s.driver.iommu = true ∧ s.driver.iommuBound = true) :
    s.reboot.iommu = (iommuUnmap s.iommu s.driver.devId s.driver.dmaBase).2 := if_pos h

theorem reboot_unbound {s : NetState} (h : ¬ (s.driver.iommu = true ∧ s.driver.iommuBound = true)) :
    s.reboot.iommu = s.iommu := if_neg h

/-- Zeroing one entry takes its window away from the device. -/
theorem holds_unmapped_iff (io : IommuState) (i : Nat) (count : UInt32) (devId : UInt64) (j : Nat) :
    IommuState.Holds { windows := Function.update io.windows i IommuWindow.zero, count := count }
        devId j ↔
      j ≠ i ∧ io.Holds devId j := by
  simp only [IommuState.Holds]
  by_cases hj : j = i
  · rw [hj, Function.update_self]
    constructor
    · intro h
      cases h.2.1
    · exact fun h => absurd rfl h.1
  · rw [Function.update_of_ne hj, and_iff_right hj]

/-- The reboot leaves no window exactly when the pool's was the only one. -/
theorem reboot_drops_iff (s : NetState) :
    DmaDropped s.reboot.iommu s.driver.devId ↔ OnlyPool s := by
  rw [dmaDropped_iff]
  by_cases hbound : s.driver.iommu = true ∧ s.driver.iommuBound = true
  swap
  · rw [reboot_unbound hbound]
    constructor
    · exact fun hnone i hi => absurd hi (hnone i)
    · exact fun honly i hi => hbound ⟨(honly i hi).1, (honly i hi).2.1⟩
  rw [reboot_bound hbound]
  obtain ⟨i, hi, hat, heq⟩ | ⟨hnot, heq⟩ :=
    iommuUnmap_cases s.iommu s.driver.devId s.driver.dmaBase
  · rw [heq]
    simp only [holds_unmapped_iff, not_and]
    have hpool : s.iommu.Holds s.driver.devId i := ⟨hi, hat.1, hat.2.1⟩
    constructor
    · intro hnone j hj
      have honly : ∀ l, s.iommu.Holds s.driver.devId l → l = i := fun l hl =>
        by_contra fun hne => hnone l hne hl
      rw [honly j hj]
      exact ⟨hbound.1, hbound.2, hat.2.2, honly⟩
    · intro honly j hne hj
      exact hne ((honly i hpool).2.2.2 j hj)
  · rw [heq]
    constructor
    · exact fun hnone i hi => absurd hi (hnone i)
    · intro honly i hi
      exact hnot i hi.1 ⟨hi.2.1, hi.2.2, (honly i hi).2.2.1⟩

/-- After any calls on a fresh IOMMU, a reboot drops the driver's DMA authority exactly when
the device has no window, or the driver is bound and the only window is that of the pool. -/
theorem reboot_drops_dma_iff (d : NetDriver) (calls : List NetCall) :
    DmaDropped (Run.exec netStep ⟨d, IommuState.zero⟩ calls).reboot.iommu
        (Run.exec netStep ⟨d, IommuState.zero⟩ calls).reboot.driver.devId ↔
      OnlyPool (Run.exec netStep ⟨d, IommuState.zero⟩ calls) := by
  rw [reboot_devId]
  exact reboot_drops_iff _

/-- The pool is bound, and one page of it is registered for reading. -/
def poolAndBuffer : List NetCall :=
  [.setIommu dmaPoolCap true 0 0x50000000 0x100000, .dmaMap 0x50001000 0x1000 1]

theorem reboot_leaves_buffer :
    ¬ DmaDropped (Run.exec netStep ⟨NetDriver.zero, IommuState.zero⟩ poolAndBuffer).reboot.iommu
      (Run.exec netStep ⟨NetDriver.zero, IommuState.zero⟩ poolAndBuffer).reboot.driver.devId := by
  intro h
  have hcheck := h.check 0x50001000 512 false
  exact absurd hcheck (by decide)

end Moonlight
