/-
IOMMU windows and the DMA check.

`iommu_check` adds `paddr` and `len` in 64 bits before comparing with the end of
a window.  The confinement theorem separates the requests where that sum is
exact from those where it wraps.

The `color` field of a window is never set by the code and is left out, and
`iommu_flush` only issues fences.
-/
import Moonlight.Capability.Cap
import Moonlight.Lib.Run

namespace Moonlight

/-- `iommu_window_t`. -/
structure IommuWindow where
  valid : Bool
  devId : UInt64
  paddrBase : UInt64
  size : UInt64
  perms : UInt32
  partitionId : UInt32
  cap : Cap
  deriving DecidableEq

def IommuWindow.zero : IommuWindow :=
  { valid := false, devId := 0, paddrBase := 0, size := 0, perms := 0, partitionId := 0,
    cap := Cap.zero }

def maxIommuWindows : Nat := 16

/-- `iommu_state_t`. -/
structure IommuState where
  windows : Nat → IommuWindow
  count : UInt32

def IommuState.zero : IommuState := { windows := fun _ => IommuWindow.zero, count := 0 }

def iommuMap (io : IommuState) (iommuCap : Cap) (devId paddr size : UInt64) (perms : UInt32) :
    KError × IommuState :=
  if iommuCap.type ≠ .iommu then (.invalidCap, io)
  else if iommuCap.isValid = 0 ∨ iommuCap.hwCap.tag = 0 then (.invalidCap, io)
  else if size % pageSize ≠ 0 ∨ paddr % pageSize ≠ 0 then (.invalidArg, io)
  else if io.count.toNat ≥ maxIommuWindows then (.noMem, io)
  else
    let capBase := iommuCap.hwCap.base
    let capLen := iommuCap.hwCap.top - iommuCap.hwCap.base
    if paddr < capBase ∨ paddr + size > capBase + capLen then (.invalidArg, io)
    else if perms &&& ~~~iommuCap.rights ≠ 0 then (.noRights, io)
    else
      match (List.range maxIommuWindows).find? fun i => !(io.windows i).valid with
      | none => (.noMem, io)
      | some i =>
        (.ok,
          { windows := Function.update io.windows i
              { valid := true, devId := devId, paddrBase := paddr, size := size, perms := perms,
                partitionId := iommuCap.u.iommuDevId, cap := iommuCap }
            count := io.count + 1 })

def iommuUnmap (io : IommuState) (devId paddr : UInt64) : KError × IommuState :=
  match (List.range maxIommuWindows).find? fun i =>
      (io.windows i).valid && (io.windows i).devId == devId &&
        (io.windows i).paddrBase == paddr with
  | none => (.invalidArg, io)
  | some i =>
    (.ok, { windows := Function.update io.windows i IommuWindow.zero, count := io.count - 1 })

/-- The permission bit a request in the given direction needs. -/
def dmaNeed (isWrite : Bool) : UInt32 := if isWrite then cheriPermStore else cheriPermLoad

/-- The window test of `iommu_check`, in wrapping arithmetic. -/
def iommuMatches (w : IommuWindow) (devId paddr len : UInt64) : Bool :=
  w.valid && w.devId == devId && (paddr ≥ w.paddrBase && paddr + len ≤ w.paddrBase + w.size)

/-- `iommu_check`: the first matching window decides. -/
def iommuCheck (io : IommuState) (devId paddr len : UInt64) (isWrite : Bool) : Bool :=
  match (List.range maxIommuWindows).find? fun i =>
      iommuMatches (io.windows i) devId paddr len with
  | none => false
  | some i => (io.windows i).perms &&& dmaNeed isWrite ≠ 0

theorem iommuCheck_iff (io : IommuState) (devId paddr len : UInt64) (isWrite : Bool) :
    iommuCheck io devId paddr len isWrite = true ↔
      ∃ i, i < maxIommuWindows ∧ iommuMatches (io.windows i) devId paddr len = true ∧
        (∀ j, j < i → iommuMatches (io.windows j) devId paddr len = false) ∧
        (io.windows i).perms &&& dmaNeed isWrite ≠ 0 := by
  unfold iommuCheck
  cases hf : (List.range maxIommuWindows).find? fun i =>
      iommuMatches (io.windows i) devId paddr len with
  | none =>
    rw [List.find?_range_eq_none] at hf
    constructor
    · intro h
      cases h
    · rintro ⟨i, hi, hm, -, -⟩
      have := hf i hi
      rw [hm] at this
      cases this
  | some i =>
    rw [List.find?_range_eq_some] at hf
    obtain ⟨hm, hi, hfirst⟩ := hf
    constructor
    · intro hp
      refine ⟨i, List.mem_range.mp hi, hm, fun j hj => ?_, by simpa using hp⟩
      simpa using hfirst j hj
    · rintro ⟨k, -, hmk, hfk, hp⟩
      have hik : i = k := by
        rcases Nat.lt_trichotomy i k with h | h | h
        · rw [hfk i h] at hm
          cases hm
        · exact h
        · have := hfirst k h
          rw [hmk] at this
          cases this
      subst hik
      simpa using hp

/-! ### What the calls can do -/

/-- The window an accepted map stores. -/
def mapWindow (iommuCap : Cap) (devId paddr size : UInt64) (perms : UInt32) : IommuWindow :=
  { valid := true, devId := devId, paddrBase := paddr, size := size, perms := perms,
    partitionId := iommuCap.u.iommuDevId, cap := iommuCap }

/-- The guard of `iommu_map`. -/
structure MapAccepted (io : IommuState) (iommuCap : Cap) (paddr size : UInt64) (perms : UInt32) :
    Prop where
  type : iommuCap.type = .iommu
  live : ¬ (iommuCap.isValid = 0 ∨ iommuCap.hwCap.tag = 0)
  aligned : ¬ (size % pageSize ≠ 0 ∨ paddr % pageSize ≠ 0)
  room : io.count.toNat < maxIommuWindows
  bounds : ¬ (paddr < iommuCap.hwCap.base ∨
    paddr + size > iommuCap.hwCap.base + (iommuCap.hwCap.top - iommuCap.hwCap.base))
  rights : perms &&& ~~~iommuCap.rights = 0
  free : ∃ i, i < maxIommuWindows ∧ (io.windows i).valid = false

theorem iommuMap_cases (io : IommuState) (iommuCap : Cap) (devId paddr size : UInt64)
    (perms : UInt32) :
    (MapAccepted io iommuCap paddr size perms ∧
      ∃ i, i < maxIommuWindows ∧ (io.windows i).valid = false ∧
        iommuMap io iommuCap devId paddr size perms =
          (.ok,
            { windows := Function.update io.windows i (mapWindow iommuCap devId paddr size perms)
              count := io.count + 1 })) ∨
    (¬ MapAccepted io iommuCap paddr size perms ∧
      ∃ e, e ≠ .ok ∧ iommuMap io iommuCap devId paddr size perms = (e, io)) := by
  unfold iommuMap
  by_cases htype : iommuCap.type ≠ .iommu
  · rw [if_pos htype]
    exact Or.inr ⟨fun h => htype h.type, .invalidCap, by decide, rfl⟩
  rw [if_neg htype]
  by_cases hlive : iommuCap.isValid = 0 ∨ iommuCap.hwCap.tag = 0
  · rw [if_pos hlive]
    exact Or.inr ⟨fun h => h.live hlive, .invalidCap, by decide, rfl⟩
  rw [if_neg hlive]
  by_cases haligned : size % pageSize ≠ 0 ∨ paddr % pageSize ≠ 0
  · rw [if_pos haligned]
    exact Or.inr ⟨fun h => h.aligned haligned, .invalidArg, by decide, rfl⟩
  rw [if_neg haligned]
  by_cases hroom : io.count.toNat ≥ maxIommuWindows
  · rw [if_pos hroom]
    exact Or.inr ⟨fun h => Nat.not_lt.mpr hroom h.room, .noMem, by decide, rfl⟩
  rw [if_neg hroom]
  by_cases hbounds : paddr < iommuCap.hwCap.base ∨
      paddr + size > iommuCap.hwCap.base + (iommuCap.hwCap.top - iommuCap.hwCap.base)
  · rw [if_pos hbounds]
    exact Or.inr ⟨fun h => h.bounds hbounds, .invalidArg, by decide, rfl⟩
  rw [if_neg hbounds]
  by_cases hrights : perms &&& ~~~iommuCap.rights ≠ 0
  · rw [if_pos hrights]
    exact Or.inr ⟨fun h => hrights h.rights, .noRights, by decide, rfl⟩
  rw [if_neg hrights]
  cases hfind : (List.range maxIommuWindows).find? fun i => !(io.windows i).valid with
  | none =>
    rw [List.find?_range_eq_none] at hfind
    refine Or.inr ⟨fun h => ?_, .noMem, by decide, rfl⟩
    obtain ⟨i, hi, hfree⟩ := h.free
    have hused := hfind i hi
    rw [hfree] at hused
    cases hused
  | some i =>
    rw [List.find?_range_eq_some] at hfind
    obtain ⟨hfree, hi, -⟩ := hfind
    have hi' := List.mem_range.mp hi
    have hfree' : (io.windows i).valid = false := by simpa using hfree
    exact Or.inl ⟨⟨not_not.mp htype, hlive, haligned, Nat.not_le.mp hroom, hbounds,
      not_not.mp hrights, i, hi', hfree'⟩, i, hi', hfree', rfl⟩

/-- A valid window of the device that begins at `paddr`. -/
def IommuWindow.At (w : IommuWindow) (devId paddr : UInt64) : Prop :=
  w.valid = true ∧ w.devId = devId ∧ w.paddrBase = paddr

theorem iommuUnmap_cases (io : IommuState) (devId paddr : UInt64) :
    (∃ i, i < maxIommuWindows ∧ (io.windows i).At devId paddr ∧
      iommuUnmap io devId paddr =
        (.ok, { windows := Function.update io.windows i IommuWindow.zero, count := io.count - 1 })) ∨
    ((∀ i, i < maxIommuWindows → ¬ (io.windows i).At devId paddr) ∧
      iommuUnmap io devId paddr = (.invalidArg, io)) := by
  have hat : ∀ i, ((io.windows i).valid && (io.windows i).devId == devId &&
      (io.windows i).paddrBase == paddr) = true ↔ (io.windows i).At devId paddr := by
    intro i
    rw [Bool.and_eq_true, Bool.and_eq_true, beq_iff_eq, beq_iff_eq, and_assoc]
    rfl
  unfold iommuUnmap
  cases hfind : (List.range maxIommuWindows).find? fun i =>
      (io.windows i).valid && (io.windows i).devId == devId &&
        (io.windows i).paddrBase == paddr with
  | none =>
    rw [List.find?_range_eq_none] at hfind
    refine Or.inr ⟨fun i hi h => ?_, rfl⟩
    have hnot := hfind i hi
    rw [(hat i).mpr h] at hnot
    cases hnot
  | some i =>
    rw [List.find?_range_eq_some] at hfind
    obtain ⟨hmatch, hi, -⟩ := hfind
    exact Or.inl ⟨i, List.mem_range.mp hi, (hat i).mp hmatch, rfl⟩

/-! ### Reachable states -/

inductive IommuCall where
  | map (iommuCap : Cap) (devId paddr size : UInt64) (perms : UInt32)
  | unmap (devId paddr : UInt64)

def iommuStep (io : IommuState) : IommuCall → IommuState
  | .map iommuCap devId paddr size perms => (iommuMap io iommuCap devId paddr size perms).2
  | .unmap devId paddr => (iommuUnmap io devId paddr).2

/-- The window a call asks for ends below `2 ^ 64`. -/
def IommuCall.NoWrap : IommuCall → Prop
  | .map _ _ paddr size _ => paddr.toNat + size.toNat < 2 ^ 64
  | .unmap _ _ => True

def IommuState.NoWrap (io : IommuState) : Prop :=
  ∀ i, (io.windows i).valid = true →
    (io.windows i).paddrBase.toNat + (io.windows i).size.toNat < 2 ^ 64

theorem iommuStep_cases (io : IommuState) (c : IommuCall) :
    iommuStep io c = io ∨
      ∃ i w, (iommuStep io c).windows = Function.update io.windows i w ∧
        (w.valid = true → ∃ iommuCap devId perms,
          c = .map iommuCap devId w.paddrBase w.size perms) := by
  cases c with
  | map iommuCap devId paddr size perms =>
    show (iommuMap io iommuCap devId paddr size perms).2 = io ∨ _
    obtain ⟨-, i, -, -, heq⟩ | ⟨-, e, -, heq⟩ := iommuMap_cases io iommuCap devId paddr size perms
    · refine Or.inr ⟨i, mapWindow iommuCap devId paddr size perms, ?_,
        fun _ => ⟨iommuCap, devId, perms, rfl⟩⟩
      rw [iommuStep, heq]
    · rw [heq]
      exact Or.inl rfl
  | unmap devId paddr =>
    show (iommuUnmap io devId paddr).2 = io ∨ _
    obtain ⟨i, -, -, heq⟩ | ⟨-, heq⟩ := iommuUnmap_cases io devId paddr
    · refine Or.inr ⟨i, IommuWindow.zero, ?_, fun h => by cases h⟩
      rw [iommuStep, heq]
    · rw [heq]
      exact Or.inl rfl

theorem iommuStep_noWrap {io : IommuState} {c : IommuCall} (hc : c.NoWrap) (h : io.NoWrap) :
    (iommuStep io c).NoWrap := by
  rcases iommuStep_cases io c with heq | ⟨i, w, heq, hw⟩
  · rw [heq]
    exact h
  · intro j hj
    rw [heq] at hj ⊢
    by_cases hji : j = i
    · subst hji
      rw [Function.update_self] at hj ⊢
      obtain ⟨iommuCap, devId, perms, rfl⟩ := hw hj
      exact hc
    · rw [Function.update_of_ne hji] at hj ⊢
      exact h j hj

theorem iommuRun_noWrap {calls : List IommuCall} (h : ∀ c ∈ calls, c.NoWrap)
    {io : IommuState} (hio : io.NoWrap) : (Run.exec iommuStep io calls).NoWrap := by
  induction calls generalizing io with
  | nil => exact hio
  | cons c calls ih =>
    exact ih (fun c' hc' => h c' (List.mem_cons_of_mem c hc'))
      (iommuStep_noWrap (h c List.mem_cons_self) hio)

/-! ### Confinement -/

/-- Every byte of the mathematical interval lies in one valid window of the
device that grants the direction. -/
def DmaConfined (io : IommuState) (devId paddr len : UInt64) (isWrite : Bool) : Prop :=
  ∃ i, i < maxIommuWindows ∧ (io.windows i).valid = true ∧ (io.windows i).devId = devId ∧
    (io.windows i).perms &&& dmaNeed isWrite ≠ 0 ∧
    ∀ a : Nat, paddr.toNat ≤ a → a < paddr.toNat + len.toNat →
      (io.windows i).paddrBase.toNat ≤ a ∧
        a < (io.windows i).paddrBase.toNat + (io.windows i).size.toNat

/-- Window `w` of the device begins at or below `paddr` and ends at or above the
remainder of a request that runs past the top of the address space. -/
def WrapsInto (w : IommuWindow) (devId paddr len : UInt64) : Prop :=
  w.valid = true ∧ w.devId = devId ∧ w.paddrBase.toNat ≤ paddr.toNat ∧
    paddr.toNat + len.toNat - 2 ^ 64 ≤ w.paddrBase.toNat + w.size.toNat

/-- The request wraps, and the first window its remainder falls below grants
the direction. -/
def WrappedGrant (io : IommuState) (devId paddr len : UInt64) (isWrite : Bool) : Prop :=
  2 ^ 64 ≤ paddr.toNat + len.toNat ∧
    ∃ i, i < maxIommuWindows ∧ WrapsInto (io.windows i) devId paddr len ∧
      (∀ j, j < i → ¬ WrapsInto (io.windows j) devId paddr len) ∧
      (io.windows i).perms &&& dmaNeed isWrite ≠ 0

theorem iommuMatches_iff {w : IommuWindow} {devId paddr len : UInt64} :
    iommuMatches w devId paddr len = true ↔
      w.valid = true ∧ w.devId = devId ∧ w.paddrBase.toNat ≤ paddr.toNat ∧
        (paddr.toNat + len.toNat) % 2 ^ 64 ≤ (w.paddrBase.toNat + w.size.toNat) % 2 ^ 64 := by
  simp only [iommuMatches, Bool.and_eq_true, beq_iff_eq, decide_eq_true_eq, and_assoc, ge_iff_le,
    UInt64.le_iff_toNat_le, UInt64.toNat_add]

theorem iommuMatches_of_wrap {w : IommuWindow} (devId : UInt64) {paddr len : UInt64}
    (hw : w.valid = true → w.paddrBase.toNat + w.size.toNat < 2 ^ 64)
    (hwrap : 2 ^ 64 ≤ paddr.toNat + len.toNat) :
    iommuMatches w devId paddr len = true ↔ WrapsInto w devId paddr len := by
  have hp := paddr.toNat_lt
  have hl := len.toNat_lt
  rw [iommuMatches_iff, WrapsInto]
  refine and_congr_right fun hv => and_congr_right fun _ => and_congr_right fun _ => ?_
  rw [Nat.mod_eq_of_lt (hw hv)]
  have hmod : (paddr.toNat + len.toNat) % 2 ^ 64 = paddr.toNat + len.toNat - 2 ^ 64 := by omega
  rw [hmod]

/-- Without wrap-around an accepted request stays inside the window that
accepted it. -/
theorem iommuCheck_confined_of_noWrap {io : IommuState} {devId paddr len : UInt64}
    {isWrite : Bool} (hio : io.NoWrap) (hsum : paddr.toNat + len.toNat < 2 ^ 64)
    (h : iommuCheck io devId paddr len isWrite = true) :
    DmaConfined io devId paddr len isWrite := by
  obtain ⟨i, hi, hm, -, hp⟩ := (iommuCheck_iff ..).mp h
  obtain ⟨hv, hd, hlo, hhi⟩ := iommuMatches_iff.mp hm
  rw [Nat.mod_eq_of_lt (hio i hv), Nat.mod_eq_of_lt hsum] at hhi
  exact ⟨i, hi, hv, hd, hp, fun a ha ha' => ⟨by omega, by omega⟩⟩

/-- A request past the top of the address space has a byte outside every
window. -/
theorem not_dmaConfined_of_wrap {io : IommuState} {devId paddr len : UInt64} {isWrite : Bool}
    (hio : io.NoWrap) (hwrap : 2 ^ 64 ≤ paddr.toNat + len.toNat) :
    ¬ DmaConfined io devId paddr len isWrite := by
  rintro ⟨i, -, hv, -, -, hin⟩
  have hp := paddr.toNat_lt
  have hw := hio i hv
  have hlast := hin (paddr.toNat + len.toNat - 1) (by omega) (by omega)
  omega

theorem iommuCheck_wrap_iff {io : IommuState} {devId paddr len : UInt64} {isWrite : Bool}
    (hio : io.NoWrap) (hwrap : 2 ^ 64 ≤ paddr.toNat + len.toNat) :
    iommuCheck io devId paddr len isWrite = true ↔
      WrappedGrant io devId paddr len isWrite := by
  have hmatch := fun i => iommuMatches_of_wrap devId (hio i) hwrap
  rw [iommuCheck_iff, WrappedGrant, and_iff_right hwrap]
  simp only [hmatch, ← Bool.not_eq_true]

/-- In every state reached by calls with non-wrapping windows, the check
confines a request if and only if the request is not a wrapped one that some
window accepts by its remainder. -/
theorem iommuCheck_confines_iff (calls : List IommuCall) (hcalls : ∀ c ∈ calls, c.NoWrap)
    (devId paddr len : UInt64) (isWrite : Bool) :
    (iommuCheck (Run.exec iommuStep IommuState.zero calls) devId paddr len isWrite = true →
        DmaConfined (Run.exec iommuStep IommuState.zero calls) devId paddr len isWrite) ↔
      ¬ WrappedGrant (Run.exec iommuStep IommuState.zero calls) devId paddr len isWrite := by
  have hio : (Run.exec iommuStep IommuState.zero calls).NoWrap :=
    iommuRun_noWrap hcalls fun i hi => by cases hi
  rcases Nat.lt_or_ge (paddr.toNat + len.toNat) (2 ^ 64) with hsum | hwrap
  · constructor
    · exact fun _ hg => absurd hg.1 (Nat.not_le.mpr hsum)
    · exact fun _ => iommuCheck_confined_of_noWrap hio hsum
  · rw [← iommuCheck_wrap_iff hio hwrap]
    constructor
    · exact fun h hc => not_dmaConfined_of_wrap hio hwrap (h hc)
    · exact fun h hc => absurd hc h

/-- The pool capability of the network driver: `[0x50000000, 0x50100000)`,
readable and writable. -/
def dmaPoolCap : Cap :=
  { Cap.zero with
    type := .iommu, rights := 3, isValid := 1, isSealed := 1
    hwCap := { SimCap.zero with base := 0x50000000, top := 0x50100000, addr := 0x50000000,
                                tag := 1, sealed := 1 } }

def dmaPoolCalls : List IommuCall := [.map dmaPoolCap 0 0x50000000 0x100000 3]

theorem dmaPoolCalls_noWrap : ∀ c ∈ dmaPoolCalls, c.NoWrap := by
  intro c hc
  rw [dmaPoolCalls, List.mem_singleton] at hc
  subst hc
  show (0x50000000 : UInt64).toNat + (0x100000 : UInt64).toNat < 2 ^ 64
  decide

theorem iommuCheck_confines_pool :
    (∀ c ∈ dmaPoolCalls, c.NoWrap) ∧
      ((iommuCheck (Run.exec iommuStep IommuState.zero dmaPoolCalls) 0 0x50000000 512 true = true →
          DmaConfined (Run.exec iommuStep IommuState.zero dmaPoolCalls) 0 0x50000000 512 true) ↔
        ¬ WrappedGrant (Run.exec iommuStep IommuState.zero dmaPoolCalls) 0 0x50000000 512 true) :=
  ⟨dmaPoolCalls_noWrap, iommuCheck_confines_iff dmaPoolCalls dmaPoolCalls_noWrap 0 0x50000000 512
    true⟩

/-- With the driver's window mapped, a one-page write at the top of the address
space passes the check. -/
theorem iommuCheck_wrapped_escape :
    iommuCheck (Run.exec iommuStep IommuState.zero dmaPoolCalls) 0 0xFFFFFFFFFFFFF000 0x1000
        true = true ∧
      ¬ DmaConfined (Run.exec iommuStep IommuState.zero dmaPoolCalls) 0 0xFFFFFFFFFFFFF000 0x1000
        true := by
  refine ⟨by decide, not_dmaConfined_of_wrap ?_ (by decide)⟩
  exact iommuRun_noWrap dmaPoolCalls_noWrap fun i hi => by cases hi

end Moonlight
