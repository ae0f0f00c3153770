/-
Mapping a Frame.

Copy and mint take rights away from a capability, while a mapping reads the access
bits from the payload, `u.frame.perms`, which no derivation touches.  A mapping stays
within the rights of its Frame exactly when the payload does, so a run of CNode
invocations keeps every mapping within rights exactly when no Frame is derived under
rights that its payload exceeds.
-/
import Moonlight.Memory.Sv39
import Moonlight.Syscall.Confinement

namespace Moonlight

/-! ### The leaf entry -/

def pteR : UInt64 := 2

def pteW : UInt64 := 4

/-- The cell `vspace_map` stores the leaf entry of `va` to. -/
def leafCell (m : Memory) (vs : VSpace) (va : UInt64) : Option UInt64 :=
  match descend m vs (pteAddr vs.root (vpn2 va)) with
  | (none, _, _) => none
  | (some l1, m₁, vs₁) =>
    match descend m₁ vs₁ (pteAddr l1 (vpn1 va)) with
    | (none, _, _) => none
    | (some l0, _, _) => some (pteAddr l0 (vpn0 va))

theorem mapPage_ok {m : Memory} {vs : VSpace} {va pa flags : UInt64}
    (h : (mapPage m vs va pa flags).1 = .ok) :
    ∃ cell, leafCell m vs va = some cell ∧
      (mapPage m vs va pa flags).2.1.words cell = pteEncode (pa >>> 12) flags := by
  unfold mapPage at h ⊢
  unfold leafCell
  generalize descend m vs (pteAddr vs.root (vpn2 va)) = first at h ⊢
  obtain ⟨_ | l1, m₁, vs₁⟩ := first
  · cases h
  simp only at h ⊢
  generalize descend m₁ vs₁ (pteAddr l1 (vpn1 va)) = second at h ⊢
  obtain ⟨_ | l0, m₂, vs₂⟩ := second
  · cases h
  simp only at h ⊢
  refine ⟨_, rfl, ?_⟩
  by_cases hv : m₂.words (pteAddr l0 (vpn0 va)) &&& pteV ≠ 0
  · rw [if_pos hv] at h
    cases h
  · rw [if_neg hv]
    exact Function.update_self ..

/-- Whether a page can be mapped depends on the tables alone. -/
theorem mapPage_fst (m : Memory) (vs : VSpace) (va pa pa' flags flags' : UInt64) :
    (mapPage m vs va pa flags).1 = (mapPage m vs va pa' flags').1 := by
  unfold mapPage
  rcases descend m vs (pteAddr vs.root (vpn2 va)) with ⟨_ | l1, m₁, vs₁⟩
  · rfl
  simp only
  rcases descend m₁ vs₁ (pteAddr l1 (vpn1 va)) with ⟨_ | l0, m₂, vs₂⟩
  · rfl
  simp only
  split_ifs
  · rfl
  · rfl

theorem mapLoop_one (m : Memory) (vs : VSpace) (va pa flags : UInt64) :
    mapLoop 1 m vs va pa flags = mapPage m vs va pa flags := by
  rw [mapLoop]
  rcases mapPage m vs va pa flags with ⟨e, m', vs'⟩
  cases e <;> rfl

theorem shiftLeft_and_of_lt (x : UInt64) {mask : UInt64} (h : mask.toNat < 2 ^ 10) :
    x <<< 10 &&& mask = 0 := by
  rw [← UInt64.toNat_inj, UInt64.toNat_and, UInt64.toNat_shiftLeft]
  show x.toNat <<< 10 % 2 ^ 64 &&& mask.toNat = 0
  refine Nat.eq_of_testBit_eq fun i => ?_
  rw [Nat.testBit_and, Nat.testBit_mod_two_pow, Nat.testBit_shiftLeft, Nat.zero_testBit]
  by_cases hi : 10 ≤ i
  · have hmask : mask.toNat.testBit i = false :=
      Nat.testBit_lt_two_pow (h.trans_le (Nat.pow_le_pow_right (by omega) hi))
    rw [hmask, Bool.and_false]
  · simp [hi]

theorem pteEncode_and (ppn flags : UInt64) {mask : UInt64} (h : mask.toNat < 2 ^ 10) :
    pteEncode ppn flags &&& mask = flags &&& mask := by
  have hshift : (ppn <<< 10).toNat &&& mask.toNat = 0 := by
    rw [← UInt64.toNat_and, shiftLeft_and_of_lt ppn h]
    rfl
  rw [pteEncode, ← UInt64.toNat_inj, UInt64.toNat_and, UInt64.toNat_or,
    Nat.and_or_distrib_right, hshift, Nat.zero_or, UInt64.toNat_and]

theorem pteFlags_pteW (partitionId : UInt32) (perms : UInt8) :
    pteFlags partitionId perms &&& pteW ≠ 0 ↔ perms &&& 2 ≠ 0 := by
  unfold pteFlags
  by_cases h : perms &&& 2 = 0
  all_goals
    simp only [h, ne_eq, not_true_eq_false, not_false_eq_true, if_true, if_false]
    split_ifs <;> decide

theorem pteFlags_pteR (partitionId : UInt32) (perms : UInt8) :
    pteFlags partitionId perms &&& pteR ≠ 0 ↔ perms &&& 1 ≠ 0 := by
  unfold pteFlags
  by_cases h : perms &&& 1 = 0
  all_goals
    simp only [h, ne_eq, not_true_eq_false, not_false_eq_true, if_true, if_false]
    split_ifs <;> decide

/-! ### Access bits and rights -/

/-- The entry gives no access that the capability has no right to. -/
def Attenuates (pte : UInt64) (frame : Cap) : Prop :=
  (pte &&& pteW ≠ 0 → capHasRight frame capRightsWrite = true) ∧
    (pte &&& pteR ≠ 0 → capHasRight frame capRightsRead = true)

/-- The access bits of the payload are covered by the rights. -/
def PermsWithin (frame : Cap) : Prop :=
  (frame.u.framePerms &&& 2 ≠ 0 → capHasRight frame capRightsWrite = true) ∧
    (frame.u.framePerms &&& 1 ≠ 0 → capHasRight frame capRightsRead = true)

/-- The address and the colour that `vspace_map` accepts at some virtual address. -/
def Mappable (frame : Cap) : Prop :=
  frame.u.framePaddr % pageSize = 0 ∧ frame.u.frameColor % 2 = 0 ∧ frame.u.frameColor.toNat < 16

/-- A Frame that can be mapped stays within its rights. -/
def FrameWithin (c : Cap) : Prop := c.type = .frame → Mappable c → PermsWithin c

theorem attenuates_iff (ppn : UInt64) (partitionId : UInt32) (frame : Cap) :
    Attenuates (pteEncode ppn (pteFlags partitionId frame.u.framePerms)) frame ↔
      PermsWithin frame := by
  rw [Attenuates, PermsWithin, pteEncode_and ppn _ (by decide), pteEncode_and ppn _ (by decide),
    pteFlags_pteW, pteFlags_pteR]

/-! ### The invocations that map -/

inductive MapOp where
  | vspaceMap
  | frameMap

def MapOp.toInvokeOp : MapOp → InvokeOp
  | .vspaceMap => .vspaceMap
  | .frameMap => .frameMap

structure MapInvocation where
  cap : Cap
  op : MapOp
  arg1 : UInt64
  arg2 : UInt64
  arg3 : UInt64

namespace MapInvocation

def call (i : MapInvocation) (k : Kernel) : KError × Kernel :=
  handleInvoke k i.cap i.op.toInvokeOp i.arg1 i.arg2 i.arg3

/-- The capability in the slot the invocation names. -/
def frame (i : MapInvocation) (k : Kernel) : Option Cap :=
  cnodeLookup k.root (i.arg3 &&& 0xFF).toUInt32

/-- The leaf entry after the invocation. -/
def leaf (i : MapInvocation) (k : Kernel) : Option UInt64 :=
  (leafCell k.mem (k.vspaces i.cap.u.rootPt) i.arg2).map (i.call k).2.mem.words

/-- A mapping that succeeds has installed a leaf entry within the rights of its Frame. -/
def Attenuated (i : MapInvocation) (k : Kernel) : Prop :=
  (i.call k).1 = .ok →
    ∃ frame pte, i.frame k = some frame ∧ i.leaf k = some pte ∧ Attenuates pte frame

theorem call_of_valid {i : MapInvocation} (h : capIsValid i.cap = true) (k : Kernel) :
    i.call k = invokeVspaceMap k i.cap i.arg2 i.arg3 := by
  rcases i with ⟨cap, _ | _, arg1, arg2, arg3⟩ <;>
    simp only [call, MapOp.toInvokeOp, handleInvoke, h, not_true_eq_false, if_false]

theorem valid_of_ok {i : MapInvocation} {k : Kernel} (h : (i.call k).1 = .ok) :
    capIsValid i.cap = true := by
  by_contra hnot
  rw [call, handleInvoke_of_invalid hnot] at h
  cases h

end MapInvocation

/-- What a mapped page says about the arguments, and the entry it leaves. -/
theorem vspaceMap_page_ok {m : Memory} {vs : VSpace} {va pa : UInt64} {perms : UInt8}
    {color : UInt16} (h : (vspaceMap m vs va pa pageSize perms color).1 = .ok) :
    pa % pageSize = 0 ∧ color % 2 = 0 ∧ color.toNat < 16 ∧
      ∃ cell, leafCell m vs va = some cell ∧
        (vspaceMap m vs va pa pageSize perms color).2.1.words cell =
          pteEncode (pa >>> 12) (pteFlags vs.partitionId perms) := by
  unfold vspaceMap at h ⊢
  split_ifs at h ⊢ with hroot halign hodd hcolor
  have hsize : pageSize.toNat / 4096 = 1 := rfl
  rw [hsize, mapLoop_one] at h ⊢
  rw [not_or, not_or, not_not, not_not] at halign
  refine ⟨halign.2.1, not_not.mp hodd, ?_, mapPage_ok h⟩
  by_cases hzero : color = 0
  · rw [hzero]
    decide
  · have heq : (colorOf va).toUInt16 = color := by
      by_contra hne
      exact hcolor ⟨hne, hzero⟩
    rw [← heq, UInt64.toNat_toUInt16, toNat_colorOf]
    omega

/-- What a successful mapping found and left. -/
theorem MapInvocation.ok {i : MapInvocation} {k : Kernel} (h : (i.call k).1 = .ok) :
    ∃ frame, i.frame k = some frame ∧ frame.type = .frame ∧ Mappable frame ∧
      i.leaf k = some (pteEncode (frame.u.framePaddr >>> 12)
        (pteFlags (k.vspaces i.cap.u.rootPt).partitionId frame.u.framePerms)) := by
  have hcall := MapInvocation.call_of_valid (MapInvocation.valid_of_ok h) k
  unfold MapInvocation.leaf MapInvocation.frame
  rw [hcall] at h ⊢
  unfold invokeVspaceMap at h ⊢
  by_cases hvspace : i.cap.type ≠ .vspace
  · rw [if_pos hvspace] at h
    cases h
  rw [if_neg hvspace] at h ⊢
  cases hlook : cnodeLookup k.root (i.arg3 &&& 0xFF).toUInt32 with
  | none =>
    rw [hlook] at h
    cases h
  | some frame =>
    simp only [hlook] at h ⊢
    split_ifs at h ⊢ with hframe hnull
    obtain ⟨hpaddr, hodd, hcolor, cell, hcell, hleaf⟩ := vspaceMap_page_ok h
    refine ⟨frame, rfl, not_not.mp hframe, ⟨hpaddr, hodd, hcolor⟩, ?_⟩
    rw [hcell, Option.map_some, hleaf]

theorem MapInvocation.attenuated_of_within {i : MapInvocation} {k : Kernel}
    (h : ∀ frame, i.frame k = some frame → FrameWithin frame) : i.Attenuated k := by
  intro hok
  obtain ⟨frame, hframe, htype, hmap, hleaf⟩ := MapInvocation.ok hok
  exact ⟨frame, _, hframe, hleaf, (attenuates_iff ..).mpr (h frame hframe htype hmap)⟩

/-! ### Frames a lookup can find -/

/-- Some invocation can name the slot. -/
def CNode.Reaches (cn : CNode) (s : Nat) : Prop :=
  ∃ w : UInt64, cn.decode (w &&& 0xFF).toUInt32 = some s

/-- Every Frame that an invocation can name stays within its rights. -/
def FramesWithin (cn : CNode) : Prop :=
  ∀ s, cn.Reaches s → (cn.slots s).isValid ≠ 0 → (cn.slots s).hwCap.tag ≠ 0 →
    FrameWithin (cn.slots s)

theorem FramesWithin.lookup {cn : CNode} (h : FramesWithin cn) {w : UInt64} {c : Cap}
    (hl : cnodeLookup cn (w &&& 0xFF).toUInt32 = some c) : FrameWithin c := by
  obtain ⟨s, hs, rfl⟩ := Option.map_eq_some_iff.mp hl
  obtain ⟨hdecode, hvalid, htag⟩ := cnodeLookupSlot_iff.mp hs
  exact h s ⟨w, hdecode⟩ hvalid htag

theorem FramesWithin.setSlot {cn : CNode} (h : FramesWithin cn) {d : Nat} {c : Cap}
    (hc : cn.Reaches d → c.isValid ≠ 0 → FrameWithin c) : FramesWithin (cn.setSlot d c) := by
  intro s hs hvalid htag
  by_cases hsd : s = d
  · subst hsd
    rw [CNode.setSlot_self] at hvalid ⊢
    exact hc hs hvalid
  · rw [CNode.setSlot_ne hsd] at hvalid htag ⊢
    exact h s hs hvalid htag

theorem FramesWithin.clear {cn : CNode} (h : FramesWithin cn) (d : Nat) :
    FramesWithin (cn.setSlot d Cap.zero) :=
  h.setSlot fun _ hvalid => absurd rfl hvalid

/-- A store of a live capability keeps the Frames within rights exactly when the new one is,
wherever it can be found. -/
theorem framesWithin_setSlot_iff {cn : CNode} (h : FramesWithin cn) {d : Nat} {c : Cap}
    (hvalid : c.isValid ≠ 0) (htag : c.hwCap.tag ≠ 0) :
    FramesWithin (cn.setSlot d c) ↔ (cn.Reaches d → FrameWithin c) := by
  constructor
  · intro hnew hreach
    have hslot := hnew d hreach
    rw [CNode.setSlot_self] at hslot
    exact hslot hvalid htag
  · intro hc
    exact h.setSlot fun hreach _ => hc hreach

/-! ### A memory in which every such Frame can be mapped -/

/-- A root table at `0x1000` that leads to an empty last level at `0x3000`. -/
def openMemory : Memory :=
  { allocs := fun _ => allocInit 0 0
    words := fun a => if a = 0x1000 then pteEncode 2 1 else if a = 0x2000 then pteEncode 3 1 else 0
    fallbackPool := 0, fallbackNext := 0 }

def openVSpace : VSpace := { VSpace.empty 1 1 0 with root := 0x1000 }

/-- A VSpace capability, with whatever address for its object. -/
def vspaceCap (ptr : UInt64) : Cap :=
  { type := .vspace, rights := 0xF, badge := 0, isSealed := 1, isValid := 1, color := 0
    u := { w0 := ptr, w1 := 0, w2 := 0, w3 := 0 }, hwCap := { SimCap.zero with tag := 1 } }

/-- Page `color` of the address space has that colour and can be mapped. -/
theorem openVSpace_maps : ∀ n : Fin 16,
    (UInt64.ofNat (4096 * n)) % pageSize = 0 ∧
      (colorOf (UInt64.ofNat (4096 * n))).toUInt16 = UInt16.ofNat n ∧
        (mapPage openMemory openVSpace (UInt64.ofNat (4096 * n)) 0 0).1 = .ok := by
  decide +kernel

/-- The page of a Frame's colour. -/
def colorPage (frame : Cap) : UInt64 := UInt64.ofNat (4096 * frame.u.frameColor.toNat)

theorem vspaceMap_open {frame : Cap} (h : Mappable frame) :
    (vspaceMap openMemory openVSpace (colorPage frame) frame.u.framePaddr pageSize
      frame.u.framePerms frame.u.frameColor).1 = .ok := by
  obtain ⟨hpaddr, heven, hlt⟩ := h
  obtain ⟨halign, hcolor, hpage⟩ := openVSpace_maps ⟨frame.u.frameColor.toNat, hlt⟩
  rw [UInt16.ofNat_toNat] at hcolor
  have hroot : openVSpace.root ≠ 0 := by decide
  have hchecks : ¬ (colorPage frame % pageSize ≠ 0 ∨ frame.u.framePaddr % pageSize ≠ 0 ∨
      pageSize % pageSize ≠ 0) := by
    rw [not_or, not_or, not_not, not_not, not_not]
    exact ⟨halign, hpaddr, rfl⟩
  have hmatch : ¬ ((colorOf (colorPage frame)).toUInt16 ≠ frame.u.frameColor ∧
      frame.u.frameColor ≠ 0) := fun hne => hne.1 hcolor
  have hsize : pageSize.toNat / 4096 = 1 := rfl
  unfold vspaceMap
  rw [if_neg hroot, if_neg hchecks, if_neg (not_not.mpr heven), if_neg hmatch, hsize, mapLoop_one,
    mapPage_fst _ _ _ _ 0 _ 0]
  exact hpage

/-- The mapping of the Frame in slot `w` into that memory. -/
def openMap (frame : Cap) (w : UInt64) : MapInvocation :=
  { cap := vspaceCap 0x5000, op := .vspaceMap, arg1 := 8, arg2 := colorPage frame, arg3 := w }

def Kernel.withMemory (k : Kernel) (mem : Memory) (vspaces : UInt64 → VSpace) : Kernel :=
  { k with mem := mem, vspaces := vspaces }

theorem openMap_ok {k : Kernel} {frame : Cap} {w : UInt64}
    (hl : cnodeLookup k.root (w &&& 0xFF).toUInt32 = some frame) (htype : frame.type = .frame)
    (hmap : Mappable frame) :
    ((openMap frame w).call (k.withMemory openMemory fun _ => openVSpace)).1 = .ok := by
  have hl' : cnodeLookup (k.withMemory openMemory fun _ => openVSpace).root
      ((openMap frame w).arg3 &&& 0xFF).toUInt32 = some frame := hl
  have hvspace : ¬ (openMap frame w).cap.type ≠ .vspace := not_not.mpr rfl
  have hnull : ¬ (openMap frame w).cap.u.rootPt = 0 := by
    show ¬ (0x5000 : UInt64) = 0
    decide
  have hcap : capIsValid (openMap frame w).cap = true := by
    show capIsValid (vspaceCap 0x5000) = true
    decide
  rw [MapInvocation.call_of_valid hcap, invokeVspaceMap, if_neg hvspace, hl']
  simp only
  rw [if_neg (not_not.mpr htype), if_neg hnull]
  exact vspaceMap_open hmap

/-! ### Runs -/

/-- Whatever the memory and the address spaces, no mapping exceeds its Frame's rights. -/
def MapsAttenuated (k : Kernel) : Prop :=
  ∀ mem vspaces (i : MapInvocation), i.Attenuated (k.withMemory mem vspaces)

theorem mapsAttenuated_iff (k : Kernel) : MapsAttenuated k ↔ FramesWithin k.root := by
  constructor
  · rintro h s ⟨w, hdecode⟩ hvalid htag htype hmap
    have hl : cnodeLookup k.root (w &&& 0xFF).toUInt32 = some (k.root.slots s) := by
      rw [cnodeLookup, cnodeLookupSlot_iff.mpr ⟨hdecode, hvalid, htag⟩]
      rfl
    have hok := openMap_ok hl htype hmap
    obtain ⟨frame, hframe, -, -, hleaf⟩ := MapInvocation.ok hok
    obtain ⟨frame', pte, hframe', hleaf', hatt⟩ := h _ _ _ hok
    have heq : frame = k.root.slots s := Option.some.inj (hframe.symm.trans hl)
    have heq' : frame' = k.root.slots s := Option.some.inj (hframe'.symm.trans hl)
    rw [hleaf, Option.some.injEq] at hleaf'
    rw [← hleaf', heq', heq] at hatt
    exact (attenuates_iff ..).mp hatt
  · intro h mem vspaces i
    exact MapInvocation.attenuated_of_within fun frame hl => h.lookup hl

/-- The invocation puts a copy of `sc` into its destination slot. -/
def CnodeInvocation.Derives (i : CnodeInvocation) (k : Kernel) (sc : Cap) : Prop :=
  IsCnodeCap i.cap ∧
    match i.op with
    | .copy => CopyAllowed k.cnodes .root (i.arg3 &&& 0xFF).toUInt32 .root
        (i.arg2 &&& 0xFF).toUInt32 i.cap.rights sc
    | .mint => MintAllowed k.cnodes .root (i.arg3 &&& 0xFF).toUInt32 .root
        (i.arg2 &&& 0xFF).toUInt32 i.cap.rights sc
    | .move | .delete => False

/-- A Frame is derived only under rights that cover its payload. -/
def DerivesWithin (k : Kernel) (i : CnodeInvocation) : Prop :=
  ∀ sc, i.Derives k sc → k.root.Reaches (i.arg3 &&& 0xFF).toUInt32.toNat →
    FrameWithin { sc with rights := i.cap.rights }

theorem derivesWithin_of_none {k : Kernel} {i : CnodeInvocation} (h : ∀ sc, ¬ i.Derives k sc) :
    DerivesWithin k i := fun sc hsc => absurd hsc (h sc)

/-- The condition on an invocation that stores a capability made from `sc`. -/
theorem derived_within_iff {k : Kernel} {i : CnodeInvocation} {sc c : Cap}
    (hwithin : FramesWithin k.root) (hsc : i.Derives k sc)
    (hall : ∀ sc', i.Derives k sc' → sc' = sc) (hvalid : c.isValid ≠ 0) (htag : c.hwCap.tag ≠ 0)
    (hsame : FrameWithin c ↔ FrameWithin { sc with rights := i.cap.rights }) :
    FramesWithin (k.root.addSlot (i.arg3 &&& 0xFF).toUInt32.toNat c) ↔ DerivesWithin k i := by
  show FramesWithin (k.root.setSlot (i.arg3 &&& 0xFF).toUInt32.toNat c) ↔ DerivesWithin k i
  rw [framesWithin_setSlot_iff hwithin hvalid htag, hsame]
  constructor
  · intro h sc' hsc' hreach
    rw [hall sc' hsc']
    exact h hreach
  · intro h hreach
    exact h sc hsc hreach

/-- One invocation keeps the Frames within rights exactly when it derives none that is not. -/
theorem cnodeInvocationStep_within_iff {k : Kernel} (h : FramesWithin k.root)
    (i : CnodeInvocation) :
    FramesWithin (cnodeInvocationStep k i).root ↔ DerivesWithin k i := by
  obtain ⟨cap, op, arg1, arg2, arg3⟩ := i
  unfold cnodeInvocationStep
  cases op with
  | copy =>
    obtain ⟨sc, hcap, hallowed, heq⟩ | ⟨hnot, e, -, heq⟩ :=
      handleInvoke_copy_cases k cap arg1 arg2 arg3
    · obtain ⟨-, -, -, -, hvalid, htag⟩ := cnodeLookup_some hallowed.2.1
      simp only [CnodeOp.toInvokeOp, heq, Kernel.setRoot_root]
      have hall : ∀ sc', CnodeInvocation.Derives ⟨cap, .copy, arg1, arg2, arg3⟩ k sc' → sc' = sc :=
        fun sc' hsc' => Option.some.inj (hsc'.2.2.1.symm.trans hallowed.2.1)
      exact derived_within_iff (i := ⟨cap, .copy, arg1, arg2, arg3⟩) h ⟨hcap, hallowed⟩ hall
        hvalid htag Iff.rfl
    · simp only [CnodeOp.toInvokeOp, heq]
      exact ⟨fun _ => derivesWithin_of_none hnot, fun _ => h⟩
  | mint =>
    obtain ⟨sc, hcap, hallowed, heq⟩ | ⟨hnot, e, -, heq⟩ :=
      handleInvoke_mint_cases k cap arg1 arg2 arg3
    · obtain ⟨-, -, -, -, hvalid, htag⟩ := cnodeLookup_some hallowed.1.2.1
      simp only [CnodeOp.toInvokeOp, heq, Kernel.setRoot_root]
      have hall : ∀ sc', CnodeInvocation.Derives ⟨cap, .mint, arg1, arg2, arg3⟩ k sc' → sc' = sc :=
        fun sc' hsc' => Option.some.inj (hsc'.2.1.2.1.symm.trans hallowed.1.2.1)
      exact derived_within_iff (i := ⟨cap, .mint, arg1, arg2, arg3⟩) h ⟨hcap, hallowed⟩ hall
        hvalid htag Iff.rfl
    · simp only [CnodeOp.toInvokeOp, heq]
      exact ⟨fun _ => derivesWithin_of_none hnot, fun _ => h⟩
  | move =>
    have hnone : DerivesWithin k ⟨cap, .move, arg1, arg2, arg3⟩ :=
      derivesWithin_of_none fun sc hsc => hsc.2
    obtain ⟨slot, -, ⟨hl, -⟩, heq⟩ | ⟨-, e, -, heq⟩ :=
      handleInvoke_move_cases k cap arg1 arg2 arg3
    · obtain ⟨hdecode, hvalid, htag⟩ := cnodeLookupSlot_iff.mp hl
      have hmoved : FrameWithin (k.root.slots slot) := h slot ⟨arg2, hdecode⟩ hvalid htag
      simp only [CnodeOp.toInvokeOp, heq, Kernel.setRoot_root]
      exact ⟨fun _ => hnone, fun _ => (h.setSlot fun _ _ => hmoved).clear slot⟩
    · simp only [CnodeOp.toInvokeOp, heq]
      exact ⟨fun _ => hnone, fun _ => h⟩
  | delete =>
    have hnone : DerivesWithin k ⟨cap, .delete, arg1, arg2, arg3⟩ :=
      derivesWithin_of_none fun sc hsc => hsc.2
    obtain ⟨-, heq⟩ | ⟨-, e, -, heq⟩ := handleInvoke_delete_cases k cap arg1 arg2 arg3
    · simp only [CnodeOp.toInvokeOp, heq, Kernel.setRoot_root]
      exact ⟨fun _ => hnone, fun _ => h.clear _⟩
    · simp only [CnodeOp.toInvokeOp, heq]
      exact ⟨fun _ => hnone, fun _ => h⟩

/-- After every part of a run of CNode invocations no mapping exceeds the rights of its
Frame, exactly when the Frames at the start stay within their rights and so does every
Frame the run derives. -/
theorem frame_maps_attenuated_iff (k : Kernel) (is : List CnodeInvocation) :
    (∀ bs, bs <+: is → MapsAttenuated (Run.exec cnodeInvocationStep k bs)) ↔
      FramesWithin k.root ∧ Run.Guarded cnodeInvocationStep DerivesWithin k is := by
  have hstep : ∀ (k' : Kernel) (i : CnodeInvocation), FramesWithin k'.root →
      (FramesWithin (cnodeInvocationStep k' i).root ↔ DerivesWithin k' i) :=
    fun _ i hk => cnodeInvocationStep_within_iff hk i
  simp only [mapsAttenuated_iff]
  constructor
  · intro h
    have hstart : FramesWithin k.root := h [] List.nil_prefix
    exact ⟨hstart, (Run.exec_forall_prefix_iff hstep hstart is).mp h⟩
  · rintro ⟨hstart, hguard⟩
    exact (Run.exec_forall_prefix_iff hstep hstart is).mpr hguard

/-- The Frame of the invocation tests, with full rights and all access bits. -/
def testFrame : Cap :=
  { type := .frame, rights := 0xF, badge := 0, isSealed := 0, isValid := 1, color := 0
    u := { w0 := 0xA00000, w1 := 7, w2 := 0, w3 := 0 }, hwCap := { SimCap.zero with tag := 1 } }

/-- The root CNode with that Frame in slot 5. -/
def frameKernel : Kernel :=
  let k := Kernel.initial 0x80010000 schedInit openMemory fun _ => openVSpace
  k.setRoot (k.root.addSlot 5 testFrame)

/-- A copy of slot 5 to slot 6 under a CNode capability with READ alone. -/
def readOnlyCopy : CnodeInvocation :=
  { cap :=
      { type := .cnode, rights := capRightsRead, badge := 0, isSealed := 1, isValid := 1, color := 0
        u := Payload.zero, hwCap := { SimCap.zero with tag := 1 } }
    op := .copy, arg1 := 1, arg2 := 5, arg3 := 6 }

/-- The copy has READ alone and is mapped writable. -/
theorem frame_map_ignores_rights :
    let k := Run.exec cnodeInvocationStep frameKernel [readOnlyCopy]
    ((openMap testFrame 6).frame k).map Cap.rights = some capRightsRead ∧
      ((openMap testFrame 6).call k).1 = .ok ∧ ¬ (openMap testFrame 6).Attenuated k := by
  intro k
  have hok : ((openMap testFrame 6).call k).1 = .ok := by decide +kernel
  have hframe : (openMap testFrame 6).frame k = some { testFrame with rights := capRightsRead } := by
    decide +kernel
  have hleaf : (openMap testFrame 6).leaf k = some (pteEncode 0xA00 0xDF) := by decide +kernel
  refine ⟨by rw [hframe]; rfl, hok, fun hatt => ?_⟩
  obtain ⟨frame, pte, hframe', hleaf', hwrite, -⟩ := hatt hok
  rw [hframe, Option.some.injEq] at hframe'
  rw [hleaf, Option.some.injEq] at hleaf'
  rw [← hframe', ← hleaf'] at hwrite
  exact absurd (hwrite (by decide)) (by decide)

end Moonlight
