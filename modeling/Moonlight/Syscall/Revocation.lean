/-
Revocation and the capabilities lookups find.

`mdb_revoke` clears the copies the MDB keeps; the CNode slots that lookups read
are another structure, and no revocation touches them.  After a revocation the
root CNode is free of capabilities obtained from the revoked one exactly when
every one of them had been deleted by an invocation before.
-/
import Moonlight.Lib.Run
import Moonlight.Syscall.Boot
import Moonlight.Syscall.Lineage

namespace Moonlight

/-- What every state reached from boot satisfies: the ghost numbers agree with
the slots, and the MDB is a forest under node 0 with a node for every capability
that was given one. -/
structure LineageInv (s : Lineage) : Prop where
  held : Held s.kernel.root s.inst s.next s.deleted
  parent_lt : ∀ {d p}, s.parent d = some p → d < s.next
  forest : s.kernel.mdb.Forest
  top : s.kernel.mdb.Valid 0
  node_valid : ∀ {c n}, s.node c = some n → s.kernel.mdb.Valid n

section
variable {s : Lineage}

/-- A new capability in a free slot, with the MDB extended or not. -/
theorem LineageInv.derive (h : LineageInv s) (c : Cap) {k : Kernel} {src node : Option Nat}
    {dst : Nat} (hdst : dst < 256) (hfree : (s.kernel.root.slots dst).isValid = 0)
    (hc : c.isValid ≠ 0) (ht : c.hwCap.tag ≠ 0) (hroot : k.root = s.kernel.root.addSlot dst c)
    (hforest : k.mdb.Forest) (hvalid : ∀ j, s.kernel.mdb.Valid j → k.mdb.Valid j)
    (hnode : ∀ n, node = some n → k.mdb.Valid n) : LineageInv (s.derive k src dst node) where
  held := by
    show Held k.root _ _ _
    rw [hroot]
    exact h.held.put hdst hfree hc ht
  parent_lt := by
    intro d p hp
    by_cases hd : d = s.next
    · rw [hd]
      exact Nat.lt_succ_self s.next
    · simp only [Lineage.derive, Function.update_of_ne hd] at hp
      exact Nat.lt_succ_of_lt (h.parent_lt hp)
  forest := hforest
  top := hvalid 0 h.top
  node_valid := by
    intro d n hn
    by_cases hd : d = s.next
    · simp only [Lineage.derive, hd, Function.update_self] at hn
      exact hnode n hn
    · simp only [Lineage.derive, Function.update_of_ne hd] at hn
      exact hvalid n (h.node_valid hn)

/-- A change of the root CNode alone that `Held` accounts for. -/
theorem LineageInv.setRoot (h : LineageInv s) {cn : CNode} {inst : Nat → Nat} {deleted : Set Nat}
    (hheld : Held cn inst s.next deleted) :
    LineageInv { s with kernel := s.kernel.setRoot cn, inst := inst, deleted := deleted } where
  held := by
    simp only [Kernel.setRoot_root]
    exact hheld
  parent_lt := h.parent_lt
  forest := h.forest
  top := h.top
  node_valid := h.node_valid

theorem toNat_lt_of_lt {i : UInt32} (h : i < maxCapsPerCnode) : i.toNat < 256 :=
  UInt32.lt_iff_toNat_lt.mp h

theorem LineageInv.retype (h : LineageInv s) (slot : Nat) (i : Invocation)
    (hallowed : RetypeAllowed s.kernel (s.kernel.root.slots slot) i.arg1 i.arg2 i.arg3) :
    LineageInv (s.derive (s.kernel.retype (s.kernel.root.slots slot) i.arg1 i.arg2 i.arg3)
      (some (s.inst slot)) (retypeDest i.arg1).toNat
      (mdbInsert s.kernel.mdb 0 (retypeDest i.arg1)
        (capRetype (s.kernel.root.slots slot) (CapType.ofWord i.arg2)
          (s.kernel.root.slots slot).u.untypedPaddr i.arg3)).2.1) := by
  obtain ⟨-, hcan, hfree⟩ := hallowed
  obtain ⟨hvalid, hnode⟩ := mdbInsert_valid (Or.inr h.top) (retypeDest i.arg1)
    (capRetype (s.kernel.root.slots slot) (CapType.ofWord i.arg2)
      (s.kernel.root.slots slot).u.untypedPaddr i.arg3)
  have hroot := s.kernel.retype_root (s.kernel.root.slots slot) i.arg1 i.arg2 i.arg3
  have hnew : (capRetype (s.kernel.root.slots slot) (CapType.ofWord i.arg2)
      (s.kernel.root.slots slot).u.untypedPaddr i.arg3).isValid ≠ 0 := by
    rw [capRetype_isValid hcan]
    decide
  have htag : (capRetype (s.kernel.root.slots slot) (CapType.ofWord i.arg2)
      (s.kernel.root.slots slot).u.untypedPaddr i.arg3).hwCap.tag ≠ 0 := by
    rw [capRetype, if_pos hcan]
    show (1 : UInt8) ≠ 0
    decide
  exact h.derive _ (toNat_lt_of_lt (retypeDest_lt i.arg1)) hfree hnew htag hroot
    (mdbInsert_forest h.forest (Or.inr h.top) ..) hvalid hnode

theorem lineageStep_inv (s : Lineage) (i : Invocation) (h : LineageInv s) :
    LineageInv (lineageStep s i) := by
  obtain ⟨cptr, op, arg1, arg2, arg3⟩ := i
  unfold lineageStep
  cases hslot : cnodeLookupSlot s.kernel.root cptr with
  | none => exact h
  | some slot =>
    simp only
    cases op with
    | retype =>
      obtain ⟨hallowed, heq⟩ | ⟨-, e, hne, heq⟩ :=
        handleInvoke_retype_cases s.kernel (s.kernel.root.slots slot) arg1 arg2 arg3
      · simp only [LineageOp.toInvokeOp, heq, if_true]
        exact h.retype slot ⟨cptr, .retype, arg1, arg2, arg3⟩ hallowed
      · simp only [LineageOp.toInvokeOp, heq, if_neg hne]
        exact h
    | copy =>
      obtain ⟨sc, -, ⟨⟨hd, -⟩, hl, -, hfree⟩, heq⟩ | ⟨-, e, hne, heq⟩ :=
        handleInvoke_copy_cases s.kernel (s.kernel.root.slots slot) arg1 arg2 arg3
      · simp only [LineageOp.toInvokeOp, heq, if_true, Lineage.record]
        obtain ⟨-, -, -, -, hv, ht⟩ := cnodeLookup_some hl
        exact h.derive { sc with rights := (s.kernel.root.slots slot).rights } (toNat_lt_of_lt hd)
          hfree hv ht (s.kernel.setRoot_root _) h.forest (fun _ hj => hj) (by simp)
      · simp only [LineageOp.toInvokeOp, heq, if_neg hne]
        exact h
    | mint =>
      obtain ⟨sc, -, ⟨⟨⟨hd, -⟩, hl, -, hfree⟩, -⟩, heq⟩ | ⟨-, e, hne, heq⟩ :=
        handleInvoke_mint_cases s.kernel (s.kernel.root.slots slot) arg1 arg2 arg3
      · simp only [LineageOp.toInvokeOp, heq, if_true, Lineage.record]
        obtain ⟨-, -, -, -, hv, ht⟩ := cnodeLookup_some hl
        exact h.derive
          { sc with rights := (s.kernel.root.slots slot).rights,
                    badge := ((arg2 >>> 8) &&& 0xFF).toUInt32 }
          (toNat_lt_of_lt hd) hfree hv ht (s.kernel.setRoot_root _) h.forest (fun _ hj => hj)
          (by simp)
      · simp only [LineageOp.toInvokeOp, heq, if_neg hne]
        exact h
    | move =>
      obtain ⟨src, -, ⟨hl, hfree⟩, heq⟩ | ⟨-, e, hne, heq⟩ :=
        handleInvoke_move_cases s.kernel (s.kernel.root.slots slot) arg1 arg2 arg3
      · have hsrc : cnodeLookupSlot s.kernel.root (arg2 &&& 0xFF).toUInt32 = some src := hl
        obtain ⟨hlt, hv, -⟩ := cnodeLookupSlot_some hl
        simp only [LineageOp.toInvokeOp, heq, if_true, Lineage.record, Invocation.srcIdx,
          Invocation.dstIdx, hsrc, Option.map_some, Option.getD_some]
        exact h.setRoot (h.held.move (toNat_lowByte arg3) hfree ⟨hlt, hv⟩)
      · simp only [LineageOp.toInvokeOp, heq, if_neg hne]
        exact h
    | delete =>
      obtain ⟨⟨-, hlt, hv⟩, heq⟩ | ⟨-, e, hne, heq⟩ :=
        handleInvoke_delete_cases s.kernel (s.kernel.root.slots slot) arg1 arg2 arg3
      · simp only [LineageOp.toInvokeOp, heq, if_true, Lineage.record]
        exact h.setRoot (h.held.delete ⟨toNat_lt_of_lt hlt, hv⟩)
      · simp only [LineageOp.toInvokeOp, heq, if_neg hne]
        exact h

end

/-! ### Boot -/

/-- The ghost state when the first capability is in place. -/
def rootLineage (env : BootEnv) : Lineage :=
  { kernel := bootRoot env
    inst := fun _ => 0
    parent := fun _ => none
    node := fun c => if c = 0 then (mdbInsert mdbInit Mdb.nil 0 bootUntyped).2.1 else none
    next := 1
    deleted := ∅ }

def Lineage.spawn (s : Lineage) (gAlloc : UInt64) (args : ProcessArgs) : Lineage :=
  { s with kernel := s.kernel.spawn gAlloc args }

/-- A server endpoint's capability is obtained from none. -/
def Lineage.endpoint (s : Lineage) (env : BootEnv) (i : Nat) : Lineage :=
  s.derive (bootEndpoint env s.kernel i) none (10 + i) none

/-- The lineage of the capabilities `kernel_boot` leaves. -/
def bootLineage (env : BootEnv) : Lineage :=
  let s := (rootLineage env).spawn env.gAlloc (helloArgs env)
  let s := lineageStep s { cptr := 0, op := .retype, arg1 := 0x500, arg2 := 5, arg3 := 4096 }
  let s := s.endpoint env 1
  let s := s.endpoint env 2
  let s := s.endpoint env 3
  let s := s.spawn env.gAlloc (serverArgs env 0 0x80600000)
  let s := s.spawn env.gAlloc (serverArgs env 1 0x80700000)
  s.spawn env.gAlloc (serverArgs env 2 0x80800000)

theorem bootRoot_root (env : BootEnv) :
    (bootRoot env).root = { (cnodeInit CNode.zero 0 8).2.setSlot 0 bootUntyped with used := 1 } :=
  (Kernel.initial env.gTcbs bootSched env.mem env.vspaces).setRoot_root _

theorem bootRoot_slots (env : BootEnv) :
    (bootRoot env).root.slots = Function.update (fun _ => Cap.zero) 0 bootUntyped := by
  rw [bootRoot_root]
  rfl

/-- Only slot zero is in use, and its capability has number zero. -/
theorem rootLineage_held (env : BootEnv) :
    Held (bootRoot env).root (rootLineage env).inst (rootLineage env).next
      (rootLineage env).deleted := by
  have huse : {i | (bootRoot env).root.InUse i} = {0} := by
    ext i
    rw [Set.mem_ofPred_eq, Set.mem_singleton_iff, CNode.InUse, bootRoot_slots]
    by_cases hi : i = 0
    · subst hi
      rw [Function.update_self]
      exact ⟨fun _ => rfl, fun _ => ⟨by decide, by decide⟩⟩
    · rw [Function.update_of_ne hi]
      exact ⟨fun h => absurd rfl h.2, fun h => absurd h hi⟩
  have hlive : Set.Iio (rootLineage env).next \ (rootLineage env).deleted =
      {(rootLineage env).inst 0} := by
    ext d
    simp [rootLineage]
  have hbij : Set.BijOn (rootLineage env).inst {i | (bootRoot env).root.InUse i}
      (Set.Iio (rootLineage env).next \ (rootLineage env).deleted) := by
    rw [huse, hlive]
    exact Set.bijOn_singleton.mpr rfl
  refine held_of_bijOn (by rw [bootRoot_root]; rfl) (by rw [bootRoot_root]; rfl) (fun hi => ?_)
    hbij fun hd => by cases hd
  have hzero : _ ∈ {i | (bootRoot env).root.InUse i} := hi
  rw [huse, Set.mem_singleton_iff] at hzero
  rw [hzero, bootRoot_slots, Function.update_self]
  decide

theorem rootLineage_inv (env : BootEnv) : LineageInv (rootLineage env) := by
  have hvalid := mdbInsert_valid (Or.inl rfl : Mdb.nil = Mdb.nil ∨ mdbInit.Valid Mdb.nil) 0
    bootUntyped
  refine ⟨rootLineage_held env, ?_, ?_, ?_, ?_⟩
  · intro d p hp
    cases hp
  · exact mdbInsert_forest mdbInit_forest (Or.inl rfl) ..
  · exact hvalid.2 0 (by decide +kernel)
  · intro c n hn
    by_cases hc : c = 0
    · simp only [rootLineage, if_pos hc] at hn
      exact hvalid.2 n hn
    · simp only [rootLineage, if_neg hc] at hn
      cases hn

/-- Spawning a process leaves the root CNode alone and adds a root to the MDB. -/
theorem LineageInv.spawn {s : Lineage} (h : LineageInv s) (gAlloc : UInt64) (args : ProcessArgs) :
    LineageInv (s.spawn gAlloc args) := by
  have hroot : (s.spawn gAlloc args).kernel.root = s.kernel.root := by
    show (s.kernel.spawn gAlloc args).cnodes .root = _
    rw [spawn_cnodes]
    rfl
  have hmdb : (s.spawn gAlloc args).kernel.mdb.Forest ∧
      ∀ j, s.kernel.mdb.Valid j → (s.spawn gAlloc args).kernel.mdb.Valid j := by
    obtain heq | ⟨id, stack, heq⟩ := spawn_mdb s.kernel gAlloc args
    · simp only [Lineage.spawn, heq]
      exact ⟨h.forest, fun j hj => hj⟩
    · simp only [Lineage.spawn, heq]
      exact ⟨mdbInsert_forest h.forest (Or.inl rfl) .., (mdbInsert_valid (Or.inl rfl) id stack).1⟩
  refine ⟨?_, h.parent_lt, hmdb.1, hmdb.2 0 h.top, fun hn => hmdb.2 _ (h.node_valid hn)⟩
  rw [hroot]
  exact h.held

theorem LineageInv.endpoint {s : Lineage} (h : LineageInv s) (env : BootEnv) {i : Nat}
    (hi : i ≤ 3) (hfree : (s.kernel.root.slots (10 + i)).isValid = 0) :
    LineageInv (s.endpoint env i) := by
  have hroot : (bootEndpoint env s.kernel i).root =
      s.kernel.root.addSlot (10 + i) (endpointCap env (UInt64.ofNat i)) :=
    s.kernel.setRoot_root _
  exact h.derive _ (by omega) hfree (by simp [endpointCap]) (by simp [endpointCap]) hroot h.forest
    (fun _ hj => hj) (by simp)

theorem lineageStep_kernel {s : Lineage} {i : Invocation} {slot : Nat}
    (h : cnodeLookupSlot s.kernel.root i.cptr = some slot) :
    (lineageStep s i).kernel =
      (handleInvoke s.kernel (s.kernel.root.slots slot) i.op.toInvokeOp i.arg1 i.arg2 i.arg3).2 := by
  simp only [lineageStep, h]
  split_ifs
  · cases hop : i.op <;> simp only [Lineage.record, hop, Lineage.derive]
  · rfl

theorem handleInvoke_retype_slots (k : Kernel) (cap : Cap) (arg1 arg2 arg3 : UInt64) {j : Nat}
    (hj : j ≠ (retypeDest arg1).toNat) :
    (handleInvoke k cap .untypedRetype arg1 arg2 arg3).2.root.slots j = k.root.slots j := by
  obtain ⟨-, heq⟩ | ⟨-, e, -, heq⟩ := handleInvoke_retype_cases k cap arg1 arg2 arg3
  · rw [heq]
    show (k.retype cap arg1 arg2 arg3).root.slots j = k.root.slots j
    rw [Kernel.retype_root]
    exact CNode.setSlot_ne hj k.root _
  · rw [heq]

theorem bootEndpoint_slots (env : BootEnv) (k : Kernel) {i j : Nat} (hj : j ≠ 10 + i) :
    (bootEndpoint env k i).root.slots j = k.root.slots j := by
  have hroot : (bootEndpoint env k i).root =
      k.root.addSlot (10 + i) (endpointCap env (UInt64.ofNat i)) := k.setRoot_root _
  rw [hroot]
  exact CNode.setSlot_ne hj k.root _

section
variable (env : BootEnv)

/-- The lineage after the first process is spawned: slot 0 holds the Untyped and
nothing else is in use. -/
theorem helloLineage_slots :
    ((rootLineage env).spawn env.gAlloc (helloArgs env)).kernel.root.slots =
      Function.update (fun _ => Cap.zero) 0 bootUntyped := by
  show (((bootRoot env).spawn env.gAlloc (helloArgs env)).cnodes .root).slots = _
  rw [spawn_cnodes]
  exact bootRoot_slots env

theorem helloLineage_lookup :
    cnodeLookupSlot ((rootLineage env).spawn env.gAlloc (helloArgs env)).kernel.root 0 =
      some 0 := by
  have hinv := (rootLineage_inv env).spawn env.gAlloc (helloArgs env)
  refine hinv.held.lookup ⟨by decide, ?_⟩
  rw [helloLineage_slots, Function.update_self]
  decide

/-- The retype boot makes is the one of the invocation handler. -/
theorem helloLineage_retype :
    (lineageStep ((rootLineage env).spawn env.gAlloc (helloArgs env))
      { cptr := 0, op := .retype, arg1 := 0x500, arg2 := 5, arg3 := 4096 }).kernel =
    (handleInvoke ((rootLineage env).spawn env.gAlloc (helloArgs env)).kernel
      (((rootLineage env).spawn env.gAlloc (helloArgs env)).kernel.root.slots 0) .untypedRetype
      0x500 5 4096).2 :=
  lineageStep_kernel (i := { cptr := 0, op := .retype, arg1 := 0x500, arg2 := 5, arg3 := 4096 })
    (helloLineage_lookup env)

theorem bootLineage_kernel : (bootLineage env).kernel = bootKernel env := by
  have hretype : (lineageStep ((rootLineage env).spawn env.gAlloc (helloArgs env))
      { cptr := 0, op := .retype, arg1 := 0x500, arg2 := 5, arg3 := 4096 }).kernel =
      bootRetype ((bootRoot env).spawn env.gAlloc (helloArgs env)) := by
    rw [helloLineage_retype]
    have hlookup : cnodeLookup ((bootRoot env).spawn env.gAlloc (helloArgs env)).root 0 =
        some bootUntyped := by
      have hslot := congrFun (helloLineage_slots env) 0
      rw [Function.update_self] at hslot
      rw [cnodeLookup]
      show (cnodeLookupSlot ((rootLineage env).spawn env.gAlloc (helloArgs env)).kernel.root 0).map
        ((rootLineage env).spawn env.gAlloc (helloArgs env)).kernel.root.slots = _
      rw [helloLineage_lookup, Option.map_some, hslot]
    have hslot := congrFun (helloLineage_slots env) 0
    rw [Function.update_self] at hslot
    rw [bootRetype, hlookup, hslot]
    rfl
  simp only [bootLineage, bootKernel, bootServers, Lineage.spawn, Lineage.endpoint, Lineage.derive]
  simp only [Lineage.spawn] at hretype
  rw [hretype]

theorem bootLineage_inv : LineageInv (bootLineage env) := by
  have h₀ := (rootLineage_inv env).spawn env.gAlloc (helloArgs env)
  have h₁ := lineageStep_inv _
    { cptr := 0, op := .retype, arg1 := 0x500, arg2 := 5, arg3 := 4096 } h₀
  have hfree : ∀ j, 11 ≤ j → ((lineageStep ((rootLineage env).spawn env.gAlloc (helloArgs env))
      { cptr := 0, op := .retype, arg1 := 0x500, arg2 := 5, arg3 := 4096 }).kernel.root.slots
        j).isValid = 0 := by
    intro j hj
    have hdest : (retypeDest 0x500).toNat = 5 := by decide
    rw [helloLineage_retype, handleInvoke_retype_slots _ _ _ _ _ (by rw [hdest]; omega),
      helloLineage_slots, Function.update_of_ne (by omega)]
    rfl
  have h₂ := h₁.endpoint env (i := 1) (by decide) (hfree 11 (by decide))
  have h₃ := h₂.endpoint env (i := 2) (by decide) (by
    show ((bootEndpoint env _ 1).root.slots 12).isValid = 0
    rw [bootEndpoint_slots env _ (by decide)]
    exact hfree 12 (by decide))
  have h₄ := h₃.endpoint env (i := 3) (by decide) (by
    show ((bootEndpoint env (bootEndpoint env _ 1) 2).root.slots 13).isValid = 0
    rw [bootEndpoint_slots env _ (by decide), bootEndpoint_slots env _ (by decide)]
    exact hfree 13 (by decide))
  exact ((h₄.spawn ..).spawn ..).spawn ..

end

/-! ### Revocation -/

/-- No lookup in the root CNode returns a capability obtained from `c`. -/
def NoneDerived (s : Lineage) (k : Kernel) (c : Nat) : Prop :=
  ∀ idx slot, cnodeLookupSlot k.root idx = some slot → ¬ s.Derived c (s.inst slot)

theorem LineageInv.derived_lt {s : Lineage} (h : LineageInv s) {c d : Nat} (hd : s.Derived c d) :
    d < s.next := by
  obtain ⟨b, -, hb⟩ := Relation.TransGen.tail'_iff.mp hd
  exact h.parent_lt hb

/-- Lookups find no derived capability exactly when all of them were deleted. -/
theorem LineageInv.noneDerived_iff {s : Lineage} (h : LineageInv s) {k : Kernel}
    (hroot : k.root = s.kernel.root) (c : Nat) :
    NoneDerived s k c ↔ ∀ d, s.Derived c d → d ∈ s.deleted := by
  unfold NoneDerived
  rw [hroot]
  constructor
  · intro hnone d hd
    by_contra hnot
    obtain ⟨i, hi, heq⟩ := h.held.held (h.derived_lt hd) hnot
    refine hnone (UInt32.ofNat i) i (h.held.lookup hi) ?_
    rw [heq]
    exact hd
  · intro hdeleted idx slot hlookup hd
    obtain ⟨hlt, hv, -⟩ := cnodeLookupSlot_some hlookup
    exact h.held.alive ⟨hlt, hv⟩ (hdeleted _ hd)

/-- In every state reached from boot, `mdb_revoke` on the node of a capability
terminates with `ERR_OK`, and afterwards lookups in the root CNode return no
capability obtained from it if and only if all of these had been deleted
before. -/
theorem revoke_complete_iff (env : BootEnv) (is : List Invocation) {c n : Nat}
    (hnode : (Run.exec lineageStep (bootLineage env) is).node c = some n) :
    let s := Run.exec lineageStep (bootLineage env) is
    ∃ mdb', Fuel.Yields (fun fuel => mdbRevoke fuel s.kernel.mdb n) (.ok, mdb') ∧
      (NoneDerived s { s.kernel with mdb := mdb' } c ↔
        ∀ d, s.Derived c d → d ∈ s.deleted) := by
  intro s
  have hinv : LineageInv s :=
    Run.exec_invariant_of_forall lineageStep_inv is (bootLineage_inv env)
  obtain ⟨-, mdb', hyields, -⟩ := mdbRevoke_yields hinv.forest (hinv.node_valid hnode)
  exact ⟨mdb', hyields, hinv.noneDerived_iff rfl c⟩

theorem plainBoot_node : (bootLineage plainBoot).node 0 = some 0 := by decide +kernel

theorem revoke_complete_iff_at_boot :
    (bootLineage plainBoot).node 0 = some 0 ∧
    ∃ mdb', Fuel.Yields (fun fuel => mdbRevoke fuel (bootLineage plainBoot).kernel.mdb 0)
        (.ok, mdb') ∧
      (NoneDerived (bootLineage plainBoot) { (bootLineage plainBoot).kernel with mdb := mdb' } 0 ↔
        ∀ d, (bootLineage plainBoot).Derived 0 d → d ∈ (bootLineage plainBoot).deleted) :=
  ⟨plainBoot_node, revoke_complete_iff plainBoot [] plainBoot_node⟩

/-- Right after boot, revoking the root Untyped leaves the Frame that boot
retyped from it in slot 5. -/
theorem revoke_keeps_boot_frame :
    (bootLineage plainBoot).kernel = bootKernel plainBoot ∧
    (bootLineage plainBoot).node 0 = some 0 ∧
    ∃ mdb', Fuel.Yields (fun fuel => mdbRevoke fuel (bootKernel plainBoot).mdb 0) (.ok, mdb') ∧
      cnodeLookupSlot { bootKernel plainBoot with mdb := mdb' }.root 5 = some 5 ∧
      (bootLineage plainBoot).Derived 0 ((bootLineage plainBoot).inst 5) := by
  have hinv := bootLineage_inv plainBoot
  have hforest := hinv.forest
  have hvalid := hinv.node_valid plainBoot_node
  rw [bootLineage_kernel] at hforest hvalid
  obtain ⟨-, mdb', hyields, -⟩ := mdbRevoke_yields hforest hvalid
  refine ⟨bootLineage_kernel plainBoot, plainBoot_node, mdb', hyields, ?_, .single ?_⟩
  · show cnodeLookupSlot (bootKernel plainBoot).root 5 = some 5
    decide +kernel
  · decide +kernel

end Moonlight
