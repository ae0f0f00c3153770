/-
Processes and retypes over the life of the kernel.

Runs of `process_create`, `process_destroy` and retypes start in the state boot leaves.
Every run keeps the two levels of the MDB.  The chains of parents end exactly as long
as node 0 is in use at every retype: `process_destroy` of thread 0 deletes that node,
because id 0 matches every key, and the next retype then hangs node 0 below itself.
-/
import Moonlight.Capability.MdbFlat
import Moonlight.Lib.Run
import Moonlight.Process.Destroy

namespace Moonlight

open Mdb (nil)
open Relation Threaded

inductive LifecycleCall where
  | create (args : ProcessArgs)
  | destroy (tcbId : UInt32)
  | retype (cap : Cap) (arg1 arg2 arg3 : UInt64)

/-- The state after the call, with fuel for the walks of `process_destroy`. -/
def lifecycle (fuel : Nat) (env : BootEnv) (k : Kernel) : LifecycleCall → Option Kernel
  | .create args => some (k.create env args).2.2
  | .destroy tcbId => (processDestroy fuel env k tcbId).map Prod.snd
  | .retype cap arg1 arg2 arg3 => some (handleInvoke k cap .untypedRetype arg1 arg2 arg3).2

/-- The call returns and leaves `k'`. -/
def LifecycleStep (env : BootEnv) (k : Kernel) (c : LifecycleCall) (k' : Kernel) : Prop :=
  Fuel.Yields (fun fuel => lifecycle fuel env k c) k'

/-! ### The MDB part of a destruction -/

/-- The first node in the order of `mdb_lookup`. -/
def Mdb.FirstMatch (mdb : Mdb) (tcbId : UInt32) (idx : Nat) : Prop :=
  mdb.Matches tcbId idx ∧ ∀ i, i < idx → ¬ mdb.Matches tcbId i

/-- Nothing is found; or the first match goes, with what is below it; or the first match is
a node below itself and the revocation does not end. -/
theorem Mdb.Flat.reclaim {mdb : Mdb} (h : mdb.Flat) (tcbId : UInt32) :
    ((∀ i, ¬ mdb.Matches tcbId i) ∧ Fuel.Yields (fun fuel => mdbReclaim fuel mdb tcbId) mdb) ∨
    (∃ idx mdb', mdb.FirstMatch tcbId idx ∧
      Fuel.Yields (fun fuel => mdbReclaim fuel mdb tcbId) mdb' ∧ Removed mdb mdb' idx ∧ mdb'.Flat) ∨
    (mdb.FirstMatch tcbId 0 ∧ mdb.parentOf 0 = 0 ∧ ∀ fuel, mdbReclaim fuel mdb tcbId = none) := by
  unfold mdbReclaim
  rcases mdbLookup_cases h.keys tcbId with ⟨hnil, hnone⟩ | ⟨hmatch, hfirst⟩
  · refine Or.inl ⟨hnone, Fuel.yields_of_forall fun fuel => ?_⟩
    simp [hnil]
  generalize mdbLookup mdb 0 tcbId = idx at hmatch hfirst ⊢
  have hne : idx ≠ nil := fun heq => mdb.not_valid_nil (heq ▸ hmatch.1)
  simp only [hne, ne_eq, not_false_eq_true, if_true]
  by_cases h0 : idx = 0
  · subst h0
    rcases h.parent 0 with hroot | hself
    · obtain ⟨revoked, mdb', hrevoke, hdelete, hremoved, hflat⟩ := h.remove_zero hmatch.1 hroot
      exact Or.inr (Or.inl ⟨0, mdb', ⟨hmatch, hfirst⟩, hrevoke.bind (hdelete.map Prod.snd),
        hremoved, hflat⟩)
    · refine Or.inr (Or.inr ⟨⟨hmatch, hfirst⟩, hself, fun fuel => ?_⟩)
      rw [h.revoke_diverges hmatch.1 hself]
      rfl
  · obtain ⟨mdb', hdelete, hremoved, hflat⟩ := h.remove_leaf hmatch.1 h0
    have hrevoke := mdbRevoke_leaf_yields hmatch.1 (h.leaf idx hmatch.1 h0)
    exact Or.inr (Or.inl ⟨idx, mdb', ⟨hmatch, hfirst⟩, hrevoke.bind (hdelete.map Prod.snd), hremoved,
      hflat⟩)

/-! ### The MDB part of a call -/

theorem destroyStep_occupied {env : BootEnv} {k k' : Kernel} {tcbId : UInt32}
    (hocc : Occupied k tcbId) :
    LifecycleStep env k (.destroy tcbId) k' ↔
      ∃ mdb', Fuel.Yields (fun fuel => mdbReclaim fuel k.mdb tcbId) mdb' ∧
        k' = k.withoutThread env tcbId mdb' := by
  have hlifecycle : ∀ fuel, lifecycle fuel env k (.destroy tcbId) =
      (mdbReclaim fuel k.mdb tcbId).map fun mdb => k.withoutThread env tcbId mdb := by
    intro fuel
    rw [lifecycle, processDestroy_occupied hocc, Option.map_map]
    rfl
  constructor
  · intro h
    have hyields : Fuel.Yields (fun fuel => mdbReclaim fuel k.mdb tcbId) k'.mdb :=
      (Fuel.Yields.congr (fun fuel => (hlifecycle fuel).symm) h).of_map Kernel.mdb fun _ => rfl
    exact ⟨k'.mdb, hyields, h.unique (Fuel.Yields.congr hlifecycle (hyields.map _))⟩
  · rintro ⟨mdb', hyields, rfl⟩
    exact Fuel.Yields.congr hlifecycle (hyields.map _)

theorem destroyStep_free {env : BootEnv} {k k' : Kernel} {tcbId : UInt32} (hfree : ¬ Occupied k tcbId) :
    LifecycleStep env k (.destroy tcbId) k' ↔ k' = k := by
  have hsame : LifecycleStep env k (.destroy tcbId) k := by
    refine Fuel.yields_of_forall fun fuel => ?_
    rw [lifecycle, processDestroy_free hfree]
    rfl
  constructor
  · exact fun h => h.unique hsame
  · rintro rfl
    exact hsame

/-- All that a call can do to the MDB. -/
inductive MdbChange (k : Kernel) : LifecycleCall → Mdb → Prop
  | same (c : LifecycleCall) : MdbChange k c k.mdb
  | create (args : ProcessArgs) (id : UInt32) (stack : Cap) :
      MdbChange k (.create args) (mdbInsert k.mdb nil id stack).2.2
  | retype {cap : Cap} {arg1 arg2 arg3 : UInt64} (newCap : Cap) :
      RetypeAllowed k cap arg1 arg2 arg3 →
      MdbChange k (.retype cap arg1 arg2 arg3) (mdbInsert k.mdb 0 (retypeDest arg1) newCap).2.2
  | destroy {tcbId : UInt32} {mdb' : Mdb} :
      Occupied k tcbId → Fuel.Yields (fun fuel => mdbReclaim fuel k.mdb tcbId) mdb' →
      MdbChange k (.destroy tcbId) mdb'

theorem lifecycleStep_mdb {env : BootEnv} {k k' : Kernel} {c : LifecycleCall}
    (h : LifecycleStep env k c k') : MdbChange k c k'.mdb := by
  cases c with
  | create args =>
    rw [Fuel.Yields.const h]
    obtain ⟨id, stack, -, -, -, hmdb⟩ | ⟨-, hmdb⟩ := processCreate_cases
      { tcbs := k.tcbs, alloc := k.mem.allocs env.gAlloc, sched := k.sched, mdb := k.mdb } args
    · show MdbChange k _ (processCreate _ args).2.2.mdb
      rw [hmdb]
      exact .create args id stack
    · show MdbChange k _ (processCreate _ args).2.2.mdb
      rw [hmdb]
      exact .same _
  | destroy tcbId =>
    by_cases hocc : Occupied k tcbId
    · obtain ⟨mdb', hyields, rfl⟩ := (destroyStep_occupied hocc).mp h
      exact .destroy hocc hyields
    · rw [(destroyStep_free hocc).mp h]
      exact .same _
  | retype cap arg1 arg2 arg3 =>
    rw [Fuel.Yields.const h]
    obtain ⟨hallowed, heq⟩ | ⟨-, e, -, heq⟩ := handleInvoke_retype_cases k cap arg1 arg2 arg3
    · rw [heq]
      exact .retype _ hallowed
    · rw [heq]
      exact .same _

theorem MdbChange.flat {k : Kernel} {c : LifecycleCall} {mdb' : Mdb} (h : MdbChange k c mdb')
    (hflat : k.mdb.Flat) : mdb'.Flat := by
  cases h with
  | same => exact hflat
  | create args id stack => exact (hflat.insert_root id stack).1
  | retype newCap _ => exact (hflat.insert_zero _ newCap).1
  | @destroy tcbId _ _ hyields =>
    rcases hflat.reclaim tcbId with ⟨-, hsame⟩ | ⟨idx, mdb₁, -, hy, -, hflat'⟩ | ⟨-, -, hnone⟩
    · rw [hyields.unique hsame]
      exact hflat
    · rw [hyields.unique hy]
      exact hflat'
    · exact absurd hyields (Fuel.not_yields_of_forall hnone mdb')

/-! ### Chains of parents -/

/-- The condition on a call: a retype that passes its checks finds node 0 in use. -/
def RetypesUnderRoot (k : Kernel) : LifecycleCall → Prop
  | .retype cap arg1 arg2 arg3 => RetypeAllowed k cap arg1 arg2 arg3 → k.mdb.Valid 0
  | _ => True

theorem Inserted.parentOf_zero {mdb mdb' : Mdb} {idx parentIdx : Nat} {cptr : UInt32}
    (h : Inserted mdb mdb' idx parentIdx cptr) (hroot : mdb.parentOf 0 = nil)
    (hparent : idx = 0 → parentIdx = nil) : mdb'.parentOf 0 = nil := by
  by_cases hidx : idx = 0
  · have hnew := h.parent
    rw [hidx] at hnew
    exact hnew.trans (hparent hidx)
  · rw [(h.kept 0 (Ne.symm hidx)).1]
    exact hroot

theorem Removed.parentOf_zero {mdb mdb' : Mdb} {idx : Nat} (h : Removed mdb mdb' idx)
    (hroot : mdb.parentOf 0 = nil) : mdb'.parentOf 0 = nil := by
  by_cases hidx : idx = 0
  · have hfreed := h.freed
    rw [hidx] at hfreed
    rw [Mdb.parentOf, hfreed]
    rfl
  · rw [(h.kept 0 (Ne.symm hidx)).1]
    exact hroot

theorem MdbChange.parentOf_zero {k : Kernel} {c : LifecycleCall} {mdb' : Mdb}
    (h : MdbChange k c mdb') (hflat : k.mdb.Flat) (hroot : k.mdb.parentOf 0 = nil)
    (hok : RetypesUnderRoot k c) : mdb'.parentOf 0 = nil := by
  cases h with
  | same => exact hroot
  | create args id stack =>
    rcases (hflat.insert_root id stack).2 with hsame | ⟨idx, hinserted⟩
    · rw [hsame]
      exact hroot
    · exact hinserted.parentOf_zero hroot fun _ => rfl
  | @retype _ arg1 _ _ newCap hallowed =>
    have h0 : k.mdb.Valid 0 := hok hallowed
    rcases (hflat.insert_zero (retypeDest arg1) newCap).2 with
      ⟨-, hsame⟩ | ⟨idx, -, hinserted⟩ | hinserted
    · rw [hsame]
      exact hroot
    · exact hinserted.parentOf_zero hroot fun hidx => absurd (hidx ▸ h0) hinserted.free
    · exact absurd h0 hinserted.free
  | @destroy tcbId _ _ hyields =>
    rcases hflat.reclaim tcbId with ⟨-, hsame⟩ | ⟨idx, mdb₁, -, hy, hremoved, -⟩ | ⟨-, -, hnone⟩
    · rw [hyields.unique hsame]
      exact hroot
    · rw [hyields.unique hy]
      exact hremoved.parentOf_zero hroot
    · exact absurd hyields (Fuel.not_yields_of_forall hnone mdb')

/-- The database when boot hands out capabilities: node 0 is the root Untyped. -/
structure BootMdb (mdb : Mdb) : Prop where
  flat : mdb.Flat
  root : mdb.parentOf 0 = nil
  valid : mdb.Valid 0

theorem BootMdb.insert {mdb : Mdb} (h : BootMdb mdb) {parentIdx : Nat}
    (hparent : parentIdx = nil ∨ parentIdx = 0) (cptr : UInt32) (cap : Cap) :
    BootMdb (mdbInsert mdb parentIdx cptr cap).2.2 := by
  rcases h.flat.insert (hparent.imp_right fun hp => ⟨hp, h.valid⟩) cptr cap with
    ⟨e, heq⟩ | ⟨idx, mdb', heq, hinserted, hflat⟩
  · rw [heq]
    exact h
  · have hidx : idx ≠ 0 := fun hidx => hinserted.free (hidx ▸ h.valid)
    rw [heq]
    exact ⟨hflat, hinserted.parentOf_zero h.root fun h0 => absurd h0 hidx,
      (hinserted.valid 0).mpr (Or.inl h.valid)⟩

theorem bootRoot_mdb (env : BootEnv) : BootMdb (bootRoot env).mdb := by
  have hroot : (bootRoot env).mdb = (mdbInsert mdbInit nil 0 bootUntyped).2.2 := rfl
  have hvalid : (mdbInsert mdbInit nil 0 bootUntyped).2.2.Valid 0 := ⟨by decide, by decide +kernel⟩
  have hparent : (mdbInsert mdbInit nil 0 bootUntyped).2.2.parentOf 0 = nil := by decide +kernel
  rw [hroot]
  exact ⟨(Mdb.mdbInit_flat.insert_root 0 bootUntyped).1, hparent, hvalid⟩

theorem BootMdb.spawn {k : Kernel} (h : BootMdb k.mdb) (gAlloc : UInt64) (args : ProcessArgs) :
    BootMdb (k.spawn gAlloc args).mdb := by
  rcases spawn_mdb k gAlloc args with hsame | ⟨id, stack, hmdb⟩
  · rw [hsame]
    exact h
  · rw [hmdb]
    exact h.insert (Or.inl rfl) id stack

theorem BootMdb.retype {k : Kernel} (h : BootMdb k.mdb) : BootMdb (bootRetype k).mdb := by
  rcases bootRetype_mdb k with hsame | ⟨dest, cap, hmdb⟩
  · rw [hsame]
    exact h
  · rw [hmdb]
    exact h.insert (Or.inr rfl) dest cap

theorem BootMdb.endpoint {k : Kernel} (h : BootMdb k.mdb) (env : BootEnv) (i : Nat) :
    BootMdb (bootEndpoint env k i).mdb := h

theorem bootKernel_mdb (env : BootEnv) : BootMdb (bootKernel env).mdb := by
  have hretyped : BootMdb (bootRetype ((bootRoot env).spawn env.gAlloc (helloArgs env))).mdb :=
    ((bootRoot_mdb env).spawn env.gAlloc (helloArgs env)).retype
  have hendpoints := ((hretyped.endpoint env 1).endpoint env 2).endpoint env 3
  exact ((hendpoints.spawn env.gAlloc (serverArgs env 0 0x80600000)).spawn env.gAlloc
    (serverArgs env 1 0x80700000)).spawn env.gAlloc (serverArgs env 2 0x80800000)

/-- A chain of parents that ends can be followed from any index. -/
theorem mdbIsDescendant_total {mdb : Mdb} {j : Nat} (h : Rooted mdb.parentOf nil j)
    (ancestor : Nat) : ∃ b, Fuel.Yields (fun fuel => mdbIsDescendant fuel mdb ancestor j) b := by
  induction h with
  | nil => exact ⟨false, mdbIsDescendant_stop ancestor fun hlive => hlive.1 rfl⟩
  | @step j _ ih =>
    by_cases hlive : j ≠ nil ∧ j < maxMdbNodes
    · by_cases heq : j = ancestor
      · exact ⟨true, mdbIsDescendant_found hlive heq⟩
      · obtain ⟨b, hb⟩ := ih
        exact ⟨b, mdbIsDescendant_up hlive heq hb⟩
    · exact ⟨false, mdbIsDescendant_stop ancestor hlive⟩

/-- Every chain of parents of a node in use ends, and the two functions that walk the
database return whatever they are given. -/
structure Mdb.Acyclic (mdb : Mdb) : Prop where
  rooted : ∀ i, mdb.Valid i → Rooted mdb.parentOf nil i
  descendant : ∀ ancestor j, ∃ b, Fuel.Yields (fun fuel => mdbIsDescendant fuel mdb ancestor j) b
  revoke : ∀ idx, ∃ r, Fuel.Yields (fun fuel => mdbRevoke fuel mdb idx) r

theorem Mdb.Flat.acyclic {mdb : Mdb} (h : mdb.Flat) (hroot : mdb.parentOf 0 = nil) :
    mdb.Acyclic where
  rooted := fun i _ => h.rooted hroot i
  descendant := fun ancestor j => mdbIsDescendant_total (h.rooted hroot j) ancestor
  revoke := fun idx => mdbRevoke_total (h.forest hroot) idx

theorem not_acyclic_of_self {mdb : Mdb} (h0 : mdb.Valid 0) (hself : mdb.parentOf 0 = 0) :
    ¬ mdb.Acyclic := fun h =>
  (h.rooted 0 h0).acyclic Mdb.zero_ne_nil (.single ⟨hself, Mdb.zero_ne_nil⟩)

/-- A retype with node 0 free makes that node its own parent. -/
theorem retype_self {k : Kernel} (hflat : k.mdb.Flat) {cap : Cap} {arg1 arg2 arg3 : UInt64}
    (hallowed : RetypeAllowed k cap arg1 arg2 arg3) (h0 : ¬ k.mdb.Valid 0) (env : BootEnv) :
    ∃ k', LifecycleStep env k (.retype cap arg1 arg2 arg3) k' ∧ ¬ k'.mdb.Acyclic := by
  obtain ⟨-, heq⟩ | ⟨hnot, -⟩ := handleInvoke_retype_cases k cap arg1 arg2 arg3
  · refine ⟨_, Fuel.yields_of_forall fun _ => rfl, ?_⟩
    rw [heq]
    obtain ⟨mdb', hinsert, hinserted, -⟩ := hflat.insert_self h0 (retypeDest arg1)
      (capRetype cap (CapType.ofWord arg2) cap.u.untypedPaddr arg3)
    have hmdb : (k.retype cap arg1 arg2 arg3).mdb = mdb' := by
      show (mdbInsert k.mdb 0 (retypeDest arg1)
        (capRetype cap (CapType.ofWord arg2) cap.u.untypedPaddr arg3)).2.2 = mdb'
      rw [hinsert]
    show ¬ (k.retype cap arg1 arg2 arg3).mdb.Acyclic
    rw [hmdb]
    exact not_acyclic_of_self ((hinserted.valid 0).mpr (Or.inr rfl)) hinserted.parent
  · exact absurd hallowed hnot

/-- Along a run from boot the MDB stays acyclic exactly when every retype that passes its
checks finds node 0 in use. -/
theorem mdb_acyclic_iff (env : BootEnv) (cs : List LifecycleCall) :
    (∀ bs, bs <+: cs → ∀ k, Run.Steps (LifecycleStep env) (bootKernel env) bs k →
      k.mdb.Acyclic) ↔
    Run.Throughout (LifecycleStep env) RetypesUnderRoot (bootKernel env) cs := by
  refine Run.steps_forall_prefix_iff (fun k => k.mdb.Flat ∧ k.mdb.parentOf 0 = nil)
    (fun k hk => hk.1.acyclic hk.2) (fun k c k' hk hok hstep => ?_) (fun k c hk hnot => ?_)
    ⟨(bootKernel_mdb env).flat, (bootKernel_mdb env).root⟩ cs
  · have hchange := lifecycleStep_mdb hstep
    exact ⟨hchange.flat hk.1, hchange.parentOf_zero hk.1 hk.2 hok⟩
  · cases c with
    | create args => exact absurd trivial hnot
    | destroy tcbId => exact absurd trivial hnot
    | retype cap arg1 arg2 arg3 =>
      obtain ⟨hallowed, h0⟩ := Classical.not_imp.mp hnot
      exact retype_self hk.1 hallowed h0 env

theorem Mdb.FirstMatch.eq_zero {mdb : Mdb} (h0 : mdb.Valid 0) {idx : Nat}
    (h : mdb.FirstMatch 0 idx) : idx = 0 := by
  by_contra hne
  exact h.2 0 (Nat.pos_of_ne_zero hne) ⟨h0, Or.inl rfl⟩

/-- Destroying thread 0 takes node 0, whoever made it. -/
theorem destroy_zero_frees_root {k : Kernel} (h : BootMdb k.mdb) (hocc : Occupied k 0)
    (env : BootEnv) :
    ∃ mdb', LifecycleStep env k (.destroy 0) (k.withoutThread env 0 mdb') ∧ mdb'.Flat ∧
      ¬ mdb'.Valid 0 := by
  rcases h.flat.reclaim 0 with ⟨hnone, -⟩ | ⟨idx, mdb', hfirst, hy, hremoved, hflat⟩ | ⟨-, hself, -⟩
  · exact absurd ⟨h.valid, Or.inl rfl⟩ (hnone 0)
  · have hidx := hfirst.eq_zero h.valid
    subst hidx
    exact ⟨mdb', (destroyStep_occupied hocc).mpr ⟨mdb', hy, rfl⟩, hflat,
      fun hv => ((hremoved.valid 0).mp hv).2.1 rfl⟩
  · exact absurd (hself.symm.trans h.root) Mdb.zero_ne_nil

theorem withoutThread_root {k : Kernel} {tcbId : UInt32}
    (h : (k.tcbs.threads tcbId.toNat).cspace = none) (env : BootEnv) (mdb : Mdb) :
    (k.withoutThread env tcbId mdb).root = k.root := by
  show scrubCspace k.cnodes (k.tcbs.threads tcbId.toNat).cspace .root = k.root
  rw [h]
  rfl

/-- After boot, the first process is destroyed and the root Untyped retyped into slot 6. -/
theorem retype_after_destroy_cycles :
    ∃ k, Run.Steps (LifecycleStep plainBoot) (bootKernel plainBoot)
      [.destroy 0, .retype bootUntyped 0x600 5 4096] k ∧ ¬ k.mdb.Acyclic := by
  have hocc : Occupied (bootKernel plainBoot) 0 := ⟨by decide, by decide +kernel⟩
  have hcspace : ((bootKernel plainBoot).tcbs.threads (0 : UInt32).toNat).cspace = none := by
    decide +kernel
  have hslot : ((bootKernel plainBoot).root.slots (retypeDest 0x600).toNat).isValid = 0 := by
    decide +kernel
  obtain ⟨mdb', hdestroy, hflat, hfree⟩ :=
    destroy_zero_frees_root (bootKernel_mdb plainBoot) hocc plainBoot
  have hallowed : RetypeAllowed ((bootKernel plainBoot).withoutThread plainBoot 0 mdb') bootUntyped
      0x600 5 4096 := by
    refine ⟨by decide, by decide, ?_⟩
    rw [withoutThread_root hcspace]
    exact hslot
  obtain ⟨k, hretype, hcyclic⟩ := retype_self (k := (bootKernel plainBoot).withoutThread plainBoot 0
    mdb') hflat hallowed hfree plainBoot
  exact ⟨k, .cons hdestroy (.cons hretype .nil), hcyclic⟩

end Moonlight
