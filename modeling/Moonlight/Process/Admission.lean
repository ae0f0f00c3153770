/-
Admission control over runs.

`process_create` binds a context, runs the schedulability test and rolls back when it
fails.  `INV_SCHED_BIND` binds without the test, so the partitions stay schedulable exactly
as long as the caller keeps the sum below the limit himself.
-/
import Moonlight.Process.Calls
import Moonlight.Sched.Utilisation

namespace Moonlight

/-- The condition on a call: a bind that passes its checks leaves room for its share beside
what the other contexts take from the partition. -/
def LeavesRoom (k : Kernel) : ProcessCall → Prop
  | .schedBind cap arg1 arg2 arg3 => BindAccepted k cap arg1 arg2 arg3 →
      bindPartId arg1 < k.sched.numPartitions →
      utilisation (k.sched.release (bindScId arg1).toNat) (bindPartId arg1) + arg2 * 100 / arg3 ≤ 99
  | _ => True

variable {env : BootEnv} {k k' : Kernel}

/-! ### Budgets -/

theorem BindAllowed.budgeted {s : SchedState} {scId partId : UInt32} {budget period : UInt64}
    (h : BindAllowed s scId partId budget period) (c : SchedContext) (tcbId : UInt32) (prio : UInt8) :
    (c.bind tcbId partId budget period prio).Budgeted := fun _ => ⟨h.2.2.2.2.1, h.2.2.2.2.2.1⟩

/-- What a call does to the contexts, up to those it takes back. -/
theorem processStep_sched {c : ProcessCall} (hstep : ProcessStep env k c k') :
    k.sched.Releases k'.sched ∨
    (∃ args t sc, c = .create args ∧ CreateSucceeds (k.processTables env) args t sc ∧
      k'.sched = (k.processTables env).boundSched args t sc) ∨
    ∃ cap arg1 arg2 arg3, c = .schedBind cap arg1 arg2 arg3 ∧
      BindAccepted k cap arg1 arg2 arg3 ∧ k'.sched = k.sched.rebind arg1 arg2 arg3 := by
  cases c with
  | create args =>
    rw [Fuel.Yields.const hstep]
    obtain ⟨-, -, hsched⟩ | ⟨_, -, -, -, hsched⟩ | ⟨t, sc, _, hnew⟩ :=
      create_cases env k args
    · rw [hsched]
      exact Or.inl (.refl k.sched)
    · exact Or.inl hsched.releases
    · exact Or.inr (Or.inl ⟨args, t.toNat, sc, rfl, hnew.succeeds, hnew.sched⟩)
  | destroy tcbId =>
    obtain rfl | ⟨-, mdb, rfl⟩ := processStep_destroy_cases hstep
    · exact Or.inl (.refl k'.sched)
    · exact Or.inl (withoutThread_releases env k tcbId mdb)
  | configure cap arg1 arg2 arg3 =>
    rw [Fuel.Yields.const hstep]
    obtain ⟨_, _, _, -, heq⟩ | ⟨-, _, heq⟩ := configure_cases k cap arg1 arg2 arg3
    · rw [heq]
      exact Or.inl (.refl k.sched)
    · rw [heq]
      exact Or.inl (.refl k.sched)
  | schedBind cap arg1 arg2 arg3 =>
    rw [Fuel.Yields.const hstep]
    obtain ⟨haccepted, heq⟩ | ⟨-, heq⟩ := handleInvoke_bind_cases k cap arg1 arg2 arg3
    · rw [heq]
      exact Or.inr (Or.inr ⟨cap, arg1, arg2, arg3, rfl, haccepted, rfl⟩)
    · rw [heq]
      exact Or.inl (.refl k.sched)

theorem SchedState.Budgeted.step {c : ProcessCall} (h : k.sched.Budgeted)
    (hstep : ProcessStep env k c k') : k'.sched.Budgeted := by
  obtain hreleases | ⟨args, t, sc, -, hcreate, hsched⟩ | ⟨_, _, _, _, -, haccepted, hsched⟩ :=
    processStep_sched hstep
  · exact h.releases hreleases
  · rw [hsched]
    exact h.setContext (hcreate.allowed.budgeted _ _ _) sc
  · rw [hsched]
    exact h.setContext (haccepted.2.budgeted _ _ _) _

/-! ### The sum -/

/-- An accepted bind is the only way past the test. -/
theorem schedulable_rebind_iff {cap : Cap} {arg1 arg2 arg3 : UInt64} (h : k.sched.Budgeted)
    (hok : schedIsSchedulable k.sched = true) (haccepted : BindAccepted k cap arg1 arg2 arg3) :
    schedIsSchedulable (k.sched.rebind arg1 arg2 arg3) = true ↔
      LeavesRoom k (.schedBind cap arg1 arg2 arg3) := by
  have hsc := UInt32.lt_iff_toNat_lt.mp haccepted.2.1
  have hothers := h.releases (k.sched.release_releases (bindScId arg1).toNat)
  have hcontext := haccepted.2.budgeted (k.sched.contexts (bindScId arg1).toNat) (bindTcbId arg1)
    (bindPrio arg1)
  have hsum := h.utilisation_setContext hcontext hsc
  generalize hc : (k.sched.contexts (bindScId arg1).toNat).bind (bindTcbId arg1) (bindPartId arg1) arg2
    arg3 (bindPrio arg1) = c at hsum hcontext
  have hrebind : k.sched.rebind arg1 arg2 arg3 = k.sched.setContext (bindScId arg1).toNat c := by
    rw [← hc]
    rfl
  have hpart : c.partitionId = bindPartId arg1 := by rw [← hc]; rfl
  have hshare : c.share (bindPartId arg1) = arg2 * 100 / arg3 := by
    rw [← hc]
    exact if_pos ⟨rfl, rfl⟩
  have hadd : (utilisation (k.sched.release (bindScId arg1).toNat) (bindPartId arg1) +
      arg2 * 100 / arg3).toNat =
      (utilisation (k.sched.setContext (bindScId arg1).toNat c) (bindPartId arg1)).toNat := by
    have hle := hothers.utilisation_le (bindPartId arg1)
    have hle' := hcontext.share_le (bindPartId arg1)
    rw [hsum, ← hshare, UInt64.toNat_add]
    omega
  rw [hrebind, schedIsSchedulable_iff]
  constructor
  · intro hall _ hlt
    rw [UInt64.le_iff_toNat_le, hadd]
    exact hall _ hlt
  · intro hroom p hp
    by_cases heq : p = bindPartId arg1
    · rw [heq] at hp ⊢
      have hle := UInt64.le_iff_toNat_le.mp (hroom haccepted hp)
      rw [hadd] at hle
      exact hle
    · -- The other partitions can only lose the context.
      rw [hsum, SchedContext.share_of_ne (fun hne => heq (hne.symm.trans hpart))]
      exact Nat.le_trans ((k.sched.release_releases _).utilisation_le h p)
        (schedIsSchedulable_iff.mp hok p hp)

theorem schedulable_step {c : ProcessCall} (h : k.sched.Budgeted)
    (hok : schedIsSchedulable k.sched = true) (hstep : ProcessStep env k c k')
    (hc : ∀ cap arg1 arg2 arg3, c ≠ .schedBind cap arg1 arg2 arg3) :
    schedIsSchedulable k'.sched = true := by
  obtain hreleases | ⟨args, t, sc, -, hcreate, hsched⟩ | ⟨cap, arg1, arg2, arg3, heq, -⟩ :=
    processStep_sched hstep
  · exact hreleases.schedulable h hok
  · rw [hsched]
    exact hcreate.schedulable
  · exact absurd heq (hc cap arg1 arg2 arg3)

theorem schedulable_step_iff {c : ProcessCall} (h : k.sched.Budgeted)
    (hok : schedIsSchedulable k.sched = true) (hstep : ProcessStep env k c k') :
    schedIsSchedulable k'.sched = true ↔ LeavesRoom k c := by
  cases c with
  | schedBind cap arg1 arg2 arg3 =>
    rw [Fuel.Yields.const hstep]
    obtain ⟨haccepted, heq⟩ | ⟨hnot, heq⟩ := handleInvoke_bind_cases k cap arg1 arg2 arg3
    · rw [heq]
      exact schedulable_rebind_iff h hok haccepted
    · rw [heq]
      exact iff_of_true hok fun haccepted => absurd haccepted hnot
  | create args => exact iff_of_true (schedulable_step h hok hstep fun _ _ _ _ => nofun) trivial
  | destroy tcbId => exact iff_of_true (schedulable_step h hok hstep fun _ _ _ _ => nofun) trivial
  | configure cap arg1 arg2 arg3 =>
    exact iff_of_true (schedulable_step h hok hstep fun _ _ _ _ => nofun) trivial

/-! ### Runs -/

theorem NoBoundContext.budgeted {s : SchedState} (h : NoBoundContext s) : s.Budgeted := by
  intro i hi hbound
  rw [h i hi] at hbound
  cases hbound

theorem NoBoundContext.schedulable {s : SchedState} (h : NoBoundContext s) :
    schedIsSchedulable s = true := by
  refine schedIsSchedulable_iff.mpr fun p _ => ?_
  rw [h.budgeted.toNat_utilisation, Finset.sum_eq_zero]
  · exact Nat.zero_le 99
  · intro i hi
    rw [SchedContext.share_of_unbound (h i (Finset.mem_range.mp hi))]
    rfl

/-- Along a run from a scheduler without bound contexts, whatever its partitions, the
schedulability test succeeds after every call exactly when every bind that passes its checks
leaves room for its share. -/
theorem schedulable_throughout_iff (env : BootEnv) {k₀ : Kernel} (hnone : NoBoundContext k₀.sched)
    (cs : List ProcessCall) :
    (∀ bs, bs <+: cs → ∀ k, Run.Steps (ProcessStep env) k₀ bs k →
      schedIsSchedulable k.sched = true) ↔
    Run.Throughout (ProcessStep env) LeavesRoom k₀ cs :=
  Run.steps_forall_prefix_iff_of_exact (fun k => k.sched.Budgeted)
    (fun _ _ _ hk hstep => hk.step hstep)
    (fun _ _ _ hk hok hstep => schedulable_step_iff hk hok hstep)
    (processStep_exists (fun _ _ => trivial) env) hnone.budgeted hnone.schedulable cs

/-- Beside the first process of boot there is room for a quarter of partition 0. -/
theorem schedulable_beside_hello :
    schedIsSchedulable (handleInvoke ((bootRoot plainBoot).create plainBoot (helloArgs plainBoot)).2.2
      bootUntyped .schedBind 0x500010100 500 2000).2.sched = true := by
  have hthroughout : Run.Throughout (ProcessStep plainBoot) LeavesRoom (bootRoot plainBoot)
      [.create (helloArgs plainBoot), .schedBind bootUntyped 0x500010100 500 2000] := by
    refine ⟨trivial, fun k hstep => ⟨fun _ _ => ?_, fun _ _ => trivial⟩⟩
    rw [Fuel.Yields.const hstep]
    decide +kernel
  exact (schedulable_throughout_iff plainBoot (bootRoot_noBoundContext plainBoot) _).mpr hthroughout _
    (List.prefix_refl _) _ (.cons (Fuel.yields_of_forall fun _ => rfl)
      (.cons (Fuel.yields_of_forall fun _ => rfl) .nil))

/-- A context bound for its whole period takes the partition to a hundred percent. -/
theorem bind_overcommits :
    NoBoundContext (bootRoot plainBoot).sched ∧ capIsValid bootUntyped = true ∧
    ∃ k, Run.Steps (ProcessStep plainBoot) (bootRoot plainBoot)
        [.schedBind bootUntyped 0x500000000 1000 1000] k ∧
      schedIsSchedulable k.sched = false := by
  refine ⟨bootRoot_noBoundContext plainBoot, by decide, _,
    .cons (Fuel.yields_of_forall fun _ => rfl) .nil, ?_⟩
  decide +kernel

end Moonlight
