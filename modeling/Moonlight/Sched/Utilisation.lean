/-
The utilisation of a partition as a sum of shares.

Each bound context takes its budget over its period, in percent and rounded down, from the
partition it is bound to.  No share exceeds a hundred percent, so the sum over all contexts
does not wrap, and taking a context back lowers it.
-/
import Moonlight.Lib.Sum
import Moonlight.Sched.State

namespace Moonlight

/-- What a context takes from partition `p`. -/
def SchedContext.share (c : SchedContext) (p : UInt32) : UInt64 :=
  if c.bound = true ∧ c.partitionId = p then c.budgetUs * 100 / c.periodUs else 0

/-- The guard `sched_context_bind` puts on the contexts it binds. -/
def SchedContext.Budgeted (c : SchedContext) : Prop :=
  c.bound = true → c.periodUs ≠ 0 ∧ c.budgetUs ≤ c.periodUs

def SchedState.Budgeted (s : SchedState) : Prop :=
  ∀ i, i < maxSchedContexts.toNat → (s.contexts i).Budgeted

/-- Context `sc` is taken back. -/
def SchedState.release (s : SchedState) (sc : Nat) : SchedState :=
  s.setContext sc { s.contexts sc with bound := false }

variable {s s' : SchedState} {c : SchedContext} {p : UInt32}

theorem SchedContext.share_of_unbound (h : c.bound = false) (p : UInt32) : c.share p = 0 := by
  refine if_neg fun hc => ?_
  rw [h] at hc
  cases hc.1

theorem SchedContext.share_of_ne (h : c.partitionId ≠ p) : c.share p = 0 := if_neg fun hc => h hc.2

/-- The product may wrap, which makes the share smaller still. -/
theorem SchedContext.Budgeted.share_le (h : c.Budgeted) (p : UInt32) : (c.share p).toNat ≤ 100 := by
  unfold SchedContext.share
  split_ifs with hc
  · have hle := UInt64.le_iff_toNat_le.mp (h hc.1).2
    rw [UInt64.toNat_div, UInt64.toNat_mul]
    refine Nat.div_le_of_le_mul ?_
    calc c.budgetUs.toNat * (100 : UInt64).toNat % 2 ^ 64
        ≤ c.budgetUs.toNat * 100 := Nat.mod_le ..
      _ ≤ c.periodUs.toNat * 100 := Nat.mul_le_mul_right 100 hle
  · exact Nat.zero_le 100

theorem utilisation_eq (s : SchedState) (p : UInt32) :
    utilisation s p = Word.sumRange maxSchedContexts.toNat fun i => (s.contexts i).share p := by
  unfold utilisation Word.sumRange
  congr 1
  funext sum i
  simp only [SchedContext.share]
  split_ifs
  · rfl
  · rw [UInt64.add_zero]

theorem SchedState.Budgeted.toNat_utilisation (h : s.Budgeted) (p : UInt32) :
    (utilisation s p).toNat =
      ∑ i ∈ Finset.range maxSchedContexts.toNat, ((s.contexts i).share p).toNat := by
  rw [utilisation_eq]
  exact Word.toNat_sumRange (fun i hi => (h i hi).share_le p) (by decide)

theorem SchedState.Budgeted.utilisation_le (h : s.Budgeted) (p : UInt32) :
    (utilisation s p).toNat ≤ 6400 := by
  rw [h.toNat_utilisation]
  exact Word.sum_toNat_le fun i hi => (h i hi).share_le p

/-! ### Changes of the contexts -/

theorem SchedState.Budgeted.setContext (h : s.Budgeted) (hc : c.Budgeted) (sc : Nat) :
    (s.setContext sc c).Budgeted := by
  intro i hi
  by_cases heq : i = sc
  · rw [heq, setContext_self]
    exact hc
  · rw [setContext_ne heq]
    exact h i hi

theorem SchedState.Budgeted.releases (h : s.Budgeted) (hs : s.Releases s') : s'.Budgeted := by
  intro i hi hbound
  have hsame := hs.bound hbound
  rw [hsame] at hbound ⊢
  exact h i hi hbound

theorem SchedState.Releases.utilisation_le (hs : s.Releases s') (h : s.Budgeted) (p : UInt32) :
    (utilisation s' p).toNat ≤ (utilisation s p).toNat := by
  rw [h.toNat_utilisation, (h.releases hs).toNat_utilisation]
  refine Finset.sum_le_sum fun i _ => ?_
  rcases hs.contexts i with hsame | hfree
  · rw [hsame]
  · rw [SchedContext.share_of_unbound hfree]
    exact Nat.zero_le _

/-- The partitions do not see the contexts that are free. -/
theorem SchedState.SameBound.utilisation (h : s.SameBound s') (p : UInt32) :
    Moonlight.utilisation s' p = Moonlight.utilisation s p := by
  rw [utilisation_eq, utilisation_eq]
  congr 1
  funext i
  rcases h.contexts i with hsame | ⟨hfree, hfree'⟩
  · rw [hsame]
  · rw [SchedContext.share_of_unbound hfree, SchedContext.share_of_unbound hfree']

theorem SchedState.release_releases (s : SchedState) (sc : Nat) : s.Releases (s.release sc) :=
  s.releases_setContext sc rfl

/-- A context that is replaced adds its share to what the others take. -/
theorem SchedState.Budgeted.utilisation_setContext (h : s.Budgeted) (hc : c.Budgeted) {sc : Nat}
    (hsc : sc < maxSchedContexts.toNat) (p : UInt32) :
    (utilisation (s.setContext sc c) p).toNat =
      (utilisation (s.release sc) p).toNat + (c.share p).toNat := by
  rw [(h.setContext hc sc).toNat_utilisation, (h.releases (s.release_releases sc)).toNat_utilisation]
  have hoff : ∀ i, i ≠ sc → (((s.setContext sc c).contexts i).share p).toNat =
      (((s.release sc).contexts i).share p).toNat := by
    intro i hi
    rw [setContext_ne hi, SchedState.release, setContext_ne hi]
  have hzero : (((s.release sc).contexts sc).share p).toNat = 0 := by
    rw [SchedState.release, setContext_self, SchedContext.share_of_unbound rfl]
    rfl
  rw [Word.sum_eq_of_eq_off hsc hoff hzero, setContext_self]

/-! ### The test -/

theorem schedIsSchedulable_iff :
    schedIsSchedulable s = true ↔ ∀ p, p < s.numPartitions → (utilisation s p).toNat ≤ 99 := by
  rw [schedIsSchedulable, List.all_eq_true]
  constructor
  · intro h p hp
    have hle := h p.toNat (List.mem_range.mpr (UInt32.lt_iff_toNat_lt.mp hp))
    rw [decide_eq_true_iff, UInt32.ofNat_toNat] at hle
    exact UInt64.le_iff_toNat_le.mp hle
  · intro h p hp
    have hlt := List.mem_range.mp hp
    have htoNat : (UInt32.ofNat p).toNat = p :=
      UInt32.toNat_ofNat_of_lt' (Nat.lt_trans hlt s.numPartitions.toNat_lt)
    have hle := h (UInt32.ofNat p) (UInt32.lt_iff_toNat_lt.mpr (by rw [htoNat]; exact hlt))
    exact decide_eq_true (UInt64.le_iff_toNat_le.mpr hle)

/-- Taking contexts back keeps the partitions schedulable. -/
theorem SchedState.Releases.schedulable (hs : s.Releases s') (h : s.Budgeted)
    (hok : schedIsSchedulable s = true) : schedIsSchedulable s' = true := by
  rw [schedIsSchedulable_iff] at hok ⊢
  intro p hp
  rw [hs.numPartitions] at hp
  exact Nat.le_trans (hs.utilisation_le h p) (hok p hp)

end Moonlight
