/-
The admission test against exact utilisation.

`sched_is_schedulable` rounds the share of each context down to a whole percent before it
adds the shares up.  So the test is right about a partition as long as the shares rounded
up fit as well, or at most one share has to be rounded at all.  Of any other number of
shares and sum of whole percents there is an overcommitted partition that passes.
-/
import Mathlib.Algebra.BigOperators.Field
import Mathlib.Algebra.Order.Field.Rat
import Mathlib.Tactic.FieldSimp
import Mathlib.Tactic.Linarith
import Moonlight.Sched.Utilisation
import Moonlight.Sched.Windows

namespace Moonlight

/-! ### Calls of the scheduler -/

/-- What happens to the scheduler: a partition is created, a context is bound or taken
back, or time passes. -/
inductive SchedCall where
  | create (c : PartitionCall)
  | bind (scId tcbId partId : UInt32) (budget period : UInt64) (prio : UInt8)
  | release (sc : Nat)
  | tick (now : UInt64)

def schedStep (s : SchedState) : SchedCall → SchedState
  | .create c => partitionStep s c
  | .bind scId tcbId partId budget period prio =>
      (schedContextBind s scId tcbId partId budget period prio).2
  | .release sc => s.release sc
  | .tick now => schedTick s now

/-- Contexts are bound in partitions whose window lies inside the major frame. -/
def BindsInFrame (s : SchedState) : SchedCall → Prop
  | .bind _ _ partId _ _ _ => (s.partitions partId.toNat).InFrame
  | _ => True

instance (s : SchedState) : (c : SchedCall) → Decidable (BindsInFrame s c)
  | .bind _ _ partId _ _ _ => inferInstanceAs (Decidable (s.partitions partId.toNat).InFrame)
  | .create _ => .isTrue trivial
  | .release _ => .isTrue trivial
  | .tick _ => .isTrue trivial

/-- The test looks at every partition that is active. -/
def KnownPartitions (s : SchedState) : Prop :=
  ∀ i, (s.partitions i).active = true → i < s.numPartitions.toNat

theorem schedInit_known : KnownPartitions schedInit := by
  intro i hactive
  cases hactive

theorem numPartitions_le_step (s : SchedState) (c : SchedCall) :
    s.numPartitions ≤ (schedStep s c).numPartitions := by
  cases c with
  | create c =>
    obtain ⟨hacc, heq⟩ | heq := partitionStep_cases s c
    · have hnum := numPartitions_after hacc.id s.numPartitions
      rw [schedStep, heq, UInt32.le_iff_toNat_le]
      show _ ≤ (if c.id ≥ s.numPartitions then c.id + 1 else s.numPartitions).toNat
      omega
    · rw [schedStep, heq]
      exact UInt32.le_refl _
  | bind scId tcbId partId budget period prio =>
    obtain ⟨-, heq⟩ | ⟨-, heq⟩ := schedContextBind_cases s scId tcbId partId budget period prio
    · rw [schedStep, heq]
      exact UInt32.le_refl _
    · rw [schedStep, heq]
      exact UInt32.le_refl _
  | release sc => exact UInt32.le_refl _
  | tick now => exact UInt32.le_refl _

theorem KnownPartitions.step {s : SchedState} (h : KnownPartitions s) (c : SchedCall) :
    KnownPartitions (schedStep s c) := by
  cases c with
  | create c =>
    obtain ⟨hacc, heq⟩ | heq := partitionStep_cases s c
    · have hnum := numPartitions_after hacc.id s.numPartitions
      rw [schedStep, heq]
      intro i hi
      show i < (if c.id ≥ s.numPartitions then c.id + 1 else s.numPartitions).toNat
      rw [hnum]
      by_cases hic : i = c.id.toNat
      · omega
      · simp only [Function.update_of_ne hic] at hi
        have hlt := h i hi
        omega
    · rw [schedStep, heq]
      exact h
  | bind scId tcbId partId budget period prio =>
    obtain ⟨-, heq⟩ | ⟨-, heq⟩ := schedContextBind_cases s scId tcbId partId budget period prio
    · rw [schedStep, heq]
      exact h
    · rw [schedStep, heq]
      exact h
  | release sc => exact h
  | tick now => exact h

/-! ### Shares -/

/-- The part of its partition that a context of this budget and period is entitled to. -/
def exactShare (budget period : UInt64) : ℚ := (budget.toNat : ℚ) / period.toNat

/-- The share in percent, rounded down as the test rounds it. -/
def percentDown (budget period : UInt64) : Nat := budget.toNat * 100 / period.toNat

/-- The share in percent, rounded up. -/
def percentUp (budget period : UInt64) : Nat :=
  (budget.toNat * 100 + period.toNat - 1) / period.toNat

/-- One for a share that is no whole number of percents. -/
def brokenPercent (budget period : UInt64) : Nat :=
  if budget.toNat * 100 % period.toNat = 0 then 0 else 1

/-- What a context adds to a sum over the contexts bound in partition `p`. -/
def SchedContext.term {β : Type} [Zero β] (f : UInt64 → UInt64 → β) (c : SchedContext)
    (p : UInt32) : β :=
  if c.bound = true ∧ c.partitionId = p then f c.budgetUs c.periodUs else 0

/-- The sum over the contexts bound in partition `p`. -/
def boundSum {β : Type} [AddCommMonoid β] (f : UInt64 → UInt64 → β) (s : SchedState) (p : UInt32) :
    β :=
  ∑ i ∈ Finset.range maxSchedContexts.toNat, (s.contexts i).term f p

def exactUtilisation (s : SchedState) (p : UInt32) : ℚ := boundSum exactShare s p

theorem percentUp_eq (budget : UInt64) {period : UInt64} (h : period ≠ 0) :
    percentUp budget period = percentDown budget period + brokenPercent budget period := by
  have hpos : 0 < period.toNat := Nat.pos_of_ne_zero fun hz => h (UInt64.toNat_inj.mp hz)
  have hsplit := Nat.div_add_mod' (budget.toNat * 100) period.toNat
  have hlt := Nat.mod_lt (budget.toNat * 100) hpos
  unfold percentUp percentDown brokenPercent
  split_ifs with hzero
  · refine Nat.div_eq_of_lt_le ?_ ?_
    · rw [Nat.add_zero]
      omega
    · rw [Nat.add_zero, Nat.succ_mul]
      omega
  · refine Nat.div_eq_of_lt_le ?_ ?_
    · rw [Nat.succ_mul]
      omega
    · rw [Nat.succ_mul, Nat.succ_mul]
      omega

theorem exactShare_le_percentUp (budget : UInt64) {period : UInt64} (h : period ≠ 0) :
    100 * exactShare budget period ≤ percentUp budget period := by
  have hpos : 0 < period.toNat := Nat.pos_of_ne_zero fun hz => h (UInt64.toNat_inj.mp hz)
  have hpos' : (0 : ℚ) < period.toNat := by exact_mod_cast hpos
  have hle : budget.toNat * 100 ≤ percentUp budget period * period.toNat := by
    have hceil := Nat.lt_div_mul_add (a := budget.toNat * 100 + period.toNat - 1) hpos
    unfold percentUp
    omega
  rw [exactShare, ← mul_div_assoc, div_le_iff₀ hpos', mul_comm]
  exact_mod_cast hle

/-- What `sched_context_bind` has checked of a context. -/
structure SchedContext.Framed (c : SchedContext) : Prop where
  period : c.periodUs ≠ 0
  budget : c.budgetUs ≤ c.periodUs
  frame : c.budgetUs.toNat ≤ majorFrameUs.toNat

section
variable {c : SchedContext} {p : UInt32}

theorem SchedContext.Framed.term_percentUp (h : c.bound = true → c.Framed) (p : UInt32) :
    c.term percentUp p = c.term percentDown p + c.term brokenPercent p := by
  unfold term
  split_ifs with hc
  · exact percentUp_eq _ (h hc.1).period
  · rfl

theorem SchedContext.Framed.exactShare_le (h : c.bound = true → c.Framed) (p : UInt32) :
    100 * c.term exactShare p ≤ c.term percentUp p := by
  unfold term
  split_ifs with hc
  · exact exactShare_le_percentUp _ (h hc.1).period
  · simp

/-- The product the code forms stays far below the word size. -/
theorem SchedContext.Framed.toNat_share (h : c.bound = true → c.Framed) (p : UInt32) :
    (c.share p).toNat = c.term percentDown p := by
  unfold share term
  split_ifs with hc
  · have hframe : c.budgetUs.toNat ≤ 10000 := (h hc.1).frame
    rw [UInt64.toNat_div, UInt64.toNat_mul]
    show c.budgetUs.toNat * 100 % 2 ^ 64 / _ = _
    rw [Nat.mod_eq_of_lt (by omega)]
    rfl
  · rfl

end

/-! ### Runs -/

/-- The contexts that are bound have passed the checks, in partitions the test looks at. -/
structure BoundInFrame (s : SchedState) : Prop where
  known : KnownPartitions s
  framed : ∀ i, (s.contexts i).bound = true → (s.contexts i).Framed
  counted : ∀ i, (s.contexts i).bound = true → (s.contexts i).partitionId < s.numPartitions

theorem schedInit_boundInFrame : BoundInFrame schedInit := by
  refine ⟨schedInit_known, fun i hbound => ?_, fun i hbound => ?_⟩
  · cases hbound
  · cases hbound

theorem replenish_terms (c : SchedContext) (now : UInt64) :
    (c.replenish now).bound = c.bound ∧ (c.replenish now).partitionId = c.partitionId ∧
      (c.replenish now).budgetUs = c.budgetUs ∧ (c.replenish now).periodUs = c.periodUs := by
  unfold SchedContext.replenish
  split_ifs <;> exact ⟨rfl, rfl, rfl, rfl⟩

/-- The two contexts agree in what the test reads. -/
structure SchedContext.SameTerms (c c' : SchedContext) : Prop where
  bound : c.bound = true
  partition : c'.partitionId = c.partitionId
  budget : c'.budgetUs = c.budgetUs
  period : c'.periodUs = c.periodUs

theorem SchedContext.SameTerms.framed {c c' : SchedContext} (h : c.SameTerms c') (hc : c.Framed) :
    c'.Framed := by
  refine ⟨?_, ?_, ?_⟩
  · rw [h.period]
    exact hc.period
  · rw [h.budget, h.period]
    exact hc.budget
  · rw [h.budget]
    exact hc.frame

/-- A context that is bound after a step was bound before on the same terms, or has just
been bound. -/
theorem schedStep_bound {s : SchedState} {c : SchedCall} {i : Nat}
    (hi : ((schedStep s c).contexts i).bound = true) :
    (s.contexts i).SameTerms ((schedStep s c).contexts i) ∨
    ∃ scId tcbId partId budget period prio, c = .bind scId tcbId partId budget period prio ∧
      BindAllowed s scId partId budget period ∧
      (schedStep s c).contexts i = (s.contexts i).bind tcbId partId budget period prio := by
  cases c with
  | create c =>
    have hsame : (partitionStep s c).contexts = s.contexts := by
      obtain ⟨-, heq⟩ | heq := partitionStep_cases s c
      · rw [heq]
      · rw [heq]
    simp only [schedStep, hsame] at hi ⊢
    exact Or.inl ⟨hi, rfl, rfl, rfl⟩
  | bind scId tcbId partId budget period prio =>
    obtain ⟨hallowed, heq⟩ | ⟨-, heq⟩ :=
      schedContextBind_cases s scId tcbId partId budget period prio
    · simp only [schedStep, heq] at hi ⊢
      by_cases hic : i = scId.toNat
      · subst hic
        exact Or.inr ⟨scId, tcbId, partId, budget, period, prio, rfl, hallowed,
          s.setContext_self _ _⟩
      · rw [SchedState.setContext_ne hic] at hi ⊢
        exact Or.inl ⟨hi, rfl, rfl, rfl⟩
    · simp only [schedStep, heq] at hi ⊢
      exact Or.inl ⟨hi, rfl, rfl, rfl⟩
  | release sc =>
    have hsame := (s.release_releases sc).bound hi
    simp only [schedStep, hsame] at hi ⊢
    exact Or.inl ⟨hi, rfl, rfl, rfl⟩
  | tick now =>
    simp only [schedStep, schedTick] at hi ⊢
    split_ifs at hi ⊢
    · obtain ⟨hbound, hpart, hbudget, hperiod⟩ := replenish_terms (s.contexts i) now
      rw [hbound] at hi
      exact Or.inl ⟨hi, hpart, hbudget, hperiod⟩
    · exact Or.inl ⟨hi, rfl, rfl, rfl⟩

theorem BoundInFrame.step {s : SchedState} (h : BoundInFrame s) {c : SchedCall}
    (hc : BindsInFrame s c) : BoundInFrame (schedStep s c) := by
  have hnum := UInt32.le_iff_toNat_le.mp (numPartitions_le_step s c)
  refine ⟨h.known.step c, fun i hi => ?_, fun i hi => UInt32.lt_iff_toNat_lt.mpr ?_⟩
  · obtain hsame | ⟨_, _, partId, budget, _, _, rfl, hallowed, heq⟩ := schedStep_bound hi
    · exact hsame.framed (h.framed i hsame.bound)
    · obtain ⟨-, -, -, -, hperiod, hbudget, hwindow⟩ := hallowed
      have hframe : (s.partitions partId.toNat).offsetUs.toNat +
          (s.partitions partId.toNat).budgetUs.toNat ≤ majorFrameUs.toNat := hc
      have hle := UInt64.le_iff_toNat_le.mp hwindow
      rw [heq]
      refine ⟨hperiod, hbudget, ?_⟩
      show budget.toNat ≤ majorFrameUs.toNat
      omega
  · obtain hsame | ⟨_, _, partId, _, _, _, rfl, hallowed, heq⟩ := schedStep_bound hi
    · have hlt := UInt32.lt_iff_toNat_lt.mp (h.counted i hsame.bound)
      rw [hsame.partition]
      omega
    · have hlt := h.known _ hallowed.2.2.1
      rw [heq]
      show partId.toNat < _
      omega

/-! ### The test and the exact sums -/

section
variable {s : SchedState}

theorem BoundInFrame.budgeted (h : BoundInFrame s) : s.Budgeted :=
  fun i _ hbound => ⟨(h.framed i hbound).period, (h.framed i hbound).budget⟩

theorem BoundInFrame.toNat_utilisation (h : BoundInFrame s) (p : UInt32) :
    (utilisation s p).toNat = boundSum percentDown s p := by
  rw [h.budgeted.toNat_utilisation]
  exact Finset.sum_congr rfl fun i _ => SchedContext.Framed.toNat_share (h.framed i) p

/-- No context is bound outside the partitions the test looks at. -/
theorem BoundInFrame.boundSum_of_le (h : BoundInFrame s) {p : UInt32} (hp : s.numPartitions ≤ p)
    (f : UInt64 → UInt64 → Nat) : boundSum f s p = 0 := by
  refine Finset.sum_eq_zero fun i _ => if_neg fun hc => ?_
  have hlt := h.counted i hc.1
  rw [hc.2] at hlt
  exact UInt32.not_lt.mpr hp hlt

theorem BoundInFrame.schedulable_iff (h : BoundInFrame s) :
    schedIsSchedulable s = true ↔ ∀ p, boundSum percentDown s p ≤ 99 := by
  rw [schedIsSchedulable_iff]
  constructor
  · intro htest p
    by_cases hp : p < s.numPartitions
    · rw [← h.toNat_utilisation]
      exact htest p hp
    · rw [h.boundSum_of_le (UInt32.not_lt.mp hp)]
      exact Nat.zero_le 99
  · intro hall p _
    rw [h.toNat_utilisation]
    exact hall p

theorem BoundInFrame.sum_percentUp (h : BoundInFrame s) (p : UInt32) :
    boundSum percentUp s p = boundSum percentDown s p + boundSum brokenPercent s p := by
  unfold boundSum
  rw [← Finset.sum_add_distrib]
  exact Finset.sum_congr rfl fun i _ => SchedContext.Framed.term_percentUp (h.framed i) p

theorem BoundInFrame.exactUtilisation_le (h : BoundInFrame s) (p : UInt32) :
    100 * exactUtilisation s p ≤ boundSum percentUp s p := by
  unfold exactUtilisation boundSum
  rw [Finset.mul_sum, Nat.cast_sum]
  exact Finset.sum_le_sum fun i _ => SchedContext.Framed.exactShare_le (h.framed i) p

end

/-! ### Shares that fit when they are rounded up -/

/-- The shares of partition `p` fit when they are rounded up, or at most one of them has
to be rounded. -/
def FitsRounded (s : SchedState) (p : UInt32) : Prop :=
  boundSum percentUp s p ≤ 100 ∨ boundSum brokenPercent s p ≤ 1

/-- A bind that is accepted leaves the shares of its partition so that they fit. -/
def BindsRounded (s : SchedState) : SchedCall → Prop
  | .bind scId _ partId budget period _ =>
      BindAllowed s scId partId budget period →
        boundSum percentUp (s.release scId.toNat) partId + percentUp budget period ≤ 100 ∨
          boundSum brokenPercent (s.release scId.toNat) partId + brokenPercent budget period ≤ 1
  | _ => True

/-- A sum does not grow when no context is newly bound in the partition. -/
theorem boundSum_le {s s' : SchedState} {p : UInt32}
    (h : ∀ i, (s'.contexts i).bound = true → (s.contexts i).SameTerms (s'.contexts i) ∨
      (s'.contexts i).partitionId ≠ p) (f : UInt64 → UInt64 → Nat) :
    boundSum f s' p ≤ boundSum f s p := by
  refine Finset.sum_le_sum fun i _ => ?_
  unfold SchedContext.term
  split_ifs with hc hc'
  · obtain hsame | hne := h i hc.1
    · rw [hsame.budget, hsame.period]
    · exact absurd hc.2 hne
  · obtain hsame | hne := h i hc.1
    · exact absurd ⟨hsame.bound, hsame.partition.symm.trans hc.2⟩ hc'
    · exact absurd hc.2 hne
  · exact Nat.zero_le _
  · exact Nat.le_refl 0

/-- A context that is bound adds its term to the sum over the others. -/
theorem boundSum_bind (s : SchedState) {scId : Nat} (hsc : scId < maxSchedContexts.toNat)
    (tcbId partId : UInt32) (budget period : UInt64) (prio : UInt8) (f : UInt64 → UInt64 → Nat) :
    boundSum f (s.setContext scId ((s.contexts scId).bind tcbId partId budget period prio)) partId =
      boundSum f (s.release scId) partId + f budget period := by
  have hoff : ∀ i, i ≠ scId →
      ((s.setContext scId ((s.contexts scId).bind tcbId partId budget period prio)).contexts i).term f
        partId = ((s.release scId).contexts i).term f partId := by
    intro i hi
    rw [SchedState.setContext_ne hi, SchedState.release, SchedState.setContext_ne hi]
  have hfree : ((s.release scId).contexts scId).term f partId = 0 := by
    rw [SchedState.release, SchedState.setContext_self]
    refine if_neg ?_
    rintro ⟨hbound, -⟩
    cases hbound
  unfold boundSum
  rw [Word.sum_eq_of_eq_off hsc hoff hfree, SchedState.setContext_self]
  exact congrArg (_ + ·) (if_pos ⟨rfl, rfl⟩)

theorem FitsRounded.mono {s s' : SchedState} {p : UInt32} (h : FitsRounded s p)
    (hle : ∀ f : UInt64 → UInt64 → Nat, boundSum f s' p ≤ boundSum f s p) : FitsRounded s' p :=
  h.imp (Nat.le_trans (hle percentUp)) (Nat.le_trans (hle brokenPercent))

theorem FitsRounded.step {s : SchedState} (h : ∀ p, FitsRounded s p) {c : SchedCall}
    (hc : BindsRounded s c) (p : UInt32) : FitsRounded (schedStep s c) p := by
  by_cases hnew : ∃ scId tcbId budget period prio, c = .bind scId tcbId p budget period prio ∧
      BindAllowed s scId p budget period
  · obtain ⟨scId, tcbId, budget, period, prio, rfl, hallowed⟩ := hnew
    obtain ⟨-, heq⟩ | ⟨hdenied, -⟩ := schedContextBind_cases s scId tcbId p budget period prio
    · have hsc := UInt32.lt_iff_toNat_lt.mp hallowed.1
      rw [schedStep, heq, FitsRounded, boundSum_bind s hsc, boundSum_bind s hsc]
      exact hc hallowed
    · exact absurd hallowed hdenied
  · refine (h p).mono fun f => boundSum_le (fun i hi => ?_) f
    obtain hsame | ⟨scId, tcbId, partId, budget, period, prio, rfl, hallowed, heq⟩ :=
      schedStep_bound hi
    · exact Or.inl hsame
    · refine Or.inr fun hp => hnew ⟨scId, tcbId, budget, period, prio, ?_, ?_⟩
      all_goals
        rw [heq] at hp
        cases hp
      · rfl
      · exact hallowed

theorem schedInit_fitsRounded (p : UInt32) : FitsRounded schedInit p := by
  have hnone : boundSum brokenPercent schedInit p = 0 := by
    refine Finset.sum_eq_zero fun i _ => if_neg ?_
    rintro ⟨hbound, -⟩
    cases hbound
  exact Or.inr (Nat.le_trans (Nat.le_of_eq hnone) (Nat.zero_le 1))

theorem BoundInFrame.sound_of_fitsRounded {s : SchedState} (h : BoundInFrame s)
    (hfits : ∀ p, FitsRounded s p) (htest : schedIsSchedulable s = true) (p : UInt32) :
    exactUtilisation s p ≤ 1 := by
  have hwhole := h.schedulable_iff.mp htest p
  have hup : boundSum percentUp s p ≤ 100 := by
    obtain hup | hone := hfits p
    · exact hup
    · rw [h.sum_percentUp]
      omega
  have hle := h.exactUtilisation_le p
  have hup' : ((boundSum percentUp s p : Nat) : ℚ) ≤ 100 := by exact_mod_cast hup
  linarith

/-- Along a run that binds contexts inside the major frame, and whose shares fit when they
are rounded up or need no rounding but for one, the test is sound for exact utilisation in
every state. -/
theorem schedulable_sound_of_rounded {calls : List SchedCall}
    (h : Run.Guarded schedStep (fun s c => BindsInFrame s c ∧ BindsRounded s c) schedInit calls)
    {done : List SchedCall} (hdone : done <+: calls) :
    let s := Run.exec schedStep schedInit done
    schedIsSchedulable s = true → ∀ p, exactUtilisation s p ≤ 1 := by
  intro s
  have hstep : ∀ t c, BindsInFrame t c ∧ BindsRounded t c →
      (BoundInFrame t ∧ ∀ p, FitsRounded t p) →
      BoundInFrame (schedStep t c) ∧ ∀ p, FitsRounded (schedStep t c) p :=
    fun _ _ hc ht => ⟨ht.1.step hc.1, FitsRounded.step ht.2 hc.2⟩
  obtain ⟨hinv, hfits⟩ := Run.exec_invariant_prefix hstep h
    ⟨schedInit_boundInFrame, schedInit_fitsRounded⟩ hdone
  exact hinv.sound_of_fitsRounded hfits

/-- A partition of 6 ms with contexts of 30 and 25 percent. -/
def wholeCalls : List SchedCall :=
  [.create ⟨1, 0, 6000, 1⟩, .bind 0 1 1 600 2000 10, .bind 1 2 1 500 2000 20]

/-- Every state of the run is sound, and the last one passes the test. -/
theorem schedulable_sound_whole :
    schedIsSchedulable (Run.exec schedStep schedInit wholeCalls) = true ∧
      ∀ p, exactUtilisation (Run.exec schedStep schedInit wholeCalls) p ≤ 1 := by
  have hguarded : Run.Guarded schedStep (fun s c => BindsInFrame s c ∧ BindsRounded s c) schedInit
      wholeCalls :=
    ⟨⟨trivial, trivial⟩, ⟨by decide, fun _ => Or.inl (by decide +kernel)⟩,
      ⟨by decide, fun _ => Or.inl (by decide +kernel)⟩, trivial⟩
  have htest : schedIsSchedulable (Run.exec schedStep schedInit wholeCalls) = true := by
    decide +kernel
  exact ⟨htest, schedulable_sound_of_rounded hguarded (List.prefix_refl wholeCalls) htest⟩

/-! ### Shares that do not fit -/

/-- The budget of context `i`: the first takes a little less than `w + 1` percent of the frame,
each other one a little less than one percent. -/
def overfullBudget (w i : Nat) : UInt64 := UInt64.ofNat (if i = 0 then 100 * w + 99 else 99)

def overfullBind (w i : Nat) : SchedCall :=
  .bind (UInt32.ofNat i) 1 1 (overfullBudget w i) 10000 10

/-- A partition that owns the whole frame, with `n` contexts. -/
def overfullCalls (w n : Nat) : List SchedCall :=
  .create ⟨1, 0, 10000, 1⟩ :: (List.range' 0 n).map (overfullBind w)

/-- The first `k` contexts are bound in partition 1. -/
structure Overfull (w k : Nat) (s : SchedState) : Prop where
  window : s.partitions 1 = PartitionCall.partition ⟨1, 0, 10000, 1⟩
  filled : ∀ i, i < k → (s.contexts i).bound = true ∧ (s.contexts i).partitionId = 1 ∧
    (s.contexts i).budgetUs = overfullBudget w i ∧ (s.contexts i).periodUs = 10000
  free : ∀ i, k ≤ i → (s.contexts i).bound = false

theorem toNat_overfullBudget {w : Nat} (hw : w ≤ 99) (i : Nat) :
    (overfullBudget w i).toNat = if i = 0 then 100 * w + 99 else 99 := by
  rw [overfullBudget, UInt64.toNat_ofNat']
  refine Nat.mod_eq_of_lt ?_
  split_ifs <;> omega

section
variable {w k : Nat} {s : SchedState}

theorem Overfull.bind (h : Overfull w k s) (hw : w ≤ 99) (hk : k < 64) :
    BindsInFrame s (overfullBind w k) ∧ Overfull w (k + 1) (schedStep s (overfullBind w k)) := by
  have hwindow : s.partitions (1 : UInt32).toNat = PartitionCall.partition ⟨1, 0, 10000, 1⟩ :=
    h.window
  have hid : (UInt32.ofNat k).toNat = k := UInt32.toNat_ofNat_of_lt' (Nat.lt_trans hk (by decide))
  have hbudget := toNat_overfullBudget hw k
  have hle : (overfullBudget w k).toNat ≤ 9999 := by
    rw [hbudget]
    split_ifs <;> omega
  have hpos : 0 < (overfullBudget w k).toNat := by
    rw [hbudget]
    split_ifs <;> omega
  have hallowed : BindAllowed s (UInt32.ofNat k) 1 (overfullBudget w k) 10000 := by
    refine ⟨UInt32.lt_iff_toNat_lt.mpr (by rwa [hid]), by decide, by rw [hwindow]; rfl, ?_,
      by decide, UInt64.le_iff_toNat_le.mpr (Nat.le_succ_of_le hle), ?_⟩
    · intro hzero
      rw [hzero] at hpos
      exact absurd hpos (by decide)
    · rw [hwindow]
      exact UInt64.le_iff_toNat_le.mpr (Nat.le_succ_of_le hle)
  obtain ⟨-, heq⟩ | ⟨hdenied, -⟩ :=
    schedContextBind_cases s (UInt32.ofNat k) 1 1 (overfullBudget w k) 10000 10
  · refine ⟨?_, ?_⟩
    · show (s.partitions (1 : UInt32).toNat).InFrame
      rw [hwindow]
      decide
    · rw [overfullBind, schedStep, heq, hid]
      refine ⟨h.window, fun i hi => ?_, fun i hi => ?_⟩
      · by_cases hik : i = k
        · subst hik
          rw [SchedState.setContext_self]
          exact ⟨rfl, rfl, rfl, rfl⟩
        · rw [SchedState.setContext_ne hik]
          exact h.filled i (by omega)
      · rw [SchedState.setContext_ne (by omega)]
        exact h.free i (by omega)
  · exact absurd hallowed hdenied

theorem Overfull.binds (h : Overfull w k s) (hw : w ≤ 99) {n : Nat} (hn : k + n ≤ 64) :
    Run.Guarded schedStep BindsInFrame s ((List.range' k n).map (overfullBind w)) ∧
      Overfull w (k + n) (Run.exec schedStep s ((List.range' k n).map (overfullBind w))) := by
  induction n generalizing k s with
  | zero => exact ⟨trivial, h⟩
  | succ n ih =>
    obtain ⟨hframe, hnext⟩ := h.bind hw (by omega)
    obtain ⟨hguarded, hfull⟩ := ih hnext (by omega)
    rw [Nat.add_assoc, Nat.add_comm 1 n] at hfull
    exact ⟨⟨hframe, hguarded⟩, hfull⟩

/-- A sum over the contexts of the partition: the first of them and `k` alike. -/
theorem Overfull.boundSum_eq {β : Type} [AddCommMonoid β] (h : Overfull w (k + 1) s)
    (hk : k + 1 ≤ 64) (f : UInt64 → UInt64 → β) :
    boundSum f s 1 = k • f (overfullBudget w 1) 10000 + f (overfullBudget w 0) 10000 := by
  have hfilled : ∀ i ∈ Finset.range (k + 1),
      (s.contexts i).term f 1 = f (overfullBudget w i) 10000 := by
    intro i hi
    obtain ⟨hbound, hpart, hbudget, hperiod⟩ := h.filled i (Finset.mem_range.mp hi)
    rw [SchedContext.term, if_pos ⟨hbound, hpart⟩, hbudget, hperiod]
  have hfree : ∀ i ∈ Finset.range maxSchedContexts.toNat, i ∉ Finset.range (k + 1) →
      (s.contexts i).term f 1 = 0 := by
    intro i _ hi
    rw [Finset.mem_range, Nat.not_lt] at hi
    exact if_neg fun hc => absurd ((h.free i hi).symm.trans hc.1) (by decide)
  have hsub : Finset.range (k + 1) ⊆ Finset.range maxSchedContexts.toNat :=
    Finset.range_subset_range.mpr hk
  have hlater : ∀ i, overfullBudget w (i + 1) = overfullBudget w 1 := fun i => by
    simp [overfullBudget]
  rw [boundSum, ← Finset.sum_subset hsub hfree, Finset.sum_congr rfl hfilled,
    Finset.sum_range_succ']
  simp only [hlater, Finset.sum_const, Finset.card_range]

theorem Overfull.boundSum_of_ne (h : Overfull w k s) {p : UInt32} (hp : p ≠ 1)
    (f : UInt64 → UInt64 → Nat) : boundSum f s p = 0 := by
  refine Finset.sum_eq_zero fun i _ => if_neg fun hc => ?_
  by_cases hi : i < k
  · exact hp (hc.2.symm.trans (h.filled i hi).2.1)
  · exact absurd ((h.free i (Nat.not_lt.mp hi)).symm.trans hc.1) (by decide)

end

/-- Whatever whole percents and numbers of rounded shares do not fit: there is a run with
just these in a partition that is overcommitted and passes the test. -/
theorem unsound_of_not_fits {w n : Nat} (hw : w ≤ 99) (hn : n ≤ 64) (hover : 100 < w + n) :
    ∃ calls, Run.Guarded schedStep BindsInFrame schedInit calls ∧
      boundSum percentDown (Run.exec schedStep schedInit calls) 1 = w ∧
      boundSum brokenPercent (Run.exec schedStep schedInit calls) 1 = n ∧
      schedIsSchedulable (Run.exec schedStep schedInit calls) = true ∧
      1 < exactUtilisation (Run.exec schedStep schedInit calls) 1 := by
  obtain ⟨k, rfl⟩ : ∃ k, n = k + 1 := ⟨n - 1, by omega⟩
  have hstart : Overfull w 0 (schedStep schedInit (.create ⟨1, 0, 10000, 1⟩)) :=
    ⟨by decide, fun i hi => absurd hi (Nat.not_lt_zero i), fun i _ => rfl⟩
  obtain ⟨hbinds, hfull⟩ := hstart.binds hw (n := k + 1) (by omega)
  have hguarded : Run.Guarded schedStep BindsInFrame schedInit (overfullCalls w (k + 1)) :=
    ⟨trivial, hbinds⟩
  rw [Nat.zero_add] at hfull
  change Overfull w (k + 1) (Run.exec schedStep schedInit (overfullCalls w (k + 1))) at hfull
  have hinv : BoundInFrame (Run.exec schedStep schedInit (overfullCalls w (k + 1))) :=
    Run.exec_invariant (fun _ _ hc ht => ht.step hc) hguarded schedInit_boundInFrame
  have hfirst : (overfullBudget w 0).toNat = 100 * w + 99 := toNat_overfullBudget hw 0
  have hother : (overfullBudget w 1).toNat = 99 := toNat_overfullBudget hw 1
  have hwhole : boundSum percentDown (Run.exec schedStep schedInit (overfullCalls w (k + 1))) 1 =
      w := by
    rw [hfull.boundSum_eq hn, percentDown, percentDown, hfirst, hother]
    show k * (99 * 100 / 10000) + (100 * w + 99) * 100 / 10000 = w
    omega
  refine ⟨overfullCalls w (k + 1), hguarded, hwhole, ?_, hinv.schedulable_iff.mpr fun p => ?_, ?_⟩
  · rw [hfull.boundSum_eq hn, brokenPercent, brokenPercent, hfirst, hother]
    show k * 1 + (if (100 * w + 99) * 100 % 10000 = 0 then 0 else 1) = k + 1
    rw [if_neg (by omega), Nat.mul_one]
  · by_cases hp : p = 1
    · rw [hp, hwhole]
      exact hw
    · rw [hfull.boundSum_of_ne hp]
      exact Nat.zero_le 99
  · rw [exactUtilisation, hfull.boundSum_eq hn, exactShare, exactShare, hfirst, hother, nsmul_eq_mul]
    show (1 : ℚ) < k * ((99 : Nat) / (10000 : Nat)) + ((100 * w + 99 : Nat) : ℚ) / (10000 : Nat)
    have hover' : (101 : ℚ) ≤ w + (k + 1) := by exact_mod_cast hover
    have hn' : (k : ℚ) + 1 ≤ 64 := by exact_mod_cast hn
    push_cast
    linarith

/-- The same partition with contexts of 49.9 and 50.9 percent. -/
def roundedCalls : List SchedCall :=
  [.create ⟨1, 0, 6000, 1⟩, .bind 0 1 1 4990 10000 10, .bind 1 2 1 5090 10000 20]

/-- Together they take 100.8 percent, and the test counts 99. -/
theorem schedulable_overcommitted :
    Run.Guarded schedStep BindsInFrame schedInit roundedCalls ∧
    schedIsSchedulable (Run.exec schedStep schedInit roundedCalls) = true ∧
      ¬ ∀ p, exactUtilisation (Run.exec schedStep schedInit roundedCalls) p ≤ 1 := by
  refine ⟨⟨trivial, by decide, by decide, trivial⟩, by decide +kernel, fun h => ?_⟩
  have hle := h 1
  revert hle
  decide +kernel

end Moonlight
