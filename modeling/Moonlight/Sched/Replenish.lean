/-
When budgets are refilled.

`sched_context_bind` sets the deadline of a context one period after time zero, whatever the
time is, and a tick that finds the deadline reached moves it on by one period.  Counted from
time zero, a context therefore gets one budget per period at most.  A tick that comes a
period or more after the deadline leaves the new deadline in the past, and the ticks that
follow refill the context one after the other until the deadline has caught up.
-/
import Moonlight.Sched.ExactUtilisation

namespace Moonlight

/-- A tick at `now` refills the context. -/
def SchedContext.Refills (c : SchedContext) (now : UInt64) : Prop :=
  c.bound = true ∧ c.deadline ≤ now

instance (c : SchedContext) (now : UInt64) : Decidable (c.Refills now) :=
  inferInstanceAs (Decidable (_ ∧ _))

/-- What a refill stores. -/
def SchedContext.refilled (c : SchedContext) : SchedContext :=
  { c with remainingUs := c.budgetUs, deadline := c.deadline + c.periodUs, consumedThisPeriod := 0 }

theorem SchedContext.replenish_of_refills {c : SchedContext} {now : UInt64} (h : c.Refills now) :
    c.replenish now = c.refilled := if_pos h

theorem SchedContext.replenish_of_not {c : SchedContext} {now : UInt64} (h : ¬ c.Refills now) :
    c.replenish now = c := if_neg h

theorem schedTick_context (s : SchedState) (now : UInt64) {i : Nat}
    (hi : i < maxSchedContexts.toNat) :
    (schedTick s now).contexts i = (s.contexts i).replenish now := if_pos hi

/-- The deadline a tick moves on is at most the time of the tick, so the sum is exact when
the time has a period to go. -/
theorem SchedContext.Refills.toNat_deadline {c : SchedContext} {now : UInt64} (h : c.Refills now)
    (hfits : now.toNat + c.periodUs.toNat < 2 ^ 64) :
    c.refilled.deadline.toNat = c.deadline.toNat + c.periodUs.toNat := by
  have hle := UInt64.le_iff_toNat_le.mp h.2
  show (c.deadline + c.periodUs).toNat = _
  rw [UInt64.toNat_add]
  exact Nat.mod_eq_of_lt (by omega)

/-! ### Deadlines and ticks -/

/-- The scheduler, and for each context the last tick since it was bound. -/
structure TickRun where
  sched : SchedState
  seen : Nat → Option UInt64

def TickRun.start : TickRun := { sched := schedInit, seen := fun _ => none }

def tickStep (s : TickRun) (c : SchedCall) : TickRun :=
  { sched := schedStep s.sched c
    seen :=
      match c with
      | .tick now => fun _ => some now
      | .bind scId tcbId partId budget period prio =>
          if (schedContextBind s.sched scId tcbId partId budget period prio).1 = .ok then
            Function.update s.seen scId.toNat none
          else s.seen
      | _ => s.seen }

/-- After the last tick every context it found bound had its deadline ahead, so that a tick
refills it only if a deadline has been reached since. -/
structure KeepsPace (s : TickRun) : Prop where
  ahead : ∀ i, i < maxSchedContexts.toNat → (s.sched.contexts i).bound = true →
    ∀ t, s.seen i = some t → t < (s.sched.contexts i).deadline
  reached : ∀ i now, i < maxSchedContexts.toNat → (s.sched.contexts i).Refills now →
    ∀ t, s.seen i = some t → t < (s.sched.contexts i).deadline ∧ (s.sched.contexts i).deadline ≤ now

theorem keepsPace_of_ahead {s : TickRun} (h : ∀ i, i < maxSchedContexts.toNat →
    (s.sched.contexts i).bound = true → ∀ t, s.seen i = some t → t < (s.sched.contexts i).deadline) :
    KeepsPace s :=
  ⟨h, fun i _ hi hrefills t ht => ⟨h i hi hrefills.1 t ht, hrefills.2⟩⟩

/-- The time of a tick has a period to go for every context that is bound. -/
def TickFits (s : TickRun) : SchedCall → Prop
  | .tick now => ∀ i, i < maxSchedContexts.toNat → (s.sched.contexts i).bound = true →
      now.toNat + (s.sched.contexts i).periodUs.toNat < 2 ^ 64
  | _ => True

/-- The condition on a tick: it comes less than a period after the deadline of every context
that is bound. -/
def TickOnTime (s : TickRun) : SchedCall → Prop
  | .tick now => ∀ i, i < maxSchedContexts.toNat → (s.sched.contexts i).bound = true →
      now.toNat < (s.sched.contexts i).deadline.toNat + (s.sched.contexts i).periodUs.toNat
  | _ => True

instance (s : TickRun) : (c : SchedCall) → Decidable (TickFits s c)
  | .tick now => inferInstanceAs (Decidable (∀ i, i < maxSchedContexts.toNat →
      (s.sched.contexts i).bound = true → now.toNat + (s.sched.contexts i).periodUs.toNat < 2 ^ 64))
  | .create _ => .isTrue trivial
  | .bind _ _ _ _ _ _ => .isTrue trivial
  | .release _ => .isTrue trivial

instance (s : TickRun) : (c : SchedCall) → Decidable (TickOnTime s c)
  | .tick now => inferInstanceAs (Decidable (∀ i, i < maxSchedContexts.toNat →
      (s.sched.contexts i).bound = true →
        now.toNat < (s.sched.contexts i).deadline.toNat + (s.sched.contexts i).periodUs.toNat))
  | .create _ => .isTrue trivial
  | .bind _ _ _ _ _ _ => .isTrue trivial
  | .release _ => .isTrue trivial

theorem SchedContext.deadline_ahead_iff {c : SchedContext} {now : UInt64} (hbound : c.bound = true)
    (hfits : now.toNat + c.periodUs.toNat < 2 ^ 64) :
    now < (c.replenish now).deadline ↔ now.toNat < c.deadline.toNat + c.periodUs.toNat := by
  rw [UInt64.lt_iff_toNat_lt]
  by_cases hdue : c.deadline ≤ now
  · have hrefills : c.Refills now := ⟨hbound, hdue⟩
    rw [replenish_of_refills hrefills, hrefills.toNat_deadline hfits]
  · rw [replenish_of_not fun h => hdue h.2]
    have hlt := UInt64.lt_iff_toNat_lt.mp (UInt64.not_le.mp hdue)
    omega

theorem KeepsPace.tick_iff {s : TickRun} {now : UInt64} (hfits : TickFits s (.tick now)) :
    KeepsPace (tickStep s (.tick now)) ↔ TickOnTime s (.tick now) := by
  have hbound : ∀ i, ((s.sched.contexts i).replenish now).bound = (s.sched.contexts i).bound :=
    fun i => (replenish_terms (s.sched.contexts i) now).1
  constructor
  · intro h i hi hb
    rw [← SchedContext.deadline_ahead_iff hb (hfits i hi hb), ← schedTick_context s.sched now hi]
    refine h.ahead i hi ?_ now rfl
    show ((schedTick s.sched now).contexts i).bound = true
    rw [schedTick_context s.sched now hi, hbound]
    exact hb
  · intro h
    refine keepsPace_of_ahead fun i hi hb t ht => ?_
    obtain rfl : now = t := Option.some.inj ht
    have hcontext : (tickStep s (.tick now)).sched.contexts i = (s.sched.contexts i).replenish now :=
      schedTick_context s.sched now hi
    rw [hcontext, hbound] at hb
    rw [hcontext]
    exact (SchedContext.deadline_ahead_iff hb (hfits i hi hb)).mpr (h i hi hb)

/-- A context that was bound before and has not been bound anew keeps its deadline. -/
theorem KeepsPace.of_kept {s s' : TickRun} (h : KeepsPace s)
    (hkept : ∀ i t, (s'.sched.contexts i).bound = true → s'.seen i = some t →
      s.seen i = some t ∧ s'.sched.contexts i = s.sched.contexts i) : KeepsPace s' := by
  refine keepsPace_of_ahead fun i hi hb t ht => ?_
  obtain ⟨hseen, hsame⟩ := hkept i t hb ht
  rw [hsame] at hb ⊢
  exact h.ahead i hi hb t hseen

theorem KeepsPace.step_iff {s : TickRun} {c : SchedCall} (hfits : TickFits s c) (h : KeepsPace s) :
    KeepsPace (tickStep s c) ↔ TickOnTime s c := by
  cases c with
  | tick now => exact KeepsPace.tick_iff hfits
  | create c =>
    refine iff_of_true (h.of_kept fun i t _ ht => ⟨ht, ?_⟩) trivial
    show (partitionStep s.sched c).contexts i = _
    obtain ⟨-, heq⟩ | heq := partitionStep_cases s.sched c
    · rw [heq]
    · rw [heq]
  | release sc =>
    exact iff_of_true
      (h.of_kept fun i t hb ht => ⟨ht, (s.sched.release_releases sc).bound hb⟩) trivial
  | bind scId tcbId partId budget period prio =>
    refine iff_of_true (h.of_kept fun i t _ ht => ?_) trivial
    obtain ⟨-, heq⟩ | ⟨-, heq⟩ :=
      schedContextBind_cases s.sched scId tcbId partId budget period prio
    · simp only [tickStep, schedStep, heq, if_true] at ht ⊢
      -- the context that has just been bound has seen no tick
      have hne : i ≠ scId.toNat := by
        intro hi
        rw [hi, Function.update_self] at ht
        cases ht
      rw [Function.update_of_ne hne] at ht
      exact ⟨ht, SchedState.setContext_ne hne ..⟩
    · simp only [tickStep, schedStep, heq] at ht ⊢
      exact ⟨ht, trivial⟩

/-- In every run whose tick times stay a period below `2 ^ 64`, every tick leaves the deadlines
ahead and refills come one per deadline exactly when each tick comes less than a period after
the deadline of every context that is bound. -/
theorem refills_keep_pace_iff {calls : List SchedCall}
    (hfits : Run.Guarded tickStep TickFits TickRun.start calls) :
    (∀ done, done <+: calls → KeepsPace (Run.exec tickStep TickRun.start done)) ↔
      Run.Guarded tickStep TickOnTime TickRun.start calls := by
  have hstart : KeepsPace TickRun.start := keepsPace_of_ahead fun i _ hb => by cases hb
  exact Run.exec_forall_prefix_iff_of_guarded KeepsPace (fun _ h => h)
    (fun s c hc h => (h.step_iff hc).mpr) (fun s c hc h => (h.step_iff hc).mp) hstart hfits

/-- A context of 500 microseconds in 2000, and ticks less than a period after its deadlines. -/
def promptCalls : List SchedCall :=
  [.create ⟨0, 0, 6000, 1⟩, .bind 0 1 0 500 2000 5, .tick 2500, .tick 4100]

theorem refills_keep_pace_prompt :
    Run.Guarded tickStep TickFits TickRun.start promptCalls ∧
      KeepsPace (Run.exec tickStep TickRun.start promptCalls) := by
  have hfits : Run.Guarded tickStep TickFits TickRun.start promptCalls :=
    ⟨trivial, trivial, by decide +kernel, by decide +kernel, trivial⟩
  refine ⟨hfits, (refills_keep_pace_iff hfits).mpr ?_ promptCalls (List.prefix_refl _)⟩
  exact ⟨trivial, trivial, by decide +kernel, by decide +kernel, trivial⟩

/-- The same context, first ticked at 10000 and then at 10001. -/
def lateCalls : List SchedCall :=
  [.create ⟨0, 0, 6000, 1⟩, .bind 0 1 0 500 2000 5, .tick 10000, .tick 10001]

/-- Both ticks refill the context, and after both its deadline is long past. -/
theorem late_tick_refills_twice :
    [10000, 10001].Pairwise (· ≤ ·) ∧ Run.Guarded tickStep TickFits TickRun.start lateCalls ∧
      ((Run.exec tickStep TickRun.start (lateCalls.take 2)).sched.contexts 0).Refills 10000 ∧
      ((Run.exec tickStep TickRun.start (lateCalls.take 3)).sched.contexts 0).Refills 10001 ∧
      ¬ KeepsPace (Run.exec tickStep TickRun.start (lateCalls.take 3)) := by
  refine ⟨by decide, ⟨trivial, trivial, by decide +kernel, by decide +kernel, trivial⟩,
    by decide +kernel, by decide +kernel, fun h => ?_⟩
  exact absurd (h.ahead 0 (by decide) (by decide +kernel) 10000 rfl) (by decide +kernel)

/-! ### How much is granted -/

/-- The scheduler and the time of the last tick, with what has been seen of one context: how
often its deadline has moved on, and the budget it was ever given, which is what it started
with and all that `remaining_us` has risen by. -/
structure GrantRun where
  sched : SchedState
  now : UInt64
  refills : Nat
  granted : Nat

/-- The scheduler as context `sc` has just been bound. -/
def GrantRun.start (s : SchedState) (sc : Nat) : GrantRun :=
  { sched := s, now := 0, refills := 0, granted := (s.contexts sc).remainingUs.toNat }

/-- A call of the scheduler, or the thread uses up some of the budget. -/
inductive GrantCall where
  | call (c : SchedCall)
  | spend (us : UInt64)

/-- What is left goes down, as the realtime test lets it between ticks. -/
def SchedContext.spend (c : SchedContext) (us : UInt64) : SchedContext :=
  if us ≤ c.remainingUs then { c with remainingUs := c.remainingUs - us } else c

def GrantCall.run (sc : Nat) (s : SchedState) : GrantCall → SchedState
  | .call c => schedStep s c
  | .spend us => s.setContext sc ((s.contexts sc).spend us)

def GrantCall.time (now : UInt64) : GrantCall → UInt64
  | .call (.tick now') => now'
  | _ => now

/-- The counts read what a call has stored in the context, not why. -/
def grantStep (sc : Nat) (s : GrantRun) (c : GrantCall) : GrantRun :=
  let old := s.sched.contexts sc
  let new := (c.run sc s.sched).contexts sc
  { sched := c.run sc s.sched
    now := c.time s.now
    refills := if new.deadline ≠ old.deadline then s.refills + 1 else s.refills
    granted := s.granted + (new.remainingUs.toNat - old.remainingUs.toNat) }

/-- The context stays bound as it is, and the ticks do not go back and stay a period below
`2 ^ 64`. -/
def LeavesBound (sc : Nat) (period : UInt64) (s : GrantRun) : GrantCall → Prop
  | .call (.tick now) => s.now ≤ now ∧ now.toNat + period.toNat < 2 ^ 64
  | .call (.bind scId _ partId budget period _) =>
      scId.toNat = sc → ¬ BindAllowed s.sched scId partId budget period
  | .call (.release i) => i ≠ sc
  | _ => True

/-- Context `sc` after `refills` refills. -/
structure RefillInv (sc : Nat) (budget period : UInt64) (s : GrantRun) : Prop where
  bound : (s.sched.contexts sc).bound = true
  budgetUs : (s.sched.contexts sc).budgetUs = budget
  periodUs : (s.sched.contexts sc).periodUs = period
  deadline : (s.sched.contexts sc).deadline.toNat = (s.refills + 1) * period.toNat
  time : s.refills * period.toNat ≤ s.now.toNat
  remaining : (s.sched.contexts sc).remainingUs ≤ budget
  granted : s.granted ≤ budget.toNat * (1 + s.refills)

section
variable {sc : Nat} {budget period : UInt64} {s : GrantRun}

/-- The context is bound on the same terms, with no more left. -/
structure SchedContext.KeepsTerms (c c' : SchedContext) : Prop where
  bound : c'.bound = c.bound
  budgetUs : c'.budgetUs = c.budgetUs
  periodUs : c'.periodUs = c.periodUs
  deadline : c'.deadline = c.deadline
  remaining : c'.remainingUs ≤ c.remainingUs

theorem SchedContext.KeepsTerms.of_eq {c c' : SchedContext} (h : c' = c) : c.KeepsTerms c' := by
  subst h
  exact ⟨rfl, rfl, rfl, rfl, UInt64.le_refl _⟩

theorem SchedContext.keepsTerms_spend (c : SchedContext) (us : UInt64) :
    c.KeepsTerms (c.spend us) := by
  unfold SchedContext.spend
  split_ifs with hus
  · refine ⟨rfl, rfl, rfl, rfl, ?_⟩
    show c.remainingUs - us ≤ c.remainingUs
    rw [UInt64.le_iff_toNat_le, UInt64.toNat_sub_of_le _ _ hus]
    exact Nat.sub_le ..
  · exact .of_eq rfl

/-- A step that leaves the terms of the context alone, at the same time or later. -/
theorem RefillInv.of_keepsTerms (h : RefillInv sc budget period s) {c : GrantCall}
    (hterms : (s.sched.contexts sc).KeepsTerms ((c.run sc s.sched).contexts sc))
    (hnow : s.now ≤ c.time s.now) : RefillInv sc budget period (grantStep sc s c) := by
  have hremaining := UInt64.le_iff_toNat_le.mp hterms.remaining
  have hrefills : (grantStep sc s c).refills = s.refills :=
    if_neg fun hne => hne hterms.deadline
  have hgranted : (grantStep sc s c).granted = s.granted := by
    show s.granted + (_ - _) = s.granted
    omega
  constructor
  · exact hterms.bound.trans h.bound
  · exact hterms.budgetUs.trans h.budgetUs
  · exact hterms.periodUs.trans h.periodUs
  · rw [hrefills, ← h.deadline]
    exact congrArg UInt64.toNat hterms.deadline
  · rw [hrefills]
    exact Nat.le_trans h.time (UInt64.le_iff_toNat_le.mp hnow)
  · exact UInt64.le_trans hterms.remaining h.remaining
  · rw [hgranted, hrefills]
    exact h.granted

/-- A refill moves the deadline on by a period and raises what is left to the budget. -/
theorem RefillInv.refill (h : RefillInv sc budget period s) (hperiod : period ≠ 0) {now : UInt64}
    (hrefills : (s.sched.contexts sc).Refills now) (hfits : now.toNat + period.toNat < 2 ^ 64)
    (hcontext : (schedTick s.sched now).contexts sc = (s.sched.contexts sc).refilled) :
    RefillInv sc budget period (grantStep sc s (.call (.tick now))) := by
  have hdeadline := hrefills.toNat_deadline (by rw [h.periodUs]; exact hfits)
  have hdue := UInt64.le_iff_toNat_le.mp hrefills.2
  rw [h.periodUs] at hdeadline
  have hnew : (GrantCall.run sc s.sched (.call (.tick now))).contexts sc =
      (s.sched.contexts sc).refilled := hcontext
  have hpos : 0 < period.toNat := Nat.pos_of_ne_zero fun hz => hperiod (UInt64.toNat_inj.mp hz)
  have hmoved : (s.sched.contexts sc).refilled.deadline ≠ (s.sched.contexts sc).deadline := by
    intro hsame
    rw [hsame] at hdeadline
    omega
  have hcount : (grantStep sc s (.call (.tick now))).refills = s.refills + 1 := by
    simp only [grantStep, hnew, if_pos hmoved]
  have hgranted : (grantStep sc s (.call (.tick now))).granted ≤ s.granted + budget.toNat := by
    simp only [grantStep, hnew, SchedContext.refilled, h.budgetUs]
    omega
  rw [h.deadline] at hdue hdeadline
  constructor
  · exact (congrArg SchedContext.bound hnew).trans h.bound
  · exact (congrArg SchedContext.budgetUs hnew).trans h.budgetUs
  · exact (congrArg SchedContext.periodUs hnew).trans h.periodUs
  · rw [hcount, Nat.succ_mul (s.refills + 1), ← hdeadline]
    exact congrArg (fun c : SchedContext => c.deadline.toNat) hnew
  · rw [hcount]
    exact hdue
  · show ((GrantCall.run sc s.sched (.call (.tick now))).contexts sc).remainingUs ≤ budget
    rw [hnew]
    exact UInt64.le_of_eq h.budgetUs
  · rw [hcount, ← Nat.add_assoc, Nat.mul_succ]
    exact Nat.le_trans hgranted (Nat.add_le_add_right h.granted _)

theorem RefillInv.tick (h : RefillInv sc budget period s) (hsc : sc < maxSchedContexts.toNat)
    (hperiod : period ≠ 0) {now : UInt64} (hok : LeavesBound sc period s (.call (.tick now))) :
    RefillInv sc budget period (grantStep sc s (.call (.tick now))) := by
  obtain ⟨hnow, hfits⟩ := hok
  have hcontext := schedTick_context s.sched now hsc
  by_cases hrefills : (s.sched.contexts sc).Refills now
  · exact h.refill hperiod hrefills hfits
      (hcontext.trans (SchedContext.replenish_of_refills hrefills))
  · refine h.of_keepsTerms (.of_eq ?_) hnow
    exact hcontext.trans (SchedContext.replenish_of_not hrefills)

theorem RefillInv.step (hsc : sc < maxSchedContexts.toNat) (hperiod : period ≠ 0) (s : GrantRun)
    (c : GrantCall) (hok : LeavesBound sc period s c) (h : RefillInv sc budget period s) :
    RefillInv sc budget period (grantStep sc s c) := by
  cases c with
  | spend us =>
    refine h.of_keepsTerms ?_ (UInt64.le_refl _)
    show (s.sched.contexts sc).KeepsTerms ((s.sched.setContext sc _).contexts sc)
    rw [SchedState.setContext_self]
    exact SchedContext.keepsTerms_spend ..
  | call c =>
    cases c with
    | tick now => exact h.tick hsc hperiod hok
    | create c =>
      refine h.of_keepsTerms (.of_eq ?_) (UInt64.le_refl _)
      show (partitionStep s.sched c).contexts sc = _
      obtain ⟨-, heq⟩ | heq := partitionStep_cases s.sched c
      · rw [heq]
      · rw [heq]
    | release i =>
      refine h.of_keepsTerms (.of_eq ?_) (UInt64.le_refl _)
      exact SchedState.setContext_ne (Ne.symm hok) ..
    | bind scId tcbId partId budget period prio =>
      refine h.of_keepsTerms (.of_eq ?_) (UInt64.le_refl _)
      show (schedContextBind s.sched scId tcbId partId budget period prio).2.contexts sc = _
      obtain ⟨hallowed, heq⟩ | ⟨-, heq⟩ :=
        schedContextBind_cases s.sched scId tcbId partId budget period prio
      · rw [heq]
        exact SchedState.setContext_ne (fun hi => hok hi.symm hallowed) ..
      · rw [heq]

end

/-- From its binding on, a context that stays bound has after `k` refills its deadline at
`k + 1` periods, the last tick at `k` periods or later and no more than its budget left; so
what it was given in all is at most one budget and one for each period that has passed,
whatever the ticks and the calls for other contexts are. -/
theorem granted_budget_bounded {s₀ s₁ : SchedState} {scId tcbId partId : UInt32}
    {budget period : UInt64} {prio : UInt8}
    (hbind : schedContextBind s₀ scId tcbId partId budget period prio = (.ok, s₁))
    {calls : List GrantCall} (hcalls : Run.Guarded (grantStep scId.toNat)
      (LeavesBound scId.toNat period) (GrantRun.start s₁ scId.toNat) calls) :
    let s := Run.exec (grantStep scId.toNat) (GrantRun.start s₁ scId.toNat) calls
    (s.sched.contexts scId.toNat).deadline.toNat = (s.refills + 1) * period.toNat ∧
      s.refills * period.toNat ≤ s.now.toNat ∧
      (s.sched.contexts scId.toNat).remainingUs ≤ budget ∧
      s.granted ≤ budget.toNat * (1 + s.refills) ∧
      s.granted ≤ budget.toNat * (1 + s.now.toNat / period.toNat) := by
  intro s
  obtain ⟨hallowed, heq⟩ | ⟨-, heq⟩ :=
    schedContextBind_cases s₀ scId tcbId partId budget period prio
  swap
  · have herr := hbind.symm.trans heq
    cases herr
  obtain rfl : s₁ = _ := congrArg Prod.snd (hbind.symm.trans heq)
  have hperiod : period ≠ 0 := hallowed.2.2.2.2.1
  have hstart : RefillInv scId.toNat budget period (GrantRun.start (s₀.setContext scId.toNat
      ((s₀.contexts scId.toNat).bind tcbId partId budget period prio)) scId.toNat) := by
    refine ⟨?_, ?_, ?_, ?_, ?_, ?_, ?_⟩
    all_goals simp [GrantRun.start, SchedContext.bind]
  have hinv : RefillInv scId.toNat budget period s :=
    Run.exec_invariant
      (fun s c hc h => RefillInv.step (UInt32.lt_iff_toNat_lt.mp hallowed.1) hperiod s c hc h)
      hcalls hstart
  have hpos : 0 < period.toNat := Nat.pos_of_ne_zero fun hz => hperiod (UInt64.toNat_inj.mp hz)
  have hle : s.refills ≤ s.now.toNat / period.toNat := (Nat.le_div_iff_mul_le hpos).mpr hinv.time
  refine ⟨hinv.deadline, hinv.time, hinv.remaining, hinv.granted, ?_⟩
  calc s.granted
      ≤ budget.toNat * (1 + s.refills) := hinv.granted
    _ ≤ budget.toNat * (1 + s.now.toNat / period.toNat) :=
        Nat.mul_le_mul_left _ (Nat.add_le_add_left hle 1)

/-- The scheduler with context 0 bound to 500 microseconds in 2000. -/
def halfPartition : SchedState := Run.exec schedStep schedInit [.create ⟨0, 0, 6000, 1⟩]

def boundContext : SchedState := (schedContextBind halfPartition 0 1 0 500 2000 5).2

/-- Late ticks, with another context bound and released in between. -/
def grantCalls : List GrantCall :=
  [.spend 500, .call (.tick 2500), .spend 100, .call (.bind 1 2 0 600 3000 3), .call (.release 1),
    .call (.tick 7000)]

/-- The first tick gives back 500 and the second 100. -/
theorem granted_budget_bounded_late :
    (Run.exec (grantStep 0) (GrantRun.start boundContext 0) grantCalls).refills = 2 ∧
      (Run.exec (grantStep 0) (GrantRun.start boundContext 0) grantCalls).granted = 1100 ∧
      (Run.exec (grantStep 0) (GrantRun.start boundContext 0) grantCalls).granted ≤
        500 * (1 + 7000 / 2000) := by
  have hbind : schedContextBind halfPartition 0 1 0 500 2000 5 = (.ok, boundContext) :=
    Prod.ext (by decide +kernel) rfl
  have hcalls : Run.Guarded (grantStep 0) (LeavesBound 0 2000) (GrantRun.start boundContext 0)
      grantCalls :=
    ⟨trivial, ⟨by decide, by decide⟩, trivial, fun hsc => absurd hsc (by decide), Nat.one_ne_zero,
      ⟨by decide, by decide⟩, trivial⟩
  exact ⟨by decide +kernel, by decide +kernel, (granted_budget_bounded hbind hcalls).2.2.2.2⟩

end Moonlight
