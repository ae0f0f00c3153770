/-
Threads and scheduling contexts that point at each other.

A context names the thread it was bound for, and the thread names its context and its
partition.  `process_create` writes both sides.  `INV_SCHED_BIND` writes the context alone,
with a thread id of eight bits for a table of 128; `INV_TCB_CONFIGURE` writes the partition
of the thread alone; and a creation takes a TCB for free that a context still names when
neither an entry point nor a stack was set.  The two sides agree exactly as long as none of
this happens.
-/
import Moonlight.Process.Calls
import Moonlight.Sched.Tick

namespace Moonlight

/-- Context `i` is bound to thread `t`. -/
def SchedState.Names (s : SchedState) (i : Nat) (t : UInt32) : Prop :=
  i < maxSchedContexts.toNat ∧ (s.contexts i).bound = true ∧ (s.contexts i).tcbId = t

/-- The thread is in the table, and names context `i` and the partition of that context. -/
structure Linked (k : Kernel) (i : Nat) (t : UInt32) : Prop where
  inTable : t < maxTcbs
  context : (k.tcbs.threads t.toNat).schedContext.toNat = i
  partition : (k.tcbs.threads t.toNat).timePartition = (k.sched.contexts i).partitionId

def Agree (k : Kernel) : Prop := ∀ i t, k.sched.Names i t → Linked k i t

/-- The two sides agree, `sched_pick_next` stays inside the thread table, and the context it
picks is the one `syscall_handler` looks up for the thread it returns. -/
structure Consistent (k : Kernel) : Prop where
  agree : Agree k
  inTable : schedPickNext k.tcbs k.sched ≠ none
  charged : ∀ i, pickContext k.tcbs k.sched = some i → ∃ t, schedPickNext k.tcbs k.sched = some t ∧
    (k.tcbs.threads t.toNat).schedContext.toNat = i

variable {env : BootEnv} {k k' : Kernel} {t u : UInt32} {i : Nat}

theorem Agree.picked (h : Agree k) (hpick : pickContext k.tcbs k.sched = some i) :
    Linked k i (k.sched.contexts i).tcbId := by
  have hfirst := pickContext_some hpick
  have hstops := hfirst.stops
  rw [SchedContext.stops, SchedContext.isCandidate, Bool.and_eq_true, Bool.and_eq_true,
    Bool.and_eq_true] at hstops
  exact h i _ ⟨hfirst.lt, hstops.1.1.1, rfl⟩

theorem Agree.consistent (h : Agree k) : Consistent k := by
  have hpicked : ∀ i, pickContext k.tcbs k.sched = some i →
      schedPickNext k.tcbs k.sched = some (k.sched.contexts i).tcbId := by
    intro i hpick
    rw [schedPickNext, hpick]
    exact if_pos (h.picked hpick).inTable
  refine ⟨h, ?_, fun i hpick => ⟨_, hpicked i hpick, (h.picked hpick).context⟩⟩
  cases hpick : pickContext k.tcbs k.sched with
  | none =>
    rw [schedPickNext, hpick]
    exact Option.some_ne_none _
  | some i =>
    rw [hpicked i hpick]
    exact Option.some_ne_none _

theorem consistent_iff : Consistent k ↔ Agree k := ⟨Consistent.agree, Agree.consistent⟩

/-! ### What a call does to the links -/

theorem SchedState.Releases.names {s s' : SchedState} (h : s.Releases s') (hi : s'.Names i t) :
    s.Names i t := by
  obtain ⟨hlt, hbound, htcb⟩ := hi
  have hsame := h.bound hbound
  rw [hsame] at hbound htcb
  exact ⟨hlt, hbound, htcb⟩

theorem SchedState.SameBound.names_iff {s s' : SchedState} (h : s.SameBound s') :
    s'.Names i t ↔ s.Names i t := by
  refine ⟨h.releases.names, fun hi => ?_⟩
  rw [SchedState.Names, h.kept hi.2.1]
  exact hi

theorem Linked.congr (hthread : k'.tcbs.threads t.toNat = k.tcbs.threads t.toNat)
    (hcontext : k'.sched.contexts i = k.sched.contexts i) : Linked k' i t ↔ Linked k i t := by
  constructor
  · intro h
    obtain ⟨hlt, hc, hp⟩ := h
    rw [hthread] at hc hp
    rw [hcontext] at hp
    exact ⟨hlt, hc, hp⟩
  · intro h
    obtain ⟨hlt, hc, hp⟩ := h
    rw [← hthread] at hc hp
    rw [← hcontext] at hp
    exact ⟨hlt, hc, hp⟩

theorem Agree.of_same (h : Agree k) (hthreads : k'.tcbs.threads = k.tcbs.threads)
    (hsched : k'.sched = k.sched) : Agree k' := by
  intro i t hi
  rw [hsched] at hi
  exact (Linked.congr (by rw [hthreads]) (by rw [hsched])).mpr (h i t hi)

/-- Where one thread changes and no context is gained, only the links to that thread count. -/
theorem Agree.iff_of_thread (h : Agree k)
    (hothers : ∀ u, u ≠ t → k'.tcbs.threads u.toNat = k.tcbs.threads u.toNat)
    (hsched : k.sched.Releases k'.sched) :
    Agree k' ↔ ∀ i, k'.sched.Names i t → Linked k' i t := by
  refine ⟨fun hk' i hi => hk' i t hi, fun hcond i u hi => ?_⟩
  by_cases hu : u = t
  · subst hu
    exact hcond i hi
  · exact (Linked.congr (hothers u hu) (hsched.bound hi.2.1)).mpr (h i u (hsched.names hi))

/-- Where one context is bound, only that link counts. -/
theorem Agree.iff_of_context (h : Agree k) {sc : Nat} (hsc : sc < maxSchedContexts.toNat)
    {c : SchedContext} (hc : c.bound = true) (hthreads : k'.tcbs.threads = k.tcbs.threads)
    (hsched : k'.sched = k.sched.setContext sc c) : Agree k' ↔ Linked k' sc c.tcbId := by
  have hself : k'.sched.contexts sc = c := by
    rw [hsched, SchedState.setContext_self]
  constructor
  · intro hk'
    refine hk' sc _ ⟨hsc, ?_, ?_⟩
    · rw [hself]
      exact hc
    · rw [hself]
  · intro hlinked i u hi
    by_cases heq : i = sc
    · subst heq
      rw [← hi.2.2, hself]
      exact hlinked
    · have hsame : k'.sched.contexts i = k.sched.contexts i := by
        rw [hsched, SchedState.setContext_ne heq]
      rw [SchedState.Names, hsame] at hi
      exact (Linked.congr (by rw [hthreads]) hsame).mpr (h i u hi)

/-- The condition on a call.  A bind must name a thread of the table that has that context
and that partition.  A configuration must leave a thread in the partition of the context it
is bound to.  A creation must not find a context bound to the TCB it takes for free; one that
fails later leaves the zeroed TCB, which suits context 0 in partition 0 alone. -/
def KeepsAgreement (env : BootEnv) (k : Kernel) : ProcessCall → Prop
  | .create args => ∀ t, CreateStarts (k.processTables env) args t.toNat →
      ∀ i, k.sched.Names i t → (∀ sc, ¬ CreateSucceeds (k.processTables env) args t.toNat sc) ∧
        i = 0 ∧ (k.sched.contexts i).partitionId = 0
  | .destroy _ => True
  | .configure cap arg1 arg2 arg3 => ∀ t, Configures k cap arg1 arg2 t →
      ∀ i, k.sched.Names i t → (k.sched.contexts i).partitionId = configurePartition arg3
  | .schedBind cap arg1 arg2 arg3 => BindAccepted k cap arg1 arg2 arg3 →
      bindTcbId arg1 < maxTcbs ∧
      (k.tcbs.threads (bindTcbId arg1).toNat).schedContext = bindScId arg1 ∧
      (k.tcbs.threads (bindTcbId arg1).toNat).timePartition = bindPartId arg1

/-- The context that goes with a thread is the only one bound to it. -/
theorem Agree.destroy (h : Agree k) (hstep : ProcessStep env k (.destroy t) k') : Agree k' := by
  obtain rfl | ⟨-, mdb, rfl⟩ := processStep_destroy_cases hstep
  · exact h
  · have hreleases := withoutThread_releases env k t mdb
    refine (h.iff_of_thread (fun u hu => TcbTable.set_ne (toNat_ne hu) ..) hreleases).mpr
      fun i hi => ?_
    have hcontext := (h i t (hreleases.names hi)).context
    have hlt : (k.tcbs.threads t.toNat).schedContext < maxSchedContexts := by
      rw [UInt32.lt_iff_toNat_lt, hcontext]
      exact hi.1
    have hbound := hi.2.1
    simp only [Kernel.withoutThread, if_pos hlt, hcontext, SchedState.setContext_self] at hbound
    cases hbound

theorem Agree.schedBind_iff (h : Agree k) {cap : Cap} {arg1 arg2 arg3 : UInt64}
    (hstep : k' = (handleInvoke k cap .schedBind arg1 arg2 arg3).2) :
    Agree k' ↔ KeepsAgreement env k (.schedBind cap arg1 arg2 arg3) := by
  obtain ⟨haccepted, heq⟩ | ⟨hnot, heq⟩ := handleInvoke_bind_cases k cap arg1 arg2 arg3
  swap
  · rw [hstep, heq]
    exact iff_of_true h fun haccepted => absurd haccepted hnot
  rw [heq] at hstep
  have hthreads : k'.tcbs.threads = k.tcbs.threads := by rw [hstep]
  have hsched : k'.sched = k.sched.rebind arg1 arg2 arg3 := by rw [hstep]
  have hpart : (k'.sched.contexts (bindScId arg1).toNat).partitionId = bindPartId arg1 := by
    rw [hsched, SchedState.rebind, SchedState.setContext_self]
    rfl
  rw [h.iff_of_context (UInt32.lt_iff_toNat_lt.mp haccepted.2.1) rfl hthreads hsched]
  constructor
  · intro hlinked _
    obtain ⟨hlt, hcontext, hpartition⟩ := hlinked
    rw [hthreads] at hcontext hpartition
    exact ⟨hlt, UInt32.toNat_inj.mp hcontext, hpartition.trans hpart⟩
  · intro hcond
    obtain ⟨hlt, hcontext, hpartition⟩ := hcond haccepted
    rw [← hthreads] at hcontext hpartition
    exact ⟨hlt, congrArg UInt32.toNat hcontext, hpartition.trans hpart.symm⟩

theorem Agree.configure_iff (h : Agree k) {cap : Cap} {arg1 arg2 arg3 : UInt64}
    (hstep : k' = (handleInvoke k cap .tcbConfigure arg1 arg2 arg3).2) :
    Agree k' ↔ KeepsAgreement env k (.configure cap arg1 arg2 arg3) := by
  obtain ⟨t, vspaceRoot, asid, hconf, heq⟩ | ⟨hnot, heap, heq⟩ :=
    configure_cases k cap arg1 arg2 arg3
  swap
  · rw [heq] at hstep
    exact iff_of_true (h.of_same (by rw [hstep]) (by rw [hstep])) fun t hconf => absurd hconf (hnot t)
  rw [heq] at hstep
  have hsched : k'.sched = k.sched := by rw [hstep]
  obtain ⟨hself, hothers⟩ : SetsThread k k' t (tcbConfigure (k.tcbs.threads t.toNat) .root vspaceRoot
      asid (configurePartition arg3)) := setsThread_of_set (by rw [hstep])
  have hlinked : ∀ i, k.sched.Names i t →
      (Linked k' i t ↔ (k.sched.contexts i).partitionId = configurePartition arg3) := by
    intro i hi
    constructor
    · intro hlinked
      obtain ⟨-, -, hpartition⟩ := hlinked
      rw [hself, hsched] at hpartition
      exact hpartition.symm
    · intro hpartition
      have hold := h i t hi
      refine ⟨hold.inTable, ?_, ?_⟩
      · rw [hself]
        exact hold.context
      · rw [hself, hsched]
        exact hpartition.symm
  rw [h.iff_of_thread hothers (hsched ▸ .refl k.sched), hsched]
  constructor
  · intro hcond t' hconf' i hi
    obtain rfl := hconf.unique hconf'
    exact (hlinked i hi).mp (hcond i hi)
  · exact fun hcond i hi => (hlinked i hi).mpr (hcond t hconf i hi)

/-- The new thread and its context agree; another context bound to the thread id does not. -/
theorem Agree.created_iff (h : Agree k) {args : ProcessArgs} {sc : Nat} {stack : Cap}
    (hnew : ProcessCreated env k k' args t sc stack) : Agree k' ↔ ∀ i, ¬ k.sched.Names i t := by
  have hfree : (k.sched.contexts sc).bound = false := hnew.succeeds.context_free
  have hother : ∀ i, i ≠ sc → k'.sched.contexts i = k.sched.contexts i := by
    intro i hi
    rw [hnew.sched, ProcessTables.boundSched, SchedState.setContext_ne hi]
    rfl
  constructor
  · intro hk' i hi
    have hne : i ≠ sc := by
      intro heq
      subst heq
      exact Bool.false_ne_true (hfree.symm.trans hi.2.1)
    have hnames : k'.sched.Names i t := by
      rw [SchedState.Names, hother i hne]
      exact hi
    have hcontext := (hk' i t hnames).context
    rw [hnew.thread.self] at hcontext
    exact hne (hcontext.symm.trans hnew.succeeds.toNat_context)
  · intro hnone i u hi
    by_cases heq : i = sc
    · have hself : k'.sched.contexts i = (k.sched.contexts i).bind t args.partitionId args.budgetUs
          args.periodUs args.priority := by
        rw [hnew.sched, heq, ProcessTables.boundSched, SchedState.setContext_self, UInt32.ofNat_toNat]
        rfl
      have hu : u = t := by
        rw [← hi.2.2, hself]
        rfl
      subst hu
      refine ⟨UInt32.lt_iff_toNat_lt.mpr hnew.succeeds.lt, ?_, ?_⟩
      · rw [hnew.thread.self, heq]
        exact hnew.succeeds.toNat_context
      · rw [hnew.thread.self, hself]
        rfl
    · have hold := hi
      rw [SchedState.Names, hother i heq] at hold
      have hu : u ≠ t := by
        intro heq
        subst heq
        exact hnone i hold
      exact (Linked.congr (hnew.thread.others u hu) (hother i heq)).mpr (h i u hold)

/-- A zeroed TCB names context 0 and partition 0. -/
theorem Agree.abandoned_iff (h : Agree k) (ht : t < maxTcbs) (hset : SetsThread k k' t Tcb.zero)
    (hsched : k.sched.SameBound k'.sched) :
    Agree k' ↔ ∀ i, k.sched.Names i t → i = 0 ∧ (k.sched.contexts i).partitionId = 0 := by
  rw [h.iff_of_thread hset.others hsched.releases]
  refine forall_congr' fun i => ?_
  rw [hsched.names_iff]
  refine imp_congr_right fun hi => ?_
  have hsame := hsched.kept hi.2.1
  constructor
  · intro hlinked
    obtain ⟨-, hcontext, hpartition⟩ := hlinked
    rw [hset.self] at hcontext hpartition
    rw [hsame] at hpartition
    exact ⟨hcontext.symm, hpartition.symm⟩
  · intro hzeroed
    obtain ⟨hzero, hpartition⟩ := hzeroed
    refine ⟨ht, ?_, ?_⟩
    · rw [hset.self, hzero]
      rfl
    · rw [hset.self, hsame, hpartition]
      rfl

theorem Agree.create_iff (h : Agree k) {args : ProcessArgs} (hstep : k' = (k.create env args).2.2) :
    Agree k' ↔ KeepsAgreement env k (.create args) := by
  have hcases := create_cases env k args
  rw [← hstep] at hcases
  have hunique : ∀ {t t' : UInt32}, CreateStarts (k.processTables env) args t.toNat →
      CreateStarts (k.processTables env) args t'.toNat → t = t' := fun ht ht' =>
    UInt32.toNat_inj.mp (ht.unique ht')
  obtain ⟨hnot, htcbs, hsched⟩ | ⟨t, hstarts, hnot, hset, hsched⟩ |
    ⟨t, sc, stack, hnew⟩ := hcases
  · exact iff_of_true (h.of_same (by rw [htcbs]) hsched) fun t hstarts =>
      absurd hstarts (hnot t.toNat)
  · rw [h.abandoned_iff (UInt32.lt_iff_toNat_lt.mpr hstarts.lt) hset hsched]
    constructor
    · intro hcond t' hstarts' i hi
      obtain rfl := hunique hstarts hstarts'
      exact ⟨hnot, hcond i hi⟩
    · exact fun hcond i hi => (hcond t hstarts i hi).2
  · rw [h.created_iff hnew]
    constructor
    · intro hnone t' hstarts' i hi
      obtain rfl := hunique hnew.succeeds.toCreateStarts hstarts'
      exact absurd hi (hnone i)
    · exact fun hcond i hi => (hcond t hnew.succeeds.toCreateStarts i hi).1 sc hnew.succeeds

/-! ### Runs -/

theorem Agree.step_iff {c : ProcessCall} (h : Agree k) (hstep : ProcessStep env k c k') :
    Agree k' ↔ KeepsAgreement env k c := by
  cases c with
  | create args => exact h.create_iff (Fuel.Yields.const hstep)
  | destroy tcbId => exact iff_of_true (h.destroy hstep) trivial
  | configure cap arg1 arg2 arg3 => exact h.configure_iff (Fuel.Yields.const hstep)
  | schedBind cap arg1 arg2 arg3 => exact h.schedBind_iff (Fuel.Yields.const hstep)

/-- Along a run from tables without a bound context, threads and contexts agree in every
state reached, and the scheduler stays inside the thread table, exactly when every call
writes the two sides alike. -/
theorem contexts_agree_iff (env : BootEnv) {k₀ : Kernel} (hnone : NoBoundContext k₀.sched)
    (cs : List ProcessCall) :
    (∀ bs, bs <+: cs → ∀ k, Run.Steps (ProcessStep env) k₀ bs k → Consistent k) ↔
    Run.Throughout (ProcessStep env) (KeepsAgreement env) k₀ cs := by
  have hagree : Agree k₀ := by
    intro i t hnames
    obtain ⟨hlt, hbound, -⟩ := hnames
    rw [hnone i hlt] at hbound
    cases hbound
  simp only [consistent_iff]
  exact Run.steps_forall_prefix_iff_of_exact (fun _ => True) (fun _ _ _ _ _ => trivial)
    (fun _ _ _ _ hk hstep => hk.step_iff hstep) (processStep_exists (fun _ _ => trivial) env)
    trivial hagree cs

/-- The first process of boot gets a larger budget in the context it already has. -/
theorem contexts_agree_larger :
    Consistent (handleInvoke ((bootRoot plainBoot).create plainBoot (helloArgs plainBoot)).2.2
      bootUntyped .schedBind 0xA00000000 2000 5000).2 := by
  have hthroughout : Run.Throughout (ProcessStep plainBoot) (KeepsAgreement plainBoot)
      (bootRoot plainBoot)
      [.create (helloArgs plainBoot), .schedBind bootUntyped 0xA00000000 2000 5000] := by
    refine ⟨fun t _ i hi => ?_, fun k hstep => ⟨fun _ => ?_, fun _ _ => trivial⟩⟩
    · have hbound := hi.2.1
      rw [bootRoot_noBoundContext plainBoot i hi.1] at hbound
      cases hbound
    · rw [Fuel.Yields.const hstep]
      exact ⟨by decide, by decide +kernel, by decide +kernel⟩
  exact (contexts_agree_iff plainBoot (bootRoot_noBoundContext plainBoot) _).mpr hthroughout _
    (List.prefix_refl _) _ (.cons (Fuel.yields_of_forall fun _ => rfl)
      (.cons (Fuel.yields_of_forall fun _ => rfl) .nil))

/-- `INV_SCHED_BIND` for thread 200 of 128 is accepted, and the scheduler looks it up. -/
theorem bind_outside_table :
    NoBoundContext (bootRoot plainBoot).sched ∧
    ∃ k, Run.Steps (ProcessStep plainBoot) (bootRoot plainBoot)
        [.schedBind bootUntyped 0x500C80000 500 2000] k ∧
      schedPickNext k.tcbs k.sched = none ∧ ¬ Consistent k := by
  have hpick : schedPickNext
      (handleInvoke (bootRoot plainBoot) bootUntyped .schedBind 0x500C80000 500 2000).2.tcbs
      (handleInvoke (bootRoot plainBoot) bootUntyped .schedBind 0x500C80000 500 2000).2.sched = none := by
    decide +kernel
  exact ⟨bootRoot_noBoundContext plainBoot, _, .cons (Fuel.yields_of_forall fun _ => rfl) .nil, hpick,
    fun hconsistent => hconsistent.inTable hpick⟩

end Moonlight
