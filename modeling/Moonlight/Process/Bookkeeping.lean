/-
The counters of the process tables.

A thread is in use when its TCB has an entry point, a stack or a CSpace; no flag says so.
A process that is created with an entry point or a stack therefore occupies its TCB, and
the threads in use, the contexts that are bound and `tcbs->count` go up and down together,
through every failure of `process_create` on the way.
-/
import Mathlib.Data.Finset.Card
import Moonlight.Process.Agreement
import Moonlight.Sched.Utilisation

namespace Moonlight

open Mdb (nil)

/-- Arguments with an entry point or a stack. -/
structure EntryArgs extends ProcessArgs where
  entry : pc ≠ 0 ∨ spTop ≠ 0

inductive TableCall where
  | create (args : EntryArgs)
  | destroy (tcbId : UInt32)

def TableCall.lifecycle : TableCall → LifecycleCall
  | .create args => .create args.toProcessArgs
  | .destroy tcbId => .destroy tcbId

/-- The call returns and leaves `k'`. -/
def TableStep (env : BootEnv) (k : Kernel) (c : TableCall) (k' : Kernel) : Prop :=
  LifecycleStep env k c.lifecycle k'

/-- The indices of the TCBs in use. -/
def occupiedThreads (k : Kernel) : Finset Nat :=
  (Finset.range maxTcbs.toNat).filter fun i => tcbIsFree (k.tcbs.threads i) = false

/-- The indices of the contexts that are bound. -/
def boundContexts (s : SchedState) : Finset Nat :=
  (Finset.range maxSchedContexts.toNat).filter fun i => (s.contexts i).bound = true

variable {env : BootEnv} {k k' : Kernel} {t : UInt32} {i : Nat}

theorem mem_occupiedThreads :
    i ∈ occupiedThreads k ↔ i < maxTcbs.toNat ∧ tcbIsFree (k.tcbs.threads i) = false := by
  rw [occupiedThreads, Finset.mem_filter, Finset.mem_range]

theorem mem_boundContexts {s : SchedState} :
    i ∈ boundContexts s ↔ i < maxSchedContexts.toNat ∧ (s.contexts i).bound = true := by
  rw [boundContexts, Finset.mem_filter, Finset.mem_range]

theorem occupied_iff : Occupied k t ↔ t.toNat ∈ occupiedThreads k := by
  rw [mem_occupiedThreads, Occupied, UInt32.lt_iff_toNat_lt]

theorem card_occupiedThreads_le (k : Kernel) : (occupiedThreads k).card ≤ 128 := by
  have hle := Finset.card_filter_le (Finset.range maxTcbs.toNat)
    fun i => tcbIsFree (k.tcbs.threads i) = false
  rw [Finset.card_range] at hle
  exact hle

/-! ### The invariant -/

/-- The threads in use are those a context is bound to, each points back at its context, and
the counter is their number. -/
structure Paired (k : Kernel) : Prop where
  agree : Agree k
  occupied : ∀ t, Occupied k t ↔ ∃ i, k.sched.Names i t
  count : k.tcbs.count.toNat = (occupiedThreads k).card

theorem Paired.card_eq (h : Paired k) :
    (boundContexts k.sched).card = (occupiedThreads k).card := by
  have hnames : ∀ i, i ∈ boundContexts k.sched → k.sched.Names i (k.sched.contexts i).tcbId := by
    intro i hi
    obtain ⟨hlt, hbound⟩ := mem_boundContexts.mp hi
    exact ⟨hlt, hbound, rfl⟩
  apply Finset.card_bij fun i _ => (k.sched.contexts i).tcbId.toNat
  · intro i hi
    exact occupied_iff.mp ((h.occupied _).mpr ⟨i, hnames i hi⟩)
  · intro i hi j hj heq
    have hci := (h.agree i _ (hnames i hi)).context
    have hcj := (h.agree j _ (hnames j hj)).context
    rw [heq] at hci
    exact hci.symm.trans hcj
  · intro n hn
    obtain ⟨t, -, rfl⟩ := exists_tcbId (mem_occupiedThreads.mp hn).1
    obtain ⟨i, hlt, hbound, htcb⟩ := (h.occupied t).mp (occupied_iff.mpr hn)
    exact ⟨i, mem_boundContexts.mpr ⟨hlt, hbound⟩, by rw [htcb]⟩

/-! ### One TCB changes -/

theorem occupied_of_ne {tcb : Tcb} (hset : SetsThread k k' t tcb) {u : UInt32} (hu : u ≠ t) :
    Occupied k' u ↔ Occupied k u := by
  rw [Occupied, Occupied, hset.others u hu]

theorem occupied_self {tcb : Tcb} (hset : SetsThread k k' t tcb) :
    Occupied k' t ↔ t < maxTcbs ∧ tcbIsFree tcb = false := by
  rw [Occupied, hset.self]

theorem occupiedThreads_fill {tcb : Tcb} (hset : SetsThread k k' t tcb) (ht : t < maxTcbs)
    (htcb : tcbIsFree tcb = false) :
    occupiedThreads k' = insert t.toNat (occupiedThreads k) := by
  ext n
  rw [Finset.mem_insert]
  by_cases hlt : n < maxTcbs.toNat
  · obtain ⟨u, -, rfl⟩ := exists_tcbId hlt
    rw [← occupied_iff, ← occupied_iff]
    by_cases hu : u = t
    · subst hu
      exact iff_of_true ((occupied_self hset).mpr ⟨ht, htcb⟩) (Or.inl rfl)
    · rw [occupied_of_ne hset hu]
      exact ⟨Or.inr, fun h => h.resolve_left (toNat_ne hu)⟩
  · refine iff_of_false (fun h => hlt (mem_occupiedThreads.mp h).1) ?_
    intro h
    rcases h with rfl | h
    · exact hlt (UInt32.lt_iff_toNat_lt.mp ht)
    · exact hlt (mem_occupiedThreads.mp h).1

theorem tcbIsFree_zero : tcbIsFree Tcb.zero = true := by decide

theorem not_occupied_of_scrub (hset : SetsThread k k' t Tcb.zero) : ¬ Occupied k' t := by
  intro hocc
  rw [occupied_self hset, tcbIsFree_zero] at hocc
  cases hocc.2

theorem occupiedThreads_scrub (hset : SetsThread k k' t Tcb.zero) :
    occupiedThreads k' = (occupiedThreads k).erase t.toNat := by
  ext n
  rw [Finset.mem_erase]
  by_cases hlt : n < maxTcbs.toNat
  · obtain ⟨u, -, rfl⟩ := exists_tcbId hlt
    rw [← occupied_iff, ← occupied_iff]
    by_cases hu : u = t
    · subst hu
      exact iff_of_false (not_occupied_of_scrub hset) fun h => h.1 rfl
    · rw [occupied_of_ne hset hu]
      exact ⟨fun h => ⟨toNat_ne hu, h⟩, And.right⟩
  · exact iff_of_false (fun h => hlt (mem_occupiedThreads.mp h).1)
      fun h => hlt (mem_occupiedThreads.mp h.2).1

/-! ### Creation -/

theorem newTcb_occupies {args : EntryArgs} {stack : Cap} {sc : UInt32} :
    tcbIsFree { newTcb t args.toProcessArgs stack with schedContext := sc } = false := by
  refine decide_eq_false fun hfree => ?_
  rcases args.entry with hpc | hsp
  · exact hpc hfree.1
  · exact hsp hfree.2.1

theorem CreateStarts.not_occupied {args : ProcessArgs}
    (h : CreateStarts (k.processTables env) args t.toNat) : ¬ Occupied k t := by
  intro hocc
  have hfree : tcbIsFree (k.tcbs.threads t.toNat) = true := h.free
  rw [hocc.2] at hfree
  cases hfree

/-- The new thread and its context are bound to each other, and nothing else is. -/
theorem ProcessCreated.names_iff {args : ProcessArgs} {sc : Nat} {stack : Cap}
    (h : ProcessCreated env k k' args t sc stack) (hfree : ∀ i, ¬ k.sched.Names i t)
    (u : UInt32) : (∃ i, k'.sched.Names i u) ↔ u = t ∨ ∃ i, k.sched.Names i u := by
  have hself : k'.sched.contexts sc = (k.sched.contexts sc).bind t args.partitionId args.budgetUs
      args.periodUs args.priority := by
    rw [h.sched, ProcessTables.boundSched, SchedState.setContext_self, UInt32.ofNat_toNat]
    rfl
  have hother : ∀ i, i ≠ sc → k'.sched.contexts i = k.sched.contexts i := by
    intro i hi
    rw [h.sched, ProcessTables.boundSched, SchedState.setContext_ne hi]
    rfl
  have hunbound : (k.sched.contexts sc).bound = false := h.succeeds.context_free
  constructor
  · intro hnames
    obtain ⟨i, hi⟩ := hnames
    by_cases hic : i = sc
    · subst hic
      refine Or.inl (hi.2.2.symm.trans ?_)
      rw [hself]
      rfl
    · rw [SchedState.Names, hother i hic] at hi
      exact Or.inr ⟨i, hi⟩
  · intro hnames
    rcases hnames with rfl | ⟨i, hi⟩
    · refine ⟨sc, h.succeeds.context_lt, ?_, ?_⟩
      · rw [hself]
        rfl
      · rw [hself]
        rfl
    · have hic : i ≠ sc := by
        intro heq
        subst heq
        exact Bool.false_ne_true (hunbound.symm.trans hi.2.1)
      refine ⟨i, ?_⟩
      rw [SchedState.Names, hother i hic]
      exact hi

theorem Paired.create (h : Paired k) (args : EntryArgs) :
    Paired (k.create env args.toProcessArgs).2.2 := by
  have hkeeps : KeepsAgreement env k (.create args.toProcessArgs) := by
    intro t hstarts i hi
    exact absurd ((h.occupied t).mpr ⟨i, hi⟩) hstarts.not_occupied
  have hagree := (h.agree.create_iff rfl).mpr hkeeps
  obtain ⟨-, -, htcbs, hsched⟩ | ⟨t, hstarts, -, -, htcbs, hsched⟩ |
    ⟨t, sc, stack, -, hcount, hnew⟩ := create_outcome env k args.toProcessArgs
  · refine ⟨hagree, fun t => ?_, ?_⟩
    · rw [Occupied, htcbs, hsched]
      exact h.occupied t
    · rw [occupiedThreads, htcbs]
      exact h.count
  · have hset : SetsThread k (k.create env args.toProcessArgs).2.2 t Tcb.zero :=
      setsThread_of_set (by rw [htcbs])
    have hfree := hstarts.not_occupied
    refine ⟨hagree, fun u => ?_, ?_⟩
    · simp only [hsched.names_iff]
      by_cases hu : u = t
      · subst hu
        exact iff_of_false (not_occupied_of_scrub hset) fun hnames =>
          hfree ((h.occupied u).mpr hnames)
      · rw [occupied_of_ne hset hu]
        exact h.occupied u
    · rw [occupiedThreads_scrub hset,
        Finset.erase_eq_of_notMem fun hmem => hfree (occupied_iff.mpr hmem), htcbs]
      exact h.count
  · have hfree := hnew.succeeds.toCreateStarts.not_occupied
    have ht : t < maxTcbs := UInt32.lt_iff_toNat_lt.mpr hnew.succeeds.lt
    have hnotMem : t.toNat ∉ occupiedThreads k := fun hmem => hfree (occupied_iff.mpr hmem)
    refine ⟨hagree, fun u => ?_, ?_⟩
    · rw [hnew.names_iff fun i hi => hfree ((h.occupied t).mpr ⟨i, hi⟩)]
      by_cases hu : u = t
      · subst hu
        exact iff_of_true ((occupied_self hnew.thread).mpr ⟨ht, newTcb_occupies⟩) (Or.inl rfl)
      · rw [occupied_of_ne hnew.thread hu, h.occupied u]
        exact ⟨Or.inr, fun hor => hor.resolve_left hu⟩
    · have hfill := occupiedThreads_fill hnew.thread ht newTcb_occupies
      have hle := card_occupiedThreads_le (k.create env args.toProcessArgs).2.2
      rw [hfill, Finset.card_insert_of_notMem hnotMem] at hle ⊢
      rw [hcount, UInt32.toNat_add, h.count]
      show ((occupiedThreads k).card + 1) % 2 ^ 32 = _
      omega

/-! ### Destruction -/

/-- Taking back the context of a thread leaves the threads the others are bound to. -/
theorem Agree.names_release_iff (h : Agree k) {i : Nat} (hi : k.sched.Names i t) (u : UInt32) :
    (∃ j, (k.sched.release i).Names j u) ↔ u ≠ t ∧ ∃ j, k.sched.Names j u := by
  constructor
  · intro hnames
    obtain ⟨j, hj⟩ := hnames
    have hold := (k.sched.release_releases i).names hj
    refine ⟨fun hu => ?_, j, hold⟩
    -- no other context was bound to the thread
    subst hu
    have hji : j = i := (h j u hold).context.symm.trans (h i u hi).context
    have hbound := hj.2.1
    rw [hji, SchedState.release, SchedState.setContext_self] at hbound
    cases hbound
  · intro hnames
    obtain ⟨hu, j, hj⟩ := hnames
    have hji : j ≠ i := by
      intro heq
      subst heq
      exact hu (hj.2.2.symm.trans hi.2.2)
    refine ⟨j, ?_⟩
    rw [SchedState.Names, SchedState.release, SchedState.setContext_ne hji]
    exact hj

theorem Paired.destroy (h : Paired k) (hstep : ProcessStep env k (.destroy t) k') : Paired k' := by
  have hagree := h.agree.destroy hstep
  obtain rfl | ⟨hocc, mdb, rfl⟩ := processStep_destroy_cases hstep
  · exact h
  · have hset : SetsThread k (k.withoutThread env t mdb) t Tcb.zero := setsThread_of_set rfl
    obtain ⟨i, hi⟩ := (h.occupied t).mp hocc
    have hcontext := (h.agree i t hi).context
    have hlt : (k.tcbs.threads t.toNat).schedContext < maxSchedContexts := by
      rw [UInt32.lt_iff_toNat_lt, hcontext]
      exact hi.1
    have hsched : (k.withoutThread env t mdb).sched = k.sched.release i := by
      simp only [Kernel.withoutThread, if_pos hlt, hcontext]
      rfl
    have hmem := occupied_iff.mp hocc
    refine ⟨hagree, fun u => ?_, ?_⟩
    · rw [hsched, h.agree.names_release_iff hi u]
      by_cases hu : u = t
      · subst hu
        exact iff_of_false (not_occupied_of_scrub hset) fun hnames => hnames.1 rfl
      · rw [occupied_of_ne hset hu, h.occupied u]
        exact (and_iff_right hu).symm
    · have hpos := Finset.card_pos.mpr ⟨_, hmem⟩
      have hle := card_occupiedThreads_le k
      rw [occupiedThreads_scrub hset, Finset.card_erase_of_mem hmem, ← h.count]
      rw [← h.count] at hpos hle
      exact UInt32.toNat_sub_of_le _ _ (UInt32.le_iff_toNat_le.mpr hpos)

theorem Paired.step {c : TableCall} (h : Paired k) (hstep : TableStep env k c k') : Paired k' := by
  cases c with
  | create args =>
    rw [Fuel.Yields.const hstep]
    exact h.create args
  | destroy tcbId => exact h.destroy hstep

/-! ### The calls return -/

theorem create_ok_some {args : ProcessArgs} (h : (k.create env args).1 = .ok) :
    ∃ id, (k.create env args).2.1 = some id := by
  have hok : (processCreate (k.processTables env) args).1 = .ok := h
  show ∃ id, (processCreate (k.processTables env) args).2.1 = some id
  generalize k.processTables env = s at hok ⊢
  unfold processCreate at hok ⊢
  split_ifs at hok ⊢
  cases hthread : (List.range maxTcbs.toNat).find? fun i => tcbIsFree (s.tcbs.threads i) with
  | none => simp [hthread] at hok
  | some i =>
    simp only [hthread] at hok ⊢
    obtain ⟨e, hne, halloc⟩ | ⟨stack, alloc, _, halloc, -⟩ :=
      allocFrame_cases s.alloc args.partitionId args.stackSize
    · simp only [halloc] at hok
      exact absurd hok hne
    · simp only [halloc] at hok ⊢
      obtain ⟨sc, -, -, hbind⟩ | ⟨-, e, sc, hne, hbind⟩ :=
        bindFreeContext_cases s.sched (UInt32.ofNat i) args
      · simp only [hbind] at hok ⊢
        split_ifs at hok ⊢
        exact ⟨_, rfl⟩
      · simp only [hbind] at hok
        exact absurd hok hne

/-- While node 0 of the MDB has no parent, the walks of `process_destroy` end. -/
theorem tableStep_exists (hflat : k.mdb.Flat) (hroot : k.mdb.parentOf 0 = nil) (c : TableCall) :
    ∃ k', TableStep env k c k' := by
  cases c with
  | create args => exact ⟨_, Fuel.yields_of_forall fun _ => rfl⟩
  | destroy tcbId =>
    by_cases hocc : Occupied k tcbId
    · obtain ⟨-, hyields⟩ | ⟨_, mdb, -, hyields, -⟩ | ⟨-, hself, -⟩ := hflat.reclaim tcbId
      · exact ⟨_, (destroyStep_occupied hocc).mpr ⟨_, hyields, rfl⟩⟩
      · exact ⟨_, (destroyStep_occupied hocc).mpr ⟨_, hyields, rfl⟩⟩
      · exact absurd (hroot.symm.trans hself) (by decide)
    · exact ⟨k, (destroyStep_free hocc).mpr rfl⟩

theorem tableStep_mdb {c : TableCall} (h : k.mdb.Flat ∧ k.mdb.parentOf 0 = nil)
    (hstep : TableStep env k c k') : k'.mdb.Flat ∧ k'.mdb.parentOf 0 = nil := by
  have hchange := lifecycleStep_mdb hstep
  have hok : RetypesUnderRoot k c.lifecycle := by
    cases c <;> trivial
  exact ⟨hchange.flat h.1, hchange.parentOf_zero h.1 h.2 hok⟩

/-! ### Runs -/

/-- No TCB is in use, none is counted and no context is bound. -/
structure ZeroedTables (k : Kernel) : Prop where
  free : ∀ i, i < maxTcbs.toNat → tcbIsFree (k.tcbs.threads i) = true
  count : k.tcbs.count = 0
  unbound : NoBoundContext k.sched

theorem ZeroedTables.paired (h : ZeroedTables k) : Paired k := by
  have hnames : ∀ i t, ¬ k.sched.Names i t := by
    intro i t hi
    have hbound := hi.2.1
    rw [h.unbound i hi.1] at hbound
    cases hbound
  have hnone : ∀ i, i ∉ occupiedThreads k := by
    intro i hi
    obtain ⟨hlt, hocc⟩ := mem_occupiedThreads.mp hi
    rw [h.free i hlt] at hocc
    cases hocc
  refine ⟨fun i t hi => absurd hi (hnames i t), fun t => ?_, ?_⟩
  · refine iff_of_false (fun hocc => hnone _ (occupied_iff.mp hocc)) fun hex => ?_
    obtain ⟨i, hi⟩ := hex
    exact hnames i t hi
  · rw [h.count, Finset.eq_empty_of_forall_notMem hnone]
    rfl

/-- In every state reached from zeroed tables by creations with an entry point or a stack and
by destructions, the counter is the number of TCBs in use, as many contexts are bound, and a
creation that succeeds returns an id that is not in use.  From a database in which node 0 has
no parent every such call returns. -/
theorem process_bookkeeping {k₀ : Kernel} (hzero : ZeroedTables k₀) {cs : List TableCall}
    (hrun : Run.Steps (TableStep env) k₀ cs k) :
    k.tcbs.count.toNat = (occupiedThreads k).card ∧
    (boundContexts k.sched).card = (occupiedThreads k).card ∧
    (∀ args : EntryArgs, (k.create env args.toProcessArgs).1 = .ok →
      ∃ id, (k.create env args.toProcessArgs).2.1 = some id ∧ ¬ Occupied k id) ∧
    (k₀.mdb.Flat → k₀.mdb.parentOf 0 = nil → ∀ c, ∃ k', TableStep env k c k') := by
  have hpaired : Paired k := hrun.invariant (fun _ _ _ hstep h => h.step hstep) hzero.paired
  refine ⟨hpaired.count, hpaired.card_eq, fun args hok => ?_, fun hflat hroot c => ?_⟩
  · obtain ⟨id, hid⟩ := create_ok_some hok
    refine ⟨id, hid, ?_⟩
    obtain ⟨-, hnone, -⟩ | ⟨_, -, -, hnone, -⟩ | ⟨t, _, _, hsome, -, hnew⟩ :=
      create_outcome env k args.toProcessArgs
    · exact absurd (hid.symm.trans hnone) (Option.some_ne_none id)
    · exact absurd (hid.symm.trans hnone) (Option.some_ne_none id)
    · obtain rfl := Option.some.inj (hid.symm.trans hsome)
      exact hnew.succeeds.toCreateStarts.not_occupied
  · have hmdb : k.mdb.Flat ∧ k.mdb.parentOf 0 = nil :=
      hrun.invariant (fun _ _ _ hstep h => tableStep_mdb h hstep) ⟨hflat, hroot⟩
    exact tableStep_exists hmdb.1 hmdb.2 c

theorem bootRoot_zeroed (env : BootEnv) : ZeroedTables (bootRoot env) :=
  ⟨fun _ _ => tcbIsFree_zero, rfl, bootRoot_noBoundContext env⟩

def helloEntry : EntryArgs where
  toProcessArgs := helloArgs plainBoot
  entry := Or.inr (by decide)

/-- The first process of boot is counted once and can be destroyed. -/
theorem process_bookkeeping_hello :
    let k := ((bootRoot plainBoot).create plainBoot helloEntry.toProcessArgs).2.2
    k.tcbs.count = 1 ∧ (occupiedThreads k).card = 1 ∧ (boundContexts k.sched).card = 1 ∧
      ∃ k', TableStep plainBoot k (.destroy 0) k' := by
  intro k
  have hrun : Run.Steps (TableStep plainBoot) (bootRoot plainBoot) [.create helloEntry] k :=
    .cons (Fuel.yields_of_forall fun _ => rfl) .nil
  obtain ⟨hcount, hcard, -, hreturns⟩ := process_bookkeeping (bootRoot_zeroed plainBoot) hrun
  have hone : k.tcbs.count = 1 := by decide +kernel
  have hmdb := bootRoot_mdb plainBoot
  rw [hone] at hcount
  exact ⟨hone, hcount.symm, hcard.trans hcount.symm, hreturns hmdb.flat hmdb.root (.destroy 0)⟩

end Moonlight
