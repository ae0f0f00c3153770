/-
What destroying one process does to the others.

`process_destroy` wipes whatever CNode the TCB points to and unbinds whatever context it
names, without asking who else uses them.  `INV_TCB_CONFIGURE` gives every thread the root
CNode, and `INV_SCHED_BIND` hands a context to a thread while another one still names it.
The others are spared in every state of a run exactly as long as no call makes a thread
reach what belongs to another.
-/
import Moonlight.Process.Calls

namespace Moonlight

open Mdb (nil)

/-! ### What a destruction reaches -/

/-- The TCB, the CSpace and the scheduling contexts of thread `u` are as they were. -/
structure Spared (k k' : Kernel) (u : UInt32) : Prop where
  tcb : k'.tcbs.threads u.toNat = k.tcbs.threads u.toNat
  cspace : ∀ r, (k.tcbs.threads u.toNat).cspace = some r → ∀ i, i < maxCapsPerCnode.toNat →
    (k'.cnodes r).slots i = (k.cnodes r).slots i
  contexts : ∀ i, i < maxSchedContexts.toNat → (k.sched.contexts i).bound = true →
    (k.sched.contexts i).tcbId = u → k'.sched.contexts i = k.sched.contexts i

/-- `process_destroy(t)` returns and spares `u`. -/
def DestroySpares (env : BootEnv) (k : Kernel) (t u : UInt32) : Prop :=
  ∃ k', Fuel.Yields (fun fuel => processDestroy fuel env k t) (.ok, k') ∧ Spared k k' u

/-- The two threads have one CSpace, and there is a capability in it. -/
def SharesCspace (k : Kernel) (t u : UInt32) : Prop :=
  ∃ r, (k.tcbs.threads t.toNat).cspace = some r ∧ (k.tcbs.threads u.toNat).cspace = some r ∧
    ∃ i, i < maxCapsPerCnode.toNat ∧ ((k.cnodes r).slots i).isValid ≠ 0

/-- The context that thread `t` names is bound to `u`. -/
def HoldsContext (k : Kernel) (t u : UInt32) : Prop :=
  (k.tcbs.threads t.toNat).schedContext < maxSchedContexts ∧
    (k.sched.contexts (k.tcbs.threads t.toNat).schedContext.toNat).bound = true ∧
    (k.sched.contexts (k.tcbs.threads t.toNat).schedContext.toNat).tcbId = u

def Reaches (k : Kernel) (t u : UInt32) : Prop := SharesCspace k t u ∨ HoldsContext k t u

/-- No process reaches another one. -/
def Isolated (k : Kernel) : Prop :=
  ∀ t u, Occupied k t → Occupied k u → t ≠ u → ¬ Reaches k t u

variable {env : BootEnv} {k k' : Kernel} {t u : UInt32}

theorem CNode.scrub_slots_of_valid {cn : CNode} {i : Nat} (hi : i < maxCapsPerCnode.toNat)
    (hvalid : (cn.slots i).isValid ≠ 0) : cn.scrub.slots i = Cap.zero :=
  if_pos ⟨hi, hvalid⟩

theorem CNode.scrub_slots_of_invalid {cn : CNode} {i : Nat} (hvalid : (cn.slots i).isValid = 0) :
    cn.scrub.slots i = cn.slots i :=
  if_neg fun h => h.2 hvalid

theorem scrubCspace_some (cnodes : CNodeRef → CNode) (r : CNodeRef) :
    scrubCspace cnodes (some r) r = (cnodes r).scrub := Function.update_self ..

theorem scrubCspace_ne {r : CNodeRef} {cspace : Option CNodeRef} (h : cspace ≠ some r)
    (cnodes : CNodeRef → CNode) : scrubCspace cnodes cspace r = cnodes r := by
  cases cspace with
  | none => rfl
  | some r' => exact Function.update_of_ne (fun heq => h (congrArg some heq.symm)) ..

theorem cspace_spared_iff (mdb : Mdb) :
    (∀ r, (k.tcbs.threads u.toNat).cspace = some r → ∀ i, i < maxCapsPerCnode.toNat →
      ((k.withoutThread env t mdb).cnodes r).slots i = (k.cnodes r).slots i) ↔
    ¬ SharesCspace k t u := by
  show (∀ r, _ → ∀ i, _ →
    (scrubCspace k.cnodes (k.tcbs.threads t.toNat).cspace r).slots i = _) ↔ _
  constructor
  · intro hspared hshares
    obtain ⟨r, ht, hu, i, hi, hvalid⟩ := hshares
    have hslot := hspared r hu i hi
    rw [ht, scrubCspace_some, CNode.scrub_slots_of_valid hi hvalid] at hslot
    rw [← hslot] at hvalid
    exact hvalid rfl
  · intro hnot r hu i hi
    by_cases ht : (k.tcbs.threads t.toNat).cspace = some r
    · have hinvalid : ((k.cnodes r).slots i).isValid = 0 := by
        by_contra hvalid
        exact hnot ⟨r, ht, hu, i, hi, hvalid⟩
      rw [ht, scrubCspace_some, CNode.scrub_slots_of_invalid hinvalid]
    · rw [scrubCspace_ne ht]

theorem contexts_spared_iff (mdb : Mdb) :
    (∀ i, i < maxSchedContexts.toNat → (k.sched.contexts i).bound = true →
      (k.sched.contexts i).tcbId = u →
      (k.withoutThread env t mdb).sched.contexts i = k.sched.contexts i) ↔
    ¬ HoldsContext k t u := by
  simp only [Kernel.withoutThread]
  constructor
  · intro hspared hholds
    obtain ⟨hlt, hbound, hu⟩ := hholds
    have hcontext := hspared _ (UInt32.lt_iff_toNat_lt.mp hlt) hbound hu
    rw [if_pos hlt, SchedState.setContext_self] at hcontext
    rw [← hcontext] at hbound
    cases hbound
  · intro hnot i hi hbound hu
    split_ifs with hlt
    · refine SchedState.setContext_ne (fun heq => ?_) ..
      rw [heq] at hbound hu
      exact hnot ⟨hlt, hbound, hu⟩
    · rfl

/-- Two levels, with node 0 at the top. -/
structure RootedMdb (mdb : Mdb) : Prop where
  flat : mdb.Flat
  root : mdb.parentOf 0 = nil

/-- Without a node below itself the destruction returns. -/
theorem RootedMdb.reclaim {mdb : Mdb} (h : RootedMdb mdb) (tcbId : UInt32) :
    ∃ mdb', Fuel.Yields (fun fuel => mdbReclaim fuel mdb tcbId) mdb' := by
  rcases h.flat.reclaim tcbId with ⟨-, hy⟩ | ⟨idx, mdb', -, hy, -⟩ | ⟨-, hself, -⟩
  · exact ⟨mdb, hy⟩
  · exact ⟨mdb', hy⟩
  · exact absurd (hself.symm.trans h.root) Mdb.zero_ne_nil

/-- Destroying one process spares another exactly when it does not reach it. -/
theorem destroySpares_iff (hmdb : RootedMdb k.mdb) (ht : Occupied k t) (hne : t ≠ u) :
    DestroySpares env k t u ↔ ¬ Reaches k t u := by
  obtain ⟨mdb, hreclaim⟩ := hmdb.reclaim t
  have hyields : Fuel.Yields (fun fuel => processDestroy fuel env k t)
      (.ok, k.withoutThread env t mdb) :=
    Fuel.Yields.congr (fun fuel => processDestroy_occupied ht fuel env)
      (hreclaim.map fun mdb => (KError.ok, k.withoutThread env t mdb))
  have htcb : (k.withoutThread env t mdb).tcbs.threads u.toNat = k.tcbs.threads u.toNat :=
    TcbTable.set_ne (toNat_ne hne.symm) k.tcbs Tcb.zero
  rw [Reaches, not_or]
  constructor
  · intro hspares
    obtain ⟨k', hk', hspared⟩ := hspares
    obtain rfl : k' = k.withoutThread env t mdb := congrArg Prod.snd (hk'.unique hyields)
    exact ⟨(cspace_spared_iff mdb).mp hspared.cspace, (contexts_spared_iff mdb).mp hspared.contexts⟩
  · intro hnot
    obtain ⟨hcspace, hcontext⟩ := hnot
    exact ⟨_, hyields, htcb, (cspace_spared_iff mdb).mpr hcspace,
      (contexts_spared_iff mdb).mpr hcontext⟩

/-! ### What a call makes threads reach -/

theorem Occupied.congr (h : k'.tcbs.threads u.toNat = k.tcbs.threads u.toNat) :
    Occupied k' u ↔ Occupied k u := by
  rw [Occupied, Occupied, h]

/-- Losing capabilities and contexts, a thread reaches less. -/
theorem Reaches.mono (ht : k'.tcbs.threads t.toNat = k.tcbs.threads t.toNat)
    (hu : k'.tcbs.threads u.toNat = k.tcbs.threads u.toNat)
    (hslots : ∀ r i, ((k'.cnodes r).slots i).isValid ≠ 0 → ((k.cnodes r).slots i).isValid ≠ 0)
    (hsched : k.sched.Releases k'.sched) (h : Reaches k' t u) : Reaches k t u := by
  rcases h with ⟨r, hrt, hru, i, hi, hvalid⟩ | ⟨hlt, hbound, htcb⟩
  · rw [ht] at hrt
    rw [hu] at hru
    exact Or.inl ⟨r, hrt, hru, i, hi, hslots r i hvalid⟩
  · rw [ht] at hlt hbound htcb
    have hcontext := hsched.bound hbound
    rw [hcontext] at hbound htcb
    exact Or.inr ⟨hlt, hbound, htcb⟩

/-- Where nothing is gained, the threads that are left stay apart. -/
theorem Isolated.of_kept (h : Isolated k)
    (hthreads : ∀ u, Occupied k' u → k'.tcbs.threads u.toNat = k.tcbs.threads u.toNat)
    (hslots : ∀ r i, ((k'.cnodes r).slots i).isValid ≠ 0 → ((k.cnodes r).slots i).isValid ≠ 0)
    (hsched : k.sched.Releases k'.sched) : Isolated k' := by
  intro u v hu hv huv hreach
  have hu' := hthreads u hu
  have hv' := hthreads v hv
  exact h u v ((Occupied.congr hu').mp hu) ((Occupied.congr hv').mp hv) huv
    (hreach.mono hu' hv' hslots hsched)

/-- A thread that is scrubbed is not among those left. -/
theorem Occupied.kept (hset : SetsThread k k' t Tcb.zero) (hu : Occupied k' u) :
    k'.tcbs.threads u.toNat = k.tcbs.threads u.toNat := by
  refine hset.others u ?_
  intro heq
  subst heq
  have hfree := hu.2
  rw [hset.self] at hfree
  cases hfree

/-- Where only the links of thread `t` change, only these can break the property. -/
theorem Isolated.iff_of_thread (h : Isolated k)
    (hothers : ∀ u, u ≠ t → k'.tcbs.threads u.toNat = k.tcbs.threads u.toNat)
    (hreaches : ∀ u v, u ≠ t → v ≠ t → Reaches k' u v → Reaches k u v) :
    Isolated k' ↔
      (Occupied k' t → ∀ u, Occupied k u → u ≠ t → ¬ Reaches k' t u ∧ ¬ Reaches k' u t) := by
  constructor
  · intro hk' ht u hu hne
    have hu' := (Occupied.congr (hothers u hne)).mpr hu
    exact ⟨hk' t u ht hu' hne.symm, hk' u t hu' ht hne⟩
  · intro hcond u v hu hv huv hreach
    by_cases hut : u = t
    · subst hut
      exact (hcond hu v ((Occupied.congr (hothers v huv.symm)).mp hv) huv.symm).1 hreach
    by_cases hvt : v = t
    · subst hvt
      exact (hcond hv u ((Occupied.congr (hothers u huv)).mp hu) huv).2 hreach
    · exact h u v ((Occupied.congr (hothers u hut)).mp hu) ((Occupied.congr (hothers v hvt)).mp hv) huv
        (hreaches u v hut hvt hreach)

/-- The condition on a call.  A process that is created must not get a context that another
one still names, or an id that another one's context is bound to.  A thread that is given
the root CNode must be the only one with it, and must not reach or be reached through its
context.  A context that is bound must not be named by a process other than its thread. -/
def KeepsApart (env : BootEnv) (k : Kernel) : ProcessCall → Prop
  | .create args => ∀ t sc, CreateSucceeds (k.processTables env) args t.toNat sc →
      args.pc ≠ 0 ∨ args.spTop ≠ 0 → ∀ u, Occupied k u →
      (k.tcbs.threads u.toNat).schedContext.toNat ≠ sc ∧ ¬ HoldsContext k u t
  | .destroy _ => True
  | .configure cap arg1 arg2 _ => ∀ t, Configures k cap arg1 arg2 t →
      ∀ u, Occupied k u → u ≠ t → (k.tcbs.threads u.toNat).cspace ≠ some .root ∧
        ¬ HoldsContext k t u ∧ ¬ HoldsContext k u t
  | .schedBind cap arg1 arg2 arg3 => BindAccepted k cap arg1 arg2 arg3 →
      Occupied k (bindTcbId arg1) → ∀ u, Occupied k u → u ≠ bindTcbId arg1 →
      (k.tcbs.threads u.toNat).schedContext ≠ bindScId arg1

theorem Isolated.destroy (h : Isolated k) (hstep : ProcessStep env k (.destroy t) k') :
    Isolated k' := by
  obtain rfl | ⟨-, mdb, rfl⟩ := processStep_destroy_cases hstep
  · exact h
  · refine h.of_kept (fun u hu => hu.kept (setsThread_of_set (t := t) rfl)) (fun r i hvalid => ?_)
      (withoutThread_releases env k t mdb)
    by_contra hinvalid
    have hslot : ((k.withoutThread env t mdb).cnodes r).slots i = (k.cnodes r).slots i := by
      show (scrubCspace k.cnodes (k.tcbs.threads t.toNat).cspace r).slots i = _
      by_cases ht : (k.tcbs.threads t.toNat).cspace = some r
      · rw [ht, scrubCspace_some, CNode.scrub_slots_of_invalid hinvalid]
      · rw [scrubCspace_ne ht]
    rw [hslot] at hvalid
    exact hvalid hinvalid

/-- A context that is bound to `t` is a link to `t` and to nobody else. -/
theorem holdsContext_setContext_iff {sc : Nat} {c : SchedContext}
    (hsched : k'.sched = k.sched.setContext sc c) (hc : c.bound = true)
    (hu : (k'.tcbs.threads u.toNat).schedContext = (k.tcbs.threads u.toNat).schedContext)
    (v : UInt32) :
    HoldsContext k' u v ↔
      if (k.tcbs.threads u.toNat).schedContext.toNat = sc then
        (k.tcbs.threads u.toNat).schedContext < maxSchedContexts ∧ c.tcbId = v
      else HoldsContext k u v := by
  unfold HoldsContext
  rw [hu, hsched]
  split_ifs with heq
  · rw [heq, SchedState.setContext_self, hc]
    simp
  · rw [SchedState.setContext_ne heq]

theorem SharesCspace.symm (h : SharesCspace k t u) : SharesCspace k u t := by
  obtain ⟨r, ht, hu, hvalid⟩ := h
  exact ⟨r, hu, ht, hvalid⟩

theorem SharesCspace.congr (ht : (k'.tcbs.threads t.toNat).cspace = (k.tcbs.threads t.toNat).cspace)
    (hu : (k'.tcbs.threads u.toNat).cspace = (k.tcbs.threads u.toNat).cspace)
    (hcnodes : k'.cnodes = k.cnodes) : SharesCspace k' t u ↔ SharesCspace k t u := by
  rw [SharesCspace, SharesCspace, ht, hu, hcnodes]

theorem SharesCspace.of_kept (ht : k'.tcbs.threads t.toNat = k.tcbs.threads t.toNat)
    (hu : k'.tcbs.threads u.toNat = k.tcbs.threads u.toNat) (hcnodes : k'.cnodes = k.cnodes)
    (h : SharesCspace k' t u) : SharesCspace k t u :=
  (SharesCspace.congr (by rw [ht]) (by rw [hu]) hcnodes).mp h

theorem Isolated.schedBind_iff (h : Isolated k) {cap : Cap} {arg1 arg2 arg3 : UInt64}
    (hstep : k' = (handleInvoke k cap .schedBind arg1 arg2 arg3).2) :
    Isolated k' ↔ KeepsApart env k (.schedBind cap arg1 arg2 arg3) := by
  obtain ⟨haccepted, heq⟩ | ⟨hnot, heq⟩ := handleInvoke_bind_cases k cap arg1 arg2 arg3
  swap
  · rw [hstep, heq]
    exact ⟨fun _ ha => absurd ha hnot, fun _ => h⟩
  rw [heq] at hstep
  have hthreads : k'.tcbs.threads = k.tcbs.threads := by rw [hstep]
  have hshares : ∀ u v, SharesCspace k' u v ↔ SharesCspace k u v := fun u v =>
    SharesCspace.congr (by rw [hthreads]) (by rw [hthreads]) (by rw [hstep])
  have hholds : ∀ u v, HoldsContext k' u v ↔
      if (k.tcbs.threads u.toNat).schedContext.toNat = (bindScId arg1).toNat then
        (k.tcbs.threads u.toNat).schedContext < maxSchedContexts ∧ bindTcbId arg1 = v
      else HoldsContext k u v := fun u v =>
    holdsContext_setContext_iff (congrArg Kernel.sched hstep) rfl (by rw [hthreads]) v
  have hother : ∀ u v, v ≠ bindTcbId arg1 → Reaches k' u v → Reaches k u v := by
    intro u v hv hreach
    rcases hreach with hcspace | hcontext
    · exact Or.inl ((hshares u v).mp hcspace)
    · rw [hholds] at hcontext
      split_ifs at hcontext
      · exact absurd hcontext.2.symm hv
      · exact Or.inr hcontext
  have hsame : ∀ u, k'.tcbs.threads u = k.tcbs.threads u := fun u => congrFun hthreads u
  rw [h.iff_of_thread (t := bindTcbId arg1) (fun u _ => hsame u.toNat)
    (fun u v _ hv => hother u v hv), Occupied.congr (hsame _)]
  constructor
  · intro hcond _ ht u hu hne hsc
    refine (hcond ht u hu hne).2 (Or.inr ((hholds u _).mpr ?_))
    rw [if_pos (congrArg UInt32.toNat hsc), hsc]
    exact ⟨haccepted.2.1, rfl⟩
  · intro hcond ht u hu hne
    refine ⟨fun hreach => h _ u ht hu hne.symm (hother _ u hne hreach), ?_⟩
    intro hreach
    rcases hreach with hcspace | hcontext
    · exact h u _ hu ht hne (Or.inl ((hshares u _).mp hcspace))
    · rw [hholds] at hcontext
      split_ifs at hcontext with hsc
      · exact hcond haccepted ht u hu hne (UInt32.toNat_inj.mp hsc)
      · exact h u _ hu ht hne (Or.inr hcontext)

/-- The root CNode is not empty when a configuration passes its checks. -/
theorem ConfigureAllowed.root_valid {cap v : Cap} {arg1 arg2 : UInt64}
    (h : ConfigureAllowed k cap arg1 arg2 v) :
    ∃ i, i < maxCapsPerCnode.toNat ∧ ((k.cnodes .root).slots i).isValid ≠ 0 := by
  obtain ⟨slot, -, hslot, hlt, hvalid, -⟩ := cnodeLookup_some h.2.2.1
  refine ⟨slot, hlt, ?_⟩
  show (k.root.slots slot).isValid ≠ 0
  rw [hslot]
  exact hvalid

/-- A thread with the root CNode shares it with the other threads that have it. -/
theorem sharesCspace_root_iff {t u : UInt32} (ht : (k.tcbs.threads t.toNat).cspace = some .root)
    (hvalid : ∃ i, i < maxCapsPerCnode.toNat ∧ ((k.cnodes .root).slots i).isValid ≠ 0) :
    SharesCspace k t u ↔ (k.tcbs.threads u.toNat).cspace = some .root := by
  constructor
  · intro hshares
    obtain ⟨r, hr, hu, -⟩ := hshares
    rw [hu, ← hr, ht]
  · intro hu
    exact ⟨.root, ht, hu, hvalid⟩

/-- What a thread reaches once it is configured with the root CNode. -/
structure RootConfigured (k k' : Kernel) (t : UInt32) : Prop where
  occupied : Occupied k' t
  others : ∀ u : UInt32, u ≠ t → k'.tcbs.threads u.toNat = k.tcbs.threads u.toNat
  rest : ∀ u v, u ≠ t → v ≠ t → Reaches k' u v → Reaches k u v
  reaches : ∀ u, u ≠ t →
    (Reaches k' t u ↔ (k.tcbs.threads u.toNat).cspace = some .root ∨ HoldsContext k t u)
  reached : ∀ u, u ≠ t →
    (Reaches k' u t ↔ (k.tcbs.threads u.toNat).cspace = some .root ∨ HoldsContext k u t)

theorem rootConfigured_of_configures {cap : Cap} {arg1 arg2 : UInt64} {vspaceRoot : UInt64}
    {asid partId : UInt32} (hconf : Configures k cap arg1 arg2 t)
    (hstep : k' =
      { k with
        tcbs := k.tcbs.set t.toNat
          (tcbConfigure (k.tcbs.threads t.toNat) .root vspaceRoot asid partId) }) :
    RootConfigured k k' t := by
  obtain ⟨hself, hothers⟩ : SetsThread k k' t
      (tcbConfigure (k.tcbs.threads t.toNat) .root vspaceRoot asid partId) :=
    setsThread_of_set (by rw [hstep])
  have hcspace : (k'.tcbs.threads t.toNat).cspace = some .root := by rw [hself]; rfl
  have hcnodes : k'.cnodes = k.cnodes := by rw [hstep]
  have hcontext : ∀ u : UInt32,
      (k'.tcbs.threads u.toNat).schedContext = (k.tcbs.threads u.toNat).schedContext := by
    intro u
    by_cases hu : u = t
    · rw [hu, hself]
      rfl
    · rw [hothers u hu]
  have hholds : ∀ u v, HoldsContext k' u v ↔ HoldsContext k u v := by
    intro u v
    rw [HoldsContext, HoldsContext, hcontext, hstep]
  have hshares : ∀ u, u ≠ t →
      (SharesCspace k' t u ↔ (k.tcbs.threads u.toNat).cspace = some .root) := by
    intro u hu
    obtain ⟨v, hallowed⟩ := hconf.2
    rw [← hothers u hu, sharesCspace_root_iff hcspace]
    rw [hcnodes]
    exact hallowed.root_valid
  refine ⟨⟨hconf.lt, ?_⟩, hothers, fun u v hu hv hreach => ?_, fun u hu => ?_, fun u hu => ?_⟩
  · rw [tcbIsFree, hcspace]
    simp
  · rcases hreach with hshared | hheld
    · exact Or.inl (hshared.of_kept (hothers u hu) (hothers v hv) hcnodes)
    · exact Or.inr ((hholds u v).mp hheld)
  · exact or_congr (hshares u hu) (hholds t u)
  · exact or_congr (⟨fun h => (hshares u hu).mp h.symm, fun h => ((hshares u hu).mpr h).symm⟩)
      (hholds u t)

theorem Isolated.configure_iff (h : Isolated k) {cap : Cap} {arg1 arg2 arg3 : UInt64}
    (hstep : k' = (handleInvoke k cap .tcbConfigure arg1 arg2 arg3).2) :
    Isolated k' ↔ KeepsApart env k (.configure cap arg1 arg2 arg3) := by
  obtain ⟨t, vspaceRoot, asid, hconf, heq⟩ | ⟨hnot, heap, heq⟩ :=
    configure_cases k cap arg1 arg2 arg3
  · have hroot := rootConfigured_of_configures hconf (hstep.trans heq)
    rw [h.iff_of_thread hroot.others hroot.rest]
    constructor
    · intro hcond t' hconf' u hu hne
      obtain rfl := hconf.unique hconf'
      have hapart := hcond hroot.occupied u hu hne
      rw [hroot.reaches u hne, hroot.reached u hne, not_or, not_or] at hapart
      exact ⟨hapart.1.1, hapart.1.2, hapart.2.2⟩
    · intro hcond _ u hu hne
      obtain ⟨hcspace, hto, hfrom⟩ := hcond t hconf u hu hne
      rw [hroot.reaches u hne, hroot.reached u hne, not_or, not_or]
      exact ⟨⟨hcspace, hto⟩, ⟨hcspace, hfrom⟩⟩
  · rw [hstep, heq]
    exact ⟨fun _ t ha => absurd ha (hnot t), fun _ => h⟩

/-- A creation that succeeds makes a process only if it has an entry point or a stack. -/
theorem tcbIsFree_created (t : UInt32) (args : ProcessArgs) (stack : Cap) (sc : UInt32) :
    tcbIsFree { newTcb t args stack with schedContext := sc } = false ↔
      args.pc ≠ 0 ∨ args.spTop ≠ 0 := by
  simp [tcbIsFree, newTcb, Tcb.zero]
  tauto

namespace ProcessCreated

variable {args : ProcessArgs} {sc : Nat} {stack : Cap}

theorem ne_of_occupied (h : ProcessCreated env k k' args t sc stack) (hu : Occupied k u) : u ≠ t := by
  intro heq
  subst heq
  exact Bool.false_ne_true (hu.2.symm.trans h.succeeds.free)

theorem occupied_iff (h : ProcessCreated env k k' args t sc stack) :
    Occupied k' t ↔ args.pc ≠ 0 ∨ args.spTop ≠ 0 := by
  rw [Occupied, h.thread.self, tcbIsFree_created]
  exact and_iff_right (UInt32.lt_iff_toNat_lt.mpr h.succeeds.lt)

theorem holdsContext_iff (h : ProcessCreated env k k' args t sc stack) (hu : u ≠ t) (v : UInt32) :
    HoldsContext k' u v ↔
      if (k.tcbs.threads u.toNat).schedContext.toNat = sc then
        (k.tcbs.threads u.toNat).schedContext < maxSchedContexts ∧ t = v
      else HoldsContext k u v := by
  rw [holdsContext_setContext_iff h.sched rfl (by rw [h.thread.others u hu]) v]
  simp only [SchedContext.bind, UInt32.ofNat_toNat]

theorem reaches_of_ne (h : ProcessCreated env k k' args t sc stack) {v : UInt32} (hu : u ≠ t) (hv : v ≠ t)
    (hreach : Reaches k' u v) : Reaches k u v := by
  rcases hreach with hshares | hcontext
  · exact Or.inl (hshares.of_kept (h.thread.others u hu) (h.thread.others v hv) h.cnodes)
  · rw [h.holdsContext_iff hu] at hcontext
    split_ifs at hcontext
    · exact absurd hcontext.2.symm hv
    · exact Or.inr hcontext

theorem not_sharesCspace (h : ProcessCreated env k k' args t sc stack) : ¬ SharesCspace k' t u := by
  intro hshares
  obtain ⟨r, ht, -⟩ := hshares
  rw [h.thread.self] at ht
  cases ht

/-- The new process has no CSpace, and its context was free: it reaches nobody. -/
theorem not_reaches (h : ProcessCreated env k k' args t sc stack) (hu : u ≠ t) : ¬ Reaches k' t u := by
  intro hreach
  rcases hreach with hshares | hcontext
  · exact h.not_sharesCspace hshares
  · have htcb := hcontext.2.2
    rw [h.thread.self, h.sched] at htcb
    simp only [h.succeeds.toNat_context, ProcessTables.boundSched, SchedState.setContext_self,
      SchedContext.bind, UInt32.ofNat_toNat] at htcb
    exact hu htcb.symm

/-- Another process reaches it through that context, or through one bound to its id. -/
theorem reaches_iff (h : ProcessCreated env k k' args t sc stack) (hu : u ≠ t) :
    Reaches k' u t ↔ (k.tcbs.threads u.toNat).schedContext.toNat = sc ∨ HoldsContext k u t := by
  rw [Reaches, or_iff_right fun hshares => h.not_sharesCspace hshares.symm, h.holdsContext_iff hu]
  split_ifs with hsc
  · have hlt : (k.tcbs.threads u.toNat).schedContext < maxSchedContexts := by
      rw [UInt32.lt_iff_toNat_lt, hsc]
      exact h.succeeds.context_lt
    exact iff_of_true ⟨hlt, rfl⟩ (Or.inl hsc)
  · exact (or_iff_right hsc).symm

end ProcessCreated

theorem Isolated.created_iff (h : Isolated k) {args : ProcessArgs} {sc : Nat} {stack : Cap}
    (hnew : ProcessCreated env k k' args t sc stack) :
    Isolated k' ↔ (args.pc ≠ 0 ∨ args.spTop ≠ 0 → ∀ u, Occupied k u →
      (k.tcbs.threads u.toNat).schedContext.toNat ≠ sc ∧ ¬ HoldsContext k u t) := by
  rw [h.iff_of_thread hnew.thread.others fun u v hu hv => hnew.reaches_of_ne hu hv,
    hnew.occupied_iff]
  refine imp_congr_right fun _ => forall_congr' fun u => imp_congr_right fun hu => ?_
  have hne := hnew.ne_of_occupied hu
  rw [hnew.reaches_iff hne, not_or]
  exact ⟨fun hcond => (hcond hne).2, fun hcond _ => ⟨hnew.not_reaches hne, hcond⟩⟩

theorem Isolated.create_iff (h : Isolated k) {args : ProcessArgs}
    (hstep : k' = (k.create env args).2.2) : Isolated k' ↔ KeepsApart env k (.create args) := by
  have hcnodes : k'.cnodes = k.cnodes := by rw [hstep]; rfl
  have hslots : ∀ r i, ((k'.cnodes r).slots i).isValid ≠ 0 → ((k.cnodes r).slots i).isValid ≠ 0 := by
    intro r i hvalid
    rwa [hcnodes] at hvalid
  have hcases := create_cases env k args
  rw [← hstep] at hcases
  obtain ⟨hnot, htcbs, hsched⟩ | ⟨t, hstarts, hnot, hset, hsched⟩ |
    ⟨t, sc, stack, hnew⟩ := hcases
  · refine ⟨fun _ t sc hcreate => absurd hcreate.toCreateStarts (hnot t.toNat), fun _ => ?_⟩
    refine h.of_kept (fun u _ => by rw [htcbs]) hslots ?_
    rw [hsched]
    exact .refl k.sched
  · refine ⟨fun _ u sc hcreate => ?_, fun _ => ?_⟩
    · rw [hcreate.toCreateStarts.unique hstarts] at hcreate
      exact absurd hcreate (hnot sc)
    · exact h.of_kept (fun u hu => hu.kept hset) hslots hsched.releases
  · rw [h.created_iff hnew]
    constructor
    · intro hcond t' sc' hcreate'
      obtain rfl : t = t' :=
        UInt32.toNat_inj.mp (hnew.succeeds.toCreateStarts.unique hcreate'.toCreateStarts)
      obtain rfl := Option.some.inj (hnew.succeeds.context.symm.trans hcreate'.context)
      exact hcond
    · exact fun hcond => hcond t sc hnew.succeeds

/-! ### Runs -/

theorem RootedMdb.step {c : ProcessCall} (h : RootedMdb k.mdb) (hstep : ProcessStep env k c k') :
    RootedMdb k'.mdb := by
  cases c with
  | create args =>
    have hchange := lifecycleStep_mdb (c := .create args) hstep
    exact ⟨hchange.flat h.flat, hchange.parentOf_zero h.flat h.root trivial⟩
  | destroy tcbId =>
    have hchange := lifecycleStep_mdb (c := .destroy tcbId) hstep
    exact ⟨hchange.flat h.flat, hchange.parentOf_zero h.flat h.root trivial⟩
  | configure cap arg1 arg2 arg3 =>
    rw [Fuel.Yields.const hstep]
    obtain ⟨t, _, _, -, heq⟩ | ⟨-, heap, heq⟩ := configure_cases k cap arg1 arg2 arg3
    · rw [heq]
      exact h
    · rw [heq]
      exact h
  | schedBind cap arg1 arg2 arg3 =>
    rw [Fuel.Yields.const hstep]
    obtain ⟨-, heq⟩ | ⟨-, heq⟩ := handleInvoke_bind_cases k cap arg1 arg2 arg3
    · rw [heq]
      exact h
    · rw [heq]
      exact h

theorem RootedMdb.run {cs : List ProcessCall} (h : RootedMdb k.mdb)
    (hrun : Run.Steps (ProcessStep env) k cs k') : RootedMdb k'.mdb := by
  have hstep : ∀ k c k', ProcessStep env k c k' → RootedMdb k.mdb → RootedMdb k'.mdb :=
    fun _ _ _ hstep hk => hk.step hstep
  exact Run.Steps.invariant hstep hrun h

theorem Isolated.step_iff {c : ProcessCall} (h : Isolated k) (hstep : ProcessStep env k c k') :
    Isolated k' ↔ KeepsApart env k c := by
  cases c with
  | create args => exact h.create_iff (Fuel.Yields.const hstep)
  | destroy tcbId => exact iff_of_true (h.destroy hstep) trivial
  | configure cap arg1 arg2 arg3 => exact h.configure_iff (Fuel.Yields.const hstep)
  | schedBind cap arg1 arg2 arg3 => exact h.schedBind_iff (Fuel.Yields.const hstep)

/-- No thread is in use. -/
def NoProcess (k : Kernel) : Prop := ∀ t, ¬ Occupied k t

/-- Along a run from tables without a process, destroying any process spares all others in
every state reached, exactly when no call makes a process reach what belongs to another. -/
theorem destroy_spares_iff (env : BootEnv) {k₀ : Kernel} (hmdb : RootedMdb k₀.mdb)
    (hnone : NoProcess k₀) (cs : List ProcessCall) :
    (∀ bs, bs <+: cs → ∀ k, Run.Steps (ProcessStep env) k₀ bs k →
      ∀ t u, Occupied k t → Occupied k u → t ≠ u → DestroySpares env k t u) ↔
    Run.Throughout (ProcessStep env) (KeepsApart env) k₀ cs := by
  have hisolated : Isolated k₀ := fun t _ ht => absurd ht (hnone t)
  have hruns := Run.steps_forall_prefix_iff_of_exact (fun k => RootedMdb k.mdb)
    (fun _ _ _ hk hstep => hk.step hstep) (fun _ _ _ _ hk hstep => hk.step_iff hstep)
    (processStep_exists (fun _ _ => trivial) env) hmdb hisolated cs
  rw [← hruns]
  refine forall_congr' fun bs => imp_congr_right fun _ => forall_congr' fun k => imp_congr_right
    fun hsteps => ?_
  refine forall_congr' fun t => forall_congr' fun u => imp_congr_right fun ht => ?_
  exact imp_congr_right fun _ => imp_congr_right fun hne =>
    destroySpares_iff (hmdb.run hsteps) ht hne

/-- The state after the first two processes of boot. -/
def twoProcesses : Kernel :=
  (((bootRoot plainBoot).create plainBoot (helloArgs plainBoot)).2.2.create plainBoot
    (serverArgs plainBoot 0 0x80600000)).2.2

theorem twoProcesses_steps : Run.Steps (ProcessStep plainBoot) (bootRoot plainBoot)
    [.create (helloArgs plainBoot), .create (serverArgs plainBoot 0 0x80600000)] twoProcesses :=
  .cons (Fuel.yields_of_forall fun _ => rfl) (.cons (Fuel.yields_of_forall fun _ => rfl) .nil)

theorem bootRoot_rooted (env : BootEnv) : RootedMdb (bootRoot env).mdb :=
  ⟨(bootRoot_mdb env).flat, (bootRoot_mdb env).root⟩

theorem bootRoot_noProcess (env : BootEnv) : NoProcess (bootRoot env) := by
  intro t hocc
  obtain ⟨-, hfree⟩ := hocc
  cases hfree

/-- The second creation finds the first process with context 0, and that is bound to it. -/
theorem keepsApart_second : KeepsApart plainBoot
    ((bootRoot plainBoot).create plainBoot (helloArgs plainBoot)).2.2
    (.create (serverArgs plainBoot 0 0x80600000)) := by
  have hothers : ∀ i, i < 128 → i ≠ 0 → tcbIsFree (((bootRoot plainBoot).create plainBoot
      (helloArgs plainBoot)).2.2.tcbs.threads i) = true := by decide +kernel
  have hcontext : (((bootRoot plainBoot).create plainBoot
      (helloArgs plainBoot)).2.2.tcbs.threads 0).schedContext = 0 := by decide +kernel
  have hbound : (((bootRoot plainBoot).create plainBoot
      (helloArgs plainBoot)).2.2.sched.contexts 0).bound = true := by decide +kernel
  have htcb : (((bootRoot plainBoot).create plainBoot
      (helloArgs plainBoot)).2.2.sched.contexts 0).tcbId = 0 := by decide +kernel
  generalize ((bootRoot plainBoot).create plainBoot (helloArgs plainBoot)).2.2 = k at *
  intro t sc hcreate _ u hu
  have hu0 : u = 0 := by
    by_contra hne
    have hfree := hothers u.toNat (UInt32.lt_iff_toNat_lt.mp hu.1) (toNat_ne hne)
    exact Bool.false_ne_true (hu.2.symm.trans hfree)
  subst hu0
  refine ⟨fun hsc => ?_, fun hholds => ?_⟩
  · have hfree : (k.sched.contexts sc).bound = false := hcreate.context_free
    have hzero : sc = 0 := by
      rw [← hsc]
      exact congrArg UInt32.toNat hcontext
    rw [hzero, hbound] at hfree
    cases hfree
  · have ht : t = 0 := by
      rw [← hholds.2.2]
      show (k.sched.contexts (k.tcbs.threads 0).schedContext.toNat).tcbId = 0
      rw [hcontext]
      exact htcb
    exact Bool.false_ne_true (hu.2.symm.trans (ht ▸ hcreate.free))

/-- After the first two creations of boot either process can go without the other noticing. -/
theorem destroy_spares_two :
    Run.Steps (ProcessStep plainBoot) (bootRoot plainBoot)
      [.create (helloArgs plainBoot), .create (serverArgs plainBoot 0 0x80600000)] twoProcesses ∧
    Occupied twoProcesses 0 ∧ Occupied twoProcesses 1 ∧ DestroySpares plainBoot twoProcesses 0 1 := by
  have hthroughout : Run.Throughout (ProcessStep plainBoot) (KeepsApart plainBoot)
      (bootRoot plainBoot)
      [.create (helloArgs plainBoot), .create (serverArgs plainBoot 0 0x80600000)] := by
    refine ⟨fun t sc _ _ u hu => absurd hu (bootRoot_noProcess plainBoot u), fun k hstep => ?_⟩
    rw [Fuel.Yields.const hstep]
    exact ⟨keepsApart_second, fun _ _ => trivial⟩
  have hfirst : Occupied twoProcesses 0 := ⟨by decide, by decide +kernel⟩
  have hsecond : Occupied twoProcesses 1 := ⟨by decide, by decide +kernel⟩
  have hspares := (destroy_spares_iff plainBoot (bootRoot_rooted plainBoot)
    (bootRoot_noProcess plainBoot) _).mpr hthroughout _ (List.prefix_refl _) _ twoProcesses_steps
  exact ⟨twoProcesses_steps, hfirst, hsecond, hspares 0 1 hfirst hsecond (by decide)⟩

/-- `INV_SCHED_BIND` gives context 0 to thread 1 while thread 0 still names it, and the
destruction of thread 0 unbinds it. -/
theorem destroy_unbinds_other :
    RootedMdb (bootRoot plainBoot).mdb ∧ NoProcess (bootRoot plainBoot) ∧
    ∃ k, Run.Steps (ProcessStep plainBoot) (bootRoot plainBoot)
        [.create (helloArgs plainBoot), .create (serverArgs plainBoot 0 0x80600000),
          .schedBind bootUntyped 0x500010000 500 2000] k ∧
      Occupied k 0 ∧ Occupied k 1 ∧ ¬ DestroySpares plainBoot k 0 1 := by
  have hrooted := bootRoot_rooted plainBoot
  have hsteps : Run.Steps (ProcessStep plainBoot) (bootRoot plainBoot)
      [.create (helloArgs plainBoot), .create (serverArgs plainBoot 0 0x80600000),
        .schedBind bootUntyped 0x500010000 500 2000]
      (handleInvoke twoProcesses bootUntyped .schedBind 0x500010000 500 2000).2 :=
    .cons (Fuel.yields_of_forall fun _ => rfl) (.cons (Fuel.yields_of_forall fun _ => rfl)
      (.cons (Fuel.yields_of_forall fun _ => rfl) .nil))
  have hfirst : Occupied (handleInvoke twoProcesses bootUntyped .schedBind 0x500010000 500 2000).2 0 :=
    ⟨by decide, by decide +kernel⟩
  have hsecond : Occupied (handleInvoke twoProcesses bootUntyped .schedBind 0x500010000 500 2000).2 1 :=
    ⟨by decide, by decide +kernel⟩
  have hholds : HoldsContext
      (handleInvoke twoProcesses bootUntyped .schedBind 0x500010000 500 2000).2 0 1 :=
    ⟨by decide +kernel, by decide +kernel, by decide +kernel⟩
  refine ⟨hrooted, bootRoot_noProcess plainBoot, _, hsteps, hfirst, hsecond, fun hspares => ?_⟩
  exact (destroySpares_iff (hrooted.run hsteps) hfirst (by decide)).mp hspares (Or.inr hholds)

end Moonlight
