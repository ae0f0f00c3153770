/-
Whose MDB node a destruction takes.

Ghost state beside the kernel records, for every process, the node `process_create`
inserted for its stack frame, for as long as that node is in use.  `process_destroy`
looks its node up by thread id, among keys that retypes fill with slot numbers, so it
takes the process's own node exactly when no node in front of it answers to the id.
-/
import Moonlight.Process.Lifecycle

namespace Moonlight

open Mdb (nil)
open Relation Threaded

/-! ### Ghost state -/

/-- For each thread id under which a process was created, its MDB node; `none` inside when
the insertion failed or the node has been freed since. -/
abbrev Owners := UInt32 → Option (Option Nat)

structure Tracked where
  kernel : Kernel
  owner : Owners

/-- The node that is in use in `new` and was not in `old`. -/
def Mdb.added (old new : Mdb) : Option Nat :=
  (List.range maxMdbNodes).find? fun i => (new.nodes i).valid && !(old.nodes i).valid

/-- A creation that succeeds makes the new node the process's own. -/
def Owners.create (owner : Owners) (id : Option UInt32) (old new : Mdb) : Owners :=
  match id with
  | some id => Function.update owner id (some (Mdb.added old new))
  | none => owner

instance (k : Kernel) (tcbId : UInt32) : Decidable (Occupied k tcbId) :=
  inferInstanceAs (Decidable (_ ∧ _))

/-- The destroyed process is forgotten, and so is every node that has been freed. -/
def Owners.destroy (owner : Owners) (k : Kernel) (tcbId : UInt32) (new : Mdb) : Owners :=
  fun u =>
    if u = tcbId ∧ Occupied k tcbId then none
    else (owner u).map fun node => node.filter fun n => (new.nodes n).valid

def Tracked.proceed (s : Tracked) (env : BootEnv) (c : LifecycleCall) (k' : Kernel) : Tracked :=
  { kernel := k'
    owner :=
      match c with
      | .create args => s.owner.create (s.kernel.create env args).2.1 s.kernel.mdb k'.mdb
      | .destroy tcbId => s.owner.destroy s.kernel tcbId k'.mdb
      | .retype .. => s.owner }

def TrackedStep (env : BootEnv) (s : Tracked) (c : LifecycleCall) (s' : Tracked) : Prop :=
  ∃ k', LifecycleStep env s.kernel c k' ∧ s' = s.proceed env c k'

/-- A process of boot: created, and its thread resumed. -/
def Tracked.spawn (s : Tracked) (env : BootEnv) (args : ProcessArgs) : Tracked :=
  let k' := s.kernel.spawn env.gAlloc args
  { kernel := k'
    owner := s.owner.create (s.kernel.create env args).2.1 s.kernel.mdb k'.mdb }

/-- The steps of boot that make no process. -/
def Tracked.withKernel (s : Tracked) (f : Kernel → Kernel) : Tracked :=
  { s with kernel := f s.kernel }

/-- `bootKernel` with the nodes of its four processes. -/
def bootTracked (env : BootEnv) : Tracked :=
  let s : Tracked := { kernel := bootRoot env, owner := fun _ => none }
  let s := (s.spawn env (helloArgs env)).withKernel bootRetype
  let s := s.withKernel fun k => bootEndpoint env (bootEndpoint env (bootEndpoint env k 1) 2) 3
  ((s.spawn env (serverArgs env 0 0x80600000)).spawn env (serverArgs env 1 0x80700000)).spawn env
    (serverArgs env 2 0x80800000)

@[simp] theorem Tracked.spawn_kernel (s : Tracked) (env : BootEnv) (args : ProcessArgs) :
    (s.spawn env args).kernel = s.kernel.spawn env.gAlloc args := rfl

@[simp] theorem Tracked.withKernel_kernel (s : Tracked) (f : Kernel → Kernel) :
    (s.withKernel f).kernel = f s.kernel := rfl

theorem bootTracked_kernel (env : BootEnv) : (bootTracked env).kernel = bootKernel env := by
  simp only [bootTracked, Tracked.spawn_kernel, Tracked.withKernel_kernel, bootKernel, bootServers]

/-! ### The ghost state is right -/

/-- The recorded nodes are in use, under the id of their process and without a parent. -/
structure Tracks (mdb : Mdb) (owner : Owners) : Prop where
  flat : mdb.Flat
  own : ∀ u n, owner u = some (some n) →
    mdb.Valid n ∧ (mdb.nodes n).cptr = u ∧ mdb.parentOf n = nil

theorem Mdb.added_some {old new : Mdb} {n : Nat} (h : Mdb.added old new = some n) :
    new.Valid n ∧ ¬ old.Valid n := by
  obtain ⟨htest, hmem, -⟩ := List.find?_range_eq_some.mp h
  rw [Bool.and_eq_true, Bool.not_eq_true'] at htest
  refine ⟨⟨List.mem_range.mp hmem, htest.1⟩, fun hold => ?_⟩
  exact Bool.false_ne_true (htest.2.symm.trans hold.2)

/-- The recorded node is the index `mdb_insert` stores through `out_idx`. -/
theorem Mdb.added_insert {mdb : Mdb} (h : mdb.Flat) (cptr : UInt32) (cap : Cap) :
    Mdb.added mdb (mdbInsert mdb nil cptr cap).2.2 = (mdbInsert mdb nil cptr cap).2.1 := by
  rcases h.insert (Or.inl rfl) cptr cap with ⟨e, heq⟩ | ⟨idx, mdb', heq, hinserted, -⟩
  · rw [heq]
    cases hadded : Mdb.added mdb mdb with
    | none => rfl
    | some n => exact absurd (Mdb.added_some hadded).1 (Mdb.added_some hadded).2
  · rw [heq]
    show Mdb.added mdb mdb' = some idx
    have hnew := (hinserted.valid idx).mpr (Or.inr rfl)
    cases hadded : Mdb.added mdb mdb' with
    | none =>
      have htest := List.find?_range_eq_none.mp hadded idx hnew.1
      have hfree : (mdb.nodes idx).valid = false := by
        by_contra hv
        exact hinserted.free ⟨hnew.1, by simpa using hv⟩
      simp [hnew.2, hfree] at htest
    | some n =>
      obtain ⟨hvalid, hfree⟩ := Mdb.added_some hadded
      rw [((hinserted.valid n).mp hvalid).resolve_left hfree]

theorem Tracks.inserted {mdb mdb' : Mdb} {owner : Owners} (h : Tracks mdb owner) {idx parentIdx : Nat}
    {cptr : UInt32} (hinserted : Inserted mdb mdb' idx parentIdx cptr) {u : UInt32} {n : Nat}
    (hu : owner u = some (some n)) :
    mdb'.Valid n ∧ (mdb'.nodes n).cptr = u ∧ mdb'.parentOf n = nil := by
  obtain ⟨hvalid, hkey, hparent⟩ := h.own u n hu
  have hne : n ≠ idx := fun heq => hinserted.free (heq ▸ hvalid)
  obtain ⟨hp, hc⟩ := hinserted.kept n hne
  exact ⟨(hinserted.valid n).mpr (Or.inl hvalid), hc.trans hkey, hp.trans hparent⟩

theorem Tracks.insert_root {mdb : Mdb} {owner : Owners} (h : Tracks mdb owner) (id : UInt32)
    (stack : Cap) :
    Tracks (mdbInsert mdb nil id stack).2.2
      (owner.create (some id) mdb (mdbInsert mdb nil id stack).2.2) := by
  have hadded := Mdb.added_insert h.flat id stack
  rcases h.flat.insert (Or.inl rfl) id stack with ⟨e, heq⟩ | ⟨idx, mdb', heq, hinserted, hflat⟩
  · rw [heq] at hadded ⊢
    refine ⟨h.flat, fun u n hu => ?_⟩
    rw [Owners.create, hadded] at hu
    by_cases hid : u = id
    · rw [hid, Function.update_self] at hu
      cases hu
    · rw [Function.update_of_ne hid] at hu
      exact h.own u n hu
  · rw [heq] at hadded ⊢
    refine ⟨hflat, fun u n hu => ?_⟩
    rw [Owners.create, hadded] at hu
    by_cases hid : u = id
    · rw [hid, Function.update_self] at hu
      cases hu
      exact ⟨(hinserted.valid idx).mpr (Or.inr rfl), hinserted.key.trans hid.symm, hinserted.parent⟩
    · rw [Function.update_of_ne hid] at hu
      exact h.inserted hinserted hu

theorem Tracks.insert_zero {mdb : Mdb} {owner : Owners} (h : Tracks mdb owner) (dest : UInt32)
    (cap : Cap) : Tracks (mdbInsert mdb 0 dest cap).2.2 owner := by
  obtain ⟨hflat, hchange⟩ := h.flat.insert_zero dest cap
  refine ⟨hflat, fun u n hu => ?_⟩
  rcases hchange with ⟨-, hsame⟩ | ⟨idx, -, hinserted⟩ | hinserted
  · rw [hsame]
    exact h.own u n hu
  · exact h.inserted hinserted hu
  · exact h.inserted hinserted hu

/-- A process that is still recorded after a destruction was so before, with the same node
still in use. -/
theorem Owners.destroy_some {owner : Owners} {k : Kernel} {tcbId u : UInt32} {new : Mdb} {n : Nat}
    (h : owner.destroy k tcbId new u = some (some n)) :
    owner u = some (some n) ∧ (new.nodes n).valid = true := by
  unfold Owners.destroy at h
  split_ifs at h
  obtain ⟨node, hnode, hfilter⟩ := Option.map_eq_some_iff.mp h
  obtain ⟨rfl, hvalid⟩ := Option.filter_eq_some_iff.mp hfilter
  exact ⟨hnode, hvalid⟩

theorem Tracks.reclaim {k : Kernel} {owner : Owners} (h : Tracks k.mdb owner) {tcbId : UInt32}
    {mdb' : Mdb} (hy : Fuel.Yields (fun fuel => mdbReclaim fuel k.mdb tcbId) mdb') :
    Tracks mdb' (owner.destroy k tcbId mdb') := by
  rcases h.flat.reclaim tcbId with ⟨-, hsame⟩ | ⟨idx, mdb₁, -, hy₁, hremoved, hflat⟩ | ⟨-, -, hnone⟩
  · obtain rfl := hy.unique hsame
    exact ⟨h.flat, fun u n hu => h.own u n (Owners.destroy_some hu).1⟩
  · obtain rfl := hy.unique hy₁
    refine ⟨hflat, fun u n hu => ?_⟩
    obtain ⟨hold, hflag⟩ := Owners.destroy_some hu
    obtain ⟨hvalid, hkey, hparent⟩ := h.own u n hold
    have hvalid' : mdb'.Valid n := ⟨hvalid.1, hflag⟩
    obtain ⟨hp, hc⟩ := hremoved.kept n ((hremoved.valid n).mp hvalid').2.1
    exact ⟨hvalid', hc.trans hkey, hp.trans hparent⟩
  · exact absurd hy (Fuel.not_yields_of_forall hnone mdb')

theorem Tracks.create {k : Kernel} {owner : Owners} (h : Tracks k.mdb owner) (env : BootEnv)
    (args : ProcessArgs) :
    Tracks (k.create env args).2.2.mdb
      (owner.create (k.create env args).2.1 k.mdb (k.create env args).2.2.mdb) := by
  obtain ⟨id, stack, -, -, hid, hmdb⟩ | ⟨hid, hmdb⟩ := processCreate_cases
    { tcbs := k.tcbs, alloc := k.mem.allocs env.gAlloc, sched := k.sched, mdb := k.mdb } args
  · have hid' : (k.create env args).2.1 = some id := hid
    have hmdb' : (k.create env args).2.2.mdb = (mdbInsert k.mdb nil id stack).2.2 := hmdb
    rw [hid', hmdb']
    exact h.insert_root id stack
  · have hid' : (k.create env args).2.1 = none := hid
    have hmdb' : (k.create env args).2.2.mdb = k.mdb := hmdb
    rw [hid', hmdb']
    exact h

theorem Tracks.step {env : BootEnv} {s s' : Tracked} {c : LifecycleCall}
    (h : Tracks s.kernel.mdb s.owner) (hstep : TrackedStep env s c s') :
    Tracks s'.kernel.mdb s'.owner := by
  obtain ⟨k', hk, rfl⟩ := hstep
  cases c with
  | create args =>
    rw [Fuel.Yields.const hk]
    exact h.create env args
  | destroy tcbId =>
    show Tracks k'.mdb (s.owner.destroy s.kernel tcbId k'.mdb)
    have hchange := lifecycleStep_mdb hk
    generalize k'.mdb = mdb' at hchange
    cases hchange with
    | same => exact ⟨h.flat, fun u n hu => h.own u n (Owners.destroy_some hu).1⟩
    | destroy _ hy => exact h.reclaim hy
  | retype cap arg1 arg2 arg3 =>
    show Tracks k'.mdb s.owner
    have hchange := lifecycleStep_mdb hk
    generalize k'.mdb = mdb' at hchange
    cases hchange with
    | same => exact h
    | retype newCap _ => exact h.insert_zero _ newCap

/-! ### Boot -/

theorem Tracks.spawn {s : Tracked} (h : Tracks s.kernel.mdb s.owner) (env : BootEnv)
    (args : ProcessArgs) : Tracks (s.spawn env args).kernel.mdb (s.spawn env args).owner := by
  have hcreate := h.create env args
  have hmdb : (s.kernel.create env args).2.2.mdb = (s.kernel.spawn env.gAlloc args).mdb :=
    (spawn_mdb_eq s.kernel env.gAlloc args).symm
  rw [hmdb] at hcreate
  exact hcreate

theorem Tracks.retype {k : Kernel} {owner : Owners} (h : Tracks k.mdb owner) :
    Tracks (bootRetype k).mdb owner := by
  rcases bootRetype_mdb k with hsame | ⟨dest, cap, hmdb⟩
  · rw [hsame]
    exact h
  · rw [hmdb]
    exact h.insert_zero dest cap

theorem Tracks.endpoint {k : Kernel} {owner : Owners} (h : Tracks k.mdb owner) (env : BootEnv)
    (i : Nat) : Tracks (bootEndpoint env k i).mdb owner := h

theorem bootTracked_tracks (env : BootEnv) :
    Tracks (bootTracked env).kernel.mdb (bootTracked env).owner := by
  have hroot : Tracks (bootRoot env).mdb fun _ => none :=
    ⟨(bootRoot_mdb env).flat, fun _ _ hu => nomatch hu⟩
  have hhello := Tracks.spawn (s := { kernel := bootRoot env, owner := fun _ => none }) hroot env
    (helloArgs env)
  have hendpoints := ((hhello.retype.endpoint env 1).endpoint env 2).endpoint env 3
  refine Tracks.spawn (Tracks.spawn (Tracks.spawn ?_ env _) env _) env _
  exact hendpoints

/-! ### What a destruction takes -/

/-- With two levels, only the node itself and its children are below a node. -/
theorem Mdb.Flat.below_iff {mdb : Mdb} (h : mdb.Flat) {j n : Nat} :
    ReflTransGen mdb.Parent j n ↔ j = n ∨ mdb.parentOf j = n ∧ n ≠ nil := by
  constructor
  · intro hbelow
    induction hbelow using ReflTransGen.head_induction_on with
    | refl => exact Or.inl rfl
    | @head j m hstep _ ih =>
      refine Or.inr ?_
      rcases ih with rfl | ⟨hm, hn⟩
      · exact hstep
      · -- Both steps end in node 0, the only parent there is.
        have hm0 : m = 0 := hstep.1.symm.trans ((h.parent j).resolve_left fun hp =>
          hstep.2 (hstep.1.symm.trans hp))
        have hn0 : n = 0 := hm.symm.trans ((h.parent m).resolve_left fun hp =>
          hn (hm.symm.trans hp))
        exact ⟨hstep.1.trans (hm0.trans hn0.symm), hn⟩
  · rintro (rfl | hstep)
    · exact .refl
    · exact .single hstep

theorem Removed.gone_iff {mdb mdb' : Mdb} {idx : Nat} (h : Removed mdb mdb' idx) (hflat : mdb.Flat)
    (hidx : mdb.Valid idx) (j : Nat) :
    (mdb.Valid j ∧ ¬ mdb'.Valid j) ↔ (mdb.Valid j ∧ ReflTransGen mdb.Parent j idx) := by
  have hne : idx ≠ nil := fun heq => mdb.not_valid_nil (heq ▸ hidx)
  rw [h.valid, hflat.below_iff]
  refine and_congr_right fun hj => ?_
  tauto

namespace Tracked

/-- The record of process `t`: its node and what is below it. -/
def Owns (s : Tracked) (t : UInt32) (j : Nat) : Prop :=
  ∃ n, s.owner t = some (some n) ∧ s.kernel.mdb.Valid j ∧ ReflTransGen s.kernel.mdb.Parent j n

/-- `process_destroy(t)` returns, and makes exactly the record of `t` invalid. -/
def DestroysOwn (s : Tracked) (env : BootEnv) (t : UInt32) : Prop :=
  ∃ k', LifecycleStep env s.kernel (.destroy t) k' ∧
    ∀ j, (s.kernel.mdb.Valid j ∧ ¬ k'.mdb.Valid j) ↔ s.Owns t j

/-- The thread exists and no node in front of its own answers to its id.  For a process
without a node: no node answers to the id, unless the thread is gone too. -/
def OwnFirst (s : Tracked) (t : UInt32) : Option Nat → Prop
  | some n => Occupied s.kernel t ∧ ∀ i, i < n → ¬ s.kernel.mdb.Matches t i
  | none => Occupied s.kernel t → ∀ i, ¬ s.kernel.mdb.Matches t i

variable {s : Tracked} {env : BootEnv} {t : UInt32} {node : Option Nat}

theorem owns_some_iff {n : Nat} (hproc : s.owner t = some (some n)) (j : Nat) :
    s.Owns t j ↔ s.kernel.mdb.Valid j ∧ ReflTransGen s.kernel.mdb.Parent j n := by
  constructor
  · rintro ⟨m, hm, hj⟩
    rw [hproc] at hm
    cases hm
    exact hj
  · exact fun hj => ⟨n, hproc, hj⟩

theorem not_owns_of_none (hproc : s.owner t = some none) (j : Nat) : ¬ s.Owns t j := by
  rintro ⟨m, hm, -⟩
  rw [hproc] at hm
  cases hm

/-- With nothing invalidated, the process must have had no record. -/
theorem ownFirst_iff_nothing (h : Tracks s.kernel.mdb s.owner) (hproc : s.owner t = some node)
    (hnothing : ¬ Occupied s.kernel t ∨ ∀ i, ¬ s.kernel.mdb.Matches t i) :
    (∀ j, (s.kernel.mdb.Valid j ∧ ¬ s.kernel.mdb.Valid j) ↔ s.Owns t j) ↔ s.OwnFirst t node := by
  cases node with
  | none =>
    have hfirst : s.OwnFirst t none := fun hocc => hnothing.resolve_left fun hfree => hfree hocc
    refine ⟨fun _ => hfirst, fun _ j => ⟨fun hj => absurd hj.1 hj.2, fun hj => ?_⟩⟩
    exact absurd hj (not_owns_of_none hproc j)
  | some n =>
    obtain ⟨hvalid, hkey, -⟩ := h.own t n hproc
    constructor
    · intro hexact
      obtain ⟨hn, hnot⟩ := (hexact n).mpr ((owns_some_iff hproc n).mpr ⟨hvalid, .refl⟩)
      exact absurd hn hnot
    · rintro ⟨hocc, -⟩
      rcases hnothing with hfree | hnone
      · exact absurd hocc hfree
      · exact absurd ⟨hvalid, Or.inr hkey⟩ (hnone n)

/-- The node that is found must be the one recorded. -/
theorem ownFirst_iff_removed (h : Tracks s.kernel.mdb s.owner) (hproc : s.owner t = some node)
    (hocc : Occupied s.kernel t) {idx : Nat} (hfirst : s.kernel.mdb.FirstMatch t idx) {mdb' : Mdb}
    (hremoved : Removed s.kernel.mdb mdb' idx) :
    (∀ j, (s.kernel.mdb.Valid j ∧ ¬ mdb'.Valid j) ↔ s.Owns t j) ↔ s.OwnFirst t node := by
  have hgone := hremoved.gone_iff h.flat hfirst.1.1
  cases node with
  | none =>
    constructor
    · intro hexact
      have howns := (hexact idx).mp ((hgone idx).mpr ⟨hfirst.1.1, .refl⟩)
      exact absurd howns (not_owns_of_none hproc idx)
    · exact fun hnone => absurd hfirst.1 (hnone hocc idx)
  | some n =>
    obtain ⟨hvalid, hkey, hroot⟩ := h.own t n hproc
    constructor
    · intro hexact
      have hn := (hgone n).mp ((hexact n).mpr ((owns_some_iff hproc n).mpr ⟨hvalid, .refl⟩))
      -- A node without a parent is below itself only.
      have heq : n = idx := (h.flat.below_iff.mp hn.2).resolve_right fun hp =>
        hp.2 (hp.1.symm.trans hroot)
      rw [heq]
      exact ⟨hocc, hfirst.2⟩
    · rintro ⟨-, hbefore⟩ j
      have hle : n ≤ idx := Nat.not_lt.mp fun hlt => hbefore idx hlt hfirst.1
      have hge : idx ≤ n := Nat.not_lt.mp fun hlt => hfirst.2 n hlt ⟨hvalid, Or.inr hkey⟩
      rw [hgone, owns_some_iff hproc, Nat.le_antisymm hle hge]

/-- Where the revocation does not end, a node in front of the recorded one was found. -/
theorem not_ownFirst_of_diverges (h : Tracks s.kernel.mdb s.owner) (hproc : s.owner t = some node)
    (hocc : Occupied s.kernel t) (hfirst : s.kernel.mdb.FirstMatch t 0)
    (hself : s.kernel.mdb.parentOf 0 = 0) : ¬ s.OwnFirst t node := by
  cases node with
  | none => exact fun hnone => hnone hocc 0 hfirst.1
  | some n =>
    rintro ⟨-, hbefore⟩
    have hn : n ≠ 0 := by
      rintro rfl
      exact Mdb.zero_ne_nil (hself.symm.trans (h.own t 0 hproc).2.2)
    exact hbefore 0 (Nat.pos_of_ne_zero hn) hfirst.1

theorem destroysOwn_of_yields (hocc : Occupied s.kernel t) {mdb' : Mdb}
    (hy : Fuel.Yields (fun fuel => mdbReclaim fuel s.kernel.mdb t) mdb') :
    s.DestroysOwn env t ↔ ∀ j, (s.kernel.mdb.Valid j ∧ ¬ mdb'.Valid j) ↔ s.Owns t j := by
  constructor
  · rintro ⟨k', hstep, hexact⟩
    obtain ⟨mdb₁, hy₁, rfl⟩ := (destroyStep_occupied hocc).mp hstep
    rw [hy.unique hy₁]
    exact hexact
  · exact fun hexact => ⟨_, (destroyStep_occupied hocc).mpr ⟨mdb', hy, rfl⟩, hexact⟩

theorem destroysOwn_iff (h : Tracks s.kernel.mdb s.owner) (hproc : s.owner t = some node) :
    s.DestroysOwn env t ↔ s.OwnFirst t node := by
  by_cases hocc : Occupied s.kernel t
  · rcases h.flat.reclaim t with ⟨hnone, hy⟩ | ⟨idx, mdb', hfirst, hy, hremoved, -⟩ |
      ⟨hfirst, hself, hnone⟩
    · rw [destroysOwn_of_yields hocc hy]
      exact ownFirst_iff_nothing h hproc (Or.inr hnone)
    · rw [destroysOwn_of_yields hocc hy]
      exact ownFirst_iff_removed h hproc hocc hfirst hremoved
    · refine iff_of_false ?_ (not_ownFirst_of_diverges h hproc hocc hfirst hself)
      rintro ⟨k', hstep, -⟩
      obtain ⟨mdb', hy, -⟩ := (destroyStep_occupied hocc).mp hstep
      exact Fuel.not_yields_of_forall hnone mdb' hy
  · simp only [DestroysOwn, destroyStep_free hocc, exists_eq_left]
    exact ownFirst_iff_nothing h hproc (Or.inl hocc)

end Tracked

instance (mdb : Mdb) (tcbId : UInt32) (i : Nat) : Decidable (mdb.Matches tcbId i) :=
  inferInstanceAs (Decidable ((_ ∧ _) ∧ _))

/-- In every state reached from boot, the destruction of a process takes exactly its own
record when it finds the process's node first, and not otherwise. -/
theorem destroy_takes_own_iff {env : BootEnv} {cs : List LifecycleCall} {s : Tracked}
    (hrun : Run.Steps (TrackedStep env) (bootTracked env) cs s) {t : UInt32} {node : Option Nat}
    (hproc : s.owner t = some node) : s.DestroysOwn env t ↔ s.OwnFirst t node :=
  Tracked.destroysOwn_iff
    (hrun.invariant (fun _ _ _ hstep hs => Tracks.step hs hstep) (bootTracked_tracks env)) hproc

/-- The second process of boot is destroyed as it should be. -/
theorem destroy_takes_own_second :
    (bootTracked plainBoot).owner 1 = some (some 3) ∧
      (bootTracked plainBoot).DestroysOwn plainBoot 1 := by
  have howner : (bootTracked plainBoot).owner 1 = some (some 3) := by decide +kernel
  have hocc : Occupied (bootTracked plainBoot).kernel 1 := by decide +kernel
  have hbefore : ∀ i, i < 3 → ¬ (bootTracked plainBoot).kernel.mdb.Matches 1 i := by decide +kernel
  exact ⟨howner, (destroy_takes_own_iff .nil howner).mpr ⟨hocc, hbefore⟩⟩

/-- The first process of boot is not: its node is 1, and node 0, the root Untyped,
answers to id 0 as well. -/
theorem destroy_first_takes_root :
    (bootTracked plainBoot).owner 0 = some (some 1) ∧
      ¬ (bootTracked plainBoot).DestroysOwn plainBoot 0 := by
  have howner : (bootTracked plainBoot).owner 0 = some (some 1) := by decide +kernel
  have hroot : (bootTracked plainBoot).kernel.mdb.Matches 0 0 := by decide +kernel
  refine ⟨howner, fun hexact => ?_⟩
  obtain ⟨-, hbefore⟩ := (Tracked.destroysOwn_iff (bootTracked_tracks plainBoot) howner).mp hexact
  exact hbefore 0 (by decide) hroot

end Moonlight
