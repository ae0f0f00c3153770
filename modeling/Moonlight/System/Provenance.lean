/-
Where capabilities come from.

However long the system runs and whatever its threads ask for, each valid capability goes
back to one that was there at the start: it is an attenuated copy of it, or of an object
that a retype carved out of it.  Untyped memory is never made anew, so one retype is the
longest chain there is.  A set of addresses that encloses the capabilities of the start
encloses those of every later state, and the pages the system calls map.

A retype always carves at the start of its Untyped, so two retypes of one Untyped give
objects in the same memory, and a write to the one is a write to the other.  The model keeps
objects apart; what is shown here is therefore about runs whose objects do not overlap.
-/
import Moonlight.Syscall.Confinement
import Moonlight.Syscall.Retype
import Moonlight.System.Step

namespace Moonlight

/-- The capability lies in a valid slot of some CNode. -/
def Kernel.Holds (k : Kernel) (c : Cap) : Prop :=
  ∃ r i, i < 256 ∧ (k.cnodes r).slots i = c ∧ c.isValid ≠ 0

/-- The capability goes back to one that `k` holds. -/
inductive Inherited (k : Kernel) (c : Cap) : Prop
  | copy {o : Cap} (ho : k.Holds o) (h : OriginOf o c)
  | object {o : Cap} {newType : CapType} {size : UInt64} (ho : k.Holds o)
      (hcan : capCanRetype o newType size = true)
      (h : OriginOf (capRetype o newType o.u.untypedPaddr size) c)

variable {env : BootEnv} {start k k' : Kernel}

theorem Inherited.attenuate {c c' : Cap} (h : Inherited start c)
    (hc : ∀ o, OriginOf o c → OriginOf o c') : Inherited start c' := by
  cases h with
  | copy ho h => exact .copy ho (hc _ h)
  | object ho hcan h => exact .object ho hcan (hc _ h)

/-- What a retype makes depends on nothing but the region of the Untyped. -/
theorem capRetype_congr {c o : Cap} {newType : CapType} {size : UInt64} (hu : c.u = o.u)
    (hc : capCanRetype c newType size = true) (ho : capCanRetype o newType size = true) :
    capRetype c newType c.u.untypedPaddr size = capRetype o newType o.u.untypedPaddr size := by
  rw [capRetype, capRetype, if_pos hc, if_pos ho, hu]

/-- An Untyped is no object of a retype, so what it makes goes back to the start as well. -/
theorem Inherited.retype {c : Cap} (h : Inherited start c) {newType : CapType} {size : UInt64}
    (hcan : capCanRetype c newType size = true) :
    Inherited start (capRetype c newType c.u.untypedPaddr size) := by
  obtain ⟨htype, hvalid, hsize, hnew, hpow, hpage⟩ := capCanRetype_iff.mp hcan
  cases h with
  | @copy o ho h =>
    have hcan' : capCanRetype o newType size = true := by
      refine capCanRetype_iff.mpr ⟨h.type_eq ▸ htype, ?_, h.u_eq ▸ hsize, hnew, hpow, hpage⟩
      obtain ⟨-, -, -, -, hv⟩ := ho
      exact hv
    rw [capRetype_congr h.u_eq hcan hcan']
    exact .object ho hcan' (originOf_refl _)
  | @object o newType' size' ho hcan' h =>
    have hobject : (capRetype o newType' o.u.untypedPaddr size').type = newType' := by
      rw [capRetype, if_pos hcan']
    exact absurd (hobject.symm.trans (h.type_eq.symm.trans htype))
      (capCanRetype_iff.mp hcan').2.2.2.1

/-! ### Every step -/

/-- Every valid capability goes back to the start. -/
def AllInherited (start k : Kernel) : Prop := ∀ c, k.Holds c → Inherited start c

theorem allInherited_start (k : Kernel) : AllInherited k k := fun c hc => .copy hc (originOf_refl c)

theorem AllInherited.of_cnodes (h : AllInherited start k) (hk : k'.cnodes = k.cnodes) :
    AllInherited start k' := by
  intro c hc
  unfold Kernel.Holds at hc
  rw [hk] at hc
  exact h c hc

theorem holds_of_lookup {idx : UInt32} {c : Cap} (hl : cnodeLookup k.root idx = some c) :
    k.Holds c := by
  obtain ⟨s, -, hs, hlt, hv, -⟩ := cnodeLookup_some hl
  exact ⟨.root, s, hlt, hs, hv⟩

theorem AllInherited.lookup (h : AllInherited start k) {idx : UInt32} {c : Cap}
    (hl : cnodeLookup k.root idx = some c) : Inherited start c := h c (holds_of_lookup hl)

/-- The root CNode may get other slots, as long as what is valid in them goes back to the
start. -/
theorem AllInherited.setRoot (h : AllInherited start k) {cn : CNode}
    (hcn : ∀ i, i < 256 → (cn.slots i).isValid ≠ 0 → Inherited start (cn.slots i)) :
    AllInherited start (k.setRoot cn) := by
  rintro c ⟨r, i, hi, rfl, hv⟩
  by_cases hr : r = .root
  · subst hr
    have hslots : (k.setRoot cn).cnodes .root = cn := k.setRoot_root cn
    rw [hslots] at hv ⊢
    exact hcn i hi hv
  · have hslots : (k.setRoot cn).cnodes r = k.cnodes r := Function.update_of_ne hr ..
    rw [hslots] at hv ⊢
    exact h _ ⟨r, i, hi, rfl, hv⟩

theorem AllInherited.root (h : AllInherited start k) {i : Nat} (hi : i < 256)
    (hv : (k.root.slots i).isValid ≠ 0) : Inherited start (k.root.slots i) :=
  h _ ⟨.root, i, hi, rfl, hv⟩

theorem AllInherited.addSlot (h : AllInherited start k) (d : Nat) {c : Cap}
    (hc : Inherited start c) : AllInherited start (k.setRoot (k.root.addSlot d c)) := by
  refine h.setRoot fun i hi hv => ?_
  have hslots : (k.root.addSlot d c).slots i = (k.root.setSlot d c).slots i := rfl
  rw [hslots] at hv ⊢
  by_cases hid : i = d
  · subst hid
    rw [CNode.setSlot_self]
    exact hc
  · rw [CNode.setSlot_ne hid] at hv ⊢
    exact h.root hi hv

theorem AllInherited.invoked (h : AllInherited start k) {cap : Cap} (hcap : Inherited start cap)
    {arg1 arg2 arg3 : UInt64} (hinv : Invoked k cap arg1 arg2 arg3 k') : AllInherited start k' := by
  cases hinv with
  | nothing => exact h
  | retype hallowed => exact (h.addSlot _ (hcap.retype hallowed.2.1)).of_cnodes rfl
  | copy _ hallowed =>
    obtain ⟨-, hl, hr, -⟩ := hallowed
    exact h.addSlot _ ((h.lookup hl).attenuate fun o ho => ho.copy hr)
  | mint _ hallowed =>
    obtain ⟨⟨-, hl, hr, -⟩, hg⟩ := hallowed
    exact h.addSlot _ ((h.lookup hl).attenuate fun o ho => ho.mint hr hg _)
  | @move slot _ hallowed =>
    obtain ⟨hlt, hv, -⟩ := cnodeLookupSlot_some hallowed.1
    refine h.setRoot fun i hi hvi => ?_
    by_cases his : i = slot
    · subst his
      rw [CNode.setSlot_self] at hvi
      exact absurd rfl hvi
    rw [CNode.setSlot_ne his] at hvi ⊢
    by_cases hid : i = (arg3 &&& 0xFF).toUInt32.toNat
    · subst hid
      rw [CNode.setSlot_self]
      exact h.root hlt hv
    · rw [CNode.setSlot_ne hid] at hvi ⊢
      exact h.root hi hvi
  | delete _ _ =>
    refine h.setRoot fun i hi hvi => ?_
    have hslots : (k.root.clearSlot (arg2 &&& 0xFF).toUInt32.toNat).slots i =
      (k.root.setSlot (arg2 &&& 0xFF).toUInt32.toNat Cap.zero).slots i := rfl
    rw [hslots] at hvi ⊢
    by_cases hid : i = (arg2 &&& 0xFF).toUInt32.toNat
    · subst hid
      rw [CNode.setSlot_self] at hvi
      exact absurd rfl hvi
    · rw [CNode.setSlot_ne hid] at hvi ⊢
      exact h.root hi hvi
  | thread _ _ => exact h.of_cnodes (setTcbAt_tablesKept ..).cnodes
  | bind _ => exact h.of_cnodes rfl
  | map _ _ _ => exact h.of_cnodes rfl
  | unmap _ => exact h.of_cnodes rfl

theorem AllInherited.scrub (h : AllInherited start k) {cspace : Option CNodeRef}
    (hk : k'.cnodes = scrubCspace k.cnodes cspace) : AllInherited start k' := by
  rintro c ⟨r, i, hi, rfl, hv⟩
  rw [hk] at hv ⊢
  by_cases hr : cspace = some r
  · subst hr
    -- what was valid has been zeroed, and the rest is still invalid
    have hslots : (scrubCspace k.cnodes (some r) r).slots i =
        if i < maxCapsPerCnode.toNat ∧ ((k.cnodes r).slots i).isValid ≠ 0 then Cap.zero
        else (k.cnodes r).slots i := by
      rw [scrubCspace, Function.update_self]
      rfl
    rw [hslots] at hv
    split_ifs at hv with hvalid
    · exact absurd rfl hv
    · exact absurd ⟨hi, hv⟩ hvalid
  · have hslots : scrubCspace k.cnodes cspace r = k.cnodes r := by
      cases cspace with
      | none => rfl
      | some r' => exact Function.update_of_ne (fun heq => hr (congrArg some heq.symm)) ..
    rw [hslots] at hv ⊢
    exact h _ ⟨r, i, hi, rfl, hv⟩

theorem AllInherited.step (h : AllInherited start k) {e : SystemEvent}
    (hstep : SystemStep env k e k') : AllInherited start k' := by
  cases hstep.cases with
  | refused => exact h
  | ipc heff => exact h.of_cnodes heff.tablesKept.cnodes
  | invoke hcap hinv => exact h.invoked (h _ hcap.held) hinv
  | tick => exact h.of_cnodes rfl
  | create => exact h.of_cnodes rfl
  | destroy _ => exact h.scrub rfl

/-! ### Objects apart -/

/-- The kernel with the memory of its objects: what is in use at the start, and one region
for each object that a retype has created. -/
structure CarvedKernel where
  kernel : Kernel
  objects : List (Set ℕ)

/-- The memory of a new object: the bytes asked for, or all that an object of its type takes
(`bytes`) when that is more. -/
def objectMemory (bytes : CapType → Nat) (cap : Cap) (newType : CapType) (size : UInt64) : Set ℕ :=
  Set.Ico cap.u.untypedPaddr.toNat
    (cap.u.untypedPaddr.toNat + max size.toNat (bytes newType))

/-- The trap is an invocation that retypes `cap`. -/
structure Trap.Retypes (k : Kernel) (t : Trap) (cap : Cap) : Prop where
  invokes : t.Invokes k .invoke cap
  op : InvokeOp.ofWord (t.frame.a1 &&& 0xFF) = .untypedRetype
  allowed : RetypeAllowed k cap t.frame.a1 t.frame.a2 t.frame.a3

/-- The memory of the objects that an event creates. -/
inductive Carves (bytes : CapType → Nat) (k : Kernel) : SystemEvent → List (Set ℕ) → Prop
  | retype {t : Trap} {cap : Cap} (h : t.Retypes k cap) :
      Carves bytes k (.trap t) [objectMemory bytes cap (CapType.ofWord t.frame.a2) t.frame.a3]
  | nothing {e : SystemEvent} (h : ∀ t cap, e = .trap t → ¬ t.Retypes k cap) : Carves bytes k e []

/-- No two objects overlap. -/
def ObjectsApart (objects : List (Set ℕ)) : Prop := objects.Pairwise Disjoint

/-- A step while the objects are apart is a step of the model.  Once two of them overlap,
the kernel may be in any state. -/
inductive CarvedStep (bytes : CapType → Nat) (env : BootEnv) (s : CarvedKernel) (e : SystemEvent) :
    CarvedKernel → Prop
  | apart {k' : Kernel} {regions : List (Set ℕ)} (hapart : ObjectsApart s.objects)
      (hstep : SystemStep env s.kernel e k') (hcarves : Carves bytes s.kernel e regions) :
      CarvedStep bytes env s e { kernel := k', objects := s.objects ++ regions }
  | overlap (hoverlap : ¬ ObjectsApart s.objects) (k' : Kernel) (regions : List (Set ℕ)) :
      CarvedStep bytes env s e { kernel := k', objects := s.objects ++ regions }

section
variable {bytes : CapType → Nat} {s s' : CarvedKernel} {e : SystemEvent}

/-- Objects that are apart after a step were apart before it, so the step was one of the
model. -/
theorem CarvedStep.systemStep (h : CarvedStep bytes env s e s') (hapart : ObjectsApart s'.objects) :
    ObjectsApart s.objects ∧ SystemStep env s.kernel e s'.kernel := by
  cases h with
  | apart hbefore hstep _ => exact ⟨hbefore, hstep⟩
  | overlap hoverlap _ _ => exact absurd (List.pairwise_append.mp hapart).1 hoverlap

theorem AllInherited.run {objects : List (Set ℕ)} {es : List SystemEvent}
    (hrun : Run.Steps (CarvedStep bytes env) { kernel := start, objects := objects } es s)
    (hapart : ObjectsApart s.objects) : AllInherited start s.kernel := by
  have hstep : ∀ s e s', CarvedStep bytes env s e s' →
      (ObjectsApart s.objects → AllInherited start s.kernel) →
      ObjectsApart s'.objects → AllInherited start s'.kernel := by
    intro s e s' hstep hs hapart'
    obtain ⟨hbefore, hsystem⟩ := hstep.systemStep hapart'
    exact (hs hbefore).step hsystem
  exact hrun.invariant hstep (fun _ => allInherited_start start) hapart

end

/-! ### Addresses -/

/-- The page that a Frame capability maps. -/
def framePage (c : Cap) : Set ℕ :=
  Set.Ico c.u.framePaddr.toNat (c.u.framePaddr.toNat + pageSize.toNat)

/-- What the capability stands for lies in `M`. -/
structure Within (M : Set ℕ) (c : Cap) : Prop where
  range : hwRange c ⊆ M
  region : c.type = .untyped → untypedRegion c ⊆ M
  page : c.type = .frame → framePage c ⊆ M

theorem Within.of_origin {M : Set ℕ} {o c : Cap} (ho : Within M o) (h : OriginOf o c) :
    Within M c := by
  refine ⟨?_, fun htype => ?_, fun htype => ?_⟩
  · unfold hwRange
    rw [h.hwCap_eq]
    exact ho.range
  · unfold untypedRegion
    rw [h.u_eq]
    exact ho.region (h.type_eq ▸ htype)
  · unfold framePage
    rw [h.u_eq]
    exact ho.page (h.type_eq ▸ htype)

/-- An object lies in the region it was carved out of: its range is empty where its end
would wrap, and one page always fits. -/
theorem Within.retype {M : Set ℕ} {o : Cap} (ho : Within M o) {newType : CapType} {size : UInt64}
    (hcan : capCanRetype o newType size = true) :
    Within M (capRetype o newType o.u.untypedPaddr size) := by
  obtain ⟨htype, -, hsize, hnew, -, hpage⟩ := capCanRetype_iff.mp hcan
  have hregion := ho.region htype
  have hle := UInt64.le_iff_toNat_le.mp hsize
  have hpage' : 4096 ≤ size.toNat := UInt64.le_iff_toNat_le.mp hpage
  rw [capRetype, if_pos hcan]
  refine ⟨fun a ha => hregion ?_, fun h => absurd h hnew, fun _ a ha => hregion ?_⟩
  · obtain ⟨hbase, htop⟩ : o.u.untypedPaddr.toNat ≤ a ∧ a < (o.u.untypedPaddr + size).toNat := ha
    rw [UInt64.toNat_add] at htop
    have hmod := Nat.mod_le (o.u.untypedPaddr.toNat + size.toNat) (2 ^ 64)
    exact ⟨hbase, by omega⟩
  · obtain ⟨hbase, htop⟩ : o.u.untypedPaddr.toNat ≤ a ∧ a < o.u.untypedPaddr.toNat + 4096 := ha
    exact ⟨hbase, by omega⟩

theorem Inherited.within {M : Set ℕ} (hstart : ∀ o, start.Holds o → Within M o) {c : Cap}
    (h : Inherited start c) : Within M c := by
  cases h with
  | copy ho h => exact (hstart _ ho).of_origin h
  | object ho hcan h => exact ((hstart _ ho).retype hcan).of_origin h

/-- A system call leaves the page tables alone, maps one page of `M`, or unmaps. -/
inductive MapsWithin (M : Set ℕ) (k : Kernel) : Kernel → Prop
  | kept {k' : Kernel} (hmem : k'.mem = k.mem) (hvspaces : k'.vspaces = k.vspaces) :
      MapsWithin M k k'
  | map {cap frame : Cap} (vaddr : UInt64) (hframe : k.Holds frame) (htype : frame.type = .frame)
      (hpage : framePage frame ⊆ M) : MapsWithin M k (k.mapFrame cap frame vaddr)
  | unmap (cap : Cap) (vaddr size : UInt64) : MapsWithin M k (k.unmap cap vaddr size)

theorem AllInherited.mapsWithin {M : Set ℕ} (h : AllInherited start k)
    (hstart : ∀ o, start.Holds o → Within M o) {t : Trap} (hstep : t.after k = some k') :
    MapsWithin M k k' := by
  obtain rfl | heff | ⟨cap, -, rfl⟩ := Trap.after_cases hstep
  · exact .kept rfl rfl
  · exact .kept heff.tablesKept.mem heff.tablesKept.vspaces
  have hinv := handleInvoke_invoked k cap t.frame.a1 t.frame.a2 t.frame.a3
    (InvokeOp.ofWord (t.frame.a1 &&& 0xFF))
  generalize (handleInvoke k cap (InvokeOp.ofWord (t.frame.a1 &&& 0xFF)) t.frame.a1 t.frame.a2
    t.frame.a3).2 = k₁ at hinv ⊢
  cases hinv with
  | nothing => exact .kept rfl rfl
  | retype _ => exact .kept rfl rfl
  | copy _ _ => exact .kept rfl rfl
  | mint _ _ => exact .kept rfl rfl
  | move _ _ => exact .kept rfl rfl
  | delete _ _ => exact .kept rfl rfl
  | thread _ _ =>
    have hkept := setTcbAt_tablesKept k cap.u.tcbPtr
    exact .kept (hkept _).mem (hkept _).vspaces
  | bind _ => exact .kept rfl rfl
  | map _ hframe htype =>
    exact .map _ (holds_of_lookup hframe) htype (((h.lookup hframe).within hstart).page htype)
  | unmap _ => exact .unmap ..

/-- In every state that traps, ticks, creations and destructions lead to while the kernel's
objects are apart, each valid capability goes back to one of the start.  Whatever addresses
enclose the capabilities of the start enclose the later ones, and every page that a later
system call maps. -/
theorem authority_confined {bytes : CapType → Nat} {objects : List (Set ℕ)}
    {es : List SystemEvent} {s : CarvedKernel}
    (hrun : Run.Steps (CarvedStep bytes env) { kernel := start, objects := objects } es s)
    (hapart : ObjectsApart s.objects) :
    (∀ c, s.kernel.Holds c → Inherited start c) ∧
    ∀ M : Set ℕ, (∀ o, start.Holds o → Within M o) →
      (∀ c, s.kernel.Holds c → Within M c) ∧
      ∀ (t : Trap) (k' : Kernel), t.after s.kernel = some k' → MapsWithin M s.kernel k' := by
  have hall := AllInherited.run hrun hapart
  exact ⟨hall, fun M hstart => ⟨fun c hc => (hall c hc).within hstart,
    fun t k' hstep => hall.mapsWithin hstart hstep⟩⟩

/-- The first thread boot creates carves a Frame out of the root Untyped. -/
def carvingTrap : Trap := { frame := fallbackRetype, cur := 0, entry := 0, now := 0 }

theorem carvingTrap_retypes :
    ∃ cap, carvingTrap.Retypes (bootKernel plainBoot) cap ∧ cap.u.untypedPaddr = 0x90000000 := by
  have hsome : (invokedCap (bootKernel plainBoot) ((bootKernel plainBoot).tcbs.threads 0) .invoke
      fallbackRetype).map (fun cap => (decide (RetypeAllowed (bootKernel plainBoot) cap 0x600 5 4096),
        cap.u.untypedPaddr)) = some (true, 0x90000000) := by decide +kernel
  obtain ⟨cap, hcap, hres⟩ := Option.map_eq_some_iff.mp hsome
  obtain ⟨hallowed, hpaddr⟩ := Prod.mk.inj hres
  have hinvokes : carvingTrap.Invokes (bootKernel plainBoot) .invoke cap :=
    Trap.Invokes.of_checks (by decide) (by decide +kernel) hcap (by decide +kernel)
  exact ⟨cap, ⟨hinvokes, by decide, of_decide_eq_true hallowed⟩, hpaddr⟩

/-- All of the kernel's own memory, with the pages of the pool, lies below the Untyped. -/
def kernelMemory : Set ℕ := Set.Ico 0x80000000 0x90000000

theorem authority_confined_retype :
    ∃ s, Run.Steps (CarvedStep (fun _ => 8192) plainBoot)
        { kernel := bootKernel plainBoot, objects := [kernelMemory] }
        [.trap carvingTrap, .tick 500] s ∧ ObjectsApart s.objects ∧
      s.kernel.Holds (s.kernel.root.slots 6) ∧
      Inherited (bootKernel plainBoot) (s.kernel.root.slots 6) := by
  have hretype : (carvingTrap.after (bootKernel plainBoot)).map
      (fun k => (k.root.slots 6).isValid) = some 1 := by decide +kernel
  obtain ⟨k, hafter, hvalid⟩ := Option.map_eq_some_iff.mp hretype
  obtain ⟨cap, hcarves, hpaddr⟩ := carvingTrap_retypes
  have hregion : objectMemory (fun _ => 8192) cap (CapType.ofWord carvingTrap.frame.a2)
      carvingTrap.frame.a3 = Set.Ico 0x90000000 0x90002000 := by
    rw [objectMemory, hpaddr]
    rfl
  have hapart : ObjectsApart [kernelMemory, objectMemory (fun _ => 8192) cap
      (CapType.ofWord carvingTrap.frame.a2) carvingTrap.frame.a3] := by
    rw [hregion]
    refine List.pairwise_pair.mpr (Set.disjoint_left.mpr fun a ha ha' => ?_)
    exact Nat.not_lt.mpr ha'.1 ha.2
  have hrun : Run.Steps (CarvedStep (fun _ => 8192) plainBoot)
      { kernel := bootKernel plainBoot, objects := [kernelMemory] } [.trap carvingTrap, .tick 500]
      { kernel := { k with sched := schedTick k.sched 500 }
        objects := [kernelMemory] ++ [objectMemory (fun _ => 8192) cap
          (CapType.ofWord carvingTrap.frame.a2) carvingTrap.frame.a3] ++ [] } :=
    .cons (.apart (List.pairwise_singleton _ _) hafter (.retype hcarves))
      (.cons (.apart hapart rfl (.nothing fun _ _ h => nomatch h)) .nil)
  have hholds : Kernel.Holds { k with sched := schedTick k.sched 500 } (k.root.slots 6) :=
    ⟨.root, 6, by decide, rfl, by rw [hvalid]; decide⟩
  exact ⟨_, hrun, hapart, hholds, (authority_confined hrun hapart).1 _ hholds⟩

end Moonlight
