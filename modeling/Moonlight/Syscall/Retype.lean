/-
What Untyped memory is handed out.

`cap_retype` carves every object from the start of the region and nothing records
how much of it is taken, so the objects made from one Untyped all begin at its
base.  Objects made from different Untypeds lie in different regions.  The
created capabilities of a run are therefore disjoint exactly when no Untyped
serves twice, up to ranges that are empty because their end wraps.
-/
import Mathlib.Order.CompletePartialOrder
import Mathlib.Order.Interval.Set.Disjoint
import Moonlight.Lib.Run
import Moonlight.Syscall.Kernel

namespace Moonlight

/-- `[hw_cap.base, hw_cap.top)`. -/
def hwRange (c : Cap) : Set ℕ := Set.Ico c.hwCap.base.toNat c.hwCap.top.toNat

/-- The region of an Untyped capability. -/
def untypedRegion (c : Cap) : Set ℕ :=
  Set.Ico c.u.untypedPaddr.toNat (c.u.untypedPaddr.toNat + c.u.untypedSize.toNat)

section
variable {ι : Type}

/-- An invocation of the Untyped capability number `src`. -/
structure RetypeCall (ι : Type) where
  src : ι
  arg1 : UInt64
  arg2 : UInt64
  arg3 : UInt64

/-- A capability that a retype created. -/
structure Created (ι : Type) where
  src : ι
  slot : Nat
  size : UInt64

structure RetypeRun (ι : Type) where
  kernel : Kernel
  created : List (Created ι)

variable (ut : ι → Cap)

def RetypeCall.invoke (k : Kernel) (c : RetypeCall ι) : KError × Kernel :=
  handleInvoke k (ut c.src) .untypedRetype c.arg1 c.arg2 c.arg3

def retypeStep (s : RetypeRun ι) (c : RetypeCall ι) : RetypeRun ι :=
  let r := c.invoke ut s.kernel
  { kernel := r.2
    created :=
      if r.1 = .ok then
        s.created ++ [{ src := c.src, slot := (retypeDest c.arg1).toNat, size := c.arg3 }]
      else s.created }

/-- Any two created capabilities that are still valid have disjoint ranges. -/
def CreatedDisjoint (s : RetypeRun ι) : Prop :=
  s.created.Pairwise fun a b =>
    (s.kernel.root.slots a.slot).isValid ≠ 0 → (s.kernel.root.slots b.slot).isValid ≠ 0 →
      Disjoint (hwRange (s.kernel.root.slots a.slot)) (hwRange (s.kernel.root.slots b.slot))

/-- An object of this size at the start of the region ends below `2 ^ 64`. -/
def EndsInRange (cap : Cap) (size : UInt64) : Prop :=
  cap.u.untypedPaddr.toNat + size.toNat < 2 ^ 64

/-- The two objects do not come from one Untyped, or one of them is empty. -/
def NotShared (a b : Created ι) : Prop :=
  a.src = b.src → ¬ (EndsInRange (ut a.src) a.size ∧ EndsInRange (ut b.src) b.size)

/-- The call does not carve a second object from an Untyped. -/
def FirstUse (s : RetypeRun ι) (c : RetypeCall ι) : Prop :=
  RetypeAllowed s.kernel (ut c.src) c.arg1 c.arg2 c.arg3 →
    ∀ a ∈ s.created, a.src = c.src →
      ¬ (EndsInRange (ut a.src) a.size ∧ EndsInRange (ut c.src) c.arg3)

/-- What the root CNode holds for a created capability. -/
structure CreatedOk (k : Kernel) (a : Created ι) : Prop where
  valid : (k.root.slots a.slot).isValid ≠ 0
  base : (k.root.slots a.slot).hwCap.base = (ut a.src).u.untypedPaddr
  top : (k.root.slots a.slot).hwCap.top = (ut a.src).u.untypedPaddr + a.size
  size_le : a.size ≤ (ut a.src).u.untypedSize
  size_pos : 0 < a.size.toNat

/-- The root CNode holds every created capability. -/
def AllCreatedOk (s : RetypeRun ι) : Prop := ∀ a ∈ s.created, CreatedOk ut s.kernel a

theorem retypeStep_cases (s : RetypeRun ι) (c : RetypeCall ι) :
    (RetypeAllowed s.kernel (ut c.src) c.arg1 c.arg2 c.arg3 ∧ retypeStep ut s c =
      { kernel := s.kernel.retype (ut c.src) c.arg1 c.arg2 c.arg3
        created := s.created ++
          [{ src := c.src, slot := (retypeDest c.arg1).toNat, size := c.arg3 }] }) ∨
    (¬ RetypeAllowed s.kernel (ut c.src) c.arg1 c.arg2 c.arg3 ∧ retypeStep ut s c = s) := by
  unfold retypeStep RetypeCall.invoke
  obtain ⟨hallowed, heq⟩ | ⟨hnot, e, hne, heq⟩ :=
    handleInvoke_retype_cases s.kernel (ut c.src) c.arg1 c.arg2 c.arg3
  · exact Or.inl ⟨hallowed, by simp [heq]⟩
  · exact Or.inr ⟨hnot, by simp [heq, hne]⟩

variable {ut}

theorem retype_root_slots (k : Kernel) (cap : Cap) (arg1 arg2 arg3 : UInt64) :
    (k.retype cap arg1 arg2 arg3).root.slots =
      Function.update k.root.slots (retypeDest arg1).toNat
        (capRetype cap (CapType.ofWord arg2) cap.u.untypedPaddr arg3) := by
  rw [Kernel.retype_root]
  rfl

theorem createdOk_retype_self {k : Kernel} {c : RetypeCall ι}
    (h : RetypeAllowed k (ut c.src) c.arg1 c.arg2 c.arg3) :
    CreatedOk ut (k.retype (ut c.src) c.arg1 c.arg2 c.arg3)
      { src := c.src, slot := (retypeDest c.arg1).toNat, size := c.arg3 } := by
  obtain ⟨-, -, hle, -, -, hmin⟩ := capCanRetype_iff.mp h.2.1
  have hpos : 4096 ≤ c.arg3.toNat := UInt64.le_iff_toNat_le.mp hmin
  refine ⟨?_, ?_, ?_, hle, by show 0 < c.arg3.toNat; omega⟩
  all_goals
    rw [retype_root_slots, Function.update_self, capRetype, if_pos h.2.1]
  simp

/-- A created capability stays: its slot is in use, and a retype needs a free
one. -/
theorem CreatedOk.retype {k : Kernel} {a : Created ι} (ha : CreatedOk ut k a)
    {c : RetypeCall ι} (h : RetypeAllowed k (ut c.src) c.arg1 c.arg2 c.arg3) :
    CreatedOk ut (k.retype (ut c.src) c.arg1 c.arg2 c.arg3) a := by
  have hne : a.slot ≠ (retypeDest c.arg1).toNat := by
    intro heq
    exact ha.valid (by rw [heq]; exact h.2.2)
  have hslot : (k.retype (ut c.src) c.arg1 c.arg2 c.arg3).root.slots a.slot =
      k.root.slots a.slot := by
    rw [retype_root_slots, Function.update_of_ne hne]
  exact ⟨by rw [hslot]; exact ha.valid, by rw [hslot]; exact ha.base, by rw [hslot]; exact ha.top,
    ha.size_le, ha.size_pos⟩

theorem retypeStep_allCreatedOk (s : RetypeRun ι) (c : RetypeCall ι) (h : AllCreatedOk ut s) :
    AllCreatedOk ut (retypeStep ut s c) := by
  obtain ⟨hallowed, heq⟩ | ⟨-, heq⟩ := retypeStep_cases ut s c
  · rw [heq]
    intro a ha
    rw [List.mem_append, List.mem_singleton] at ha
    rcases ha with ha | rfl
    · exact (h a ha).retype hallowed
    · exact createdOk_retype_self hallowed
  · rw [heq]
    exact h

/-! ### Ranges of created capabilities -/

/-- A created range lies in its Untyped's region; it is empty when its end
wraps. -/
theorem CreatedOk.hwRange_eq {k : Kernel} {a : Created ι} (h : CreatedOk ut k a) :
    (EndsInRange (ut a.src) a.size ∧ hwRange (k.root.slots a.slot) =
      Set.Ico (ut a.src).u.untypedPaddr.toNat
        ((ut a.src).u.untypedPaddr.toNat + a.size.toNat)) ∨
    (¬ EndsInRange (ut a.src) a.size ∧ hwRange (k.root.slots a.slot) = ∅) := by
  have hlt := (ut a.src).u.untypedPaddr.toNat_lt
  have hsize := a.size.toNat_lt
  unfold hwRange EndsInRange
  rw [h.base, h.top, UInt64.toNat_add]
  by_cases hwrap : (ut a.src).u.untypedPaddr.toNat + a.size.toNat < 2 ^ 64
  · refine Or.inl ⟨hwrap, ?_⟩
    rw [Nat.mod_eq_of_lt hwrap]
  · refine Or.inr ⟨hwrap, Set.Ico_eq_empty ?_⟩
    omega

theorem CreatedOk.hwRange_subset {k : Kernel} {a : Created ι} (h : CreatedOk ut k a) :
    hwRange (k.root.slots a.slot) ⊆ untypedRegion (ut a.src) := by
  obtain ⟨-, heq⟩ | ⟨-, heq⟩ := h.hwRange_eq
  · rw [heq]
    refine Set.Ico_subset_Ico_right ?_
    have := UInt64.le_iff_toNat_le.mp h.size_le
    omega
  · rw [heq]
    exact Set.empty_subset _

/-- Two created ranges are disjoint exactly when they do not share an Untyped. -/
theorem disjoint_hwRange_iff
    (hregions : ∀ i j, i ≠ j → Disjoint (untypedRegion (ut i)) (untypedRegion (ut j)))
    {k : Kernel} {a b : Created ι} (ha : CreatedOk ut k a) (hb : CreatedOk ut k b) :
    Disjoint (hwRange (k.root.slots a.slot)) (hwRange (k.root.slots b.slot)) ↔
      NotShared ut a b := by
  constructor
  · rintro hdisj hsrc ⟨hina, hinb⟩
    obtain ⟨-, heqa⟩ | ⟨hnot, -⟩ := ha.hwRange_eq
    swap
    · exact hnot hina
    obtain ⟨-, heqb⟩ | ⟨hnot, -⟩ := hb.hwRange_eq
    swap
    · exact hnot hinb
    -- both objects start at the first byte of the region
    rw [heqa, heqb, hsrc, Set.disjoint_left] at hdisj
    have hposa := ha.size_pos
    have hposb := hb.size_pos
    have hmem : ∀ n, 0 < n → (ut b.src).u.untypedPaddr.toNat ∈
        Set.Ico (ut b.src).u.untypedPaddr.toNat ((ut b.src).u.untypedPaddr.toNat + n) :=
      fun n hn => ⟨Nat.le_refl _, by omega⟩
    exact hdisj (hmem _ hposa) (hmem _ hposb)
  · intro hshared
    by_cases hsrc : a.src = b.src
    · rcases not_and_or.mp (hshared hsrc) with hnot | hnot
      · obtain ⟨hin, -⟩ | ⟨-, heq⟩ := ha.hwRange_eq
        · exact absurd hin hnot
        · rw [heq]
          exact Set.empty_disjoint _
      · obtain ⟨hin, -⟩ | ⟨-, heq⟩ := hb.hwRange_eq
        · exact absurd hin hnot
        · rw [heq]
          exact Set.disjoint_empty _
    · exact (hregions _ _ hsrc).mono ha.hwRange_subset hb.hwRange_subset

/-! ### Runs -/

theorem createdDisjoint_iff
    (hregions : ∀ i j, i ≠ j → Disjoint (untypedRegion (ut i)) (untypedRegion (ut j)))
    {s : RetypeRun ι} (h : AllCreatedOk ut s) :
    CreatedDisjoint s ↔ s.created.Pairwise (NotShared ut) := by
  unfold CreatedDisjoint
  refine List.Pairwise.iff_of_mem ?_
  intro a b ha hb
  rw [← disjoint_hwRange_iff hregions (h a ha) (h b hb)]
  exact ⟨fun hd => hd (h a ha).valid (h b hb).valid, fun hd _ _ => hd⟩

/-- The created list of a run stays free of shared Untypeds exactly when every
call is a first use. -/
theorem pairwise_notShared_iff (s : RetypeRun ι) (calls : List (RetypeCall ι)) :
    (Run.exec (retypeStep ut) s calls).created.Pairwise (NotShared ut) ↔
      s.created.Pairwise (NotShared ut) ∧ Run.Guarded (retypeStep ut) (FirstUse ut) s calls := by
  induction calls generalizing s with
  | nil => simp [Run.Guarded]
  | cons c calls ih =>
    rw [Run.exec_cons, ih, Run.Guarded, ← and_assoc]
    refine and_congr_left fun _ => ?_
    obtain ⟨hallowed, heq⟩ | ⟨hnot, heq⟩ := retypeStep_cases ut s c
    · rw [heq, List.pairwise_append]
      simp only [List.pairwise_singleton, List.mem_singleton, forall_eq, true_and]
      refine and_congr_right fun _ => ?_
      exact ⟨fun h _ => h, fun h => h hallowed⟩
    · rw [heq]
      exact ⟨fun h => ⟨h, fun hallowed => absurd hallowed hnot⟩, fun h => h.1⟩

end

/-- The capabilities a run of retypes creates from Untypeds with disjoint regions
are pairwise disjoint if and only if no call that passes the checks carves a
second non-empty object from one Untyped. -/
theorem retypes_disjoint_iff {ι : Type} {ut : ι → Cap}
    (hregions : ∀ i j, i ≠ j → Disjoint (untypedRegion (ut i)) (untypedRegion (ut j)))
    (k : Kernel) (calls : List (RetypeCall ι)) :
    CreatedDisjoint (Run.exec (retypeStep ut) { kernel := k, created := [] } calls) ↔
      Run.Guarded (retypeStep ut) (FirstUse ut) { kernel := k, created := [] } calls := by
  have hok : AllCreatedOk ut (Run.exec (retypeStep ut) { kernel := k, created := [] } calls) :=
    Run.exec_invariant_of_forall retypeStep_allCreatedOk calls fun a ha => by cases ha
  rw [createdDisjoint_iff hregions hok, pairwise_notShared_iff]
  simp

/-- Memory without allocators or page tables. -/
def Memory.blank : Memory :=
  { allocs := fun _ => allocInit 0 0, words := fun _ => 0, fallbackPool := 0, fallbackNext := 0 }

def blankKernel : Kernel :=
  Kernel.initial 0 schedInit Memory.blank fun _ => VSpace.empty 0 0 0

/-- The boot Untyped, and a second one behind it. -/
def twoUntypeds : Bool → Cap
  | false => bootUntyped
  | true => { bootUntyped with u := { w0 := 0x90400000, w1 := 0x400000, w2 := 0, w3 := 0 } }

/-- One Frame from each of two Untypeds. -/
theorem retypes_disjoint_two_untypeds :
    CreatedDisjoint (Run.exec (retypeStep twoUntypeds) { kernel := blankKernel, created := [] }
      [{ src := false, arg1 := 0x600, arg2 := 5, arg3 := 4096 },
       { src := true, arg1 := 0x700, arg2 := 5, arg3 := 4096 }]) := by
  have hregions : ∀ i j, i ≠ j →
      Disjoint (untypedRegion (twoUntypeds i)) (untypedRegion (twoUntypeds j)) := by
    intro i j hij
    rw [untypedRegion, untypedRegion, Set.Ico_disjoint_Ico]
    revert hij
    revert i j
    decide
  refine (retypes_disjoint_iff hregions blankKernel _).mpr ⟨?_, ?_, trivial⟩
  · intro _ a ha
    cases ha
  · intro _ a ha hsrc
    obtain ⟨-, heq⟩ | ⟨-, heq⟩ := retypeStep_cases twoUntypeds
      { kernel := blankKernel, created := [] }
      { src := false, arg1 := 0x600, arg2 := 5, arg3 := 4096 }
    · rw [heq, List.nil_append, List.mem_singleton] at ha
      rw [ha] at hsrc
      cases hsrc
    · rw [heq] at ha
      cases ha

/-- Two ranges that begin alike and are not empty meet. -/
theorem not_disjoint_of_base_eq {c d : Cap} (hbase : c.hwCap.base = d.hwCap.base)
    (hc : c.hwCap.base < c.hwCap.top) (hd : d.hwCap.base < d.hwCap.top) :
    ¬ Disjoint (hwRange c) (hwRange d) := by
  intro hdisj
  have hmem : c.hwCap.base.toNat ∈ hwRange c := ⟨Nat.le_refl _, UInt64.lt_iff_toNat_lt.mp hc⟩
  refine Set.disjoint_left.mp hdisj hmem ?_
  rw [hbase]
  exact ⟨Nat.le_refl _, UInt64.lt_iff_toNat_lt.mp hd⟩

/-- A Frame and a TCB carved from the boot Untyped, one after the other, cover
the same page. -/
theorem retypes_overlap_same_untyped :
    (∀ i j : Unit, i ≠ j → Disjoint (untypedRegion bootUntyped) (untypedRegion bootUntyped)) ∧
    ¬ CreatedDisjoint (Run.exec (retypeStep fun _ : Unit => bootUntyped)
      { kernel := blankKernel, created := [] }
      [{ src := (), arg1 := 0x600, arg2 := 5, arg3 := 4096 },
       { src := (), arg1 := 0x700, arg2 := 3, arg3 := 4096 }]) := by
  refine ⟨fun i j hij => absurd rfl hij, ?_⟩
  intro hdisj
  have hpair := List.pairwise_iff_getElem.mp hdisj 0 1 (by decide +kernel) (by decide +kernel)
    (by decide)
  exact not_disjoint_of_base_eq (by decide +kernel) (by decide +kernel) (by decide +kernel)
    (hpair (by decide +kernel) (by decide +kernel))

end Moonlight
