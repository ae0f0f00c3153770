/-
Address spaces over one allocator, each a map of its own.

`Spaces.Inv` says that no two address spaces have a page-table frame in common.  Here the
tables themselves are added: those of each address space form a tree over the frames it
has recorded.  So a call on one address space cannot be seen in another, and what the call
does to its own is what it would do alone.
-/
import Moonlight.Memory.PageLoops
import Moonlight.Memory.PageTableFrames

namespace Moonlight

/-- The address space has recorded a frame that starts at `p`. -/
def VSpace.Owns (vs : VSpace) (p : UInt64) : Prop :=
  ∃ k, k < vs.ptCapsCount.toNat ∧ (vs.ptCaps k).u.framePaddr = p

theorem recordPage_owns {vs : VSpace} (h : vs.ptCapsCount < 64) (c : Cap) (p : UInt64) :
    (vs.recordPage c).Owns p ↔ vs.Owns p ∨ c.u.framePaddr = p := by
  have hcount : (vs.recordPage c).ptCapsCount.toNat = vs.ptCapsCount.toNat + 1 :=
    toNat_succ_of_lt h
  have hnew : (vs.recordPage c).ptCaps vs.ptCapsCount.toNat = c := Function.update_self ..
  have hold : ∀ k, k ≠ vs.ptCapsCount.toNat → (vs.recordPage c).ptCaps k = vs.ptCaps k :=
    fun k hk => Function.update_of_ne hk ..
  constructor
  · rintro ⟨k, hk, hp⟩
    by_cases hlast : k = vs.ptCapsCount.toNat
    · rw [hlast, hnew] at hp
      exact Or.inr hp
    · rw [hold k hlast] at hp
      exact Or.inl ⟨k, by omega, hp⟩
  · rintro (⟨k, hk, hp⟩ | hp)
    · refine ⟨k, by omega, ?_⟩
      rw [hold k (by omega)]
      exact hp
    · refine ⟨vs.ptCapsCount.toNat, by omega, ?_⟩
      rw [hnew]
      exact hp

namespace Spaces

variable {alloc : UInt64} {base top : Nat} {s : Spaces} {i : Nat}

/-! ### Owners -/

theorem Inv.owns_aligned (h : s.Inv alloc base top) (hi : i < s.count) {p : UInt64}
    (hp : (s.vs i).Owns p) : PageAligned p := by
  obtain ⟨k, hk, rfl⟩ := hp
  exact (h.frame i k ⟨hi, hk⟩).aligned

/-- A frame is recorded once: two records of one address are the same record. -/
theorem Inv.record_unique (h : s.Inv alloc base top) {j k l : Nat} (hik : s.Recorded i k)
    (hjl : s.Recorded j l)
    (heq : ((s.vs i).ptCaps k).u.framePaddr = ((s.vs j).ptCaps l).u.framePaddr) :
    (i, k) = (j, l) := by
  by_contra hne
  have hdisj := h.apart i k j l hik hjl hne
  have hmem : ((s.vs i).ptCaps k).u.framePaddr.toNat ∈ ((s.vs i).ptCaps k).pageRange :=
    ⟨Nat.le_refl _, by omega⟩
  have hmem' : ((s.vs i).ptCaps k).u.framePaddr.toNat ∈ ((s.vs j).ptCaps l).pageRange := by
    rw [heq]
    exact ⟨Nat.le_refl _, by omega⟩
  exact Set.disjoint_left.mp hdisj hmem hmem'

theorem Inv.owner_unique (h : s.Inv alloc base top) {j : Nat} (hi : i < s.count)
    (hj : j < s.count) {p : UInt64} (hip : (s.vs i).Owns p) (hjp : (s.vs j).Owns p) : i = j := by
  obtain ⟨k, hk, heq⟩ := hip
  obtain ⟨l, hl, heq'⟩ := hjp
  exact (Prod.mk.inj (h.record_unique ⟨hi, hk⟩ ⟨hj, hl⟩ (heq.trans heq'.symm))).1

/-- The records are in order with address space `i` at `m` and `vs` by now. -/
structure FrameBooks (alloc : UInt64) (base top : Nat) (s : Spaces) (i : Nat) (m : Memory)
    (vs : VSpace) : Prop where
  alloc_ne : alloc ≠ 0
  index : i < s.count
  inv : (s.put i m vs).Inv alloc base top

variable {m m' : Memory} {vs vs' : VSpace} {label : UInt64 → Option (List UInt64)}

theorem FrameBooks.owns_aligned (h : FrameBooks alloc base top s i m vs) {p : UInt64}
    (hp : vs.Owns p) : PageAligned p := by
  refine h.inv.owns_aligned (i := i) h.index ?_
  rw [put_vs_self]
  exact hp

/-- The frame recorded last is none of those recorded before it. -/
theorem Inv.last_fresh {c : Cap} (h : (s.put i m (vs.recordPage c)).Inv alloc base top)
    (hi : i < s.count) (hcount : vs.ptCapsCount < 64) : ¬ vs.Owns c.u.framePaddr := by
  rintro ⟨k, hk, hp⟩
  have hsucc : (vs.recordPage c).ptCapsCount.toNat = vs.ptCapsCount.toNat + 1 :=
    toNat_succ_of_lt hcount
  have hself := put_vs_self s i m (vs.recordPage c)
  have hne : k ≠ vs.ptCapsCount.toNat := by omega
  have hrec : ∀ l, l < vs.ptCapsCount.toNat + 1 →
      (s.put i m (vs.recordPage c)).Recorded i l := by
    intro l hl
    refine ⟨hi, ?_⟩
    rw [hself, hsucc]
    exact hl
  -- the old record and the new one would have the same address
  have huniq := h.record_unique (hrec k (by omega)) (hrec vs.ptCapsCount.toNat (by omega))
  have hold : (vs.recordPage c).ptCaps k = vs.ptCaps k := Function.update_of_ne hne ..
  have hnew : (vs.recordPage c).ptCaps vs.ptCapsCount.toNat = c := Function.update_self ..
  rw [hself, hold, hnew] at huniq
  exact hne (Prod.mk.inj (huniq hp)).2

theorem FrameBooks.page (h : FrameBooks alloc base top s i m vs) :
    allocPtPage m vs = (0, m, vs) ∨
    ∃ p m' vs', allocPtPage m vs = (p, m', vs') ∧
      PageTaken (FrameBooks alloc base top s i) (fun _ vs => vs.Owns) m vs p m' vs' := by
  have hvs : (s.put i m vs).vs i = vs := put_vs_self ..
  have hshared : vs.alloc = alloc := hvs ▸ h.inv.shared i h.index
  have hbooks := h.inv.page h.alloc_ne (i := i) h.index
  rw [hvs, put_put] at hbooks
  change (s.put i (allocPtPage m vs).2.1 (allocPtPage m vs).2.2).Inv alloc base top at hbooks
  have houtcome := allocPtPage_outcome m vs
  generalize allocPtPage m vs = r at hbooks houtcome ⊢
  cases houtcome with
  | refused => exact Or.inl rfl
  | pool c hnull => exact absurd (hshared.symm.trans hnull) h.alloc_ne
  | @frame c a _ hcount =>
    exact Or.inr ⟨_, _, _, rfl, ⟨h.alloc_ne, h.index, hbooks⟩, rfl, rfl, rfl,
      Inv.last_fresh hbooks h.index hcount,
      fun hq => (recordPage_owns hcount c _).mpr (Or.inl hq),
      (recordPage_owns hcount c _).mpr (Or.inr rfl)⟩

/-- The account of an address space that shares its allocator: the frames it has recorded. -/
def frameBooks (alloc : UInt64) (base top : Nat) (s : Spaces) (i : Nat) : PageBooks where
  Ok := FrameBooks alloc base top s i
  Owns := fun _ vs => vs.Owns
  aligned := fun h hp => h.owns_aligned hp
  ok_words := fun _ h =>
    ⟨h.alloc_ne, h.index, h.inv.congr ⟨rfl, rfl, fun _ => ⟨rfl, rfl, rfl, rfl, rfl⟩⟩⟩
  owns_words := fun _ h => h
  page := FrameBooks.page

/-- The tables of address space `i`, whose state is `m` and `vs` by now, form a tree over
the frames it has recorded. -/
abbrev Tree (alloc : UInt64) (base top : Nat) (s : Spaces) (i : Nat) (m : Memory) (vs : VSpace)
    (label : UInt64 → Option (List UInt64)) : Prop :=
  Tables (frameBooks alloc base top s i) m vs label

/-- The frames of the other address spaces have not changed. -/
def OthersKept (s : Spaces) (i : Nat) (words words' : UInt64 → UInt64) : Prop :=
  ∀ j, j < s.count → j ≠ i → ∀ q x, (s.vs j).Owns q → IsIndex x →
    words' (pteAddr q x) = words (pteAddr q x)

theorem OthersKept.refl (s : Spaces) (i : Nat) (words : UInt64 → UInt64) :
    OthersKept s i words words := fun _ _ _ _ _ _ _ => rfl

/-- A frame of another address space is none of the frames of this one. -/
theorem FrameBooks.other_owns (h : FrameBooks alloc base top s i m vs) {j : Nat} (hj : j < s.count)
    (hne : j ≠ i) {q : UInt64} (hq : (s.vs j).Owns q) : PageAligned q ∧ ¬ vs.Owns q := by
  have hq' : ((s.put i m vs).vs j).Owns q := by
    rw [put_vs_ne hne]
    exact hq
  refine ⟨h.inv.owns_aligned hj hq', fun hown => ?_⟩
  refine hne (h.inv.owner_unique hj h.index hq' ?_)
  rw [put_vs_self]
  exact hown

/-- What an address space does to its own frames is not seen in the others. -/
theorem FrameBooks.othersKept (h : FrameBooks alloc base top s i m' vs')
    (hown : WritesOwn (frameBooks alloc base top s i) m vs m' vs') :
    OthersKept s i m.words m'.words := by
  intro j hj hne q x hq hx
  obtain ⟨haligned, hnot⟩ := h.other_owns hj hne hq
  exact hown.outside haligned hx hnot

/-! ### Runs -/

end Spaces

/-- A creation or a mapping, or an unmapping. -/
inductive SpaceOp where
  | call (c : SpaceCall)
  | unmap (i : Nat) (vaddr size : UInt64)

namespace Spaces

def stepOp (alloc : UInt64) (s : Spaces) : SpaceOp → Spaces
  | .call c => s.step alloc c
  | .unmap i vaddr size =>
      if i < s.count then { s with mem := (vspaceUnmap s.mem (s.vs i) vaddr size).2 } else s

/-- The address space as a partial map. -/
def translates (s : Spaces) (i : Nat) (va : UInt64) : Option UInt64 :=
  vspaceResolve s.mem (s.vs i) va

/-- The address space a call is about. -/
def target (s : Spaces) : SpaceOp → Nat
  | .call (.create ..) => s.count
  | .call (.map i ..) => i
  | .unmap i .. => i

/-- What a call does to the partial map of its own address space. -/
def OwnEffect (s s' : Spaces) : SpaceOp → Prop
  | .call (.create ..) => ∀ va, s'.translates s.count va = none
  | .call (.map i vaddr paddr size perms color) =>
      ∃ k, k ≤ size.toNat / 4096 ∧
        ((vspaceMap s.mem (s.vs i) vaddr paddr size perms color).1 = .ok →
          k = size.toNat / 4096) ∧
        MapsPrefix ⟨s.mem, s.vs i⟩ ⟨s'.mem, s'.vs i⟩ vaddr paddr k
  | .unmap i vaddr size =>
      ((vspaceUnmap s.mem (s.vs i) vaddr size).1 = .ok →
        Clears ⟨s.mem, s.vs i⟩ ⟨s'.mem, s'.vs i⟩ vaddr (size.toNat / 4096)) ∧
      ((vspaceUnmap s.mem (s.vs i) vaddr size).1 ≠ .ok →
        ∀ va, s'.translates i va = s.translates i va)

/-- The tables of address space `i` are a tree over its frames. -/
def HasTree (s : Spaces) (i : Nat) : Prop :=
  ∃ label, TableTree (s.vs i).Owns s.mem.words (s.vs i).root (s.vs i).partitionId label

/-- The records are in order, and so are the tables of every address space with a root. -/
structure Mapped (alloc : UInt64) (base top : Nat) (s : Spaces) : Prop where
  books : s.Inv alloc base top
  trees : ∀ i, i < s.count → (s.vs i).root ≠ 0 → s.HasTree i

variable {alloc : UInt64} {base top : Nat} {s : Spaces} {i : Nat} {m : Memory} {vs : VSpace}
  {label : UInt64 → Option (List UInt64)}

theorem Mapped.tree (h : s.Mapped alloc base top) (halloc : alloc ≠ 0) (hi : i < s.count)
    (hroot : (s.vs i).root ≠ 0) : ∃ label, Tree alloc base top s i s.mem (s.vs i) label := by
  obtain ⟨label, htree⟩ := h.trees i hi hroot
  refine ⟨label, htree, ⟨halloc, hi, ?_⟩, hroot⟩
  rw [put, Function.update_eq_self]
  exact h.books

theorem Tree.hasTree (h : Tree alloc base top s i m vs label) : (s.put i m vs).HasTree i := by
  refine ⟨label, ?_⟩
  rw [put_vs_self]
  exact h.toTableTree

/-- Where its frames are kept, an address space keeps its tables and what it resolves. -/
theorem HasTree.kept {s' : Spaces} (h : s.HasTree i) (hvs : s'.vs i = s.vs i)
    (hwords : ∀ q x, (s.vs i).Owns q → IsIndex x →
      s'.mem.words (pteAddr q x) = s.mem.words (pteAddr q x)) :
    s'.HasTree i ∧ ∀ va, leafEntry s'.mem.words (s.vs i).root va =
      leafEntry s.mem.words (s.vs i).root va := by
  obtain ⟨label, htree⟩ := h
  refine ⟨⟨label, ?_⟩, htree.leafEntry_congr fun hq hx => hwords _ _ (htree.owned hq) hx⟩
  rw [hvs]
  exact htree.congr id fun hq hx => hwords _ _ (htree.owned hq) hx

theorem translates_of_null {j : Nat} (h : (s.vs j).root = 0) (va : UInt64) :
    s.translates j va = none := if_pos h

/-- Nothing has changed for the address spaces other than `t`, and the invariant holds. -/
structure Keeps (alloc : UInt64) (base top : Nat) (s s' : Spaces) (t : Nat) : Prop where
  mapped : s'.Mapped alloc base top
  vs : ∀ j, j ≠ t → s'.vs j = s.vs j
  words : OthersKept s t s.mem.words s'.mem.words
  others : ∀ j, j < s.count → j ≠ t → ∀ va, s'.translates j va = s.translates j va

theorem Mapped.keeps_self (h : s.Mapped alloc base top) (t : Nat) : Keeps alloc base top s s t :=
  ⟨h, fun _ _ => rfl, OthersKept.refl s t s.mem.words, fun _ _ _ _ => rfl⟩

/-- A step that keeps the other address spaces and the tables of its own. -/
theorem Mapped.of_target {s' : Spaces} {t : Nat} (h : s.Mapped alloc base top)
    (hbooks : s'.Inv alloc base top) (hvs : ∀ j, j ≠ t → s'.vs j = s.vs j)
    (hothers : OthersKept s t s.mem.words s'.mem.words)
    (hcount : ∀ j, j < s'.count → j = t ∨ j < s.count)
    (hown : t < s'.count → (s'.vs t).root ≠ 0 → s'.HasTree t) : Keeps alloc base top s s' t := by
  refine ⟨⟨hbooks, fun j hj hroot => ?_⟩, hvs, hothers, fun j hj hne va => ?_⟩
  · by_cases hjt : j = t
    · subst hjt
      exact hown hj hroot
    · have hj' : j < s.count := (hcount j hj).resolve_left hjt
      rw [hvs j hjt] at hroot
      exact ((h.trees j hj' hroot).kept (hvs j hjt) (hothers j hj' hjt)).1
  · by_cases hroot : (s.vs j).root = 0
    · rw [translates_of_null hroot, translates_of_null (by rw [hvs j hne, hroot])]
    · have hleaf := ((h.trees j hj hroot).kept (hvs j hne) (hothers j hj hne)).2 va
      exact resolve_congr hroot (by rw [hvs j hne]) hleaf

theorem Mapped.map (h : s.Mapped alloc base top) (halloc : alloc ≠ 0) (hi : i < s.count)
    (vaddr paddr size : UInt64) (perms : UInt8) (color : UInt16) :
    let s' := s.put i (vspaceMap s.mem (s.vs i) vaddr paddr size perms color).2.1
      (vspaceMap s.mem (s.vs i) vaddr paddr size perms color).2.2
    Keeps alloc base top s s' i ∧ OwnEffect s s' (.call (.map i vaddr paddr size perms color)) := by
  intro s'
  by_cases hroot : (s.vs i).root = 0
  · have heq : vspaceMap s.mem (s.vs i) vaddr paddr size perms color =
        (.invalidArg, s.mem, s.vs i) := if_pos hroot
    have hsame : s' = s := by
      show s.put i _ _ = s
      rw [heq, put, Function.update_eq_self]
    rw [hsame]
    refine ⟨h.keeps_self i, 0, Nat.zero_le _, fun hok => ?_,
      MapsPrefix.zero vaddr paddr fun _ => rfl⟩
    rw [heq] at hok
    cases hok
  · obtain ⟨label, htree⟩ := h.tree halloc hi hroot
    obtain ⟨e, m', vs', label', k, heq, hinv, hown, hk, hall, -, hmaps⟩ :=
      htree.vspaceMap vaddr paddr size perms color
    have hs' : s' = s.put i m' vs' := by
      show s.put i _ _ = _
      rw [heq]
    rw [hs']
    have hkeeps := h.of_target hinv.books.inv (fun j hj => put_vs_ne hj ..)
      (hinv.books.othersKept hown) (fun j hj => Or.inr hj) fun _ _ => Tree.hasTree hinv
    refine ⟨hkeeps, k, hk, fun hok => ?_, ?_⟩
    · rw [heq] at hok
      exact (hall hok).2
    · rw [put_vs_self]
      exact hmaps

theorem Mapped.unmap (h : s.Mapped alloc base top) (halloc : alloc ≠ 0) (hi : i < s.count)
    (vaddr size : UInt64) :
    let s' : Spaces := { s with mem := (vspaceUnmap s.mem (s.vs i) vaddr size).2 }
    Keeps alloc base top s s' i ∧ OwnEffect s s' (.unmap i vaddr size) := by
  intro s'
  by_cases hroot : (s.vs i).root = 0
  · have heq : vspaceUnmap s.mem (s.vs i) vaddr size = (.invalidArg, s.mem) := if_pos hroot
    have hsame : s' = s := by
      show { s with mem := (vspaceUnmap s.mem (s.vs i) vaddr size).2 } = s
      rw [heq]
    rw [hsame]
    refine ⟨h.keeps_self i, fun hok => ?_, fun _ _ => rfl⟩
    rw [heq] at hok
    cases hok
  · obtain ⟨label, htree⟩ := h.tree halloc hi hroot
    obtain ⟨e, m', heq, hinv, hown, hok, hfail⟩ := htree.vspaceUnmap vaddr size
    have hs' : s' = s.put i m' (s.vs i) := by
      show { s with mem := (vspaceUnmap s.mem (s.vs i) vaddr size).2 } = _
      rw [heq, put, Function.update_eq_self]
    rw [hs']
    have hkeeps := h.of_target hinv.books.inv (fun j hj => put_vs_ne hj ..)
      (hinv.books.othersKept hown) (fun j hj => Or.inr hj) fun _ _ => Tree.hasTree hinv
    simp only [OwnEffect, heq]
    refine ⟨hkeeps, fun he => ?_, fun he va => ?_⟩
    · rw [put_vs_self]
      exact (hok he).2
    · rw [translates, put_vs_self, hfail he]
      rfl

/-- The address space a creation leaves: a cleared root page, or no root. -/
theorem step_create (s : Spaces) (alloc : UInt64) (asid partId : UInt32) :
    s.step alloc (.create asid partId) =
      (s.extend asid partId alloc).put s.count
        (allocPtPage s.mem (VSpace.empty asid partId alloc)).2.1
        { (allocPtPage s.mem (VSpace.empty asid partId alloc)).2.2 with
          root := (allocPtPage s.mem (VSpace.empty asid partId alloc)).1 } := by
  show { s.put s.count (vspaceInitWithAlloc s.mem asid partId alloc).2.1
    (vspaceInitWithAlloc s.mem asid partId alloc).2.2 with count := s.count + 1 } = _
  rw [vspaceInitWithAlloc_snd, extend, put, put, put, Function.update_idem]

theorem Mapped.create (h : s.Mapped alloc base top) (halloc : alloc ≠ 0) (asid partId : UInt32) :
    Keeps alloc base top s (s.step alloc (.create asid partId)) s.count ∧
      OwnEffect s (s.step alloc (.create asid partId)) (.call (.create asid partId)) := by
  have hbooks := h.books.create halloc asid partId
  have hself : (s.extend asid partId alloc).put s.count s.mem (VSpace.empty asid partId alloc) =
      s.extend asid partId alloc := by
    rw [extend, put, put, Function.update_idem]
  have hext : FrameBooks alloc base top (s.extend asid partId alloc) s.count s.mem
      (VSpace.empty asid partId alloc) := by
    refine ⟨halloc, Nat.lt_succ_self s.count, ?_⟩
    rw [hself]
    exact h.books.extend asid partId
  have hvs : ∀ j, j ≠ s.count → (s.step alloc (.create asid partId)).vs j = s.vs j := by
    intro j hj
    rw [step_create, put_vs_ne hj, extend_vs_ne hj]
  have hcount : ∀ j, j < (s.step alloc (.create asid partId)).count → j = s.count ∨ j < s.count :=
    fun j hj => (Nat.lt_succ_iff_lt_or_eq.mp hj).symm
  have hnew : (s.step alloc (.create asid partId)).vs s.count =
      { (allocPtPage s.mem (VSpace.empty asid partId alloc)).2.2 with
        root := (allocPtPage s.mem (VSpace.empty asid partId alloc)).1 } := by
    rw [step_create, put_vs_self]
  rcases hext.page with heq | ⟨p, m', vs', heq, ht⟩
  · have hroot : ((s.step alloc (.create asid partId)).vs s.count).root = 0 := by
      rw [hnew, heq]
    have hmem : (s.step alloc (.create asid partId)).mem = s.mem := by
      rw [step_create, heq]
      rfl
    have hothers : OthersKept s s.count s.mem.words
        (s.step alloc (.create asid partId)).mem.words := by
      rw [hmem]
      exact OthersKept.refl s s.count s.mem.words
    exact ⟨h.of_target hbooks hvs hothers hcount fun _ hne => absurd hroot hne,
      translates_of_null hroot⟩
  · have hmem : (s.step alloc (.create asid partId)).mem = m' := by
      rw [step_create, heq]
      rfl
    have hroot : ((s.step alloc (.create asid partId)).vs s.count).root = p := by
      rw [hnew, heq]
    have hothers : OthersKept s s.count s.mem.words
        (s.step alloc (.create asid partId)).mem.words := by
      rw [hmem]
      intro j hj hne q x hq hx
      have hown := PageTaken.writesOwn (b := frameBooks ..) ht
      refine ht.ok.othersKept hown j (Nat.lt_succ_of_lt hj) hne q x ?_ hx
      rw [extend_vs_ne hne]
      exact hq
    have htree : (s.step alloc (.create asid partId)).HasTree s.count := by
      refine ⟨fun q => if q = p then some [] else none, ?_⟩
      rw [hnew, heq, hmem]
      exact PageTaken.root_tree (b := frameBooks ..) ht ht.self vs'.partitionId
    refine ⟨h.of_target hbooks hvs hothers hcount fun _ _ => htree, fun va => ?_⟩
    by_cases hzero : p = 0
    · exact translates_of_null (hroot.trans hzero) va
    · have hleaf := PageTaken.root_leafEntry (b := frameBooks ..) ht va
      rw [translates, vspaceResolve_eq _ (by rw [hroot]; exact hzero), hroot, hmem, hleaf]
      rfl

/-- The call is a creation or names an address space there is. -/
def Names (s : Spaces) : SpaceOp → Prop
  | .call (.create ..) => True
  | .call (.map i ..) => i < s.count
  | .unmap i .. => i < s.count

theorem Mapped.stepOp (h : s.Mapped alloc base top) (halloc : alloc ≠ 0) (op : SpaceOp) :
    Keeps alloc base top s (s.stepOp alloc op) (s.target op) ∧
      (s.Names op → OwnEffect s (s.stepOp alloc op) op) := by
  cases op with
  | call c =>
    cases c with
    | create asid partId =>
      obtain ⟨hkeeps, heffect⟩ := h.create halloc asid partId
      exact ⟨hkeeps, fun _ => heffect⟩
    | map i vaddr paddr size perms color =>
      simp only [Spaces.stepOp, Spaces.step]
      split_ifs with hi
      · obtain ⟨hkeeps, heffect⟩ := h.map halloc hi vaddr paddr size perms color
        exact ⟨hkeeps, fun _ => heffect⟩
      · exact ⟨h.keeps_self i, fun hnames => absurd hnames hi⟩
  | unmap i vaddr size =>
    simp only [Spaces.stepOp]
    split_ifs with hi
    · obtain ⟨hkeeps, heffect⟩ := h.unmap halloc hi vaddr size
      exact ⟨hkeeps, fun _ => heffect⟩
    · exact ⟨h.keeps_self i, fun hnames => absurd hnames hi⟩

theorem start_mapped {m : Memory} (h : (m.allocs alloc).Ready base top) :
    (start m).Mapped alloc base top :=
  ⟨start_inv h, fun i hi => absurd hi (Nat.not_lt_zero i)⟩

theorem reached_mapped {m : Memory} (halloc : alloc ≠ 0) (h : (m.allocs alloc).Ready base top)
    (ops : List SpaceOp) : (Run.exec (stepOp alloc) (start m) ops).Mapped alloc base top :=
  Run.exec_invariant_of_forall (fun _ op hs => (hs.stepOp halloc op).1.mapped) ops (start_mapped h)

end Spaces

/-- Whatever address spaces are created over one allocator, in whatever order they are
mapped and unmapped: a call leaves what every other address space resolves alone, and does
to its own what it would do without the others. -/
theorem address_spaces_independent {m : Memory} {alloc : UInt64} (halloc : alloc ≠ 0)
    (hready : (m.allocs alloc).Ready (m.allocs alloc).base.toNat (m.allocs alloc).top.toNat)
    (ops : List SpaceOp) (op : SpaceOp) :
    let s := Run.exec (Spaces.stepOp alloc) (Spaces.start m) ops
    (∀ j, j < s.count → j ≠ s.target op → ∀ va,
      (s.stepOp alloc op).translates j va = s.translates j va) ∧
    (s.Names op → Spaces.OwnEffect s (s.stepOp alloc op) op) := by
  intro s
  have hmapped : s.Mapped alloc _ _ := Spaces.reached_mapped halloc hready ops
  obtain ⟨hkeeps, heffect⟩ := hmapped.stepOp halloc op
  exact ⟨hkeeps.others, heffect⟩

/-- Two address spaces with the same page mapped: the first unmaps it, the second keeps it. -/
theorem address_spaces_independent_unmap :
    let s := Run.exec (Spaces.stepOp 1) (Spaces.start sharedPool)
      (twoSpaces.map .call ++ [.call (.map 1 0x1000 0x80500000 0x1000 3 0)])
    s.translates 1 0x1234 = some 0x80500234 ∧
      (s.stepOp 1 (.unmap 0 0x1000 0x1000)).translates 0 0x1234 = none ∧
      (s.stepOp 1 (.unmap 0 0x1000 0x1000)).translates 1 0x1234 = some 0x80500234 := by
  have hready : (sharedPool.allocs 1).Ready (sharedPool.allocs 1).base.toNat
      (sharedPool.allocs 1).top.toNat := allocInit_ready (by decide) (by decide)
  intro s
  obtain ⟨hothers, hown⟩ := address_spaces_independent (by decide) hready
    (twoSpaces.map .call ++ [.call (.map 1 0x1000 0x80500000 0x1000 3 0)]) (.unmap 0 0x1000 0x1000)
  have hmapped : s.translates 1 0x1234 = some 0x80500234 := by decide +kernel
  have hcount : s.count = 2 := by decide +kernel
  have hunmap : (vspaceUnmap s.mem (s.vs 0) 0x1000 0x1000).1 = .ok := by decide +kernel
  have hclears := (hown (show 0 < s.count by rw [hcount]; decide)).1 hunmap
  refine ⟨hmapped, ?_, ?_⟩
  · exact hclears.cleared 0 (by decide) 0x1234 (by decide)
  · rw [hothers 1 (by rw [hcount]; decide) (by decide), hmapped]

end Moonlight
