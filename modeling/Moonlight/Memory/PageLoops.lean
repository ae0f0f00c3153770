/-
The two calls that change page tables, whatever account is kept of the pages.

`vspace_map` installs its entries one page at a time and returns at the first page it
cannot install; nothing takes the earlier entries out again.  So every call maps a prefix
of its range.  `vspace_unmap` clears the range page by page and cannot fail half way.
-/
import Moonlight.Memory.PageTable

namespace Moonlight

/-- Page `i` of a range that starts at `paddr`. -/
def pageAt (paddr : UInt64) (i : Nat) : UInt64 := paddr + UInt64.ofNat (4096 * i)

/-- The pages in a range of this size. -/
def pagesIn (size : UInt64) : Nat := size.toNat / 4096

theorem pageAt_zero (pa : UInt64) : pageAt pa 0 = pa := UInt64.add_zero pa

theorem pageAt_succ (pa : UInt64) (i : Nat) : pageAt pa (i + 1) = pageAt (pa + pageSize) i := by
  have hsplit : UInt64.ofNat (4096 * (i + 1)) = pageSize + UInt64.ofNat (4096 * i) := by
    rw [Nat.mul_succ, Nat.add_comm, UInt64.ofNat_add]
    rfl
  rw [pageAt, pageAt, hsplit, UInt64.add_assoc]

theorem PageAligned.add_pages {p : UInt64} (h : PageAligned p) (i : Nat) :
    PageAligned (pageAt p i) :=
  h.add (pageAligned_ofNat i)

theorem PageAligned.succ {p : UInt64} (h : PageAligned p) : PageAligned (p + pageSize) :=
  h.add (pageAligned_ofNat 1)

/-- Memory and an address space. -/
structure PtState where
  mem : Memory
  vs : VSpace

/-- From `s` to `s'` the first `k` pages of the range from `vaddr` on have been mapped to
those from `paddr` on, and nothing else has changed. -/
structure MapsPrefix (s s' : PtState) (vaddr paddr : UInt64) (k : Nat) : Prop where
  mapped : ∀ o, o < k → ∀ a, SamePage a (pageAt vaddr o) →
    vspaceResolve s.mem s.vs a = none ∧
      vspaceResolve s'.mem s'.vs a = some (pageAt paddr o ||| (a &&& 0xFFF))
  kept : ∀ a, (∀ o, o < k → ¬ SamePage a (pageAt vaddr o)) →
    vspaceResolve s'.mem s'.vs a = vspaceResolve s.mem s.vs a

/-- The pages of a range of `n` pages resolve to nothing, all others as before. -/
structure Clears (s s' : PtState) (vaddr : UInt64) (n : Nat) : Prop where
  cleared : ∀ o, o < n → ∀ a, SamePage a (pageAt vaddr o) → vspaceResolve s'.mem s'.vs a = none
  kept : ∀ a, (∀ o, o < n → ¬ SamePage a (pageAt vaddr o)) →
    vspaceResolve s'.mem s'.vs a = vspaceResolve s.mem s.vs a

theorem MapsPrefix.zero {s s' : PtState} (vaddr paddr : UInt64)
    (h : ∀ a, vspaceResolve s'.mem s'.vs a = vspaceResolve s.mem s.vs a) :
    MapsPrefix s s' vaddr paddr 0 where
  mapped := fun o ho => absurd ho (Nat.not_lt_zero o)
  kept := fun a _ => h a

theorem MapsPrefix.cons {s s₁ s₂ : PtState} {vaddr paddr : UInt64} {k : Nat}
    (h : MapsPrefix s s₁ vaddr paddr 1)
    (h' : MapsPrefix s₁ s₂ (vaddr + pageSize) (paddr + pageSize) k) :
    MapsPrefix s s₂ vaddr paddr (k + 1) := by
  -- the first page resolves after the first step, so it is none of the later pages
  have hlater : ∀ a, SamePage a vaddr → ∀ o, o < k → ¬ SamePage a (pageAt (vaddr + pageSize) o) := by
    intro a ha o ho hsame
    have hnone := (h'.mapped o ho a hsame).1
    rw [(h.mapped 0 Nat.one_pos a (by rwa [pageAt_zero])).2] at hnone
    exact absurd hnone (by simp)
  have hfirst : ∀ a, ¬ SamePage a vaddr →
      vspaceResolve s₁.mem s₁.vs a = vspaceResolve s.mem s.vs a := by
    intro a ha
    refine h.kept a fun o ho => ?_
    rw [Nat.lt_one_iff.mp ho, pageAt_zero]
    exact ha
  constructor
  · intro o ho a hsame
    cases o with
    | zero =>
      obtain ⟨hbefore, hafter⟩ := h.mapped 0 Nat.one_pos a hsame
      rw [pageAt_zero] at hsame
      exact ⟨hbefore, (h'.kept a (hlater a hsame)).trans hafter⟩
    | succ o =>
      rw [pageAt_succ] at hsame ⊢
      have ho' : o < k := Nat.lt_of_succ_lt_succ ho
      obtain ⟨hbefore, hafter⟩ := h'.mapped o ho' a hsame
      refine ⟨?_, hafter⟩
      rw [← hfirst a fun ha => hlater a ha o ho' hsame]
      exact hbefore
  · intro a hout
    have hrest : ∀ o, o < k → ¬ SamePage a (pageAt (vaddr + pageSize) o) := by
      intro o ho
      rw [← pageAt_succ]
      exact hout (o + 1) (Nat.succ_lt_succ ho)
    have hhead : ¬ SamePage a vaddr := by
      have h0 := hout 0 (Nat.succ_pos k)
      rwa [pageAt_zero] at h0
    rw [h'.kept a hrest, hfirst a hhead]

section
variable {b : PageBooks} {m : Memory} {vs : VSpace} {label : UInt64 → Option (List UInt64)}

/-! ### Mapping -/

/-- A leaf entry with the flags of the partition may stand in the last table of `va`. -/
theorem entryOk_leaf (partitionId : UInt32) (va : UInt64) {pa : UInt64} (hpa : PageAligned pa)
    (perms : UInt8) :
    EntryOk partitionId (vpnPath va) (pteEncode (pa >>> 12) (pteFlags partitionId perms)) :=
  Or.inr (Or.inr ⟨rfl, pa, perms, hpa, rfl⟩)

/-- One page of `vspace_map` in terms of what resolves. -/
theorem Tables.mapPage_prefix (h : Tables b m vs label) (va : UInt64) {pa : UInt64}
    (hpa : PageAligned pa) (perms : UInt8) :
    ∃ e m' vs' label',
      Moonlight.mapPage m vs va pa (pteFlags vs.partitionId perms) = (e, m', vs') ∧
      Tables b m' vs' label' ∧ WritesOwn b m vs m' vs' ∧
      (e = .ok → MapsPrefix ⟨m, vs⟩ ⟨m', vs'⟩ va pa 1) ∧
      (e ≠ .ok → MapsPrefix ⟨m, vs⟩ ⟨m', vs'⟩ va pa 0) := by
  obtain ⟨hf, hv⟩ := pteFlags_spec vs.partitionId perms
  obtain ⟨e, m', vs', label', heq, hinv, hown, hok, hfail⟩ :=
    h.mapPage va (entryOk_leaf vs.partitionId va hpa perms)
  refine ⟨e, m', vs', label', heq, hinv, hown, fun he => ⟨?_, ?_⟩, fun he => ?_⟩
  · intro o ho a hsame
    rw [Nat.lt_one_iff.mp ho, pageAt_zero] at hsame ⊢
    obtain ⟨hfree, hleaf⟩ := hok he
    constructor
    · rw [vspaceResolve_eq m h.root_ne, hsame.leafEntry_eq, if_pos hfree]
    · rw [vspaceResolve_eq m' hinv.root_ne, hown.root, hleaf a, if_pos hsame,
        if_neg (pteEncode_valid hf hv)]
      exact congrArg (fun p => some (p ||| (a &&& 0xFFF))) (pteTable_pteEncode hpa hf)
  · intro a hout
    have hne : ¬ SamePage a va := by
      have h0 := hout 0 Nat.one_pos
      rwa [pageAt_zero] at h0
    apply resolve_congr h.root_ne hown.root
    rw [(hok he).2 a, if_neg hne]
  · exact MapsPrefix.zero va pa fun a => resolve_congr h.root_ne hown.root (hfail he a)

/-- The loop of `vspace_map` stops at its first failing page, with the pages before it
mapped. -/
theorem Tables.mapLoop (h : Tables b m vs label) (n : Nat) (va : UInt64) {pa : UInt64}
    (hpa : PageAligned pa) (perms : UInt8) :
    ∃ e m' vs' label' k, mapLoop n m vs va pa (pteFlags vs.partitionId perms) = (e, m', vs') ∧
      Tables b m' vs' label' ∧ WritesOwn b m vs m' vs' ∧ k ≤ n ∧ (e = .ok ↔ k = n) ∧
      MapsPrefix ⟨m, vs⟩ ⟨m', vs'⟩ va pa k := by
  induction n generalizing m vs label va pa with
  | zero =>
    exact ⟨_, _, _, label, 0, rfl, h, WritesOwn.refl b m vs, Nat.le_refl 0,
      ⟨fun _ => rfl, fun _ => rfl⟩, MapsPrefix.zero va pa fun _ => rfl⟩
  | succ n ih =>
    obtain ⟨e₁, m₁, vs₁, label₁, heq₁, hinv₁, hown₁, hone, hzero⟩ := h.mapPage_prefix va hpa perms
    by_cases he : e₁ = .ok
    · subst he
      obtain ⟨e, m', vs', label', k, heq, hinv, hown, hk, hiff, hmaps⟩ :=
        ih hinv₁ (va + pageSize) hpa.succ
      rw [Moonlight.mapLoop, heq₁, ← hown₁.partition]
      exact ⟨e, m', vs', label', k + 1, heq, hinv, hown₁.trans hown, Nat.succ_le_succ hk,
        hiff.trans Nat.succ_inj.symm, (hone rfl).cons hmaps⟩
    · rw [mapLoop_of_error heq₁ he]
      exact ⟨e₁, m₁, vs₁, label₁, 0, rfl, hinv₁, hown₁, Nat.zero_le _,
        ⟨fun hok => absurd hok he, fun hk => absurd hk (by omega)⟩, hzero he⟩

/-- The checks `vspace_map` makes of its arguments. -/
structure MapChecks (vaddr paddr size : UInt64) (color : UInt16) : Prop where
  aligned : vaddr % pageSize = 0 ∧ paddr % pageSize = 0 ∧ size % pageSize = 0
  even : color % 2 = 0
  color : color = 0 ∨ (colorOf vaddr).toUInt16 = color

theorem vspaceMap_checks (m : Memory) {vs : VSpace} (hroot : vs.root ≠ 0)
    (vaddr paddr size : UInt64) (perms : UInt8) (color : UInt16) :
    (MapChecks vaddr paddr size color ∧ vspaceMap m vs vaddr paddr size perms color =
      mapLoop (pagesIn size) m vs vaddr paddr (pteFlags vs.partitionId perms)) ∨
    ¬ MapChecks vaddr paddr size color ∧
      ∃ e, e ≠ .ok ∧ vspaceMap m vs vaddr paddr size perms color = (e, m, vs) := by
  unfold vspaceMap
  rw [if_neg hroot]
  by_cases hal : vaddr % pageSize ≠ 0 ∨ paddr % pageSize ≠ 0 ∨ size % pageSize ≠ 0
  · refine Or.inr ⟨fun h => ?_, .invalidArg, by decide, if_pos hal⟩
    obtain ⟨hva, hpa, hsize⟩ := h.aligned
    simp [hva, hpa, hsize] at hal
  rw [if_neg hal]
  by_cases hodd : color % 2 ≠ 0
  · exact Or.inr ⟨fun h => hodd h.even, .invalidArg, by decide, if_pos hodd⟩
  rw [if_neg hodd]
  by_cases hcolor : (colorOf vaddr).toUInt16 ≠ color ∧ color ≠ 0
  · refine Or.inr ⟨fun h => ?_, .partitionDenied, by decide, if_pos hcolor⟩
    exact h.color.elim hcolor.2 hcolor.1
  rw [if_neg hcolor]
  simp only [not_or, not_not] at hal
  refine Or.inl ⟨⟨hal, not_not.mp hodd, ?_⟩, rfl⟩
  by_cases hzero : color = 0
  · exact Or.inl hzero
  · exact Or.inr (not_not.mp fun hne => hcolor ⟨hne, hzero⟩)

/-- Every call of `vspace_map` maps a prefix of its range: the whole range when it succeeds,
and not the whole of a range that has pages when it fails. -/
theorem Tables.vspaceMap (h : Tables b m vs label) (vaddr paddr size : UInt64) (perms : UInt8)
    (color : UInt16) :
    ∃ e m' vs' label' k, vspaceMap m vs vaddr paddr size perms color = (e, m', vs') ∧
      Tables b m' vs' label' ∧ WritesOwn b m vs m' vs' ∧ k ≤ pagesIn size ∧
      (e = .ok → MapChecks vaddr paddr size color ∧ k = pagesIn size) ∧
      (e ≠ .ok → k = 0 ∨ k < pagesIn size) ∧
      MapsPrefix ⟨m, vs⟩ ⟨m', vs'⟩ vaddr paddr k := by
  obtain ⟨hchecks, heq⟩ | ⟨-, e, hne, heq⟩ :=
    vspaceMap_checks m h.root_ne vaddr paddr size perms color
  · obtain ⟨e, m', vs', label', k, hloop, hinv, hown, hk, hiff, hmaps⟩ :=
      h.mapLoop (pagesIn size) vaddr ((pageAligned_iff paddr).mpr hchecks.aligned.2.1) perms
    refine ⟨e, m', vs', label', k, heq.trans hloop, hinv, hown, hk,
      fun he => ⟨hchecks, hiff.mp he⟩, fun hfail => Or.inr ?_, hmaps⟩
    exact Nat.lt_of_le_of_ne hk fun hall => hfail (hiff.mpr hall)
  · exact ⟨e, m, vs, label, 0, heq, h, WritesOwn.refl b m vs, Nat.zero_le _,
      fun he => absurd he hne, fun _ => Or.inl rfl, MapsPrefix.zero vaddr paddr fun _ => rfl⟩

/-! ### Unmapping -/

theorem Tables.unmapLoop (h : Tables b m vs label) (n : Nat) (va : UInt64) :
    Tables b { m with words := unmapLoop n m.words vs.root va } vs label ∧
      WritesOwn b m vs { m with words := Moonlight.unmapLoop n m.words vs.root va } vs ∧
      Clears ⟨m, vs⟩ ⟨{ m with words := Moonlight.unmapLoop n m.words vs.root va }, vs⟩ va n := by
  induction n generalizing m va with
  | zero =>
    exact ⟨h, WritesOwn.refl b m vs, fun o ho => absurd ho (Nat.not_lt_zero o), fun _ _ => rfl⟩
  | succ n ih =>
    obtain ⟨hinv, hown, hleaf⟩ := h.unmapPage va
    obtain ⟨hinv', hown', hrest⟩ := ih hinv (va + pageSize)
    refine ⟨hinv', hown.trans hown', fun o ho a hsame => ?_, fun a hout => ?_⟩
    · by_cases hlater : ∃ o, o < n ∧ SamePage a (pageAt (va + pageSize) o)
      · obtain ⟨o', ho', hsame'⟩ := hlater
        exact hrest.cleared o' ho' a hsame'
      · -- only the first page is left, and the later ones do not bring it back
        cases o with
        | zero =>
          rw [pageAt_zero] at hsame
          refine (hrest.kept a fun o' ho' hs => hlater ⟨o', ho', hs⟩).trans ?_
          rw [vspaceResolve_eq _ h.root_ne, hleaf a, if_pos hsame]
          rfl
        | succ o =>
          rw [pageAt_succ] at hsame
          exact absurd ⟨o, Nat.lt_of_succ_lt_succ ho, hsame⟩ hlater
    · have hfirst : ¬ SamePage a va := by
        have h0 := hout 0 (Nat.succ_pos n)
        rwa [pageAt_zero] at h0
      have htail : ∀ o, o < n → ¬ SamePage a (pageAt (va + pageSize) o) := by
        intro o ho
        rw [← pageAt_succ]
        exact hout (o + 1) (Nat.succ_lt_succ ho)
      refine (hrest.kept a htail).trans (resolve_congr h.root_ne rfl ?_)
      rw [hleaf a, if_neg hfirst]

/-- Every call of `vspace_unmap` clears its range, or refuses it and changes nothing. -/
theorem Tables.vspaceUnmap (h : Tables b m vs label) (vaddr size : UInt64) :
    ∃ e m', vspaceUnmap m vs vaddr size = (e, m') ∧ Tables b m' vs label ∧
      WritesOwn b m vs m' vs ∧
      (e = .ok → (vaddr % pageSize = 0 ∧ size % pageSize = 0) ∧
        Clears ⟨m, vs⟩ ⟨m', vs⟩ vaddr (pagesIn size)) ∧
      (e ≠ .ok → m' = m) := by
  unfold Moonlight.vspaceUnmap
  rw [if_neg h.root_ne]
  by_cases hal : vaddr % pageSize ≠ 0 ∨ size % pageSize ≠ 0
  · rw [if_pos hal]
    exact ⟨_, m, rfl, h, WritesOwn.refl b m vs, by simp, fun _ => rfl⟩
  · rw [if_neg hal]
    simp only [not_or, not_not] at hal
    obtain ⟨hinv, hown, hclears⟩ := h.unmapLoop (pagesIn size) vaddr
    exact ⟨_, _, rfl, hinv, hown, fun _ => ⟨hal, hclears⟩, by simp⟩

end
end Moonlight
