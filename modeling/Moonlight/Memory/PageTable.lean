/-
The page tables of an address space as a labelled tree.

The three levels are a radix tree of depth two above the leaf cells, in the sense
of `Moonlight.Lib.Radix`.  The labelling is ghost state.  That a page given out by
`alloc_pt_page` carries no label yet is a matter of who keeps account of the pages:
`PageBooks` says what such an account has to know, and what a page step of
`vspace_map` or `vspace_unmap` does to the tables follows from that alone.
-/
import Moonlight.Lib.Radix
import Moonlight.Memory.Sv39

namespace Moonlight

/-- Page-table entries as a radix layout. -/
def sv39 : Radix.Layout UInt64 UInt64 UInt64 UInt64 where
  cell := pteAddr
  next := fun pte => if pte &&& pteV = 0 then none else some (pteTable pte)
  absent := 0
  next_absent := by decide

def vpnPath (va : UInt64) : List UInt64 := [vpn2 va, vpn1 va]

def IsIndex (i : UInt64) : Prop := i.toNat < 512

/-- The leaf entry for `va`, zero where a table is missing. -/
def leafEntry (words : UInt64 → UInt64) (root va : UInt64) : UInt64 :=
  Radix.read sv39 words root (vpnPath va) (vpn0 va)

theorem isIndex_vpn2 (va : UInt64) : IsIndex (vpn2 va) := by
  rw [IsIndex, toNat_vpn2]
  omega

theorem isIndex_vpn1 (va : UInt64) : IsIndex (vpn1 va) := by
  rw [IsIndex, toNat_vpn1]
  omega

theorem isIndex_vpn0 (va : UInt64) : IsIndex (vpn0 va) := by
  rw [IsIndex, toNat_vpn0]
  omega

theorem isIndex_vpnPath (va : UInt64) : ∀ i ∈ vpnPath va, IsIndex i := by
  intro i hi
  simp only [vpnPath, List.mem_cons, List.not_mem_nil, or_false] at hi
  obtain rfl | rfl := hi
  · exact isIndex_vpn2 va
  · exact isIndex_vpn1 va

theorem vspaceResolve_eq (m : Memory) {vs : VSpace} (hroot : vs.root ≠ 0) (va : UInt64) :
    vspaceResolve m vs va =
      if leafEntry m.words vs.root va &&& pteV = 0 then none
      else some ((ptePpn (leafEntry m.words vs.root va) <<< 12) ||| (va &&& 0xFFF)) := by
  simp only [vspaceResolve, leafEntry, Radix.read, vpnPath, Radix.walk, sv39, if_neg hroot]
  by_cases h2 : m.words (pteAddr vs.root (vpn2 va)) &&& pteV = 0
  · simp [h2]
  · by_cases h1 : m.words (pteAddr (pteTable (m.words (pteAddr vs.root (vpn2 va)))) (vpn1 va)) &&&
        pteV = 0
    · simp [h2, h1]
    · simp [h2, h1]

theorem resolve_congr {m m' : Memory} {vs vs' : VSpace} (hroot : vs.root ≠ 0)
    (heq : vs'.root = vs.root) {va : UInt64}
    (hleaf : leafEntry m'.words vs.root va = leafEntry m.words vs.root va) :
    vspaceResolve m' vs' va = vspaceResolve m vs va := by
  have hroot' : vs'.root ≠ 0 := by
    rw [heq]
    exact hroot
  rw [vspaceResolve_eq m' hroot', vspaceResolve_eq m hroot, heq, hleaf]

/-- The tables for `va` are there, and `l0` is the last of them. -/
def HasLeafTable (words : UInt64 → UInt64) (root va l0 : UInt64) : Prop :=
  Radix.walk sv39 words root (vpnPath va) = some l0

/-- The indices of the two addresses are the same, so that they share a leaf entry. -/
def SamePage (a va : UInt64) : Prop := vpnPath a = vpnPath va ∧ vpn0 a = vpn0 va

instance (a va : UInt64) : Decidable (SamePage a va) := inferInstanceAs (Decidable (_ ∧ _))

theorem samePage_iff {a va : UInt64} (ha : Canonical a) (hva : Canonical va)
    (haligned : PageAligned va) : SamePage a va ↔ a - va < pageSize := by
  rw [← vpn_eq_iff ha hva haligned]
  simp only [SamePage, vpnPath, List.cons.injEq, and_true, and_assoc]

theorem SamePage.leafEntry_eq {a va : UInt64} (h : SamePage a va) (words : UInt64 → UInt64)
    (root : UInt64) : leafEntry words root a = leafEntry words root va := by
  rw [leafEntry, leafEntry, h.1, h.2]

/-- An entry of the table at the end of `path`: absent, a pointer to a table, or at the
bottom a leaf with the flags of the partition. -/
def EntryOk (partitionId : UInt32) (path : List UInt64) (e : UInt64) : Prop :=
  e = 0 ∨ (path.length < 2 ∧ ∃ t, PageAligned t ∧ e = pteEncode (t >>> 12) pteV) ∨
    path.length = 2 ∧ ∃ pa perms, PageAligned pa ∧
      e = pteEncode (pa >>> 12) (pteFlags partitionId perms)

/-! ### Pages for the tables -/

theorem toNat_succ_of_lt {n : UInt32} (h : n < 64) : (n + 1).toNat = n.toNat + 1 := by
  have hlt : n.toNat < 64 := UInt32.lt_iff_toNat_lt.mp h
  rw [UInt32.toNat_add]
  show (n.toNat + 1) % 2 ^ 32 = _
  omega

theorem toNat_succ_le_of_lt {n : UInt32} (h : n < 64) : (n + 1).toNat ≤ 64 := by
  have hlt : n.toNat < 64 := UInt32.lt_iff_toNat_lt.mp h
  rw [toNat_succ_of_lt h]
  omega

/-- What `alloc_pt_page` can do: refuse, take a frame from the allocator of the address
space, or take a page of the static pool. -/
inductive PageOutcome (m : Memory) (vs : VSpace) : UInt64 × Memory × VSpace → Prop
  | refused : PageOutcome m vs (0, m, vs)
  | frame {c : Cap} {a : FrameAlloc} (halloc : vs.alloc ≠ 0) (hcaps : vs.ptCapsCount < 64)
      (hused : vs.ptPagesUsed < 64)
      (htake : allocFrame (m.allocs vs.alloc) vs.partitionId pageSize = (.ok, some c, a)) :
      PageOutcome m vs (c.u.framePaddr,
        { m with
          allocs := Function.update m.allocs vs.alloc a
          words := zeroPage m.words c.u.framePaddr }, vs.recordPage c)
  | pool (c : Cap) (halloc : vs.alloc = 0) (hused : vs.ptPagesUsed < 64)
      (hnext : m.fallbackNext < 64) :
      PageOutcome m vs (m.fallbackPool + m.fallbackNext.toUInt64 * pageSize,
        { m with
          words := zeroPage m.words (m.fallbackPool + m.fallbackNext.toUInt64 * pageSize)
          fallbackNext := m.fallbackNext + 1 }, vs.recordPage c)

theorem allocPtPage_outcome (m : Memory) (vs : VSpace) : PageOutcome m vs (allocPtPage m vs) := by
  unfold allocPtPage
  by_cases hcaps : vs.ptCapsCount ≥ 64
  · rw [if_pos hcaps]
    exact .refused
  by_cases hused : vs.ptPagesUsed ≥ 64
  · rw [if_neg hcaps, if_pos hused]
    exact .refused
  rw [if_neg hcaps, if_neg hused]
  by_cases halloc : vs.alloc ≠ 0
  · rw [if_pos halloc]
    obtain ⟨e, hne, heq⟩ | ⟨c, a, k, heq, -⟩ :=
      allocFrame_cases (m.allocs vs.alloc) vs.partitionId pageSize
    · rw [heq]
      cases e
      case ok => exact absurd rfl hne
      all_goals exact .refused
    · rw [heq]
      exact .frame halloc (UInt32.not_le.mp hcaps) (UInt32.not_le.mp hused) heq
  · rw [if_neg halloc]
    by_cases hnext : m.fallbackNext ≥ 64
    · rw [if_pos hnext]
      exact .refused
    · rw [if_neg hnext]
      exact .pool _ (not_not.mp halloc) (UInt32.not_le.mp hused) (UInt32.not_le.mp hnext)

/-- A page that is cleared, new, and from now on one of the address space. -/
structure PageTaken (Ok : Memory → VSpace → Prop) (Owns : Memory → VSpace → UInt64 → Prop)
    (m : Memory) (vs : VSpace) (p : UInt64) (m' : Memory) (vs' : VSpace) : Prop where
  ok : Ok m' vs'
  words : m'.words = zeroPage m.words p
  root : vs'.root = vs.root
  partition : vs'.partitionId = vs.partitionId
  fresh : ¬ Owns m vs p
  owns : ∀ {q}, Owns m vs q → Owns m' vs' q
  self : Owns m' vs' p

/-- An account of the pages given out to an address space: the states where it is in order,
and the pages it has by then.  It does not look at the tables, and `alloc_pt_page` keeps it. -/
structure PageBooks where
  Ok : Memory → VSpace → Prop
  Owns : Memory → VSpace → UInt64 → Prop
  aligned : ∀ {m vs p}, Ok m vs → Owns m vs p → PageAligned p
  ok_words : ∀ {m vs} (words : UInt64 → UInt64), Ok m vs → Ok { m with words := words } vs
  owns_words : ∀ {m vs p} (words : UInt64 → UInt64), Owns m vs p →
    Owns { m with words := words } vs p
  page : ∀ {m vs}, Ok m vs → allocPtPage m vs = (0, m, vs) ∨
    ∃ p m' vs', allocPtPage m vs = (p, m', vs') ∧ PageTaken Ok Owns m vs p m' vs'

/-- From `m` and `vs` on, only pages of the address space have changed, and it has lost none. -/
structure WritesOwn (b : PageBooks) (m : Memory) (vs : VSpace) (m' : Memory) (vs' : VSpace) :
    Prop where
  root : vs'.root = vs.root
  partition : vs'.partitionId = vs.partitionId
  owns : ∀ {q}, b.Owns m vs q → b.Owns m' vs' q
  outside : ∀ {q x}, PageAligned q → IsIndex x → ¬ b.Owns m' vs' q →
    m'.words (pteAddr q x) = m.words (pteAddr q x)

/-- A labelled tree of tables over pages that are its own, with entries as `vspace_map`
writes them. -/
structure TableTree (Own : UInt64 → Prop) (words : UInt64 → UInt64) (root : UInt64)
    (partitionId : UInt32) (label : UInt64 → Option (List UInt64)) : Prop where
  tree : Radix.Labelled sv39 IsIndex 2 words root label
  owned : ∀ {p}, label p ≠ none → Own p
  entries : ∀ {p path x}, label p = some path → IsIndex x →
    EntryOk partitionId path (words (pteAddr p x))

/-- The account is in order, and the address space has tables. -/
structure Tables (b : PageBooks) (m : Memory) (vs : VSpace)
    (label : UInt64 → Option (List UInt64)) : Prop extends
    TableTree (b.Owns m vs) m.words vs.root vs.partitionId label where
  books : b.Ok m vs
  root_ne : vs.root ≠ 0

/-- The tables may have grown, and no leaf entry has changed. -/
structure Grows (b : PageBooks) (m : Memory) (vs : VSpace) (label : UInt64 → Option (List UInt64))
    (m' : Memory) (vs' : VSpace) (label' : UInt64 → Option (List UInt64)) : Prop extends
    WritesOwn b m vs m' vs' where
  inv : Tables b m' vs' label'
  labels : ∀ {p path}, label p = some path → label' p = some path
  kept : ∀ {q j t}, label q ≠ none → IsIndex j → sv39.next (m.words (pteAddr q j)) = some t →
    sv39.next (m'.words (pteAddr q j)) = some t
  reads : ∀ va, leafEntry m'.words vs.root va = leafEntry m.words vs.root va

section
variable {b : PageBooks} {m m' : Memory} {vs vs' : VSpace}
  {label label' : UInt64 → Option (List UInt64)}

theorem WritesOwn.refl (b : PageBooks) (m : Memory) (vs : VSpace) : WritesOwn b m vs m vs :=
  ⟨rfl, rfl, id, fun _ _ _ => rfl⟩

theorem WritesOwn.trans {m'' : Memory} {vs'' : VSpace} (h : WritesOwn b m vs m' vs')
    (h' : WritesOwn b m' vs' m'' vs'') : WritesOwn b m vs m'' vs'' where
  root := h'.root.trans h.root
  partition := h'.partition.trans h.partition
  owns := fun hq => h'.owns (h.owns hq)
  outside := fun hq hx hout =>
    (h'.outside hq hx hout).trans (h.outside hq hx fun hown => hout (h'.owns hown))

/-- Where the tables are kept, so is the tree. -/
theorem TableTree.congr {Own Own' : UInt64 → Prop} {words words' : UInt64 → UInt64} {root : UInt64}
    {partitionId : UInt32} (h : TableTree Own words root partitionId label)
    (hown : ∀ {q}, Own q → Own' q)
    (hwords : ∀ {q x}, label q ≠ none → IsIndex x →
      words' (pteAddr q x) = words (pteAddr q x)) :
    TableTree Own' words' root partitionId label where
  tree := h.tree.congr hwords
  owned := fun hq => hown (h.owned hq)
  entries := by
    intro p path x hp hx
    rw [hwords (by simp [hp]) hx]
    exact h.entries hp hx

theorem TableTree.leafEntry_congr {Own : UInt64 → Prop} {words words' : UInt64 → UInt64}
    {root : UInt64} {partitionId : UInt32} (h : TableTree Own words root partitionId label)
    (hwords : ∀ {q x}, label q ≠ none → IsIndex x →
      words' (pteAddr q x) = words (pteAddr q x)) (va : UInt64) :
    leafEntry words' root va = leafEntry words root va :=
  h.tree.read_congr hwords rfl (isIndex_vpnPath va) (isIndex_vpn0 va)

theorem Tables.grows_refl (h : Tables b m vs label) : Grows b m vs label m vs label :=
  ⟨WritesOwn.refl b m vs, h, id, fun _ _ hn => hn, fun _ => rfl⟩

theorem Grows.trans {m'' : Memory} {vs'' : VSpace} {label'' : UInt64 → Option (List UInt64)}
    (h : Grows b m vs label m' vs' label') (h' : Grows b m' vs' label' m'' vs'' label'') :
    Grows b m vs label m'' vs'' label'' where
  toWritesOwn := h.toWritesOwn.trans h'.toWritesOwn
  inv := h'.inv
  labels := fun hp => h'.labels (h.labels hp)
  kept := by
    intro q j t hq hj hn
    obtain ⟨path, hpath⟩ := Option.ne_none_iff_exists'.mp hq
    exact h'.kept (by simp [h.labels hpath]) hj (h.kept hq hj hn)
  reads := by
    intro va
    have hreads := h'.reads va
    rw [h.root] at hreads
    rw [hreads, h.reads va]

theorem Tables.aligned (h : Tables b m vs label) {p : UInt64} (hp : label p ≠ none) :
    PageAligned p :=
  b.aligned h.books (h.owned hp)

/-! ### A page that has been taken -/

section Taken

variable {t : UInt64} (ht : PageTaken b.Ok b.Owns m vs t m' vs')

include ht

theorem PageTaken.aligned : PageAligned t := b.aligned ht.ok ht.self

theorem PageTaken.cleared {x : UInt64} (hx : IsIndex x) : m'.words (pteAddr t x) = 0 := by
  rw [ht.words]
  exact zeroPage_self m.words ht.aligned hx

theorem PageTaken.ne (h : Tables b m vs label) {q : UInt64} (hq : label q ≠ none) : q ≠ t := by
  rintro rfl
  exact ht.fresh (h.owned hq)

/-- The page just taken is not one of the tables in use. -/
theorem PageTaken.label_none (h : Tables b m vs label) : label t = none := by
  by_contra hne
  exact ht.fresh (h.owned hne)

theorem PageTaken.writesOwn : WritesOwn b m vs m' vs' where
  root := ht.root
  partition := ht.partition
  owns := ht.owns
  outside := by
    intro q x hq hx hout
    have hqt : q ≠ t := fun heq => hout (heq ▸ ht.self)
    rw [ht.words]
    exact zeroPage_other m.words ht.aligned hq hx hqt

theorem PageTaken.words_kept (h : Tables b m vs label) {q x : UInt64} (hq : label q ≠ none)
    (hx : IsIndex x) : m'.words (pteAddr q x) = m.words (pteAddr q x) := by
  rw [ht.words]
  exact zeroPage_other m.words ht.aligned (h.aligned hq) hx (ht.ne h hq)

/-- As a root the page is the only table, and it has no entries. -/
theorem PageTaken.root_tree {Own : UInt64 → Prop} (hown : Own t) (partitionId : UInt32) :
    TableTree Own m'.words t partitionId fun q => if q = t then some [] else none := by
  have honly : ∀ q, (if q = t then some ([] : List UInt64) else none) ≠ none → q = t := by
    intro q hq
    by_contra hne
    exact hq (if_neg hne)
  refine ⟨Radix.labelled_root ht.cleared fun hx hy heq => ?_, fun {q} hq => ?_,
    fun {q path x} hq hx => ?_⟩
  · exact (pteAddr_inj ht.aligned ht.aligned hx hy heq).2
  · rw [honly q hq]
    exact hown
  · rw [honly q (by simp [hq])]
    exact Or.inl (ht.cleared hx)

theorem PageTaken.root_leafEntry (va : UInt64) : leafEntry m'.words t va = 0 :=
  Radix.read_of_empty (fun _ hx => ht.cleared hx) (isIndex_vpnPath va) (isIndex_vpn0 va)

end Taken

/-- A write to a table changes pages of the address space only. -/
theorem Tables.writesOwn_update (h : Tables b m vs label) {p x : UInt64} (hp : label p ≠ none)
    (hx : IsIndex x) (pte : UInt64) :
    WritesOwn b m vs { m with words := Function.update m.words (pteAddr p x) pte } vs where
  root := rfl
  partition := rfl
  owns := b.owns_words _
  outside := by
    intro q y hq hy hout
    refine Function.update_of_ne (fun heq => hout ?_) ..
    rw [(pteAddr_inj hq (h.aligned hp) hy hx heq).1]
    exact b.owns_words _ (h.owned hp)

/-- A page that is taken and not linked, because its address reads as null. -/
theorem Tables.grows_taken (h : Tables b m vs label) {t : UInt64}
    (ht : PageTaken b.Ok b.Owns m vs t m' vs') : Grows b m vs label m' vs' label where
  toWritesOwn := ht.writesOwn
  inv :=
    { toTableTree := by
        rw [ht.root, ht.partition]
        exact h.toTableTree.congr ht.owns (ht.words_kept h)
      books := ht.ok
      root_ne := by
        rw [ht.root]
        exact h.root_ne }
  labels := id
  kept := by
    intro q j r hq hj hn
    rw [ht.words_kept h hq hj]
    exact hn
  reads := h.toTableTree.leafEntry_congr (ht.words_kept h)

/-- Linking the page under entry `i` of table `p` changes no other entry of a labelled
table. -/
theorem Tables.cell_linked (h : Tables b m vs label) {p i t e : UInt64} (hp : label p ≠ none)
    (hi : IsIndex i) (ht : PageTaken b.Ok b.Owns m vs t m' vs') {q j : UInt64}
    (hq : label q ≠ none) (hj : IsIndex j) (hor : q ≠ p ∨ j ≠ i) :
    Function.update m'.words (pteAddr p i) e (pteAddr q j) = m.words (pteAddr q j) := by
  have hcell_ne : pteAddr q j ≠ pteAddr p i := by
    intro heq
    obtain ⟨hqp, hji⟩ := pteAddr_inj (h.aligned hq) (h.aligned hp) hj hi heq
    exact hor.elim (fun hn => hn hqp) (fun hn => hn hji)
  rw [Function.update_of_ne hcell_ne]
  exact ht.words_kept h hq hj

theorem Tables.links_taken (h : Tables b m vs label) {p i t : UInt64} (hp : label p ≠ none)
    (hi : IsIndex i) (habsent : m.words (pteAddr p i) &&& pteV = 0)
    (ht : PageTaken b.Ok b.Owns m vs t m' vs') :
    Radix.Links sv39 IsIndex label m.words
      (Function.update m'.words (pteAddr p i) (pteEncode (t >>> 12) pteV)) p i t where
  was_absent := by simp only [sv39, if_pos habsent]
  linked := by
    show sv39.next (Function.update m'.words (pteAddr p i) _ (pteAddr p i)) = some t
    rw [Function.update_self]
    simp only [sv39]
    rw [if_neg (pteEncode_valid (by decide) (by decide)),
      pteTable_pteEncode ht.aligned (by decide)]
  fresh := ht.label_none h
  empty := by
    intro j hj
    have hcell_ne : pteAddr t j ≠ pteAddr p i := by
      intro heq
      exact ht.ne h hp (pteAddr_inj ht.aligned (h.aligned hp) hj hi heq).1.symm
    show Function.update m'.words (pteAddr p i) _ (pteAddr t j) = 0
    rw [Function.update_of_ne hcell_ne]
    exact ht.cleared hj
  other := h.cell_linked hp hi ht

/-- The entries after the page is linked: those of the new table are absent, one is a
pointer, and the rest are as they were. -/
theorem Tables.entries_link (h : Tables b m vs label) {p i t : UInt64} {path : List UInt64}
    (hp : label p = some path) (hlen : path.length < 2) (hi : IsIndex i)
    (habsent : m.words (pteAddr p i) &&& pteV = 0) (ht : PageTaken b.Ok b.Owns m vs t m' vs')
    {q j : UInt64} {done : List UInt64}
    (hq : Function.update label t (some (path ++ [i])) q = some done) (hj : IsIndex j) :
    EntryOk vs.partitionId done
      (Function.update m'.words (pteAddr p i) (pteEncode (t >>> 12) pteV) (pteAddr q j)) := by
  have hp' : label p ≠ none := by simp [hp]
  by_cases hqt : q = t
  · subst hqt
    exact Or.inl ((h.links_taken hp' hi habsent ht).empty j hj)
  rw [Function.update_of_ne hqt] at hq
  by_cases hor : q ≠ p ∨ j ≠ i
  · rw [h.cell_linked hp' hi ht (by simp [hq]) hj hor]
    exact h.entries hq hj
  · obtain ⟨rfl, rfl⟩ : q = p ∧ j = i := by simpa only [not_or, not_not] using hor
    obtain rfl : path = done := Option.some.inj (hp.symm.trans hq)
    rw [Function.update_self]
    exact Or.inr (Or.inl ⟨hlen, t, ht.aligned, rfl⟩)

/-- The tables with the page linked under an absent entry of table `p`. -/
theorem Tables.link (h : Tables b m vs label) {p i t : UInt64} {path : List UInt64}
    (hp : label p = some path) (hlen : path.length < 2) (hi : IsIndex i)
    (habsent : m.words (pteAddr p i) &&& pteV = 0) (ht : PageTaken b.Ok b.Owns m vs t m' vs') :
    Tables b
      { m' with words := Function.update m'.words (pteAddr p i) (pteEncode (t >>> 12) pteV) } vs'
      (Function.update label t (some (path ++ [i]))) where
  books := b.ok_words _ ht.ok
  tree := by
    rw [ht.root]
    refine h.tree.link hp (h.links_taken (by simp [hp]) hi habsent ht) ?_ ?_
    · intro q j k hq hj hk heq
      exact ht.ne h hq (pteAddr_inj (h.aligned hq) ht.aligned hj hk heq).1
    · intro j k hj hk heq
      exact (pteAddr_inj ht.aligned ht.aligned hj hk heq).2
  owned := by
    intro q hq
    by_cases hqt : q = t
    · rw [hqt]
      exact b.owns_words _ ht.self
    · rw [Function.update_of_ne hqt] at hq
      exact b.owns_words _ (ht.owns (h.owned hq))
  entries := by
    intro q done j hq hj
    rw [ht.partition]
    exact h.entries_link hp hlen hi habsent ht hq hj
  root_ne := by
    rw [ht.root]
    exact h.root_ne

theorem Tables.grows_link (h : Tables b m vs label) {p i t : UInt64} {path : List UInt64}
    (hp : label p = some path) (hlen : path.length < 2) (hi : IsIndex i)
    (habsent : m.words (pteAddr p i) &&& pteV = 0) (ht : PageTaken b.Ok b.Owns m vs t m' vs') :
    ∃ label', Grows b m vs label
      { m' with words := Function.update m'.words (pteAddr p i) (pteEncode (t >>> 12) pteV) } vs'
      label' := by
  have hp' : label p ≠ none := by simp [hp]
  have hlink := h.links_taken hp' hi habsent ht
  have htaken := (h.grows_taken ht).inv
  refine ⟨_, ht.writesOwn.trans (htaken.writesOwn_update hp' hi _),
    h.link hp hlen hi habsent ht, ?_, ?_, ?_⟩
  · intro q done hq
    rw [Function.update_of_ne (ht.ne h (by simp [hq]))]
    exact hq
  · intro q j r hq hj hn
    by_cases hor : q ≠ p ∨ j ≠ i
    · show sv39.next (Function.update m'.words (pteAddr p i) _ (pteAddr q j)) = some r
      rw [h.cell_linked hp' hi ht hq hj hor]
      exact hn
    · obtain ⟨rfl, rfl⟩ : q = p ∧ j = i := by
        simpa only [not_or, not_not] using hor
      simp only [sv39, if_pos habsent] at hn
      cases hn
  · intro va
    exact h.tree.read_link hp hlen hlink h.tree.root rfl (isIndex_vpnPath va) (isIndex_vpn0 va)

/-- Following an entry to the next table, which is allocated if need be. -/
theorem Tables.descend (h : Tables b m vs label) {p i : UInt64} {path : List UInt64}
    (hp : label p = some path) (hlen : path.length < 2) (hi : IsIndex i) :
    ∃ r m' vs' label', descend m vs (pteAddr p i) = (r, m', vs') ∧
      Grows b m vs label m' vs' label' ∧
      ∀ t, r = some t → sv39.next (m'.words (pteAddr p i)) = some t := by
  unfold Moonlight.descend
  by_cases hv : m.words (pteAddr p i) &&& pteV = 0
  · rw [if_pos hv]
    obtain heq | ⟨t, m', vs', heq, ht⟩ := b.page h.books
    · simp only [heq, if_true]
      exact ⟨_, _, _, label, rfl, h.grows_refl, by simp⟩
    · simp only [heq]
      by_cases hzero : t = 0
      · rw [if_pos hzero]
        exact ⟨_, _, _, label, rfl, h.grows_taken ht, by simp⟩
      · rw [if_neg hzero]
        obtain ⟨label', hgrow⟩ := h.grows_link hp hlen hi hv ht
        refine ⟨_, _, _, label', rfl, hgrow, ?_⟩
        intro t' ht'
        cases ht'
        simp only [sv39, Function.update_self]
        rw [if_neg (pteEncode_valid (by decide) (by decide))]
  · rw [if_neg hv]
    refine ⟨_, _, _, label, rfl, h.grows_refl, ?_⟩
    intro t ht
    cases ht
    simp only [sv39, if_neg hv]

/-! ### One page -/

theorem Tables.label_leafTable (h : Tables b m vs label) {va l0 : UInt64}
    (hl0 : HasLeafTable m.words vs.root va l0) : label l0 = some (vpnPath va) :=
  h.tree.label_of_walk h.tree.root (by simp) (isIndex_vpnPath va) hl0

/-- Writing the leaf cell of `va` changes the leaf entries of its page. -/
theorem Tables.leafEntry_write (h : Tables b m vs label) {va l0 : UInt64}
    (hl0 : HasLeafTable m.words vs.root va l0) (pte a : UInt64) :
    leafEntry (Function.update m.words (pteAddr l0 (vpn0 va)) pte) vs.root a =
      if SamePage a va then pte else leafEntry m.words vs.root a :=
  h.tree.read_write hl0 rfl (isIndex_vpnPath va) (isIndex_vpn0 va) pte rfl (isIndex_vpnPath a)
    (isIndex_vpn0 a)

theorem Tables.write (h : Tables b m vs label) {va l0 pte : UInt64}
    (hl0 : HasLeafTable m.words vs.root va l0) (hpte : EntryOk vs.partitionId (vpnPath va) pte) :
    Tables b { m with words := Function.update m.words (pteAddr l0 (vpn0 va)) pte } vs label where
  books := b.ok_words _ h.books
  tree := h.tree.write (h.label_leafTable hl0) rfl (isIndex_vpn0 va) pte
  owned := fun hp => b.owns_words _ (h.owned hp)
  entries := by
    intro p path x hp hx
    have hlabel := h.label_leafTable hl0
    by_cases hcell : pteAddr p x = pteAddr l0 (vpn0 va)
    · obtain ⟨rfl, -⟩ := h.tree.inj (by simp [hp]) (by simp [hlabel]) hx (isIndex_vpn0 va) hcell
      obtain rfl : path = vpnPath va := Option.some.inj (hp.symm.trans hlabel)
      rw [hcell]
      show EntryOk _ _ (Function.update m.words _ pte _)
      rw [Function.update_self]
      exact hpte
    · show EntryOk _ _ (Function.update m.words _ pte _)
      rw [Function.update_of_ne hcell]
      exact h.entries hp hx
  root_ne := h.root_ne

theorem Tables.writesOwn_leaf (h : Tables b m vs label) {va l0 : UInt64}
    (hl0 : HasLeafTable m.words vs.root va l0) (pte : UInt64) :
    WritesOwn b m vs { m with words := Function.update m.words (pteAddr l0 (vpn0 va)) pte } vs :=
  h.writesOwn_update (by simp [h.label_leafTable hl0]) (isIndex_vpn0 va) pte

/-- One page of `vspace_map`: the leaf entry of the page was free and is written, or the
call fails and no leaf entry has changed. -/
theorem Tables.mapPage (h : Tables b m vs label) (va : UInt64) {pa flags : UInt64}
    (hpte : EntryOk vs.partitionId (vpnPath va) (pteEncode (pa >>> 12) flags)) :
    ∃ e m' vs' label', mapPage m vs va pa flags = (e, m', vs') ∧ Tables b m' vs' label' ∧
      WritesOwn b m vs m' vs' ∧
      (e = .ok → leafEntry m.words vs.root va &&& pteV = 0 ∧
        ∀ a, leafEntry m'.words vs.root a =
          if SamePage a va then pteEncode (pa >>> 12) flags else leafEntry m.words vs.root a) ∧
      (e ≠ .ok → ∀ a, leafEntry m'.words vs.root a = leafEntry m.words vs.root a) := by
  unfold Moonlight.mapPage
  obtain ⟨r₁, m₁, vs₁, label₁, heq₁, hg₁, hn₁⟩ :=
    h.descend h.tree.root (by simp) (isIndex_vpn2 va)
  rw [heq₁]
  cases r₁ with
  | none => exact ⟨_, _, _, label₁, rfl, hg₁.inv, hg₁.toWritesOwn, by simp, fun _ => hg₁.reads⟩
  | some l1 =>
    have hl1 : label₁ l1 = some [vpn2 va] :=
      hg₁.inv.tree.child (hg₁.labels h.tree.root) (by simp) (isIndex_vpn2 va) (hn₁ l1 rfl)
    obtain ⟨r₂, m₂, vs₂, label₂, heq₂, hg₂, hn₂⟩ :=
      hg₁.inv.descend hl1 (by simp) (isIndex_vpn1 va)
    have hg := hg₁.trans hg₂
    simp only [heq₂]
    cases r₂ with
    | none => exact ⟨_, _, _, label₂, rfl, hg.inv, hg.toWritesOwn, by simp, fun _ => hg.reads⟩
    | some l0 =>
      have hl0 : HasLeafTable m₂.words vs₂.root va l0 := by
        have htop := hg₂.kept (by simp [hg₁.labels h.tree.root]) (isIndex_vpn2 va) (hn₁ l1 rfl)
        have hmid := hn₂ l0 rfl
        rw [hg.root]
        show (sv39.next (m₂.words (pteAddr vs.root (vpn2 va)))).bind _ = _
        rw [htop]
        show (sv39.next (m₂.words (pteAddr l1 (vpn1 va)))).bind _ = _
        rw [hmid]
        rfl
      by_cases hcell : m₂.words (pteAddr l0 (vpn0 va)) &&& pteV ≠ 0
      · simp only [if_pos hcell]
        exact ⟨_, _, _, label₂, rfl, hg.inv, hg.toWritesOwn, by simp, fun _ => hg.reads⟩
      · simp only [if_neg hcell]
        have hfree : leafEntry m₂.words vs₂.root va = m₂.words (pteAddr l0 (vpn0 va)) := by
          rw [leafEntry, Radix.read, hl0]
          rfl
        rw [hg.root] at hfree
        refine ⟨_, _, _, label₂, rfl, hg.inv.write hl0 (hg.partition ▸ hpte),
          hg.toWritesOwn.trans (hg.inv.writesOwn_leaf hl0 _), fun _ => ⟨?_, fun a => ?_⟩, by simp⟩
        · rw [← hg.reads va, hfree]
          exact not_not.mp hcell
        · rw [← hg.reads a, ← hg.root]
          exact hg.inv.leafEntry_write hl0 (pteEncode (pa >>> 12) flags) a

theorem unmapPage_cases (words : UInt64 → UInt64) (root va : UInt64) :
    (Radix.walk sv39 words root (vpnPath va) = none ∧ unmapPage words root va = words) ∨
    ∃ l0, HasLeafTable words root va l0 ∧
      unmapPage words root va = Function.update words (pteAddr l0 (vpn0 va)) 0 := by
  simp only [HasLeafTable, Radix.walk, vpnPath, sv39, unmapPage]
  by_cases h2 : words (pteAddr root (vpn2 va)) &&& pteV = 0
  · simp [h2]
  · by_cases h1 : words (pteAddr (pteTable (words (pteAddr root (vpn2 va)))) (vpn1 va)) &&& pteV = 0
    · simp [h2, h1]
    · refine Or.inr
        ⟨pteTable (words (pteAddr (pteTable (words (pteAddr root (vpn2 va)))) (vpn1 va))), ?_, ?_⟩
      · simp [h2, h1]
      · simp [h2, h1]

/-- One page of `vspace_unmap`: the leaf entry of the page is cleared. -/
theorem Tables.unmapPage (h : Tables b m vs label) (va : UInt64) :
    Tables b { m with words := unmapPage m.words vs.root va } vs label ∧
      WritesOwn b m vs { m with words := Moonlight.unmapPage m.words vs.root va } vs ∧
      ∀ a, leafEntry (Moonlight.unmapPage m.words vs.root va) vs.root a =
        if SamePage a va then 0 else leafEntry m.words vs.root a := by
  obtain ⟨hwalk, heq⟩ | ⟨l0, hl0, heq⟩ := unmapPage_cases m.words vs.root va
  · rw [heq]
    refine ⟨h, WritesOwn.refl b m vs, fun a => ?_⟩
    split_ifs with hsame
    · -- the page has no leaf table, so its entry reads as absent already
      rw [hsame.leafEntry_eq, leafEntry, Radix.read, hwalk]
      rfl
    · rfl
  · rw [heq]
    exact ⟨h.write hl0 (Or.inl rfl), h.writesOwn_leaf hl0 0, h.leafEntry_write hl0 0⟩

end
end Moonlight
