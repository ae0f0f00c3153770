/-
What the hardware makes of an address space.

`vspace_switch` puts the root of an address space into `satp`.  From then on the Sv39 walk
of `Moonlight.Lib.Mmu` decides where an access goes.  In every state the mapping calls can
reach, it goes where `vspace_resolve` says, if the leaf entry admits the access at all.
-/
import Moonlight.Lib.Mmu
import Moonlight.Memory.SpaceIsolation

namespace Moonlight

/-- The value `vspace_switch` writes to `satp`. -/
def vspaceSwitch (vs : VSpace) : UInt64 :=
  if vs.root = 0 then 0 else ((8 : UInt64) <<< 60) ||| (vs.asid.toUInt64 <<< 44) ||| (vs.root >>> 12)

/-- The leaf entry has the permission of the access, and its encoding is not the reserved
one, writable but not readable. -/
def Grants (acc : Mmu.Access) (pte : UInt64) : Prop :=
  Mmu.bit pte acc.bit = true ∧ (Mmu.bit pte 2 = true → Mmu.bit pte 1 = true)

instance (acc : Mmu.Access) (pte : UInt64) : Decidable (Grants acc pte) :=
  inferInstanceAs (Decidable (_ ∧ _))

/-! ### `satp` -/

theorem toNat_vspaceSwitch {vs : VSpace} (hroot : vs.root ≠ 0) (hasid : vs.asid.toNat < 2 ^ 16)
    (hlow : vs.root.toNat < 2 ^ 56) :
    (vspaceSwitch vs).toNat = 2 ^ 63 + vs.asid.toNat * 2 ^ 44 + vs.root.toNat / 4096 := by
  have hppn : (vs.root >>> 12).toNat = vs.root.toNat / 4096 := by
    rw [UInt64.toNat_shiftRight]
    show vs.root.toNat >>> 12 = _
    rw [Nat.shiftRight_eq_div_pow]
  have hfield : (vs.asid.toUInt64 <<< 44).toNat = 2 ^ 44 * vs.asid.toNat := by
    rw [UInt64.toNat_shiftLeft, UInt32.toNat_toUInt64]
    show vs.asid.toNat <<< 44 % 2 ^ 64 = _
    rw [Nat.shiftLeft_eq, Nat.mod_eq_of_lt (by omega), Nat.mul_comm]
  have hmode : ((8 : UInt64) <<< 60).toNat = 2 ^ 60 * 8 := by decide
  rw [vspaceSwitch, if_neg hroot, UInt64.toNat_or, UInt64.toNat_or, hppn, hfield, hmode,
    ← Nat.two_pow_add_eq_or_of_lt (by omega)]
  have hsum : 2 ^ 60 * 8 + 2 ^ 44 * vs.asid.toNat = 2 ^ 44 * (2 ^ 19 + vs.asid.toNat) := by omega
  rw [hsum, ← Nat.two_pow_add_eq_or_of_lt (by omega)]
  omega

/-! ### Entries -/

theorem bit_pteEncode (pa : UInt64) {flags : UInt64} (hf : flags.toNat < 1024) {n : Nat}
    (hn : n < 10) :
    Mmu.bit (pteEncode (pa >>> 12) flags) n = flags.toNat.testBit n := by
  rw [Mmu.bit, toNat_pteEncode hf, Nat.mul_comm]
  show (2 ^ 10 * (pa.toNat / 4096) + flags.toNat).testBit n = _
  rw [Nat.testBit_two_pow_mul_add _ hf, if_pos hn]

theorem ppn_pteEncode {pa flags : UInt64} (hf : flags.toNat < 1024) (hpa : PageAligned pa)
    (hlow : pa.toNat < 2 ^ 56) : Mmu.ppn (pteEncode (pa >>> 12) flags) * 4096 = pa.toNat := by
  unfold PageAligned at hpa
  rw [Mmu.ppn, toNat_pteEncode hf]
  omega

theorem pteEncode_reserved_iff (pa : UInt64) {flags : UInt64} (hf : flags.toNat < 1024) :
    2 ^ 54 ≤ (pteEncode (pa >>> 12) flags).toNat ↔ 2 ^ 56 ≤ pa.toNat := by
  rw [toNat_pteEncode hf]
  omega

theorem decode_zero : Mmu.decode 0 = .fault := by decide

/-- A pointer to a table below `2 ^ 56` is one to the hardware too. -/
theorem decode_pointer {t : UInt64} (hlow : t.toNat < 2 ^ 56) :
    Mmu.decode (pteEncode (t >>> 12) pteV) = .pointer := by
  have hbit : ∀ n, n < 10 → Mmu.bit (pteEncode (t >>> 12) pteV) n = decide (n = 0) := by
    intro n hn
    rw [bit_pteEncode t (by decide) hn]
    show Nat.testBit (2 ^ 0) n = _
    rw [Nat.testBit_two_pow, decide_eq_decide]
    exact eq_comm
  have hres : ¬ 2 ^ 54 ≤ (pteEncode (t >>> 12) pteV).toNat := by
    rw [pteEncode_reserved_iff t (by decide)]
    omega
  simp only [Mmu.decode, hbit 0 (by decide), hbit 1 (by decide), hbit 2 (by decide),
    hbit 3 (by decide), hbit 4 (by decide), hbit 6 (by decide), hbit 7 (by decide), hres]
  decide

/-- Every leaf is valid, accessed and dirty, and a user page outside partition 0. -/
theorem testBit_pteFlags (partitionId : UInt32) (perms : UInt8) :
    (pteFlags partitionId perms).toNat.testBit 0 = true ∧
    (pteFlags partitionId perms).toNat.testBit 4 = decide (partitionId ≠ 0) ∧
    (pteFlags partitionId perms).toNat.testBit 6 = true ∧
    (pteFlags partitionId perms).toNat.testBit 7 = true := by
  by_cases hpart : partitionId = 0
  · simp only [pteFlags, hpart, ne_eq, not_true_eq_false, and_false, if_false, decide_false]
    split <;> split <;> split <;> decide
  · simp only [pteFlags, hpart, ne_eq, not_false_eq_true, false_and, and_self, if_true,
      decide_true]
    split <;> split <;> split <;> decide

/-- A leaf is found and admits the access exactly when its frame lies below `2 ^ 56`, the
mode fits the partition and the permissions grant it. -/
theorem decode_leaf_iff (pa : UInt64) (partitionId : UInt32) (perms : UInt8) (priv : Mmu.Priv)
    (acc : Mmu.Access) :
    (Mmu.decode (pteEncode (pa >>> 12) (pteFlags partitionId perms)) = .leaf ∧
      Mmu.allows priv acc (pteEncode (pa >>> 12) (pteFlags partitionId perms)) = true) ↔
    pa.toNat < 2 ^ 56 ∧ (priv = .user ↔ partitionId ≠ 0) ∧
      Grants acc (pteEncode (pa >>> 12) (pteFlags partitionId perms)) := by
  obtain ⟨hf, -⟩ := pteFlags_spec partitionId perms
  obtain ⟨hv, hu, ha, hd⟩ := testBit_pteFlags partitionId perms
  rw [← bit_pteEncode pa hf (by decide)] at hv hu ha hd
  have hres := pteEncode_reserved_iff pa hf
  generalize pteEncode (pa >>> 12) (pteFlags partitionId perms) = pte at *
  have hmode : (Mmu.bit pte 4 == decide (priv = .user)) = true ↔
      (priv = .user ↔ partitionId ≠ 0) := by
    rw [hu, beq_iff_eq, decide_eq_decide]
    exact iff_comm
  have hleaf : Mmu.decode pte = .leaf ↔ pa.toNat < 2 ^ 56 ∧
      (Mmu.bit pte 2 = true → Mmu.bit pte 1 = true) ∧
      (Mmu.bit pte 1 = true ∨ Mmu.bit pte 3 = true) := by
    rw [← Nat.not_le, ← hres]
    unfold Mmu.decode
    cases Mmu.bit pte 1 <;> cases Mmu.bit pte 2 <;> cases Mmu.bit pte 3 <;> simp [hv, ha]
  have hallows : Mmu.allows priv acc pte = true ↔
      Mmu.bit pte acc.bit = true ∧ (priv = .user ↔ partitionId ≠ 0) := by
    rw [← hmode]
    simp [Mmu.allows, ha, hd]
  rw [hleaf, hallows]
  constructor
  · rintro ⟨⟨hlow, hreadable, -⟩, hbit, hpriv⟩
    exact ⟨hlow, hpriv, hbit, hreadable⟩
  · rintro ⟨hlow, hpriv, hbit, hreadable⟩
    refine ⟨⟨hlow, hreadable, ?_⟩, hbit, hpriv⟩
    cases acc with
    | load => exact Or.inl hbit
    | store => exact Or.inl (hreadable hbit)
    | fetch => exact Or.inr hbit

/-! ### The walk -/

theorem vpn_two (va : UInt64) : Mmu.vpn 2 va = vpn2 va := by
  apply UInt64.toNat_inj.mp
  rw [Mmu.vpn, UInt64.toNat_ofNat', toNat_vpn2]
  omega

theorem vpn_one (va : UInt64) : Mmu.vpn 1 va = vpn1 va := by
  apply UInt64.toNat_inj.mp
  rw [Mmu.vpn, UInt64.toNat_ofNat', toNat_vpn1]
  omega

theorem vpn_zero (va : UInt64) : Mmu.vpn 0 va = vpn0 va := by
  apply UInt64.toNat_inj.mp
  rw [Mmu.vpn, UInt64.toNat_ofNat', toNat_vpn0]
  omega

namespace Spaces

variable {alloc : UInt64} {base top : Nat} {s : Spaces} {i : Nat} {m : Memory} {vs : VSpace}
  {label : UInt64 → Option (List UInt64)}

theorem Tree.table_low (h : Tree alloc base top s i m vs label) (htop : top ≤ 2 ^ 56) {p : UInt64}
    (hp : label p ≠ none) : p.toNat < 2 ^ 56 := by
  obtain ⟨k, hk, rfl⟩ := h.owned hp
  have hframe := h.books.inv.frame i k ⟨h.books.index, by rw [put_vs_self]; exact hk⟩
  have hend := hframe.high
  have hhigh := h.books.inv.ready.high
  rw [put_vs_self] at hend
  omega

/-- One level of the two walks above the bottom: both stop at an absent entry, or both go
on in the table it points to. -/
theorem Tree.walk_step (h : Tree alloc base top s i m vs label) (htop : top ≤ 2 ^ 56)
    {p x va : UInt64} {path : List UInt64} {level : Nat} (hp : label p = some path)
    (hlen : path.length < 2) (hvpn : Mmu.vpn (level + 1) va = x) (hx : IsIndex x)
    (rest : List UInt64) (k : UInt64) :
    (Radix.read sv39 m.words p (x :: rest) k = 0 ∧ Mmu.walk m.words va (level + 1) p = none) ∨
    ∃ t, label t = some (path ++ [x]) ∧
      Radix.read sv39 m.words p (x :: rest) k = Radix.read sv39 m.words t rest k ∧
      Mmu.walk m.words va (level + 1) p = Mmu.walk m.words va level t := by
  have hcell : p + 8 * Mmu.vpn (level + 1) va = pteAddr p x := by rw [hvpn, pteAddr]
  rcases h.entries hp hx with hzero | ⟨-, t, ht, heq⟩ | ⟨hbottom, -⟩
  · refine Or.inl ⟨Radix.read_cons_of_none ?_ rest k, Mmu.walk_fault ?_⟩
    · show sv39.next (m.words (pteAddr p x)) = none
      rw [hzero]
      exact sv39.next_absent
    · rw [hcell, hzero]
      exact decode_zero
  · have hnext : sv39.next (m.words (pteAddr p x)) = some t := by
      rw [heq]
      simp only [sv39]
      rw [if_neg (pteEncode_valid (by decide) (by decide)), pteTable_pteEncode ht (by decide)]
    have hlabel := h.tree.child hp hlen hx hnext
    have hlow := h.table_low htop (p := t) (by simp [hlabel])
    refine Or.inr ⟨t, hlabel, Radix.read_cons_of_some hnext rest k, ?_⟩
    rw [Mmu.walk_pointer (hcell ▸ heq) (decode_pointer hlow),
      ppn_pteEncode (by decide) ht hlow, UInt64.ofNat_toNat]
  · omega

/-- The hardware finds the leaf entry that `vspace_resolve` looks at. -/
theorem Tree.walk_eq (h : Tree alloc base top s i m vs label) (htop : top ≤ 2 ^ 56) (va : UInt64) :
    EntryOk vs.partitionId (vpnPath va) (leafEntry m.words vs.root va) ∧
      Mmu.walk m.words va 2 vs.root =
        if Mmu.decode (leafEntry m.words vs.root va) = .leaf then
          some (0, leafEntry m.words vs.root va) else none := by
  have hleaf : leafEntry m.words vs.root va =
      Radix.read sv39 m.words vs.root [vpn2 va, vpn1 va] (vpn0 va) := rfl
  rcases h.walk_step htop h.tree.root (by decide) (vpn_two va) (isIndex_vpn2 va) [vpn1 va]
    (vpn0 va) with ⟨hzero, hnone⟩ | ⟨l1, hl1, hread, hwalk⟩
  · rw [hleaf, hzero, decode_zero]
    exact ⟨Or.inl rfl, hnone⟩
  rcases h.walk_step htop hl1 (by simp) (vpn_one va) (isIndex_vpn1 va) [] (vpn0 va) with
    ⟨hzero, hnone⟩ | ⟨l0, hl0, hread', hwalk'⟩
  · rw [hleaf, hread, hzero, decode_zero]
    exact ⟨Or.inl rfl, hwalk.trans hnone⟩
  have hcell : m.words (l0 + 8 * Mmu.vpn 0 va) = m.words (pteAddr l0 (vpn0 va)) := by
    rw [vpn_zero, pteAddr]
  have hbottom : Radix.read sv39 m.words l0 [] (vpn0 va) = m.words (pteAddr l0 (vpn0 va)) := rfl
  rw [hleaf, hread, hread', hbottom, hwalk, hwalk']
  refine ⟨h.entries hl0 (isIndex_vpn0 va), ?_⟩
  split_ifs with hdecode
  · exact Mmu.walk_leaf hcell hdecode
  · exact Mmu.walk_bottom hcell hdecode

/-- The root is where `satp` says, and the mode is Sv39. -/
theorem Tree.translate_eq (h : Tree alloc base top s i m vs label) (htop : top ≤ 2 ^ 56)
    (hasid : vs.asid.toNat < 2 ^ 16) {va : UInt64} (hva : Canonical va) (priv : Mmu.Priv)
    (acc : Mmu.Access) :
    Mmu.translate m.words (vspaceSwitch vs) priv acc va =
      if Mmu.decode (leafEntry m.words vs.root va) = .leaf ∧
          Mmu.allows priv acc (leafEntry m.words vs.root va) = true then
        some (UInt64.ofNat (Mmu.ppn (leafEntry m.words vs.root va) * 4096 + va.toNat % 4096))
      else none := by
  have hroot := h.table_low htop (p := vs.root) (by simp [h.tree.root])
  have haligned := h.aligned (p := vs.root) (by simp [h.tree.root])
  have hsatp := toNat_vspaceSwitch h.root_ne hasid hroot
  have hmode : (vspaceSwitch vs).toNat / 2 ^ 60 = 8 := by omega
  have hppn : UInt64.ofNat ((vspaceSwitch vs).toNat % 2 ^ 44 * 4096) = vs.root := by
    unfold PageAligned at haligned
    apply UInt64.toNat_inj.mp
    rw [UInt64.toNat_ofNat', hsatp]
    omega
  have hcanonical : Mmu.canonical va = true := decide_eq_true hva
  rw [Mmu.translate, hmode, if_neg (by decide), if_neg (by simp [hcanonical]), hppn,
    (h.walk_eq htop va).2]
  by_cases hleaf : Mmu.decode (leafEntry m.words vs.root va) = .leaf
  · rw [if_pos hleaf]
    simp only [hleaf, true_and, Nat.mul_zero, Nat.pow_zero, Nat.mod_one, and_true]
    rfl
  · rw [if_neg hleaf, if_neg fun hboth => hleaf hboth.1]

theorem Tree.translate_iff (h : Tree alloc base top s i m vs label) (htop : top ≤ 2 ^ 56)
    (hasid : vs.asid.toNat < 2 ^ 16) {va : UInt64} (hva : Canonical va) (priv : Mmu.Priv)
    (acc : Mmu.Access) (pa : UInt64) :
    Mmu.translate m.words (vspaceSwitch vs) priv acc va = some pa ↔
      vspaceResolve m vs va = some pa ∧ pa.toNat < 2 ^ 56 ∧
      (priv = .user ↔ vs.partitionId ≠ 0) ∧ Grants acc (leafEntry m.words vs.root va) := by
  rw [h.translate_eq htop hasid hva, vspaceResolve_eq m h.root_ne]
  rcases (h.walk_eq htop va).1 with hzero | ⟨hshort, -⟩ | ⟨-, frame, perms, haligned, heq⟩
  · rw [hzero, decode_zero]
    simp
  · exact absurd hshort (by simp [vpnPath])
  obtain ⟨hf, hv⟩ := pteFlags_spec vs.partitionId perms
  have hpage : ptePpn (pteEncode (frame >>> 12) (pteFlags vs.partitionId perms)) <<< 12 = frame :=
    pteTable_pteEncode haligned hf
  have hoffset : (va &&& 0xFFF).toNat = va.toNat % 4096 := by
    rw [UInt64.toNat_and]
    exact Nat.and_two_pow_sub_one_eq_mod va.toNat 12
  have hsum : (frame ||| (va &&& 0xFFF)).toNat = frame.toNat + va.toNat % 4096 := by
    unfold PageAligned at haligned
    have hsplit : frame.toNat = 2 ^ 12 * (frame.toNat / 4096) := by omega
    rw [UInt64.toNat_or, hoffset, hsplit]
    exact (Nat.two_pow_add_eq_or_of_lt (Nat.mod_lt _ (by decide)) _).symm
  have hlow : (frame ||| (va &&& 0xFFF)).toNat < 2 ^ 56 ↔ frame.toNat < 2 ^ 56 := by
    unfold PageAligned at haligned
    rw [hsum]
    omega
  have hleaf := decode_leaf_iff frame vs.partitionId perms priv acc
  rw [heq, if_neg (pteEncode_valid hf hv), hpage]
  by_cases hfound : Mmu.decode (pteEncode (frame >>> 12) (pteFlags vs.partitionId perms)) = .leaf ∧
      Mmu.allows priv acc (pteEncode (frame >>> 12) (pteFlags vs.partitionId perms)) = true
  · obtain ⟨hsmall, hrest⟩ := hleaf.mp hfound
    have hval : UInt64.ofNat (Mmu.ppn (pteEncode (frame >>> 12) (pteFlags vs.partitionId perms)) *
        4096 + va.toNat % 4096) = frame ||| (va &&& 0xFFF) := by
      rw [ppn_pteEncode hf haligned hsmall, ← hsum, UInt64.ofNat_toNat]
    rw [if_pos hfound, hval]
    constructor
    · intro hpa
      obtain rfl := Option.some.inj hpa
      exact ⟨rfl, hlow.mpr hsmall, hrest⟩
    · exact And.left
  · rw [if_neg hfound]
    constructor
    · intro hnone
      cases hnone
    · rintro ⟨hpa, hsmall, hrest⟩
      obtain rfl := Option.some.inj hpa
      exact absurd (hleaf.mpr ⟨hlow.mp hsmall, hrest⟩) hfound

end Spaces

/-- After `vspace_switch`, in every state reached by creating, mapping and unmapping address
spaces over one allocator: without a root all accesses go through untranslated; with one, an
access at a canonical address goes exactly where `vspace_resolve` says, if that is below
`2 ^ 56`, the mode is the partition's and the leaf entry grants the access. -/
theorem mmu_translates_iff_resolves {m : Memory} {alloc : UInt64} (halloc : alloc ≠ 0)
    (hready : (m.allocs alloc).Ready (m.allocs alloc).base.toNat (m.allocs alloc).top.toNat)
    (htop : (m.allocs alloc).top.toNat ≤ 2 ^ 56) (ops : List SpaceOp) (i : Nat) {va : UInt64}
    (hva : Canonical va) (priv : Mmu.Priv) (acc : Mmu.Access) (pa : UInt64) :
    let s := Run.exec (Spaces.stepOp alloc) (Spaces.start m) ops
    i < s.count → (s.vs i).asid.toNat < 2 ^ 16 →
    ((s.vs i).root = 0 →
      Mmu.translate s.mem.words (vspaceSwitch (s.vs i)) priv acc va = some va) ∧
    ((s.vs i).root ≠ 0 →
      (Mmu.translate s.mem.words (vspaceSwitch (s.vs i)) priv acc va = some pa ↔
        s.translates i va = some pa ∧ pa.toNat < 2 ^ 56 ∧
        (priv = .user ↔ (s.vs i).partitionId ≠ 0) ∧
        Grants acc (leafEntry s.mem.words (s.vs i).root va))) := by
  intro s hi hasid
  refine ⟨fun hnull => ?_, fun hroot => ?_⟩
  · rw [vspaceSwitch, if_pos hnull]
    rfl
  · have hmapped : s.Mapped alloc _ _ := Spaces.reached_mapped halloc hready ops
    obtain ⟨label, htree⟩ := hmapped.tree halloc hi hroot
    exact htree.translate_iff htop hasid hva priv acc pa

/-- A page of partition 1, readable and writable: user loads go through, fetches and the
supervisor's loads do not. -/
theorem mmu_translates_user_page :
    let s := Run.exec (Spaces.stepOp 1) (Spaces.start sharedPool) (twoSpaces.map .call)
    Mmu.translate s.mem.words (vspaceSwitch (s.vs 1)) .user .load 0x2234 = some 0x80402234 ∧
      Mmu.translate s.mem.words (vspaceSwitch (s.vs 1)) .user .fetch 0x2234 ≠ some 0x80402234 ∧
      Mmu.translate s.mem.words (vspaceSwitch (s.vs 1)) .supervisor .load 0x2234 ≠
        some 0x80402234 := by
  have hready : (sharedPool.allocs 1).Ready (sharedPool.allocs 1).base.toNat
      (sharedPool.allocs 1).top.toNat := allocInit_ready (by decide) (by decide)
  intro s
  have hiff : ∀ priv acc, Mmu.translate s.mem.words (vspaceSwitch (s.vs 1)) priv acc 0x2234 =
      some 0x80402234 ↔ _ := fun priv acc =>
    (mmu_translates_iff_resolves (by decide) hready (by decide) (twoSpaces.map .call) 1
      (show Canonical 0x2234 by decide) priv acc 0x80402234 (by decide +kernel) (by decide +kernel)).2
      (by decide +kernel)
  refine ⟨(hiff .user .load).mpr ?_, fun h => ?_, fun h => ?_⟩
  · exact ⟨by decide +kernel, by decide, by decide +kernel, by decide +kernel⟩
  · exact absurd ((hiff .user .fetch).mp h).2.2.2 (by decide +kernel)
  · exact absurd ((hiff .supervisor .load).mp h).2.2.1 (by decide +kernel)

end Moonlight
