/-
Words of the Sv39 page table: cells of a table page, the encoding of entries, and
the three table indices of a virtual address.

Everything is moved to natural numbers, where shifts are divisions and the masks
are remainders.
-/
import Moonlight.Memory.VSpace

namespace Moonlight

def PageAligned (p : UInt64) : Prop := p.toNat % 4096 = 0

/-- Sv39 canonical form: bits 63 to 38 all equal. -/
def Canonical (va : UInt64) : Prop := va.toNat < 2 ^ 38 ∨ 2 ^ 64 - 2 ^ 38 ≤ va.toNat

instance (p : UInt64) : Decidable (PageAligned p) := inferInstanceAs (Decidable (_ = _))

instance (va : UInt64) : Decidable (Canonical va) := inferInstanceAs (Decidable (_ ∨ _))

theorem pageAligned_iff (p : UInt64) : PageAligned p ↔ p % pageSize = 0 := by
  rw [PageAligned, ← UInt64.toNat_inj, UInt64.toNat_mod]
  rfl

theorem PageAligned.add {p q : UInt64} (hp : PageAligned p) (hq : PageAligned q) :
    PageAligned (p + q) := by
  unfold PageAligned at *
  rw [UInt64.toNat_add]
  omega

theorem pageAligned_ofNat (k : Nat) : PageAligned (UInt64.ofNat (4096 * k)) := by
  unfold PageAligned
  rw [UInt64.toNat_ofNat']
  omega

/-! ### Cells of a table page -/

theorem toNat_pteAddr {p i : UInt64} (hp : PageAligned p) (hi : i.toNat < 512) :
    (pteAddr p i).toNat = p.toNat + 8 * i.toNat := by
  have hlt := p.toNat_lt
  unfold PageAligned at hp
  rw [pteAddr, UInt64.toNat_add, UInt64.toNat_mul]
  show (p.toNat + 8 * i.toNat % 2 ^ 64) % 2 ^ 64 = _
  omega

/-- Cells of different pages, or at different indices, are different. -/
theorem pteAddr_inj {p q i j : UInt64} (hp : PageAligned p) (hq : PageAligned q)
    (hi : i.toNat < 512) (hj : j.toNat < 512) (h : pteAddr p i = pteAddr q j) :
    p = q ∧ i = j := by
  have hnat := congrArg UInt64.toNat h
  rw [toNat_pteAddr hp hi, toNat_pteAddr hq hj] at hnat
  unfold PageAligned at hp hq
  refine ⟨UInt64.toNat_inj.mp ?_, UInt64.toNat_inj.mp ?_⟩ <;> omega

theorem toNat_sub_eq (a b : UInt64) : (a - b).toNat = (a.toNat + 2 ^ 64 - b.toNat) % 2 ^ 64 := by
  have := b.toNat_lt
  rw [UInt64.toNat_sub]
  congr 1
  omega

theorem sub_lt_pageSize_iff (a p : UInt64) :
    a - p < pageSize ↔ (a.toNat + 2 ^ 64 - p.toNat) % 2 ^ 64 < 4096 := by
  rw [UInt64.lt_iff_toNat_lt, toNat_sub_eq]
  rfl

theorem zeroPage_self (words : UInt64 → UInt64) {p i : UInt64} (hp : PageAligned p)
    (hi : i.toNat < 512) : zeroPage words p (pteAddr p i) = 0 := by
  have hlt := p.toNat_lt
  unfold zeroPage
  rw [if_pos]
  rw [sub_lt_pageSize_iff, toNat_pteAddr hp hi]
  omega

theorem zeroPage_other (words : UInt64 → UInt64) {p q i : UInt64} (hp : PageAligned p)
    (hq : PageAligned q) (hi : i.toNat < 512) (hne : q ≠ p) :
    zeroPage words p (pteAddr q i) = words (pteAddr q i) := by
  have hlt := p.toNat_lt
  have hlt' := q.toNat_lt
  have hnat : q.toNat ≠ p.toNat := fun h => hne (UInt64.toNat_inj.mp h)
  unfold zeroPage
  rw [if_neg]
  rw [sub_lt_pageSize_iff, toNat_pteAddr hq hi]
  unfold PageAligned at hp hq
  omega

/-! ### Entries -/

theorem toNat_pteEncode {pa flags : UInt64} (hf : flags.toNat < 1024) :
    (pteEncode (pa >>> 12) flags).toNat = pa.toNat / 4096 * 1024 + flags.toNat := by
  have hlt := pa.toNat_lt
  rw [pteEncode, UInt64.toNat_or, UInt64.toNat_shiftLeft, UInt64.toNat_shiftRight]
  show pa.toNat >>> 12 <<< 10 % 2 ^ 64 ||| flags.toNat = _
  rw [Nat.shiftRight_eq_div_pow, Nat.shiftLeft_eq, Nat.mod_eq_of_lt (by omega), Nat.mul_comm,
    ← Nat.two_pow_add_eq_or_of_lt hf]

theorem and_pteV_eq_zero_iff (pte : UInt64) : pte &&& pteV = 0 ↔ pte.toNat % 2 = 0 := by
  rw [← UInt64.toNat_inj, UInt64.toNat_and]
  show pte.toNat &&& 1 = 0 ↔ _
  rw [Nat.and_one_is_mod]

theorem toNat_pteTable (pte : UInt64) : (pteTable pte).toNat = pte.toNat / 1024 * 4096 % 2 ^ 64 := by
  rw [pteTable, ptePpn, UInt64.toNat_shiftLeft, UInt64.toNat_shiftRight]
  show pte.toNat >>> 10 <<< 12 % 2 ^ 64 = _
  rw [Nat.shiftRight_eq_div_pow, Nat.shiftLeft_eq]

theorem pteTable_pteEncode {pa flags : UInt64} (hpa : PageAligned pa) (hf : flags.toNat < 1024) :
    pteTable (pteEncode (pa >>> 12) flags) = pa := by
  have hlt := pa.toNat_lt
  unfold PageAligned at hpa
  apply UInt64.toNat_inj.mp
  rw [toNat_pteTable, toNat_pteEncode hf]
  omega

theorem pteEncode_valid {pa flags : UInt64} (hf : flags.toNat < 1024) (hv : flags.toNat % 2 = 1) :
    pteEncode (pa >>> 12) flags &&& pteV ≠ 0 := by
  rw [Ne, and_pteV_eq_zero_iff, toNat_pteEncode hf]
  omega

/-- The flag bits stay below the frame number and always mark the entry valid. -/
theorem pteFlags_spec (partitionId : UInt32) (perms : UInt8) :
    (pteFlags partitionId perms).toNat < 1024 ∧ (pteFlags partitionId perms).toNat % 2 = 1 := by
  unfold pteFlags
  simp only
  split <;> split <;> split <;> split <;> decide

/-- A page and an offset into it make up an address. -/
theorem or_pageOffset {pa va a : UInt64} (hpa : PageAligned pa) (hva : PageAligned va)
    (ha : a - va < pageSize) : pa ||| (a &&& 0xFFF) = pa + (a - va) := by
  have hlt := pa.toNat_lt
  have hlta := a.toNat_lt
  have hltv := va.toNat_lt
  apply UInt64.toNat_inj.mp
  rw [UInt64.toNat_or, UInt64.toNat_and, UInt64.toNat_add, toNat_sub_eq]
  rw [sub_lt_pageSize_iff] at ha
  unfold PageAligned at hpa hva
  show pa.toNat ||| (a.toNat &&& 2 ^ 12 - 1) = _
  rw [Nat.and_two_pow_sub_one_eq_mod]
  have hsplit : pa.toNat = 2 ^ 12 * (pa.toNat / 4096) := by omega
  have hor : pa.toNat ||| a.toNat % 2 ^ 12 = pa.toNat + a.toNat % 2 ^ 12 := by
    rw [hsplit]
    exact (Nat.two_pow_add_eq_or_of_lt (Nat.mod_lt _ (by decide)) _).symm
  rw [hor]
  omega

/-! ### Table indices -/

theorem toNat_vpn2 (va : UInt64) : (vpn2 va).toNat = va.toNat / 2 ^ 30 % 512 := by
  rw [vpn2, UInt64.toNat_and, UInt64.toNat_shiftRight]
  show va.toNat >>> 30 &&& 2 ^ 9 - 1 = _
  rw [Nat.shiftRight_eq_div_pow, Nat.and_two_pow_sub_one_eq_mod]

theorem toNat_vpn1 (va : UInt64) : (vpn1 va).toNat = va.toNat / 2 ^ 21 % 512 := by
  rw [vpn1, UInt64.toNat_and, UInt64.toNat_shiftRight]
  show va.toNat >>> 21 &&& 2 ^ 9 - 1 = _
  rw [Nat.shiftRight_eq_div_pow, Nat.and_two_pow_sub_one_eq_mod]

theorem toNat_vpn0 (va : UInt64) : (vpn0 va).toNat = va.toNat / 2 ^ 12 % 512 := by
  rw [vpn0, UInt64.toNat_and, UInt64.toNat_shiftRight]
  show va.toNat >>> 12 &&& 2 ^ 9 - 1 = _
  rw [Nat.shiftRight_eq_div_pow, Nat.and_two_pow_sub_one_eq_mod]

/-- Two canonical addresses have the same three indices exactly when they lie in
one page. -/
theorem vpn_eq_iff {a va : UInt64} (ha : Canonical a) (hva : Canonical va)
    (haligned : PageAligned va) :
    (vpn2 a = vpn2 va ∧ vpn1 a = vpn1 va ∧ vpn0 a = vpn0 va) ↔ a - va < pageSize := by
  have hlta := a.toNat_lt
  have hltv := va.toNat_lt
  rw [sub_lt_pageSize_iff, ← UInt64.toNat_inj, ← UInt64.toNat_inj, ← UInt64.toNat_inj, toNat_vpn2,
    toNat_vpn2, toNat_vpn1, toNat_vpn1, toNat_vpn0, toNat_vpn0]
  unfold Canonical at ha hva
  unfold PageAligned at haligned
  constructor
  · rintro ⟨h2, h1, h0⟩
    have hpage : a.toNat / 4096 = va.toNat / 4096 := by omega
    omega
  · intro h
    have hpage : a.toNat / 4096 = va.toNat / 4096 := by omega
    refine ⟨?_, ?_, ?_⟩ <;> omega

end Moonlight
