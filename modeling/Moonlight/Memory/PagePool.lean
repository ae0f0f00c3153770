/-
The pages given out to one address space, as its allocator shows them.

Nothing records which pages an address space that is alone with its allocator has taken,
but how far the bump pointer has moved bounds where they are: the next page is none of
them.
-/
import Moonlight.Memory.PageTable

namespace Moonlight

/-- `p` was given out since the address space was created: each of its pages
moved the bump pointer by at most seventeen pages, or it is one of the pages
taken from the static pool. -/
def Handed (m : Memory) (vs : VSpace) (p : UInt64) : Prop :=
  if vs.alloc ≠ 0 then
    ∃ d : Nat, 0 < d ∧ d ≤ 17 * vs.ptPagesUsed.toNat ∧
      p + UInt64.ofNat (4096 * d) = (m.allocs vs.alloc).next
  else ∃ i : Nat, i < m.fallbackNext.toNat ∧ p = m.fallbackPool + UInt64.ofNat (4096 * i)

/-- The pages to come are page-aligned, and not so many were given out that the
allocator came round to its start. -/
structure PoolOk (m : Memory) (vs : VSpace) : Prop where
  aligned : PageAligned (if vs.alloc ≠ 0 then (m.allocs vs.alloc).next else m.fallbackPool)
  used : vs.ptPagesUsed.toNat ≤ 64
  fallback : vs.alloc = 0 → m.fallbackNext.toNat ≤ 64

theorem PoolOk.handed_aligned {m : Memory} {vs : VSpace} (h : PoolOk m vs) {p : UInt64}
    (hp : Handed m vs p) : PageAligned p := by
  have haligned := h.aligned
  unfold Handed at hp
  split at hp
  · rename_i hne
    rw [if_pos hne] at haligned
    obtain ⟨d, hpos, hle, heq⟩ := hp
    rw [← heq] at haligned
    have hd := pageAligned_ofNat d
    unfold PageAligned at *
    rw [UInt64.toNat_add] at haligned
    omega
  · rename_i hz
    rw [if_neg hz] at haligned
    obtain ⟨i, hi, rfl⟩ := hp
    exact haligned.add (pageAligned_ofNat i)

theorem ofNat_pages_add (k d : Nat) :
    UInt64.ofNat (4096 * k) + UInt64.ofNat (4096 * d) = UInt64.ofNat (4096 * (k + d)) := by
  rw [← UInt64.ofNat_add, Nat.mul_add]

/-- A few pages further on is a different address. -/
theorem add_pages_ne (p : UInt64) {k : Nat} (hpos : 0 < k) (hle : k ≤ 2000) :
    p + UInt64.ofNat (4096 * k) ≠ p := by
  intro h
  have hnat := congrArg UInt64.toNat h
  have hlt := p.toNat_lt
  rw [UInt64.toNat_add, UInt64.toNat_ofNat'] at hnat
  omega

theorem pool_pages_inj (p : UInt64) {i j : Nat} (hi : i ≤ 64) (hj : j ≤ 64)
    (h : p + UInt64.ofNat (4096 * i) = p + UInt64.ofNat (4096 * j)) : i = j := by
  have hnat := congrArg UInt64.toNat h
  have hlt := p.toNat_lt
  rw [UInt64.toNat_add, UInt64.toNat_add, UInt64.toNat_ofNat', UInt64.toNat_ofNat'] at hnat
  omega

theorem taken_of_allocFrame {m : Memory} {vs : VSpace} (h : PoolOk m vs) (halloc : vs.alloc ≠ 0)
    (hused : vs.ptPagesUsed < 64) {c : Cap} {a : FrameAlloc} {k : Nat} (hk : k ≤ 16)
    (hp : c.u.framePaddr = (m.allocs vs.alloc).next + UInt64.ofNat (4096 * k))
    (hnext : a.next = c.u.framePaddr + pageSize) :
    PageTaken PoolOk Handed m vs c.u.framePaddr
      { m with
        allocs := Function.update m.allocs vs.alloc a
        words := zeroPage m.words c.u.framePaddr }
      (vs.recordPage c) := by
  have halloc' : (vs.recordPage c).alloc ≠ 0 := halloc
  have haligned := h.aligned
  rw [if_pos halloc] at haligned
  have hpage : PageAligned c.u.framePaddr := by
    rw [hp]
    exact haligned.add (pageAligned_ofNat k)
  have hused' : (vs.recordPage c).ptPagesUsed.toNat = vs.ptPagesUsed.toNat + 1 :=
    toNat_succ_of_lt hused
  have hle := h.used
  have hsize : pageSize = UInt64.ofNat (4096 * 1) := rfl
  refine ⟨⟨?_, toNat_succ_le_of_lt hused, h.fallback⟩, rfl, rfl, rfl, ?_, ?_, ?_⟩
  · rw [if_pos halloc']
    simp only [VSpace.recordPage, Function.update_self]
    rw [hnext, hsize]
    exact hpage.add (pageAligned_ofNat 1)
  · -- the bump pointer never comes back to a page below it
    intro hhanded
    rw [Handed, if_pos halloc] at hhanded
    obtain ⟨d, hpos, hle, heq⟩ := hhanded
    rw [hp, UInt64.add_assoc, ofNat_pages_add] at heq
    exact add_pages_ne _ (by omega) (by omega) heq
  · intro q hq
    rw [Handed, if_pos halloc] at hq
    rw [Handed, if_pos halloc']
    obtain ⟨d, hpos, hle, heq⟩ := hq
    refine ⟨d + (k + 1), by omega, by rw [hused']; omega, ?_⟩
    simp only [VSpace.recordPage, Function.update_self]
    rw [hnext, hp, ← heq, hsize, UInt64.add_assoc, UInt64.add_assoc, ofNat_pages_add,
      ofNat_pages_add]
  · rw [Handed, if_pos halloc']
    refine ⟨1, by decide, by rw [hused']; omega, ?_⟩
    simp only [VSpace.recordPage, Function.update_self]
    rw [hnext, hsize]

theorem taken_of_fallback {m : Memory} {vs : VSpace} (h : PoolOk m vs) (halloc : vs.alloc = 0)
    (hused : vs.ptPagesUsed < 64) (hnext : m.fallbackNext < 64) (c : Cap) :
    PageTaken PoolOk Handed m vs (m.fallbackPool + m.fallbackNext.toUInt64 * pageSize)
      { m with
        words := zeroPage m.words (m.fallbackPool + m.fallbackNext.toUInt64 * pageSize)
        fallbackNext := m.fallbackNext + 1 }
      (vs.recordPage c) := by
  have hz : ¬ vs.alloc ≠ 0 := fun hne => hne halloc
  have hz' : ¬ (vs.recordPage c).alloc ≠ 0 := hz
  have haligned := h.aligned
  rw [if_neg hz] at haligned
  have hnext' := toNat_succ_of_lt hnext
  have hlt : m.fallbackNext.toNat < 64 := UInt32.lt_iff_toNat_lt.mp hnext
  have hpage : m.fallbackNext.toUInt64 * pageSize = UInt64.ofNat (4096 * m.fallbackNext.toNat) := by
    apply UInt64.toNat_inj.mp
    rw [UInt64.toNat_mul, UInt32.toNat_toUInt64, UInt64.toNat_ofNat', Nat.mul_comm]
    rfl
  rw [hpage]
  refine ⟨⟨?_, toNat_succ_le_of_lt hused, fun _ => toNat_succ_le_of_lt hnext⟩, rfl, rfl, rfl, ?_,
    ?_, ?_⟩
  · rw [if_neg hz']
    exact haligned
  · intro hhanded
    rw [Handed, if_neg hz] at hhanded
    obtain ⟨i, hi, heq⟩ := hhanded
    have := pool_pages_inj _ (by omega) (by omega) heq
    omega
  · intro q hq
    rw [Handed, if_neg hz] at hq
    rw [Handed, if_neg hz']
    obtain ⟨i, hi, heq⟩ := hq
    exact ⟨i, by rw [hnext']; omega, heq⟩
  · rw [Handed, if_neg hz']
    exact ⟨m.fallbackNext.toNat, by rw [hnext']; omega, rfl⟩

theorem PoolOk.page {m : Memory} {vs : VSpace} (h : PoolOk m vs) :
    allocPtPage m vs = (0, m, vs) ∨
    ∃ p m' vs', allocPtPage m vs = (p, m', vs') ∧ PageTaken PoolOk Handed m vs p m' vs' := by
  have houtcome := allocPtPage_outcome m vs
  generalize allocPtPage m vs = r at houtcome ⊢
  cases houtcome with
  | refused => exact Or.inl rfl
  | frame halloc hcaps hused htake =>
    obtain ⟨e, -, heq⟩ | ⟨c, a, k, heq, hk, hp, hnext⟩ :=
      allocFrame_cases (m.allocs vs.alloc) vs.partitionId pageSize
    · rw [htake] at heq
      cases heq
    · rw [htake] at heq
      cases heq
      exact Or.inr ⟨_, _, _, rfl, taken_of_allocFrame h halloc hused hk hp hnext⟩
  | pool c halloc hused hnext =>
    exact Or.inr ⟨_, _, _, rfl, taken_of_fallback h halloc hused hnext c⟩

/-- The account of an address space that is alone with its allocator. -/
def poolBooks : PageBooks where
  Ok := PoolOk
  Owns := Handed
  aligned := fun h hp => h.handed_aligned hp
  ok_words := fun _ h => ⟨h.aligned, h.used, h.fallback⟩
  owns_words := fun _ h => h
  page := PoolOk.page

end Moonlight
