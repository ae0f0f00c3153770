/-
Whether the memory server serves a request it could serve.

`mem_alloc` retypes into the slot that `next_frame_slot` names.  The cursor moves on when a
Frame has been made and stays where it is when the kernel refuses, so a capability in that
slot makes every later allocation fail.  `kernel_boot` puts the endpoints of the servers in
slots 11 to 13.  The server also trusts its own record of the size of an Untyped, whatever
the capability says.
-/
import Moonlight.Lib.Sum
import Moonlight.Syscall.Boot
import Moonlight.Userspace.MemServer

namespace Moonlight

/-- A call of `mem_alloc`. -/
structure AllocCall where
  partition : UInt32
  size : UInt64

/-- The server and the kernel it invokes. -/
structure AllocState where
  server : MemServer
  kernel : Kernel

def AllocCall.result (s : AllocState) (c : AllocCall) : Int :=
  (memAlloc s.kernel s.server c.partition c.size).1

def allocStep (s : AllocState) (c : AllocCall) : AllocState :=
  let r := memAlloc s.kernel s.server c.partition c.size
  { server := r.2.2.1, kernel := r.2.2.2 }

/-- Record `i` is free, its colour is admissible, and it backs an Untyped that can be retyped
to a Frame of the requested size. -/
structure Backs (s : AllocState) (c : AllocCall) (i : Nat) : Prop where
  record : i < s.server.untypedCount.toNat
  free : (s.server.untypeds i).free = true
  color : (s.server.untypeds i).color = expectedColor c.partition ∨
    (s.server.untypeds i).color = expectedColor c.partition + 1
  untyped : ∃ slot, cnodeLookupSlot s.kernel.root (s.server.untypeds i).cptr = some slot ∧
    capIsValid (s.kernel.root.slots slot) = true ∧
    capCanRetype (s.kernel.root.slots slot) .frame c.size = true

/-- The root CNode has an empty slot at or above 10. -/
def HasRoom (s : AllocState) : Prop :=
  ∃ j, 10 ≤ j ∧ j < maxCapsPerCnode.toNat ∧ (s.kernel.root.slots j).isValid = 0

/-- The call succeeds if it can be served at all. -/
def Served (s : AllocState) (c : AllocCall) : Prop :=
  (∃ i, Backs s c i) → HasRoom s → c.result s = 0

/-- The slot the cursor names is empty. -/
def CursorFree (s : AllocState) : Prop :=
  (s.kernel.root.slots s.server.nextFrameSlot.toNat).isValid = 0

/-- Where the call can be served at all, the cursor names an empty slot, and one of the
records that back the call has at least the requested size. -/
def Ready (s : AllocState) (c : AllocCall) : Prop :=
  (∃ i, Backs s c i) → HasRoom s →
    CursorFree s ∧ ∃ i, Backs s c i ∧ c.size ≤ (s.server.untypeds i).size

/-! ### The cursor -/

def freeRecords (ms : MemServer) : Nat :=
  ∑ i ∈ Finset.range ms.untypedCount.toNat, if (ms.untypeds i).free then 1 else 0

/-- The cursor has moved at most once for each record that is taken. -/
structure CursorInv (ms : MemServer) : Prop where
  count : ms.untypedCount.toNat ≤ maxUntyped
  low : 10 ≤ ms.nextFrameSlot.toNat
  moved : ms.nextFrameSlot.toNat + freeRecords ms ≤ 10 + ms.untypedCount.toNat

theorem CursorInv.lt {ms : MemServer} (h : CursorInv ms) : ms.nextFrameSlot.toNat < 256 := by
  have hcount : ms.untypedCount.toNat ≤ 32 := h.count
  have hmoved := h.moved
  omega

theorem freeRecords_take {ms : MemServer} {i : Nat} (hi : i < ms.untypedCount.toNat)
    (hfree : (ms.untypeds i).free = true) : freeRecords ms = freeRecords (ms.take i) + 1 := by
  have hsum := Word.sum_eq_of_eq_off (j := i) hi
    (f := fun j => if (ms.untypeds j).free then 1 else 0)
    (g := fun j => if ((ms.take i).untypeds j).free then 1 else 0)
    (fun j hj => by simp only [MemServer.take, Function.update_of_ne hj])
    (by simp [MemServer.take])
  simp only [hfree, if_true] at hsum
  exact hsum

theorem CursorInv.take {ms : MemServer} (h : CursorInv ms) {i : Nat}
    (hi : i < ms.untypedCount.toNat) (hfree : (ms.untypeds i).free = true) :
    CursorInv (ms.take i) := by
  have hnext : (ms.take i).nextFrameSlot.toNat = ms.nextFrameSlot.toNat + 1 := by
    have hlt := h.lt
    show (ms.nextFrameSlot + 1).toNat = _
    rw [UInt32.toNat_add]
    exact Nat.mod_eq_of_lt (by show ms.nextFrameSlot.toNat + 1 < 2 ^ 32; omega)
  have hlow := h.low
  have hmoved := h.moved
  have hfreed := freeRecords_take hi hfree
  refine ⟨h.count, by omega, ?_⟩
  show (ms.take i).nextFrameSlot.toNat + freeRecords (ms.take i) ≤ 10 + ms.untypedCount.toNat
  omega

theorem memServerInit_cursorInv (bases sizes : Nat → UInt64) (colors : Nat → UInt16) {n : UInt32}
    (hn : n.toNat ≤ maxUntyped) : CursorInv (memServerInit bases sizes colors n) := by
  refine ⟨hn, Nat.le_refl 10, ?_⟩
  have hle : freeRecords (memServerInit bases sizes colors n) ≤ ∑ i ∈ Finset.range n.toNat, 1 :=
    Finset.sum_le_sum fun i _ => by split_ifs <;> omega
  rw [← Finset.card_eq_sum_ones, Finset.card_range] at hle
  exact Nat.add_le_add_left hle 10

/-- A slot between 1 and 255 goes through the argument of the invocation unchanged. -/
theorem retypeDest_retypeArg {dest : UInt32} (hpos : 0 < dest.toNat) (hlt : dest.toNat < 256) :
    retypeDest (retypeArg dest) = dest := by
  have hbyte : ((retypeArg dest >>> 8) &&& 0xFF).toUInt32 = dest := by
    apply UInt32.toNat_inj.mp
    rw [UInt64.toNat_toUInt32, UInt64.toNat_and, UInt64.toNat_shiftRight, retypeArg,
      UInt64.toNat_shiftLeft, UInt32.toNat_toUInt64]
    show (((dest.toNat <<< 8) % 2 ^ 64) >>> 8 &&& (2 ^ 8 - 1)) % 2 ^ 32 = dest.toNat
    rw [Nat.and_two_pow_sub_one_eq_mod, Nat.shiftLeft_eq, Nat.shiftRight_eq_div_pow]
    omega
  have hne : dest ≠ 0 := by
    intro heq
    rw [heq] at hpos
    exact absurd hpos (by decide)
  simp only [retypeDest, hbyte, if_neg hne]

/-! ### One call -/

theorem suits_iff {u : UntypedRecord} {partition : UInt32} {size : UInt64} :
    u.suits partition size = true ↔ u.free = true ∧ size ≤ u.size ∧
      (u.color = expectedColor partition ∨ u.color = expectedColor partition + 1) := by
  simp only [UntypedRecord.suits, Bool.and_eq_true, Bool.not_eq_true', decide_eq_false_iff_not,
    UInt64.not_lt, Bool.and_eq_false_iff, bne_eq_false_iff_eq, and_assoc]

section
variable {s : AllocState} {c : AllocCall}

/-- The record can be taken: the server and the kernel accept it. -/
theorem eligible_iff (h : CursorInv s.server) {i : Nat} (hi : i < s.server.untypedCount.toNat) :
    s.server.Eligible s.kernel c.partition c.size i ↔
      CursorFree s ∧ Backs s c i ∧ c.size ≤ (s.server.untypeds i).size := by
  have hlow := h.low
  have hdest := retypeDest_retypeArg (by omega) h.lt
  rw [MemServer.Eligible, suits_iff]
  constructor
  · rintro ⟨⟨hfree, hsize, hcolor⟩, slot, hlookup, hvalid, hcan, hempty⟩
    rw [hdest] at hempty
    exact ⟨hempty, ⟨hi, hfree, hcolor, slot, hlookup, hvalid, hcan⟩, hsize⟩
  · rintro ⟨hempty, hbacks, hsize⟩
    obtain ⟨slot, hlookup, hvalid, hcan⟩ := hbacks.untyped
    refine ⟨⟨hbacks.free, hsize, hbacks.color⟩, slot, hlookup, hvalid, hcan, ?_⟩
    rw [hdest]
    exact hempty

theorem allocStep_cases (s : AllocState) (c : AllocCall) :
    (∃ i, i < s.server.untypedCount.toNat ∧
      s.server.Eligible s.kernel c.partition c.size i ∧ c.result s = 0 ∧
      (allocStep s c).server = s.server.take i) ∨
    ((∀ i, i < s.server.untypedCount.toNat →
        ¬ s.server.Eligible s.kernel c.partition c.size i) ∧
      c.result s = -1 ∧ allocStep s c = s) := by
  unfold AllocCall.result allocStep memAlloc
  obtain ⟨i, slot, hi, -, hsuits, hlookup, hallowed, heq⟩ | ⟨hnone, heq⟩ :=
    memAllocLoop_cases s.server s.kernel c.partition c.size s.server.untypedCount.toNat 0
  · rw [heq]
    exact Or.inl ⟨i, by omega, ⟨hsuits, slot, hlookup, hallowed⟩, rfl, rfl⟩
  · rw [heq]
    exact Or.inr ⟨fun i hi => hnone i (Nat.zero_le i) (by omega), rfl, rfl⟩

theorem allocStep_cursorInv (h : CursorInv s.server) (c : AllocCall) :
    CursorInv (allocStep s c).server := by
  obtain ⟨i, hi, helig, -, heq⟩ | ⟨-, -, heq⟩ := allocStep_cases s c
  · rw [heq]
    exact h.take hi (suits_iff.mp helig.1).1
  · rw [heq]
    exact h

theorem result_eq_zero_iff (h : CursorInv s.server) :
    c.result s = 0 ↔
      CursorFree s ∧ ∃ i, Backs s c i ∧ c.size ≤ (s.server.untypeds i).size := by
  obtain ⟨i, hi, helig, hresult, -⟩ | ⟨hnone, hresult, -⟩ := allocStep_cases s c
  · obtain ⟨hempty, hbacks⟩ := (eligible_iff h hi).mp helig
    exact ⟨fun _ => ⟨hempty, i, hbacks⟩, fun _ => hresult⟩
  · constructor
    · intro hzero
      rw [hresult] at hzero
      exact absurd hzero (by decide)
    · rintro ⟨hempty, i, hbacks, hsize⟩
      have hi := hbacks.record
      exact absurd ((eligible_iff h hi).mpr ⟨hempty, hbacks, hsize⟩) (hnone i hi)

theorem served_iff (h : CursorInv s.server) : Served s c ↔ Ready s c := by
  rw [Served, Ready, result_eq_zero_iff h]

end

/-! ### Runs -/

/-- Every call of a run is served where it can be, exactly when the cursor never stands on a
slot in use and the records never understate what they back. -/
theorem mem_alloc_served_iff (bases sizes : Nat → UInt64) (colors : Nat → UInt16) {n : UInt32}
    (hn : n.toNat ≤ maxUntyped) (k : Kernel) (calls : List AllocCall) :
    Run.Guarded allocStep Served ⟨memServerInit bases sizes colors n, k⟩ calls ↔
      Run.Guarded allocStep Ready ⟨memServerInit bases sizes colors n, k⟩ calls :=
  Run.guarded_congr_of_inv (fun s => CursorInv s.server) (fun _ c h => allocStep_cursorInv h c)
    (fun _ _ h => served_iff h) (memServerInit_cursorInv bases sizes colors hn) calls

/-- One page for each of two partitions, into slots 10 and 11. -/
def pageCalls : List AllocCall := [⟨0, 4096⟩, ⟨1, 4096⟩]

/-- The two Untypeds beside the endpoints that boot puts in slots 11 to 13. -/
def bootedPages : Kernel :=
  bootEndpoint plainBoot (bootEndpoint plainBoot (bootEndpoint plainBoot pagesKernel 1) 2) 3

/-- In a CNode with the Untypeds only, both pages are handed out. -/
theorem mem_alloc_served_empty_cnode :
    Run.Guarded allocStep Served ⟨pagesServer, pagesKernel⟩ pageCalls ∧
    Run.Guarded allocStep (fun s c => c.result s = 0) ⟨pagesServer, pagesKernel⟩ pageCalls := by
  refine ⟨(mem_alloc_served_iff _ _ _ (n := 2) (by decide) pagesKernel pageCalls).mpr
    ⟨?_, ?_, trivial⟩, by decide +kernel, by decide +kernel, trivial⟩
  · intro _ _
    refine ⟨by show _ = _; decide +kernel, 0, ⟨by decide, rfl, Or.inl rfl, 0, ?_⟩, by decide⟩
    decide +kernel
  · intro _ _
    refine ⟨by show _ = _; decide +kernel, 1, ⟨by decide, rfl, Or.inl rfl, 1, ?_⟩, by decide⟩
    decide +kernel

/-- The endpoint in slot 11 stops the server after one page: record 1 is free and backs the
second call, and slot 14 is empty. -/
theorem mem_alloc_stopped_by_endpoint :
    ¬ Run.Guarded allocStep Served ⟨pagesServer, bootedPages⟩ pageCalls := by
  rintro ⟨-, hsecond, -⟩
  have hbacks : Backs (allocStep ⟨pagesServer, bootedPages⟩ ⟨0, 4096⟩) ⟨1, 4096⟩ 1 := by
    refine ⟨by decide +kernel, by decide +kernel, by decide +kernel, 1, ?_⟩
    decide +kernel
  have hroom : HasRoom (allocStep ⟨pagesServer, bootedPages⟩ ⟨0, 4096⟩) :=
    ⟨14, by decide, by decide, by decide +kernel⟩
  have hfails : AllocCall.result (allocStep ⟨pagesServer, bootedPages⟩ ⟨0, 4096⟩) ⟨1, 4096⟩ = -1 := by
    decide +kernel
  rw [hsecond ⟨1, hbacks⟩ hroom] at hfails
  exact absurd hfails (by decide)

end Moonlight
