/-
The memory server and the Frames it hands out.

`mem_server` keeps a record for each of its Untypeds and marks it as taken when it retypes a
Frame from it.  A free request marks the records with that address as free again; it revokes
nothing, and any client may send it.  The next allocation retypes the same Untyped once
more, while the first Frame is still valid.

`moonlight_retype` is outside the sources.  It is taken to look the Untyped up in the root
CNode and to invoke it with `INV_UNTYPED_RETYPE`, the destination in bits 8 and up of the
first argument.
-/
import Moonlight.Syscall.Retype

namespace Moonlight

/-- `untyped_t`. -/
structure UntypedRecord where
  paddr : UInt64
  size : UInt64
  cptr : UInt32
  free : Bool
  color : UInt16
  deriving DecidableEq, Repr

def UntypedRecord.zero : UntypedRecord :=
  { paddr := 0, size := 0, cptr := 0, free := false, color := 0 }

/-- The static variables of the server. -/
structure MemServer where
  untypeds : Nat → UntypedRecord
  untypedCount : UInt32
  nextFrameSlot : UInt32

def maxUntyped : Nat := 32

/-- `mem_server_init` on zeroed static variables. -/
def memServerInit (bases sizes : Nat → UInt64) (colors : Nat → UInt16) (n : UInt32) : MemServer :=
  { untypeds := fun i =>
      if i < n.toNat ∧ i < maxUntyped then
        { paddr := bases i, size := sizes i, cptr := UInt32.ofNat i, free := true, color := colors i }
      else UntypedRecord.zero
    untypedCount := n
    nextFrameSlot := 10 }

/-- The first argument of the invocation. -/
def retypeArg (dest : UInt32) : UInt64 := dest.toUInt64 <<< 8

def moonlightRetype (k : Kernel) (cptr type : UInt32) (size : UInt64) (dest : UInt32) :
    KError × Kernel :=
  match cnodeLookup k.root cptr with
  | none => (.invalidCap, k)
  | some ut => handleInvoke k ut .untypedRetype (retypeArg dest) type.toUInt64 size

/-- `expected` in `mem_alloc`. -/
def expectedColor (partition : UInt32) : UInt16 := (partition * 2 % 16).toUInt16

/-- The record passes the checks of `mem_alloc` before the retype. -/
def UntypedRecord.suits (u : UntypedRecord) (partition : UInt32) (size : UInt64) : Bool :=
  u.free && !(u.size < size) &&
    !(u.color != expectedColor partition && u.color != expectedColor partition + 1)

/-- The loop of `mem_alloc`, with the rounds it has left and the record it has reached. -/
def memAllocLoop (ms : MemServer) (partition : UInt32) (size : UInt64) :
    Nat → Nat → Kernel → Option Nat × Kernel
  | 0, _, k => (none, k)
  | n + 1, i, k =>
    if (ms.untypeds i).suits partition size then
      match moonlightRetype k (ms.untypeds i).cptr 5 size ms.nextFrameSlot with
      | (.ok, k') => (some i, k')
      | (_, k') => memAllocLoop ms partition size n (i + 1) k'
    else memAllocLoop ms partition size n (i + 1) k

/-- The server after record `i` has been taken. -/
def MemServer.take (ms : MemServer) (i : Nat) : MemServer :=
  { ms with
    untypeds := Function.update ms.untypeds i { ms.untypeds i with free := false }
    nextFrameSlot := ms.nextFrameSlot + 1 }

/-- `mem_alloc`; the option is what is stored through `out_paddr` and `out_color`. -/
def memAlloc (k : Kernel) (ms : MemServer) (partition : UInt32) (size : UInt64) :
    Int × Option (UInt64 × UInt16) × MemServer × Kernel :=
  match memAllocLoop ms partition size ms.untypedCount.toNat 0 k with
  | (some i, k') => (0, some ((ms.untypeds i).paddr, (ms.untypeds i).color), ms.take i, k')
  | (none, k') => (-1, none, ms, k')

/-- The loop of a free request. -/
def memFree (ms : MemServer) (paddr : UInt64) : MemServer :=
  { ms with
    untypeds := fun i =>
      if i < ms.untypedCount.toNat ∧ (ms.untypeds i).paddr = paddr then
        { ms.untypeds i with free := true }
      else ms.untypeds i }

/-- A message, and what the locals `paddr` and `color` hold before `mem_alloc` writes them. -/
structure MemRequest where
  msg : IpcMsg
  paddr : UInt64
  color : UInt16

/-- The body of the loop of `mem_server_run`; the option is the reply. -/
def memServerHandle (k : Kernel) (ms : MemServer) (r : MemRequest) :
    MemServer × Kernel × Option IpcMsg :=
  if r.msg.label = 1 then
    let a := memAlloc k ms (r.msg.words 0).toUInt32 (r.msg.words 1)
    let out := a.2.1.getD (r.paddr, r.color)
    let words := Function.update (Function.update (Function.update r.msg.words 0
      (if a.1 = 0 then 0 else 0xFFFFFFFFFFFFFFFF)) 1 out.1) 2 out.2.toUInt64
    let msg := { r.msg with words := words, length := 3 }
    let msg :=
      if a.1 = 0 then
        { msg with capPtrs := Function.update msg.capPtrs 0 (a.2.2.1.nextFrameSlot - 1), caps := 1 }
      else msg
    (a.2.2.1, a.2.2.2, some msg)
  else if r.msg.label = 2 then
    (memFree ms (r.msg.words 0), k,
      some { r.msg with words := Function.update r.msg.words 0 0, length := 1 })
  else (ms, k, none)

/-! ### Which record is taken -/

/-- The record suits the request and the kernel allows the retype. -/
def MemServer.Eligible (ms : MemServer) (k : Kernel) (partition : UInt32) (size : UInt64) (i : Nat) :
    Prop :=
  (ms.untypeds i).suits partition size = true ∧
    ∃ slot, cnodeLookupSlot k.root (ms.untypeds i).cptr = some slot ∧
      RetypeAllowed k (k.root.slots slot) (retypeArg ms.nextFrameSlot) 5 size

theorem moonlightRetype_cases (k : Kernel) (cptr : UInt32) (size : UInt64) (dest : UInt32) :
    (∃ slot, cnodeLookupSlot k.root cptr = some slot ∧
      RetypeAllowed k (k.root.slots slot) (retypeArg dest) 5 size ∧
      moonlightRetype k cptr 5 size dest =
        (.ok, k.retype (k.root.slots slot) (retypeArg dest) 5 size)) ∨
    ((∀ slot, cnodeLookupSlot k.root cptr = some slot →
        ¬ RetypeAllowed k (k.root.slots slot) (retypeArg dest) 5 size) ∧
      ∃ e, e ≠ .ok ∧ moonlightRetype k cptr 5 size dest = (e, k)) := by
  unfold moonlightRetype cnodeLookup
  cases hslot : cnodeLookupSlot k.root cptr with
  | none => exact Or.inr ⟨fun _ h => (nomatch h), .invalidCap, by decide, rfl⟩
  | some slot =>
    obtain ⟨hallowed, heq⟩ | ⟨hnot, e, hne, heq⟩ :=
      handleInvoke_retype_cases k (k.root.slots slot) (retypeArg dest) 5 size
    · exact Or.inl ⟨slot, rfl, hallowed, heq⟩
    · refine Or.inr ⟨fun slot' h' => ?_, e, hne, heq⟩
      obtain rfl := Option.some.inj h'
      exact hnot

/-- A record that is not eligible is passed over, whether the server or the kernel refuses it. -/
theorem memAllocLoop_skip {ms : MemServer} {k : Kernel} {partition : UInt32} {size : UInt64} {i : Nat}
    (h : ¬ ms.Eligible k partition size i) (n : Nat) :
    memAllocLoop ms partition size (n + 1) i k = memAllocLoop ms partition size n (i + 1) k := by
  rw [memAllocLoop]
  by_cases hsuits : (ms.untypeds i).suits partition size = true
  · rw [if_pos hsuits]
    obtain ⟨slot, hslot, hallowed, -⟩ | ⟨-, e, hne, heq⟩ :=
      moonlightRetype_cases k (ms.untypeds i).cptr size ms.nextFrameSlot
    · exact absurd ⟨hsuits, slot, hslot, hallowed⟩ h
    · rw [heq]
      cases e <;> first | exact absurd rfl hne | rfl
  · rw [if_neg hsuits]

theorem memAllocLoop_take {ms : MemServer} {k : Kernel} {partition : UInt32} {size : UInt64}
    {i slot : Nat} (hsuits : (ms.untypeds i).suits partition size = true)
    (hslot : cnodeLookupSlot k.root (ms.untypeds i).cptr = some slot)
    (hallowed : RetypeAllowed k (k.root.slots slot) (retypeArg ms.nextFrameSlot) 5 size) (n : Nat) :
    memAllocLoop ms partition size (n + 1) i k =
      (some i, k.retype (k.root.slots slot) (retypeArg ms.nextFrameSlot) 5 size) := by
  obtain ⟨slot', hslot', -, heq⟩ | ⟨hnot, -⟩ :=
    moonlightRetype_cases k (ms.untypeds i).cptr size ms.nextFrameSlot
  · obtain rfl := Option.some.inj (hslot.symm.trans hslot')
    rw [memAllocLoop, if_pos hsuits, heq]
  · exact absurd hallowed (hnot slot hslot)

theorem memAllocLoop_cases (ms : MemServer) (k : Kernel) (partition : UInt32) (size : UInt64)
    (n i : Nat) :
    (∃ j slot, j < i + n ∧ (∀ l, i ≤ l → l < j → ¬ ms.Eligible k partition size l) ∧
      (ms.untypeds j).suits partition size = true ∧
      cnodeLookupSlot k.root (ms.untypeds j).cptr = some slot ∧
      RetypeAllowed k (k.root.slots slot) (retypeArg ms.nextFrameSlot) 5 size ∧
      memAllocLoop ms partition size n i k =
        (some j, k.retype (k.root.slots slot) (retypeArg ms.nextFrameSlot) 5 size)) ∨
    ((∀ l, i ≤ l → l < i + n → ¬ ms.Eligible k partition size l) ∧
      memAllocLoop ms partition size n i k = (none, k)) := by
  induction n generalizing i with
  | zero => exact Or.inr ⟨fun l hl hlt => absurd hlt (by omega), rfl⟩
  | succ n ih =>
    by_cases helig : ms.Eligible k partition size i
    · obtain ⟨hsuits, slot, hslot, hallowed⟩ := helig
      exact Or.inl ⟨i, slot, by omega, fun l hl hlt => absurd hlt (by omega), hsuits, hslot, hallowed,
        memAllocLoop_take hsuits hslot hallowed n⟩
    · have hfrom : ∀ m, (∀ l, i + 1 ≤ l → l < m → ¬ ms.Eligible k partition size l) →
          ∀ l, i ≤ l → l < m → ¬ ms.Eligible k partition size l := by
        intro m hrest l hl hlt
        by_cases hli : l = i
        · rw [hli]
          exact helig
        · exact hrest l (by omega) hlt
      rw [memAllocLoop_skip helig]
      obtain ⟨j, slot, hj, hfirst, hfound⟩ | ⟨hnone, heq⟩ := ih (i + 1)
      · exact Or.inl ⟨j, slot, by omega, hfrom j hfirst, hfound⟩
      · refine Or.inr ⟨hfrom _ ?_, heq⟩
        intro l hl hlt
        exact hnone l hl (by omega)

/-! ### Runs -/

/-- The server, the kernel and the Frames that were made for clients. -/
structure MemRun where
  server : MemServer
  run : RetypeRun Nat

/-- The Frame an allocation makes, by the slot of its Untyped. -/
def memGrant (k : Kernel) (ms : MemServer) (r : MemRequest) : Option (Created Nat) :=
  if r.msg.label = 1 then
    match memAllocLoop ms (r.msg.words 0).toUInt32 (r.msg.words 1) ms.untypedCount.toNat 0 k with
    | (some i, _) =>
      some
        { src := (cnodeLookupSlot k.root (ms.untypeds i).cptr).getD 0
          slot := (retypeDest (retypeArg ms.nextFrameSlot)).toNat
          size := r.msg.words 1 }
    | (none, _) => none
  else none

def memStep (s : MemRun) (r : MemRequest) : MemRun :=
  let h := memServerHandle s.run.kernel s.server r
  { server := h.1
    run :=
      { kernel := h.2.1
        created := s.run.created ++ (memGrant s.run.kernel s.server r).toList } }

/-- The request is an allocation that takes record `i`, whose Untyped is in `slot`. -/
structure Takes (s : MemRun) (r : MemRequest) (i slot : Nat) : Prop where
  label : r.msg.label = 1
  record : i < s.server.untypedCount.toNat
  suits : (s.server.untypeds i).suits (r.msg.words 0).toUInt32 (r.msg.words 1) = true
  lookup : cnodeLookupSlot s.run.kernel.root (s.server.untypeds i).cptr = some slot
  allowed : RetypeAllowed s.run.kernel (s.run.kernel.root.slots slot)
    (retypeArg s.server.nextFrameSlot) 5 (r.msg.words 1)
  first : ∀ j, j < i →
    ¬ s.server.Eligible s.run.kernel (r.msg.words 0).toUInt32 (r.msg.words 1) j

/-- The condition on a request: it does not take an Untyped from which a Frame has been made
before, unless one of the two Frames is empty because its end wraps. -/
def FreshGrant (s : MemRun) (r : MemRequest) : Prop :=
  ∀ i slot, Takes s r i slot → ∀ a ∈ s.run.created, a.src = slot →
    ¬ (EndsInRange (s.run.kernel.root.slots slot) a.size ∧
      EndsInRange (s.run.kernel.root.slots slot) (r.msg.words 1))

section
variable {k₀ : Kernel} {s : MemRun} {r : MemRequest} {i slot : Nat}

theorem Takes.eligible (h : Takes s r i slot) :
    s.server.Eligible s.run.kernel (r.msg.words 0).toUInt32 (r.msg.words 1) i :=
  ⟨h.suits, slot, h.lookup, h.allowed⟩

theorem Takes.unique {i' slot' : Nat} (h : Takes s r i slot) (h' : Takes s r i' slot') :
    slot = slot' := by
  have hi : i = i' := by
    rcases Nat.lt_trichotomy i i' with hlt | heq | hgt
    · exact absurd h.eligible (h'.first i hlt)
    · exact heq
    · exact absurd h'.eligible (h.first i' hgt)
  subst hi
  exact Option.some.inj (h.lookup.symm.trans h'.lookup)

/-- The Untyped that slot `i` of the root CNode holds. -/
def untypedAt (k : Kernel) (i : Nat) : Cap :=
  if (k.root.slots i).type = .untyped ∧ (k.root.slots i).isValid ≠ 0 then k.root.slots i
  else Cap.zero

/-- Whatever is new in the root CNode is a Frame. -/
def OnlyFramesAdded (k₀ k : Kernel) : Prop :=
  ∀ i, k.root.slots i = k₀.root.slots i ∨ (k.root.slots i).type = .frame

/-- What can be retyped was there from the start. -/
theorem OnlyFramesAdded.untypedAt {k : Kernel} (h : OnlyFramesAdded k₀ k) {arg1 arg2 arg3 : UInt64}
    (hallowed : RetypeAllowed k (k.root.slots slot) arg1 arg2 arg3) :
    k.root.slots slot = untypedAt k₀ slot := by
  obtain ⟨htype, hvalid, -⟩ := capCanRetype_iff.mp hallowed.2.1
  obtain hsame | hframe := h slot
  · rw [hsame] at htype hvalid ⊢
    exact (if_pos ⟨htype, hvalid⟩).symm
  · rw [hframe] at htype
    cases htype

theorem OnlyFramesAdded.retype {k : Kernel} (h : OnlyFramesAdded k₀ k) {cap : Cap}
    {arg1 arg3 : UInt64} (hallowed : RetypeAllowed k cap arg1 5 arg3) :
    OnlyFramesAdded k₀ (k.retype cap arg1 5 arg3) := by
  intro i
  rw [retype_root_slots]
  by_cases hi : i = (retypeDest arg1).toNat
  · rw [hi, Function.update_self, capRetype, if_pos hallowed.2.1]
    exact Or.inr rfl
  · rw [Function.update_of_ne hi]
    exact h i

/-- The retype a request asks for. -/
def grantCall (s : MemRun) (r : MemRequest) (slot : Nat) : RetypeCall Nat :=
  { src := slot, arg1 := retypeArg s.server.nextFrameSlot, arg2 := 5, arg3 := r.msg.words 1 }

/-- A request is a retype of the Untyped it takes, or leaves the kernel alone. -/
theorem memStep_cases (h : OnlyFramesAdded k₀ s.run.kernel) (r : MemRequest) :
    (∃ i slot, Takes s r i slot ∧ s.run.kernel.root.slots slot = untypedAt k₀ slot ∧
      (memStep s r).run = retypeStep (untypedAt k₀) s.run (grantCall s r slot)) ∨
    ((∀ i slot, ¬ Takes s r i slot) ∧ (memStep s r).run = s.run) := by
  by_cases hlabel : r.msg.label = 1
  · obtain ⟨i, slot, hi, hfirst, hsuits, hlookup, hallowed, heq⟩ | ⟨hnone, heq⟩ :=
      memAllocLoop_cases s.server s.run.kernel (r.msg.words 0).toUInt32 (r.msg.words 1)
        s.server.untypedCount.toNat 0
    · have hcap := h.untypedAt hallowed
      refine Or.inl ⟨i, slot, ⟨hlabel, by omega, hsuits, hlookup, hallowed,
        fun j hj => hfirst j (Nat.zero_le j) hj⟩, hcap, ?_⟩
      rw [hcap] at hallowed heq
      obtain ⟨-, hretype⟩ | ⟨hnot, -⟩ := retypeStep_cases (untypedAt k₀) s.run (grantCall s r slot)
      · rw [hretype]
        simp only [memStep, memServerHandle, memGrant, memAlloc, if_pos hlabel, heq, hlookup,
          Option.getD_some, Option.toList_some]
        rfl
      · exact absurd hallowed hnot
    · refine Or.inr ⟨fun i slot htakes => ?_, ?_⟩
      · exact hnone i (Nat.zero_le i) (by have hrecord := htakes.record; omega) htakes.eligible
      · simp only [memStep, memServerHandle, memGrant, memAlloc, if_pos hlabel, heq,
          Option.toList_none, List.append_nil]
  · refine Or.inr ⟨fun i slot htakes => hlabel htakes.label, ?_⟩
    simp only [memStep, memServerHandle, memGrant, if_neg hlabel, Option.toList_none,
      List.append_nil]
    split_ifs <;> rfl

/-- What every run keeps, as long as its requests are fresh. -/
structure GrantInv (k₀ : Kernel) (s : MemRun) : Prop where
  added : OnlyFramesAdded k₀ s.run.kernel
  created : AllCreatedOk (untypedAt k₀) s.run
  apart : s.run.created.Pairwise (NotShared (untypedAt k₀))

theorem GrantInv.disjoint
    (hregions : ∀ i j, i ≠ j → Disjoint (untypedRegion (untypedAt k₀ i)) (untypedRegion (untypedAt k₀ j)))
    (h : GrantInv k₀ s) : CreatedDisjoint s.run :=
  (createdDisjoint_iff hregions h.created).mpr h.apart

/-- One request: the Frames stay apart exactly when it is fresh. -/
theorem GrantInv.step_iff (h : GrantInv k₀ s) (r : MemRequest) :
    OnlyFramesAdded k₀ (memStep s r).run.kernel ∧ AllCreatedOk (untypedAt k₀) (memStep s r).run ∧
      ((memStep s r).run.created.Pairwise (NotShared (untypedAt k₀)) ↔ FreshGrant s r) := by
  obtain ⟨i, slot, htakes, hcap, heq⟩ | ⟨hnone, heq⟩ := memStep_cases h.added r
  · have hallowed := htakes.allowed
    rw [hcap] at hallowed
    have hcreated := retypeStep_allCreatedOk s.run (grantCall s r slot) h.created
    have hpairs : (retypeStep (untypedAt k₀) s.run (grantCall s r slot)).created.Pairwise
        (NotShared (untypedAt k₀)) ↔ _ := pairwise_notShared_iff s.run [grantCall s r slot]
    rw [heq]
    refine ⟨?_, hcreated, ?_⟩
    · obtain ⟨-, hretype⟩ | ⟨hnot, -⟩ := retypeStep_cases (untypedAt k₀) s.run (grantCall s r slot)
      · rw [hretype]
        exact h.added.retype hallowed
      · exact absurd hallowed hnot
    · refine hpairs.trans ?_
      simp only [Run.Guarded, and_true, h.apart, true_and]
      constructor
      · intro hfirst i' slot' htakes' a ha hsrc
        obtain rfl := htakes.unique htakes'
        have huse := hfirst hallowed a ha hsrc
        rw [hsrc] at huse
        rw [hcap]
        exact huse
      · intro hfresh _ a ha hsrc
        have huse := hfresh i slot htakes a ha hsrc
        rw [hcap] at huse
        rw [hsrc]
        exact huse
  · rw [heq]
    exact ⟨h.added, h.created, iff_of_true h.apart fun i slot htakes => absurd htakes (hnone i slot)⟩

end

/-- From Untypeds with disjoint regions, along every run of requests to the server, the valid
Frames it has made are disjoint at every point exactly when no allocation takes an Untyped
that has served before. -/
theorem grants_disjoint_iff {k₀ : Kernel}
    (hregions : ∀ i j, i ≠ j →
      Disjoint (untypedRegion (untypedAt k₀ i)) (untypedRegion (untypedAt k₀ j)))
    (ms : MemServer) (reqs : List MemRequest) :
    (∀ bs, bs <+: reqs →
      CreatedDisjoint (Run.exec memStep ⟨ms, { kernel := k₀, created := [] }⟩ bs).run) ↔
    Run.Guarded memStep FreshGrant ⟨ms, { kernel := k₀, created := [] }⟩ reqs := by
  have hstart : GrantInv k₀ ⟨ms, { kernel := k₀, created := [] }⟩ := by
    refine ⟨fun i => Or.inl rfl, fun a ha => ?_, List.Pairwise.nil⟩
    cases ha
  refine Run.exec_forall_prefix_iff_of_inv (GrantInv k₀) (fun s h => h.disjoint hregions)
    (fun s r h hfresh => ?_) (fun s r h hdisj => ?_) hstart reqs
  · obtain ⟨hadded, hcreated, hiff⟩ := h.step_iff r
    exact ⟨hadded, hcreated, hiff.mpr hfresh⟩
  · obtain ⟨-, hcreated, hiff⟩ := h.step_iff r
    exact hiff.mp ((createdDisjoint_iff hregions hcreated).mp hdisj)

/-- An Untyped of one page. -/
def pageUntyped (paddr : UInt64) : Cap :=
  { type := .untyped, rights := 0xFF, badge := 0, isSealed := 0, isValid := 1, color := 0
    u := { w0 := paddr, w1 := 4096, w2 := 0, w3 := 0 }
    hwCap := { base := paddr, top := paddr + 4096, addr := paddr, perms := 0, otype := 0, tag := 1,
               sealed := 0 } }

/-- Two Untypeds in slots 0 and 1 of the root CNode. -/
def pagesKernel : Kernel :=
  blankKernel.setRoot ((blankKernel.root.addSlot 0 (pageUntyped 0x90000000)).addSlot 1
    (pageUntyped 0x91000000))

/-- The server with a record for each of them, in colours 0 and 2. -/
def pagesServer : MemServer :=
  memServerInit (fun i => if i = 0 then 0x90000000 else 0x91000000) (fun _ => 4096)
    (fun i => if i = 0 then 0 else 2) 2

def allocRequest (partition size : UInt64) : MemRequest :=
  { msg := { IpcMsg.zero with label := 1, words := fun i => if i = 0 then partition else size }
    paddr := 0, color := 0 }

def freeRequest (paddr : UInt64) : MemRequest :=
  { msg := { IpcMsg.zero with label := 2, words := fun _ => paddr }, paddr := 0, color := 0 }

theorem untypedAt_pages (i : Nat) (hi : 2 ≤ i) : untypedAt pagesKernel i = Cap.zero := by
  have hslot : pagesKernel.root.slots i = Cap.zero := by
    show Function.update (Function.update (fun _ => Cap.zero) 0 _) 1 _ i = _
    rw [Function.update_of_ne (by omega), Function.update_of_ne (by omega)]
  rw [untypedAt, hslot]
  rfl

theorem pagesKernel_regions (i j : Nat) (hij : i ≠ j) :
    Disjoint (untypedRegion (untypedAt pagesKernel i)) (untypedRegion (untypedAt pagesKernel j)) := by
  have hempty : ∀ n, 2 ≤ n → untypedRegion (untypedAt pagesKernel n) = ∅ := by
    intro n hn
    rw [untypedAt_pages n hn]
    exact Set.Ico_self 0
  have hpair : Disjoint (untypedRegion (untypedAt pagesKernel 0))
      (untypedRegion (untypedAt pagesKernel 1)) := by
    rw [untypedRegion, untypedRegion, Set.Ico_disjoint_Ico]
    decide +kernel
  by_cases hi : 2 ≤ i
  · rw [hempty i hi]
    exact Set.empty_disjoint _
  by_cases hj : 2 ≤ j
  · rw [hempty j hj]
    exact Set.disjoint_empty _
  have hcases : i = 0 ∧ j = 1 ∨ i = 1 ∧ j = 0 := by omega
  rcases hcases with ⟨rfl, rfl⟩ | ⟨rfl, rfl⟩
  · exact hpair
  · exact hpair.symm

/-- One page for each of two partitions. -/
theorem grants_disjoint_two_partitions :
    (∀ bs, bs <+: [allocRequest 0 4096, allocRequest 1 4096] →
      CreatedDisjoint (Run.exec memStep ⟨pagesServer, { kernel := pagesKernel, created := [] }⟩ bs).run) ∧
    (Run.exec memStep ⟨pagesServer, { kernel := pagesKernel, created := [] }⟩
      [allocRequest 0 4096, allocRequest 1 4096]).run.created.length = 2 := by
  refine ⟨(grants_disjoint_iff pagesKernel_regions pagesServer _).mpr ⟨?_, ?_, trivial⟩,
    by decide +kernel⟩
  · intro _ _ _ a ha
    cases ha
  · intro i slot htakes a ha hsrc
    -- record 0 is taken, and record 1 names the Untyped in slot 1
    have hsrcs : (memStep ⟨pagesServer, { kernel := pagesKernel, created := [] }⟩
        (allocRequest 0 4096)).run.created.map Created.src = [0] := by decide +kernel
    have hmem : a.src ∈ [0] := hsrcs ▸ List.mem_map_of_mem ha
    rw [List.mem_singleton] at hmem
    have hi : i = 0 ∨ i = 1 := by
      have hrecord : i < 2 := htakes.record
      omega
    rcases hi with rfl | rfl
    · exact absurd htakes.suits (by decide +kernel)
    · have hslot : cnodeLookupSlot (memStep ⟨pagesServer, { kernel := pagesKernel, created := [] }⟩
          (allocRequest 0 4096)).run.kernel.root 1 = some 1 := by decide +kernel
      have hone : some slot = some 1 := htakes.lookup.symm.trans hslot
      have hone := Option.some.inj hone
      omega

/-- A page that is freed is handed out again while its first Frame is valid. -/
theorem grants_overlap_after_free :
    (∀ i j, i ≠ j → Disjoint (untypedRegion (untypedAt pagesKernel i))
      (untypedRegion (untypedAt pagesKernel j))) ∧
    ¬ CreatedDisjoint (Run.exec memStep ⟨pagesServer, { kernel := pagesKernel, created := [] }⟩
      [allocRequest 0 4096, freeRequest 0x90000000, allocRequest 0 4096]).run := by
  refine ⟨pagesKernel_regions, ?_⟩
  intro hdisj
  have hpair := List.pairwise_iff_getElem.mp hdisj 0 1 (by decide +kernel) (by decide +kernel)
    (by decide)
  exact not_disjoint_of_base_eq (by decide +kernel) (by decide +kernel) (by decide +kernel)
    (hpair (by decide +kernel) (by decide +kernel))

end Moonlight
