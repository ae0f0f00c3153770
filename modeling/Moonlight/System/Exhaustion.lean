/-
Memory that never comes back.

Stacks of processes and pages of page tables come from one bump allocator, and neither
`process_destroy` nor `vspace_unmap` gives anything back to it.  So the stacks of all
processes that were ever created fit into the pool together, whether they still exist or
not, and a request that no longer fits will never be met again.
-/
import Moonlight.Memory.FrameRanges
import Moonlight.Process.Isolation
import Moonlight.System.Step

namespace Moonlight

/-- The pool up to `top` is taken at least up to `low`. -/
structure Taken (a : FrameAlloc) (low top : Nat) : Prop where
  low : low ≤ a.next.toNat
  high : a.next.toNat ≤ top
  limit : a.top.toNat = top

variable {env : BootEnv} {k k' : Kernel} {a : FrameAlloc} {low top : Nat}

/-- A frame of this size ends below `2 ^ 64`, however many pages are skipped for its colour. -/
def FitsWord (top : Nat) (size : UInt64) : Prop := top + 65536 + size.toNat < 2 ^ 64

theorem Taken.mono (h : Taken a low top) {low' : Nat} (hle : low' ≤ low) : Taken a low' top :=
  ⟨Nat.le_trans hle h.low, h.high, h.limit⟩

/-- A frame that is handed out is taken from the pool; otherwise nothing changes. -/
theorem Taken.alloc (h : Taken a low top) {size : UInt64} (hsize : FitsWord top size)
    (partition : UInt32) :
    (∃ c a', allocFrame a partition size = (.ok, some c, a') ∧ Taken a' (low + size.toNat) top) ∨
    ∃ e, e ≠ .ok ∧ allocFrame a partition size = (e, none, a) := by
  obtain ⟨hacc, c, a', heq, -, hnext, htop, -⟩ | ⟨-, e, hne, heq⟩ :=
    allocFrame_accepted_cases a { partition := partition, size := size }
  swap
  · exact Or.inr ⟨e, hne, heq⟩
  refine Or.inl ⟨c, a', heq, ?_⟩
  have hskip : a.skip partition < 16 := Nat.mod_lt _ (by omega)
  have hend : a.frameEnd { partition := partition, size := size } =
      a.next.toNat + 4096 * a.skip partition + size.toNat := rfl
  have hlow := h.low
  have hhigh := h.high
  have hlimit := h.limit
  have hfits := hacc.fits
  unfold FitsWord at hsize
  rw [hend, Nat.mod_eq_of_lt (by omega)] at hnext hfits
  exact ⟨by omega, by omega, by rw [htop]; exact hlimit⟩

/-! ### Page tables -/

theorem Taken.keptByPages (htop : FitsWord top pageSize) (gAlloc : UInt64) :
    KeptByPages fun m _ => Taken (m.allocs gAlloc) low top where
  words := fun _ h => h
  page := by
    intro m vs h
    unfold allocPtPage
    split_ifs with hcaps hused halloc hpool
    · exact h
    · exact h
    · by_cases hptr : vs.alloc = gAlloc
      · subst hptr
        obtain ⟨c, a', heq, htaken⟩ | ⟨e, hne, heq⟩ := h.alloc htop vs.partitionId
        · rw [heq]
          simp only [Function.update_self]
          exact htaken.mono (Nat.le_add_right ..)
        · rw [heq]
          cases e <;> first | exact absurd rfl hne | exact h
      · split
        · simp only [Function.update_of_ne (Ne.symm hptr)]
          exact h
        · exact h
    · exact h
    · exact h

theorem vspaceUnmap_allocs (m : Memory) (vs : VSpace) (vaddr size : UInt64) :
    (vspaceUnmap m vs vaddr size).2.allocs = m.allocs := by
  unfold vspaceUnmap
  split_ifs
  · rfl
  · rfl
  · rfl

/-! ### Creation -/

/-- Creation takes the frame for the stack or leaves the allocator alone, and a process that
comes to exist has its frame. -/
theorem processCreate_alloc (s : ProcessTables) (args : ProcessArgs) :
    ((processCreate s args).1 ≠ .ok ∧ (processCreate s args).2.2.alloc = s.alloc) ∨
    ∃ c a', allocFrame s.alloc args.partitionId args.stackSize = (.ok, some c, a') ∧
      (processCreate s args).2.2.alloc = a' := by
  have hrefused : ∀ {e : KError}, e ≠ .ok →
      (e, (none : Option UInt32), s).1 ≠ .ok ∧ (e, (none : Option UInt32), s).2.2.alloc = s.alloc :=
    fun hne => ⟨hne, rfl⟩
  unfold processCreate
  split_ifs
  · exact Or.inl (hrefused (by decide))
  · exact Or.inl (hrefused (by decide))
  split
  · exact Or.inl (hrefused (by decide))
  obtain ⟨e, hne, halloc⟩ | ⟨c, a', _, halloc, -⟩ :=
    allocFrame_cases s.alloc args.partitionId args.stackSize
  · rw [halloc]
    cases e <;> first | exact absurd rfl hne | exact Or.inl (hrefused hne)
  · refine Or.inr ⟨c, a', halloc, ?_⟩
    simp only [halloc]
    split
    · split_ifs
      · rfl
      · rfl
    · rfl

/-! ### Every run -/

/-- The kernel, with the bytes of stack of all processes that were ever created. -/
structure Ledger where
  kernel : Kernel
  stackBytes : Nat

/-- The stack of the process that an event creates, if it creates one. -/
def SystemEvent.stack (env : BootEnv) (k : Kernel) : SystemEvent → Nat
  | .create args => if (k.create env args).1 = .ok then args.stackSize.toNat else 0
  | _ => 0

/-- Nothing is ever taken off the ledger. -/
def LedgerStep (env : BootEnv) (l : Ledger) (e : SystemEvent) (l' : Ledger) : Prop :=
  SystemStep env l.kernel e l'.kernel ∧ l'.stackBytes = l.stackBytes + e.stack env l.kernel

/-- Every run of the system has a ledger. -/
theorem ledger_of_steps {es : List SystemEvent} (h : Run.Steps (SystemStep env) k es k')
    (bytes : Nat) : ∃ bytes', Run.Steps (LedgerStep env) ⟨k, bytes⟩ es ⟨k', bytes'⟩ := by
  induction h generalizing bytes with
  | nil => exact ⟨bytes, .nil⟩
  | @cons k k' _ e _ hstep _ ih =>
    obtain ⟨bytes', hrest⟩ := ih (bytes + e.stack env k)
    have hfirst : LedgerStep env ⟨k, bytes⟩ e ⟨k', bytes + e.stack env k⟩ := ⟨hstep, rfl⟩
    exact ⟨bytes', .cons hfirst hrest⟩

/-- A stack that is asked for ends below `2 ^ 64`. -/
def SystemEvent.Fits (top : Nat) : SystemEvent → Prop
  | .create args => FitsWord top args.stackSize
  | _ => True

/-- The allocator that `process_create` uses. -/
abbrev Kernel.pool (k : Kernel) (env : BootEnv) : FrameAlloc := k.mem.allocs env.gAlloc

theorem create_pool (env : BootEnv) (k : Kernel) (args : ProcessArgs) :
    ((k.create env args).1 ≠ .ok ∧ (k.create env args).2.2.pool env = k.pool env) ∨
    ∃ c a', allocFrame (k.pool env) args.partitionId args.stackSize = (.ok, some c, a') ∧
      (k.create env args).2.2.pool env = a' := by
  have hpool : (k.create env args).2.2.pool env = (processCreate
      { tcbs := k.tcbs, alloc := k.pool env, sched := k.sched, mdb := k.mdb } args).2.2.alloc :=
    Function.update_self ..
  rw [hpool]
  exact processCreate_alloc _ args

theorem Taken.create (h : Taken (k.pool env) low top) {args : ProcessArgs}
    (hfits : FitsWord top args.stackSize) :
    Taken ((k.create env args).2.2.pool env) (low + (SystemEvent.create args).stack env k) top := by
  obtain ⟨hne, hpool⟩ | ⟨c, a', halloc, hpool⟩ := create_pool env k args
  · rw [hpool, SystemEvent.stack, if_neg hne]
    exact h
  · obtain ⟨c', a'', halloc', htaken⟩ | ⟨e, hne, halloc'⟩ := h.alloc hfits args.partitionId
    · obtain rfl : a' = a'' := by
        rw [halloc] at halloc'
        exact (Prod.mk.inj (Prod.mk.inj halloc').2).2
      rw [hpool]
      refine htaken.mono (Nat.add_le_add_left ?_ low)
      show (if (k.create env args).1 = .ok then _ else _) ≤ _
      split_ifs
      · exact Nat.le_refl _
      · exact Nat.zero_le _
    · rw [halloc] at halloc'
      exact absurd (Prod.mk.inj halloc').1.symm hne

theorem Taken.step (h : Taken (k.pool env) low top) (htop : FitsWord top pageSize)
    {e : SystemEvent} (hfits : e.Fits top) (hstep : SystemStep env k e k') :
    Taken (k'.pool env) (low + e.stack env k) top := by
  cases hstep.cases with
  | refused =>
    cases e with
    | create args =>
      have hcreate := (Fuel.yields_of_forall fun _ => rfl).unique hstep
      have htaken := h.create hfits
      rw [← show k = (k.create env args).2.2 from hcreate.symm] at htaken
      exact htaken
    | trap _ | tick _ | destroy _ => exact h
  | ipc heff =>
    show Taken (k'.mem.allocs env.gAlloc) low top
    rw [heff.tablesKept.mem]
    exact h
  | invoke _ hinv =>
    show Taken (k'.mem.allocs env.gAlloc) low top
    cases hinv with
    | thread _ _ =>
      rw [(setTcbAt_tablesKept ..).mem]
      exact h
    | map _ _ _ => exact (Taken.keptByPages htop env.gAlloc).vspaceMap h _ _ _ _ _
    | unmap _ =>
      show Taken ((vspaceUnmap ..).2.allocs env.gAlloc) low top
      rw [vspaceUnmap_allocs]
      exact h
    | _ => exact h
  | tick => exact h
  | create => exact h.create hfits
  | destroy _ => exact h

/-- What the ledger gains in a run is taken on top of what was taken before. -/
theorem Taken.run {l l' : Ledger} (h : Taken (l.kernel.pool env) low top)
    (htop : FitsWord top pageSize) {es : List SystemEvent} (hfits : ∀ e ∈ es, e.Fits top)
    (hrun : Run.Steps (LedgerStep env) l es l') :
    ∃ n, l'.stackBytes = l.stackBytes + n ∧ Taken (l'.kernel.pool env) (low + n) top := by
  have hstep : ∀ m e m', SystemEvent.Fits top e → LedgerStep env m e m' →
      (∃ n, m.stackBytes = l.stackBytes + n ∧ Taken (m.kernel.pool env) (low + n) top) →
      ∃ n, m'.stackBytes = l.stackBytes + n ∧ Taken (m'.kernel.pool env) (low + n) top := by
    rintro m e m' he ⟨hm, hbytes⟩ ⟨n, hn, htaken⟩
    refine ⟨n + e.stack env m.kernel, by omega, ?_⟩
    rw [← Nat.add_assoc]
    exact htaken.step htop he hm
  exact Run.Steps.invariant_of_forall hstep hrun hfits ⟨0, rfl, h⟩

/-- A stack that does not fit above what is taken is refused. -/
theorem Taken.refuses (h : Taken (k.pool env) low top) {args : ProcessArgs}
    (hfits : FitsWord top args.stackSize) (hfull : top < low + args.stackSize.toNat) :
    (k.create env args).1 ≠ .ok := by
  obtain ⟨hne, -⟩ | ⟨c, a', halloc, -⟩ := create_pool env k args
  · exact hne
  · obtain ⟨c', a'', -, htaken⟩ | ⟨e, hne, halloc'⟩ := h.alloc hfits args.partitionId
    · have hlow := htaken.low
      have hhigh := htaken.high
      omega
    · rw [halloc] at halloc'
      exact absurd (Prod.mk.inj halloc').1.symm hne

/-- The stacks of all processes that were ever created fit into the pool together, also
those of processes that are gone.  A stack that does not fit above what is taken is refused
from then on, whatever is destroyed or unmapped in the meantime. -/
theorem memory_never_returns {k₀ : Kernel} (hpool : (k₀.pool env).next ≤ (k₀.pool env).top)
    (htop : FitsWord (k₀.pool env).top.toNat pageSize) {es : List SystemEvent} {l : Ledger}
    (hfits : ∀ e ∈ es, e.Fits (k₀.pool env).top.toNat)
    (hrun : Run.Steps (LedgerStep env) ⟨k₀, 0⟩ es l) :
    (k₀.pool env).next.toNat + l.stackBytes ≤ (l.kernel.pool env).next.toNat ∧
    (l.kernel.pool env).next.toNat ≤ (k₀.pool env).top.toNat ∧
    ∀ args : ProcessArgs, FitsWord (k₀.pool env).top.toNat args.stackSize →
      (k₀.pool env).top.toNat < (l.kernel.pool env).next.toNat + args.stackSize.toNat →
      ∀ es' l', (∀ e ∈ es', e.Fits (k₀.pool env).top.toNat) →
        Run.Steps (LedgerStep env) l es' l' → (l'.kernel.create env args).1 ≠ .ok := by
  have hstart : Taken (k₀.pool env) (k₀.pool env).next.toNat (k₀.pool env).top.toNat :=
    ⟨Nat.le_refl _, UInt64.le_iff_toNat_le.mp hpool, rfl⟩
  obtain ⟨n, hn, htaken⟩ := hstart.run (l := ⟨k₀, 0⟩) htop hfits hrun
  have hlow := htaken.low
  have hbytes : l.stackBytes = n := hn.trans (Nat.zero_add n)
  refine ⟨by omega, htaken.high, fun args hargs hfull es' l' hfits' hrun' => ?_⟩
  have hnow : Taken (l.kernel.pool env) (l.kernel.pool env).next.toNat (k₀.pool env).top.toNat :=
    ⟨Nat.le_refl _, htaken.high, htaken.limit⟩
  obtain ⟨m, -, hlater⟩ := hnow.run htop hfits' hrun'
  exact hlater.refuses hargs (by omega)

/-- A boot with a pool of one page. -/
def narrowBoot : BootEnv :=
  { plainBoot with mem := { plainBoot.mem with allocs := fun _ => allocInit 0x80400000 0x1000 } }

/-- The only process of the narrow boot is destroyed, and there is never another one. -/
theorem memory_never_returns_narrow :
    ∃ k, Run.Steps (SystemStep narrowBoot) (bootRoot narrowBoot)
        [.create (helloArgs narrowBoot), .destroy 0] k ∧
      Occupied ((bootRoot narrowBoot).create narrowBoot (helloArgs narrowBoot)).2.2 0 ∧
      ¬ Occupied k 0 ∧ (k.create narrowBoot (helloArgs narrowBoot)).1 ≠ .ok := by
  have hstep : ProcessStep narrowBoot (bootRoot narrowBoot) (.create (helloArgs narrowBoot))
      ((bootRoot narrowBoot).create narrowBoot (helloArgs narrowBoot)).2.2 :=
    Fuel.yields_of_forall fun _ => rfl
  have hrooted := (bootRoot_rooted narrowBoot).run (.cons hstep .nil)
  have hcreate : SystemStep narrowBoot (bootRoot narrowBoot) (.create (helloArgs narrowBoot)) _ :=
    hstep
  have hocc : Occupied ((bootRoot narrowBoot).create narrowBoot (helloArgs narrowBoot)).2.2 0 :=
    ⟨by decide, by decide +kernel⟩
  have hnext : (((bootRoot narrowBoot).create narrowBoot (helloArgs narrowBoot)).2.2.pool
      narrowBoot).next = 0x80401000 := by decide +kernel
  generalize ((bootRoot narrowBoot).create narrowBoot (helloArgs narrowBoot)).2.2 = k₁ at *
  obtain ⟨mdb, hreclaim⟩ := hrooted.reclaim 0
  have hdestroy : SystemStep narrowBoot k₁ (.destroy 0) (k₁.withoutThread narrowBoot 0 mdb) :=
    (destroyStep_occupied hocc).mpr ⟨mdb, hreclaim, rfl⟩
  have hfree : ¬ Occupied (k₁.withoutThread narrowBoot 0 mdb) 0 := by
    intro h
    have hused := h.2
    rw [show (k₁.withoutThread narrowBoot 0 mdb).tcbs.threads (0 : UInt32).toNat = Tcb.zero from
      TcbTable.set_self k₁.tcbs (0 : UInt32).toNat Tcb.zero] at hused
    cases hused
  refine ⟨_, .cons hcreate (.cons hdestroy .nil), hocc, hfree, ?_⟩
  obtain ⟨n, hfirst⟩ := ledger_of_steps (.cons hcreate .nil) 0
  obtain ⟨m, hsecond⟩ := ledger_of_steps (.cons hdestroy .nil) n
  have hfits : FitsWord ((bootRoot narrowBoot).pool narrowBoot).top.toNat 4096 := by
    unfold FitsWord
    decide
  have hnever := (memory_never_returns (by decide) hfits
    (fun e he => by rw [List.mem_singleton.mp he]; exact hfits) hfirst).2.2
  have hfull : ((bootRoot narrowBoot).pool narrowBoot).top.toNat <
      (k₁.pool narrowBoot).next.toNat + (helloArgs narrowBoot).stackSize.toNat := by
    rw [hnext]
    decide
  exact hnever (helloArgs narrowBoot) hfits hfull [.destroy 0] ⟨_, m⟩
    (fun e he => by rw [List.mem_singleton.mp he]; trivial) hsecond

end Moonlight
