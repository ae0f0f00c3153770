/-
The kernel behind its trap entry.

Between two traps the processor runs code outside the kernel, which may leave anything in
the registers and in its memory.  `trap_entry` passes thread 0 to `syscall_handler`
whoever was interrupted, so the machine is a run of the system in which only thread 0
makes system calls.  As soon as thread 0 is blocked every further trap is turned away, and
nothing is left that could wake it.
-/
import Moonlight.Lib.Simulation
import Moonlight.Syscall.Blocking
import Moonlight.System.Step
import Moonlight.Trap.Cause

namespace Moonlight

open Riscv

/-- The code outside runs up to a trap, or the trap is taken.  The two words of a trap are
what `rdtime` gives at its start and at its end. -/
inductive MachineEvent where
  | outside (regs : Reg → UInt64) (mem : UInt64 → UInt8) (mepc mcause : UInt64)
  | trap (link entry now : UInt64)

/-- The machine where the code outside was interrupted.  It has no access to `mscratch`. -/
def interrupted (m : Machine Kernel) (regs : Reg → UInt64) (mem : UInt64 → UInt8)
    (mepc mcause : UInt64) : Machine Kernel :=
  { m with
    regs := regs
    mem := mem
    csrs := fun c =>
      match c with
      | .mscratch => m.csrs .mscratch
      | .mepc => mepc
      | .mcause => mcause }

def MachineStep (m : Machine Kernel) : MachineEvent → Machine Kernel → Prop
  | .outside regs mem mepc mcause, m' => m' = interrupted m regs mem mepc mcause
  | .trap link entry now, m' =>
      Fuel.Yields (fun fuel => run (syscallCall entry now) link trapEntry fuel 0 m) m'

/-- The trap as the system sees it. -/
def machineTrap (m : Machine Kernel) (entry now : UInt64) : Trap :=
  { frame := trapRequest m, cur := 0, entry := entry, now := now }

def systemEvent (m : Machine Kernel) : MachineEvent → Option SystemEvent
  | .outside .. => none
  | .trap _ entry now => some (.trap (machineTrap m entry now))

variable {env : BootEnv} {m m' : Machine Kernel} {entry now link : UInt64}

theorem trapFrame_ne_zero (h : m.csrs .mscratch ≠ 272) : trapFrame m ≠ 0 := by
  intro hzero
  refine h ?_
  have hback : trapFrame m + 272 = m.csrs .mscratch := UInt64.sub_add_cancel ..
  rw [← hback, hzero]
  rfl

/-- A trap that comes back has done what the handler does for thread 0. -/
theorem trap_after (hstack : m.csrs .mscratch ≠ 272)
    (h : MachineStep m (.trap link entry now) m') :
    (machineTrap m entry now).after m.world = some m'.world := by
  obtain ⟨mr, hmr, hworld, -⟩ := trapEntry_returned h
  have hcases := syscallCall_cases (atCall_a1 link m) entry now
  rw [atCall_frame, atCall_world, atCall_request] at hcases
  obtain ⟨hnull, -⟩ | ⟨-, -, hfault⟩ | ⟨-, e, f', k', mr', hret, hmr', hworld', -⟩ := hcases
  · exact absurd hnull (trapFrame_ne_zero hstack)
  · rw [hfault] at hmr
    cases hmr
  · obtain rfl := Option.some.inj (hmr.symm.trans hmr')
    show (syscallHandler m.world (trapRequest m) 0 entry now).map _ = some m'.world
    rw [hret, hworld, hworld']
    rfl

/-- A trap that the handler serves comes back. -/
theorem trap_returns {k' : Kernel} (h : (machineTrap m entry now).after m.world = some k')
    (hstack : m.csrs .mscratch ≠ 272) (link : UInt64) :
    ∃ m', MachineStep m (.trap link entry now) m' ∧ m'.world = k' := by
  have hcases := syscallCall_cases (atCall_a1 link m) entry now
  rw [atCall_frame, atCall_world, atCall_request] at hcases
  obtain ⟨⟨e, f', k''⟩, hserved, rfl⟩ := Option.map_eq_some_iff.mp h
  have hserved : syscallHandler m.world (trapRequest m) 0 entry now = some (e, f', k'') := hserved
  obtain ⟨hnull, -⟩ | ⟨-, hnone, -⟩ | ⟨-, e', f'', k', mr, hret, hmr, hworld, -⟩ := hcases
  · exact absurd hnull (trapFrame_ne_zero hstack)
  · rw [hserved] at hnone
    cases hnone
  · obtain ⟨m', hyields, hworld', -⟩ := trapEntry_returns hmr
    refine ⟨m', hyields, ?_⟩
    rw [hserved] at hret
    cases hret
    rw [hworld', hworld]

theorem MachineStep.mscratch {e : MachineEvent} (h : MachineStep m e m') :
    m'.csrs .mscratch = m.csrs .mscratch := by
  cases e with
  | outside regs mem mepc mcause =>
    obtain rfl : m' = _ := h
    rfl
  | trap link entry now =>
    obtain ⟨mr, -, -, hres⟩ := trapEntry_returned h
    exact hres.mscratch

/-- Every run of the machine is a run of the system that consists of traps of thread 0, and
the trap stack stays where it is. -/
theorem machine_refines_system (env : BootEnv) (hstack : m.csrs .mscratch ≠ 272)
    {es : List MachineEvent} (hrun : Run.Steps MachineStep m es m') :
    m'.csrs .mscratch = m.csrs .mscratch ∧
    ∃ bs, Run.Steps (SystemStep env) m.world bs m'.world ∧
      ∀ b ∈ bs, ∃ t : Trap, b = .trap t ∧ t.cur = 0 := by
  have hkeep : ∀ a e b, MachineStep a e b → a.csrs .mscratch = m.csrs .mscratch →
      b.csrs .mscratch = m.csrs .mscratch := fun a e b hstep ha => hstep.mscratch.trans ha
  have hstutter : ∀ a e b, MachineStep a e b → systemEvent a e = none → b.world = a.world := by
    intro a e b hstep hnone
    cases e with
    | outside regs mem mepc mcause =>
      obtain rfl : b = _ := hstep
      rfl
    | trap link entry now => cases hnone
  have htrap : ∀ a e b c, MachineStep a e b → a.csrs .mscratch = m.csrs .mscratch →
      systemEvent a e = some c → SystemStep env a.world c b.world := by
    intro a e b c hstep ha hsome
    cases e with
    | outside regs mem mepc mcause => cases hsome
    | trap link entry now =>
      cases hsome
      exact trap_after (by rw [ha]; exact hstack) hstep
  obtain ⟨bs, hsteps, hbs⟩ := hrun.simulate Machine.world systemEvent hkeep hstutter htrap rfl
  refine ⟨Run.Steps.invariant hkeep hrun rfl, bs, hsteps, fun b hb => ?_⟩
  obtain ⟨a, e, hlabel⟩ := hbs b hb
  cases e with
  | outside regs mem mepc mcause => cases hlabel
  | trap link entry now =>
    cases hlabel
    exact ⟨_, rfl, rfl⟩

/-- Some code yields, and its `t0` comes back changed, but the trap stack is in place. -/
theorem machine_refines_system_yield :
    ∃ m', Run.Steps MachineStep (yieldTrap 7) [.trap 0x80000100 0 0] m' ∧
      m'.csrs .mscratch = 0x80200000 ∧
      ∃ bs, Run.Steps (SystemStep plainBoot) (bootKernel plainBoot) bs m'.world ∧
        ∀ b ∈ bs, ∃ t : Trap, b = .trap t ∧ t.cur = 0 := by
  obtain ⟨mr, hmr⟩ := yieldTrap_returns 0x80000100 0 0 7
  obtain ⟨m', hyields, -⟩ := trapEntry_returns hmr
  have hrun : Run.Steps MachineStep (yieldTrap 7) [.trap 0x80000100 0 0] m' := .cons hyields .nil
  exact ⟨m', hrun, machine_refines_system plainBoot (by decide) hrun⟩

/-! ### A machine that has stopped -/

/-- The kernel's only caller cannot run. -/
def Stopped (k : Kernel) : Prop := tcbIsRunnable (k.tcbs.threads 0) = false

/-- The handler has nothing to do for a thread that cannot run, and of its requests only a
yield is answered. -/
theorem Stopped.handler {k : Kernel} (h : Stopped k) (f : TrapFrame) (entry now : UInt64) :
    ∃ e f', syscallHandler k f 0 entry now = some (e, f', k) ∧
      (Syscall.ofWord f.a7 ≠ some .yield → f' = f) := by
  obtain ⟨sys, hadm, heq⟩ | ⟨-, e, -, heq⟩ := syscallHandler_cases k f 0 entry now
  · have hyield : sys = .yield := by
      refine hadm.runnable.resolve_left fun hrun => ?_
      exact Bool.false_ne_true (h.symm.trans hrun)
    subst hyield
    obtain ⟨e, f', hdone⟩ := finish_done k k f entry now .ok
    exact ⟨e, f', heq.trans hdone, fun hnot => absurd hadm.number hnot⟩
  · exact ⟨e, f, heq, fun _ => rfl⟩

/-- The trap comes back to its code with the kernel as it was. -/
theorem Stopped.trap (h : Stopped m.world) (link entry now : UInt64) :
    ∃ m', MachineStep m (.trap link entry now) m' ∧ m'.world = m.world ∧
      (Syscall.ofWord (m.reg .a7) ≠ some .yield → m'.reg .a0 = m.reg .a0) := by
  obtain ⟨e, f', hhandler, hkept⟩ := h.handler (trapRequest m) entry now
  have hcases := syscallCall_cases (atCall_a1 link m) entry now
  rw [atCall_frame, atCall_world, atCall_request] at hcases
  obtain ⟨-, mr, hmr, hworld, hmem⟩ | ⟨-, hnone, -⟩ | ⟨-, e', f'', k', mr, hret, hmr, hworld, ha0⟩ :=
    hcases
  · obtain ⟨m', hyields, hworld', hres⟩ := trapEntry_returns hmr
    refine ⟨m', hyields, hworld'.trans hworld, fun _ => ?_⟩
    rw [hres.a0, hmem, atCall_load_a0]
  · rw [hhandler] at hnone
    cases hnone
  · rw [hhandler] at hret
    cases hret
    obtain ⟨m', hyields, hworld', hres⟩ := trapEntry_returns hmr
    refine ⟨m', hyields, hworld'.trans hworld, fun hnot => ?_⟩
    rw [hres.a0, ha0, hkept hnot]
    rfl

theorem Stopped.step (h : Stopped m.world) {e : MachineEvent} (hstep : MachineStep m e m') :
    m'.world = m.world := by
  cases e with
  | outside regs mem mepc mcause =>
    obtain rfl : m' = _ := hstep
    rfl
  | trap link entry now =>
    obtain ⟨m₁, hstep', hworld, -⟩ := h.trap link entry now
    rw [hstep.unique hstep']
    exact hworld

theorem Stopped.exists_step (h : Stopped m.world) (e : MachineEvent) :
    ∃ m', MachineStep m e m' := by
  cases e with
  | outside regs mem mepc mcause => exact ⟨_, rfl⟩
  | trap link entry now =>
    obtain ⟨m', hstep, -⟩ := h.trap link entry now
    exact ⟨m', hstep⟩

/-- The request blocks thread 0: a call whose message is stored, or a receive that finds
none. -/
def Blocks (k : Kernel) (t : Trap) : Prop :=
  AcceptedCall k t ∨
    ∃ cap, t.Invokes k .replyRecv cap ∧ cap.type = .endpoint ∧ cap.u.epPtr ≠ 0 ∧
      (k.endpoints cap.u.epPtr).next = none

theorem stopped_of_state {k : Kernel} {cur : UInt32} {state : TcbState} (hcur : cur = 0)
    (h : (k.tcbs.threads cur.toNat).state = state) (hne : state ≠ .runnable) : Stopped k := by
  subst hcur
  exact decide_eq_false fun hrun => hne (h.symm.trans hrun)

theorem Blocks.after {k : Kernel} {t : Trap} (h : Blocks k t) (hcur : t.cur = 0) :
    ∃ k', t.after k = some k' ∧ Stopped k' := by
  obtain ⟨cap, hinv, hallowed, hacc⟩ | ⟨cap, hinv, htype, hep, hnext⟩ := h
  · obtain ⟨k₁, heq, -⟩ := hacc.sysCall hallowed
    have hstate : ((k₁.awaitReply t.cur).tcbs.threads t.cur.toNat).state = .blockedReply := by
      simp only [Kernel.awaitReply, Kernel.setThread, TcbTable.set_self]
    exact ⟨_, hinv.after heq, stopped_of_state hcur hstate (by decide)⟩
  · have hafter := hinv.after (sysReplyRecv_waits htype hep t.cur hnext)
    exact ⟨_, hafter, stopped_of_state hcur (awaitMessage_self k cap.u.epPtr t.cur) (by decide)⟩

/-- One call whose message is stored, or one receive that has to wait, and the kernel
stops: every later trap of any code comes back, but the kernel stays as the request left
it, and a trap that is not a yield finds its own `a0` in place of a result. -/
theorem machine_stops_at_first_block (hstack : m.csrs .mscratch ≠ 272)
    (hblocks : Blocks m.world (machineTrap m entry now)) (link : UInt64) :
    ∃ m₁, MachineStep m (.trap link entry now) m₁ ∧
      ∀ es, (∃ m₂, Run.Steps MachineStep m₁ es m₂) ∧
        ∀ m₂, Run.Steps MachineStep m₁ es m₂ → m₂.world = m₁.world ∧
          ∀ link' entry' now', ∃ m₃, MachineStep m₂ (.trap link' entry' now') m₃ ∧
            (Syscall.ofWord (m₂.reg .a7) ≠ some .yield → m₃.reg .a0 = m₂.reg .a0) := by
  obtain ⟨k', hafter, hstopped⟩ := hblocks.after rfl
  obtain ⟨m₁, hstep, rfl⟩ := trap_returns hafter hstack link
  have hkeep : ∀ a e b, MachineStep a e b → a.world = m₁.world → b.world = m₁.world := by
    intro a e b hab ha
    rw [← ha] at hstopped ⊢
    exact hstopped.step hab
  have hexists : ∀ a e, a.world = m₁.world → ∃ b, MachineStep a e b := by
    intro a e ha
    rw [← ha] at hstopped
    exact hstopped.exists_step e
  refine ⟨m₁, hstep, fun es => ⟨Run.exists_steps hkeep hexists rfl es, fun m₂ hrun => ?_⟩⟩
  have hworld : m₂.world = m₁.world := Run.Steps.invariant hkeep hrun rfl
  refine ⟨hworld, fun link' entry' now' => ?_⟩
  rw [← hworld] at hstopped
  obtain ⟨m₃, hstep₃, -, ha0⟩ := hstopped.trap link' entry' now'
  exact ⟨m₃, hstep₃, ha0⟩

/-- Code in a call on slot 11, with all threads ready. -/
def callingMachine : Machine Kernel :=
  { yieldTrap 0 with
    regs := fun r =>
      match r with
      | .sp => 0x80500000
      | .a0 => 11
      | .a1 => 1
      | _ => 0
    world := readyKernel }

theorem machine_stops_at_first_call :
    ∃ m₁, MachineStep callingMachine (.trap 0x80000100 0 0) m₁ ∧
      ∀ es m₂, Run.Steps MachineStep m₁ es m₂ → m₂.world = m₁.world := by
  have hinv : (machineTrap callingMachine 0 0).Invokes readyKernel .call
      (endpointCap plainBoot 1) :=
    Trap.Invokes.of_checks (by decide) (by decide) (by decide +kernel) (by decide +kernel)
  have hblocks : Blocks callingMachine.world (machineTrap callingMachine 0 0) := by
    refine Or.inl ⟨endpointCap plainBoot 1, hinv, ⟨⟨rfl, by decide⟩, by decide⟩, ?_⟩
    exact { ptr := by decide, fits := ⟨by decide, by decide⟩, room := Or.inr (by decide) }
  obtain ⟨m₁, hstep, hrest⟩ :=
    machine_stops_at_first_block (m := callingMachine) (by decide) hblocks 0x80000100
  exact ⟨m₁, hstep, fun es m₂ hrun => ((hrest es).2 m₂ hrun).1⟩

end Moonlight
