/-
The state `kernel_boot` leaves.

Boot sets up paging and the framebuffer before it hands out capabilities.  Which
page-table pages that takes depends on the size of the kernel image, so the
memory it leaves is a parameter; the addresses of the globals and of `user_hello`
are parameters as well.
-/
import Moonlight.Process.Create
import Moonlight.Syscall.Kernel

namespace Moonlight

structure BootEnv where
  gTcbs : UInt64
  gEndpoints : UInt64
  gAlloc : UInt64
  userHello : UInt64
  mem : Memory
  vspaces : UInt64 → VSpace

/-- The three partitions of the major frame. -/
def bootSched : SchedState :=
  let s := (schedPartitionCreate schedInit 0 0 6000 1).2
  let s := (schedPartitionCreate s 1 6000 2000 3).2
  (schedPartitionCreate s 2 8000 2000 2).2

/-- The root CNode with its Untyped, which is the first node of the MDB. -/
def bootRoot (env : BootEnv) : Kernel :=
  let k := Kernel.initial env.gTcbs bootSched env.mem env.vspaces
  { k.setRoot { k.root.setSlot 0 bootUntyped with used := 1 } with
    mdb := (mdbInsert k.mdb Mdb.nil 0 bootUntyped).2.2 }

/-- `process_create` on the globals, and `tcb_resume` of the new thread. -/
def Kernel.spawn (k : Kernel) (gAlloc : UInt64) (args : ProcessArgs) : Kernel :=
  let r := processCreate
    { tcbs := k.tcbs, alloc := k.mem.allocs gAlloc, sched := k.sched, mdb := k.mdb } args
  let k' : Kernel :=
    { k with
      tcbs := r.2.2.tcbs
      sched := r.2.2.sched
      mdb := r.2.2.mdb
      mem := { k.mem with allocs := Function.update k.mem.allocs gAlloc r.2.2.alloc } }
  match r.1, r.2.1 with
  | .ok, some pid => k'.setThread pid (tcbResume (k'.tcbs.threads pid.toNat))
  | _, _ => k'

def helloArgs (env : BootEnv) : ProcessArgs :=
  { partitionId := 0, budgetUs := 1000, periodUs := 5000, priority := 10, pc := env.userHello,
    spTop := 0x80500000, stackSize := 4096 }

/-- What the three servers differ in is the partition and the stack. -/
def serverArgs (env : BootEnv) (partitionId : UInt32) (spTop : UInt64) : ProcessArgs :=
  { partitionId := partitionId, budgetUs := 500, periodUs := 2000, priority := 5,
    pc := env.userHello, spTop := spTop, stackSize := 4096 }

/-- The retype of one Frame into slot 5. -/
def bootRetype (k : Kernel) : Kernel :=
  match cnodeLookup k.root 0 with
  | some ut =>
    if ut.type = .untyped then (handleInvoke k ut .untypedRetype 0x500 5 4096).2 else k
  | none => k

/-- The address of `g_endpoints[i]`, with `sizeof(endpoint_t) = 4728`. -/
def endpointAddr (env : BootEnv) (i : UInt64) : UInt64 := env.gEndpoints + 4728 * i

def endpointCap (env : BootEnv) (i : UInt64) : Cap :=
  { type := .endpoint, rights := 0xFF, badge := 0, isSealed := 1, isValid := 1, color := 0
    u := { w0 := endpointAddr env i, w1 := 0, w2 := 0, w3 := 0 }
    hwCap := { SimCap.zero with tag := 1 } }

/-- Server endpoint `i`: the endpoint is reset and its capability goes to slot
`10 + i`. -/
def bootEndpoint (env : BootEnv) (k : Kernel) (i : Nat) : Kernel :=
  let ptr := endpointAddr env (UInt64.ofNat i)
  { k.setRoot (k.root.addSlot (10 + i) (endpointCap env (UInt64.ofNat i))) with
    endpoints := Function.update k.endpoints ptr
      { k.endpoints ptr with hasReceiver := false, qLen := 0, pending := false } }

/-- The three servers. -/
def bootServers (env : BootEnv) (k : Kernel) : Kernel :=
  ((k.spawn env.gAlloc (serverArgs env 0 0x80600000)).spawn env.gAlloc
    (serverArgs env 1 0x80700000)).spawn env.gAlloc (serverArgs env 2 0x80800000)

/-- The kernel's state when `kernel_boot` parks. -/
def bootKernel (env : BootEnv) : Kernel :=
  let k := bootRetype ((bootRoot env).spawn env.gAlloc (helloArgs env))
  let k := bootEndpoint env k 1
  let k := bootEndpoint env k 2
  let k := bootEndpoint env k 3
  bootServers env k

/-- A boot with the allocator as `kernel_boot` initialises it. -/
def plainBoot : BootEnv :=
  { gTcbs := 0x80010000, gEndpoints := 0x80020000, gAlloc := 0x80080000, userHello := 0x80001000
    mem :=
      { allocs := fun _ => allocInit 0x80400000 0x400000, words := fun _ => 0, fallbackPool := 0
        fallbackNext := 0 }
    vspaces := fun _ => VSpace.empty 0 0 0 }

/-! ### What spawning leaves alone -/

theorem spawn_cnodes (k : Kernel) (gAlloc : UInt64) (args : ProcessArgs) :
    (k.spawn gAlloc args).cnodes = k.cnodes := by
  simp only [Kernel.spawn]
  split <;> rfl

/-- Resuming the new thread leaves the MDB as `process_create` left it. -/
theorem spawn_mdb_eq (k : Kernel) (gAlloc : UInt64) (args : ProcessArgs) :
    (k.spawn gAlloc args).mdb = (processCreate
      { tcbs := k.tcbs, alloc := k.mem.allocs gAlloc, sched := k.sched, mdb := k.mdb }
      args).2.2.mdb := by
  simp only [Kernel.spawn]
  split <;> rfl

theorem spawn_mdb (k : Kernel) (gAlloc : UInt64) (args : ProcessArgs) :
    (k.spawn gAlloc args).mdb = k.mdb ∨
    ∃ id stack, (k.spawn gAlloc args).mdb = (mdbInsert k.mdb Mdb.nil id stack).2.2 := by
  rw [spawn_mdb_eq]
  exact processCreate_mdb _ args

theorem bootRetype_mdb (k : Kernel) :
    (bootRetype k).mdb = k.mdb ∨
    ∃ dest cap, (bootRetype k).mdb = (mdbInsert k.mdb 0 dest cap).2.2 := by
  unfold bootRetype
  split
  · next ut hl =>
    split_ifs
    · obtain ⟨-, heq⟩ | ⟨-, e, -, heq⟩ := handleInvoke_retype_cases k ut 0x500 5 4096
      · rw [heq]
        exact Or.inr ⟨_, _, rfl⟩
      · rw [heq]
        exact Or.inl rfl
    · exact Or.inl rfl
  · exact Or.inl rfl

end Moonlight
