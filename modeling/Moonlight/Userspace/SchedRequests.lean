/-
The message loop of `sched_server`.

`sched_server_run` takes a task out of every request with label 1 and answers with what
`sched_admit` returns.  Budget and period are the words of the message, unchecked: a
period of zero reaches the division of the admission test.  A division by zero has no
value in C, so here the admission test is written with a division that may have none, and
`schedAdmitChecked_eq` says that it is the admission test as long as it has.

`requests_survive_iff` is the condition on the requests under which the server goes on
and holds only tasks that the kernel would bind.  Requests with `0 < budget ≤ period` meet
it, and the loop is then a run of `sched_admit`.
-/
import Moonlight.Userspace.SchedServer

namespace Moonlight

/-! ### Admission with a division that may fail -/

/-- Unsigned division as C has it. -/
def divide (a b : UInt64) : Option UInt64 := if b = 0 then none else some (a / b)

/-- The loop of `is_schedulable_for_partition`.  The outer `none` is a division by zero. -/
def partitionLoopChecked (tasks : Nat → TaskCfg) (part : UInt32) :
    List Nat → UInt64 → Option (Option UInt64)
  | [], sum => some (some sum)
  | i :: rest, sum =>
    if (tasks i).partition = part then do
      let percent ← divide ((tasks i).budget * 100) (tasks i).period
      if sum + percent > 99 then some none
      else partitionLoopChecked tasks part rest (sum + percent)
    else partitionLoopChecked tasks part rest sum

/-- `is_schedulable_for_partition`, for the candidate that `sched_admit` passes. -/
def isSchedulableChecked (sv : SchedServer) (part : UInt32) (newTask : TaskCfg) : Option Bool := do
  match ← partitionLoopChecked sv.tasks part (List.range sv.taskCount.toNat) 0 with
  | none => some false
  | some sum =>
    if newTask.partition = part then do
      let percent ← divide (newTask.budget * 100) newTask.period
      if sum + percent > 99 then some false else some (sum + percent ≤ 99)
    else some (sum ≤ 99)

def schedAdmitChecked (sv : SchedServer) (cfg : TaskCfg) : Option (Int × SchedServer) := do
  let schedulable ← isSchedulableChecked sv cfg.partition cfg
  if schedulable = false then some (-1, sv)
  else if sv.taskCount ≥ maxTasks then some (-1, sv)
  else some (0, { tasks := Function.update sv.tasks sv.taskCount.toNat cfg,
                  taskCount := sv.taskCount + 1 })

theorem divide_of_ne {b : UInt64} (h : b ≠ 0) (a : UInt64) : divide a b = some (a / b) := if_neg h

theorem divide_eq_some {a b q : UInt64} (h : divide a b = some q) : q = a / b := by
  unfold divide at h
  split_ifs at h
  exact (Option.some.inj h).symm

/-- Where no division fails, the loop is the loop of the admission test. -/
theorem partitionLoopChecked_eq {tasks : Nat → TaskCfg} {part : UInt32} {l : List Nat}
    {sum : UInt64} {r : Option UInt64} (h : partitionLoopChecked tasks part l sum = some r) :
    partitionLoop tasks part l sum = r := by
  induction l generalizing sum with
  | nil => exact Option.some.inj h
  | cons i rest ih =>
    rw [partitionLoopChecked] at h
    rw [partitionLoop]
    by_cases hp : (tasks i).partition = part
    · rw [if_pos hp] at h ⊢
      obtain ⟨percent, hq, h⟩ := Option.bind_eq_some_iff.mp h
      rw [divide_eq_some hq] at h
      by_cases hover : sum + (tasks i).budget * 100 / (tasks i).period > 99
      · rw [if_pos hover] at h ⊢
        exact Option.some.inj h
      · rw [if_neg hover] at h ⊢
        exact ih h
    · rw [if_neg hp] at h ⊢
      exact ih h

/-- It goes through over tasks whose periods are not zero. -/
theorem partitionLoopChecked_of_ne {tasks : Nat → TaskCfg} {l : List Nat}
    (h : ∀ i ∈ l, (tasks i).period ≠ 0) (part : UInt32) (sum : UInt64) :
    partitionLoopChecked tasks part l sum = some (partitionLoop tasks part l sum) := by
  induction l generalizing sum with
  | nil => rfl
  | cons i rest ih =>
    have hrest := ih fun j hj => h j (List.mem_cons_of_mem i hj)
    rw [partitionLoopChecked, partitionLoop, divide_of_ne (h i List.mem_cons_self), hrest]
    by_cases hp : (tasks i).partition = part
    · rw [if_pos hp, if_pos hp]
      simp only [Option.bind_eq_bind, Option.bind_some]
      by_cases hover : sum + (tasks i).budget * 100 / (tasks i).period > 99
      · rw [if_pos hover, if_pos hover]
      · rw [if_neg hover, if_neg hover, hrest]
    · rw [if_neg hp, if_neg hp]

theorem isSchedulableChecked_eq {sv : SchedServer} {part : UInt32} {t : TaskCfg} {b : Bool}
    (h : isSchedulableChecked sv part t = some b) :
    isSchedulableForPartition sv part (some t) = b := by
  obtain ⟨r, hloop, h⟩ := Option.bind_eq_some_iff.mp h
  simp only [isSchedulableForPartition, partitionLoopChecked_eq hloop]
  cases r with
  | none => exact Option.some.inj h
  | some sum =>
    simp only at h ⊢
    by_cases hp : t.partition = part
    · rw [if_pos hp] at h ⊢
      obtain ⟨percent, hq, h⟩ := Option.bind_eq_some_iff.mp h
      rw [divide_eq_some hq] at h
      by_cases hover : sum + t.budget * 100 / t.period > 99
      · rw [if_pos hover] at h ⊢
        exact Option.some.inj h
      · rw [if_neg hover] at h ⊢
        exact Option.some.inj h
    · rw [if_neg hp] at h ⊢
      exact Option.some.inj h

/-- Where no division fails, this is `sched_admit`. -/
theorem schedAdmitChecked_eq {sv : SchedServer} {cfg : TaskCfg} {r : Int × SchedServer}
    (h : schedAdmitChecked sv cfg = some r) : schedAdmit sv cfg = r := by
  obtain ⟨b, htest, h⟩ := Option.bind_eq_some_iff.mp h
  rw [schedAdmit, isSchedulableChecked_eq htest]
  split_ifs at h ⊢ <;> exact Option.some.inj h

/-! ### Requests -/

/-- A message to the server.  `rt` is what the field of that name holds, which the loop
never sets. -/
structure SchedRequest where
  msg : IpcMsg
  rt : Bool

/-- The task that the loop takes out of the message. -/
def SchedRequest.task (r : SchedRequest) : TaskCfg :=
  { id := (r.msg.words 0).toUInt32
    partition := (r.msg.words 1).toUInt32
    budget := r.msg.words 2
    period := r.msg.words 3
    prio := (r.msg.words 4).toUInt8
    rt := r.rt }

/-- One round of `sched_server_run`: the reply, if there is one, and the server after it. -/
def schedServerRun (sv : SchedServer) (r : SchedRequest) : Option (Option IpcMsg × SchedServer) :=
  if r.msg.label = 1 then do
    let (err, sv') ← schedAdmitChecked sv r.task
    let reply :=
      { r.msg with words := Function.update r.msg.words 0 (UInt64.ofInt err), length := 1 }
    some (some reply, sv')
  else some (none, sv)

/-- The server after a request, `none` once it has divided by zero. -/
def requestStep (o : Option SchedServer) (r : SchedRequest) : Option SchedServer :=
  o.bind fun sv => (schedServerRun sv r).map Prod.snd

/-- What `sched_context_bind` asks of a budget and a period. -/
def TaskCfg.Bindable (t : TaskCfg) : Prop := 0 < t.budget ∧ t.budget ≤ t.period

/-- The server is still there and holds only tasks that can be bound. -/
def Survives (o : Option SchedServer) : Prop :=
  ∃ sv, o = some sv ∧ ∀ i < sv.taskCount.toNat, (sv.tasks i).Bindable

/-- There is room, and the percents of the task's partition, with the task's own on top and
all cut to 64 bits, stay below 100. -/
def SchedServer.Takes (sv : SchedServer) (t : TaskCfg) : Prop :=
  sv.taskCount < maxTasks ∧
    UInt64.ofNat (sv.total t.partition) + t.budget * 100 / t.period ≤ 99

/-- A request with a period to divide by, whose task can be bound if the server takes it. -/
def SchedRequest.Sound (sv : SchedServer) (r : SchedRequest) : Prop :=
  r.msg.label = 1 → r.task.period ≠ 0 ∧ (sv.Takes r.task → r.task.Bindable)

theorem TaskCfg.Bindable.period_ne {t : TaskCfg} (h : t.Bindable) : t.period ≠ 0 := by
  intro hz
  have hpos := UInt64.lt_iff_toNat_lt.mp h.1
  have hle := UInt64.le_iff_toNat_le.mp h.2
  rw [hz] at hle
  exact absurd (Nat.lt_of_lt_of_le hpos hle) (Nat.lt_irrefl 0)

/-- A task that can be bound takes at most all of its partition. -/
theorem TaskCfg.Bindable.percent_le {t : TaskCfg} (h : t.Bindable) :
    (t.budget * 100 / t.period).toNat ≤ 100 := by
  have hle := UInt64.le_iff_toNat_le.mp h.2
  rw [UInt64.toNat_div, UInt64.toNat_mul]
  apply Nat.div_le_of_le_mul
  calc t.budget.toNat * 100 % 2 ^ 64 ≤ t.budget.toNat * 100 := Nat.mod_le ..
    _ ≤ t.period.toNat * 100 := Nat.mul_le_mul_right 100 hle

/-- What the rounds of the loop keep: the tasks can be bound, and leave something of every
partition. -/
structure ServerInv (sv : SchedServer) : Prop where
  bindable : ∀ i < sv.taskCount.toNat, (sv.tasks i).Bindable
  fits : ∀ p, sv.total p ≤ 99

section
variable {sv : SchedServer} {t : TaskCfg}

/-- Over the tasks it holds, the server's test comes to the division for the new one. -/
theorem ServerInv.isSchedulableChecked (h : ServerInv sv) (t : TaskCfg) :
    isSchedulableChecked sv t.partition t = (divide (t.budget * 100) t.period).map fun percent =>
      decide (UInt64.ofNat (sv.total t.partition) + percent ≤ 99) := by
  have hfits := h.fits t.partition
  have hperiods : ∀ i ∈ List.range sv.taskCount.toNat, (sv.tasks i).period ≠ 0 := fun i hi =>
    (h.bindable i (List.mem_range.mp hi)).period_ne
  obtain ⟨r, hr, hval⟩ := partitionLoop_of_fits sv.tasks t.partition
    (List.range sv.taskCount.toNat) 0 (by rwa [UInt64.toNat_zero, Nat.zero_add])
  have hsum : r = UInt64.ofNat (sv.total t.partition) := by
    rw [UInt64.toNat_zero, Nat.zero_add] at hval
    rw [← UInt64.ofNat_toNat (x := r), hval]
    rfl
  rw [Moonlight.isSchedulableChecked, partitionLoopChecked_of_ne hperiods, hr, hsum]
  simp only [Option.bind_eq_bind, Option.bind_some, if_true]
  cases divide (t.budget * 100) t.period with
  | none => rfl
  | some percent =>
    simp only [Option.bind_some, Option.map_some]
    split_ifs with hover
    · rw [decide_eq_false (UInt64.not_le.mpr hover)]
    · rfl

theorem ServerInv.schedAdmitChecked_cases (h : ServerInv sv) (t : TaskCfg) :
    (t.period = 0 ∧ schedAdmitChecked sv t = none) ∨
    (t.period ≠ 0 ∧ sv.Takes t ∧ schedAdmitChecked sv t = some (0, sv.push t)) ∨
    (t.period ≠ 0 ∧ ¬ sv.Takes t ∧ schedAdmitChecked sv t = some (-1, sv)) := by
  rw [schedAdmitChecked, h.isSchedulableChecked]
  by_cases hz : t.period = 0
  · rw [hz]
    exact Or.inl ⟨rfl, rfl⟩
  rw [divide_of_ne hz]
  simp only [Option.bind_eq_bind, Option.map_some, Option.bind_some]
  by_cases hle : UInt64.ofNat (sv.total t.partition) + t.budget * 100 / t.period ≤ 99
  · rw [decide_eq_true hle, if_neg Bool.noConfusion]
    by_cases hroom : sv.taskCount ≥ maxTasks
    · rw [if_pos hroom]
      exact Or.inr (Or.inr ⟨hz, fun htakes => UInt32.not_lt.mpr hroom htakes.1, rfl⟩)
    · rw [if_neg hroom]
      exact Or.inr (Or.inl ⟨hz, ⟨UInt32.not_le.mp hroom, hle⟩, rfl⟩)
  · rw [decide_eq_false hle, if_pos rfl]
    exact Or.inr (Or.inr ⟨hz, fun htakes => hle htakes.2, rfl⟩)

/-- A task that can be bound and is taken leaves the invariant as it was. -/
theorem ServerInv.push (h : ServerInv sv) (htakes : sv.Takes t) (ht : t.Bindable) :
    ServerInv (sv.push t) := by
  constructor
  · intro i hi
    rw [SchedServer.toNat_push htakes.1] at hi
    by_cases hlast : i = sv.taskCount.toNat
    · rw [hlast, SchedServer.push_last]
      exact ht
    · rw [SchedServer.push_of_ne hlast]
      exact h.bindable i (by omega)
  · intro p
    rw [SchedServer.total_push htakes.1]
    have hfits := h.fits p
    by_cases hp : t.partition = p
    · -- The sum is small, so the test compared it whole.
      have hpercent := ht.percent_le
      have hshare : t.share p = t.budget * 100 / t.period := if_pos hp
      have hsum := UInt64.le_iff_toNat_le.mp htakes.2
      rw [UInt64.toNat_add, UInt64.toNat_ofNat', hp] at hsum
      rw [hshare]
      have h99 : (99 : UInt64).toNat = 99 := rfl
      omega
    · have hzero : (t.share p).toNat = 0 := congrArg UInt64.toNat (if_neg hp)
      omega

end

/-- A bad task that is taken is there to be seen. -/
theorem SchedServer.bindable_of_push {sv : SchedServer} {t : TaskCfg}
    (hroom : sv.taskCount < maxTasks)
    (h : ∀ i < (sv.push t).taskCount.toNat, ((sv.push t).tasks i).Bindable) : t.Bindable := by
  have hlast := h sv.taskCount.toNat (by rw [toNat_push hroom]; exact Nat.lt_succ_self _)
  rwa [push_last] at hlast

section
variable {sv : SchedServer} {r : SchedRequest}

theorem requestStep_of_label (h : r.msg.label ≠ 1) : requestStep (some sv) r = some sv := by
  rw [requestStep, Option.bind_some, schedServerRun, if_neg h]
  rfl

theorem requestStep_of_admission (h : r.msg.label = 1) :
    requestStep (some sv) r = (schedAdmitChecked sv r.task).map Prod.snd := by
  rw [requestStep, Option.bind_some, schedServerRun, if_pos h]
  cases schedAdmitChecked sv r.task <;> rfl

/-- A sound request is answered, and the server keeps its invariant. -/
theorem ServerInv.step (h : ServerInv sv) (hr : r.Sound sv) :
    ∃ sv', requestStep (some sv) r = some sv' ∧ ServerInv sv' := by
  by_cases hlabel : r.msg.label = 1
  · rw [requestStep_of_admission hlabel]
    obtain ⟨hperiod, hbindable⟩ := hr hlabel
    rcases h.schedAdmitChecked_cases r.task with ⟨hz, -⟩ | ⟨-, htakes, he⟩ | ⟨-, -, he⟩
    · exact absurd hz hperiod
    · rw [he]
      exact ⟨_, rfl, h.push htakes (hbindable htakes)⟩
    · rw [he]
      exact ⟨sv, rfl, h⟩
  · rw [requestStep_of_label hlabel]
    exact ⟨sv, rfl, h⟩

/-- A request that is not sound stops the server or leaves it with a task that cannot be
bound. -/
theorem ServerInv.sound_of_survives (h : ServerInv sv) (hs : Survives (requestStep (some sv) r)) :
    r.Sound sv := by
  intro hlabel
  obtain ⟨sv', he', htasks⟩ := hs
  rw [requestStep_of_admission hlabel] at he'
  rcases h.schedAdmitChecked_cases r.task with ⟨-, he⟩ | ⟨hperiod, htakes, he⟩ | ⟨hperiod, hnot, -⟩
  · rw [he] at he'
    cases he'
  · rw [he] at he'
    cases he'
    exact ⟨hperiod, fun _ => SchedServer.bindable_of_push htakes.1 htasks⟩
  · exact ⟨hperiod, fun htakes => absurd htakes hnot⟩

end

/-- With a period to divide by, the checked admission is `sched_admit`. -/
theorem ServerInv.schedAdmitChecked_of_ne {sv : SchedServer} (h : ServerInv sv) {t : TaskCfg}
    (hperiod : t.period ≠ 0) : schedAdmitChecked sv t = some (schedAdmit sv t) := by
  have hsome : ∃ r, schedAdmitChecked sv t = some r := by
    rcases h.schedAdmitChecked_cases t with ⟨hz, -⟩ | ⟨-, -, he⟩ | ⟨-, -, he⟩
    · exact absurd hz hperiod
    · exact ⟨_, he⟩
    · exact ⟨_, he⟩
  obtain ⟨r, hr⟩ := hsome
  rw [hr, schedAdmitChecked_eq hr]

theorem SchedServer.zero_inv : ServerInv SchedServer.zero :=
  ⟨fun i hi => absurd hi (Nat.not_lt_zero i), fun _ => Nat.zero_le 99⟩

/-- What `sched_admit` leaves when it is called for the requests with label 1. -/
def admitStep (sv : SchedServer) (r : SchedRequest) : SchedServer :=
  if r.msg.label = 1 then (schedAdmit sv r.task).2 else sv

theorem ServerInv.requestStep_eq {sv : SchedServer} (h : ServerInv sv) {r : SchedRequest}
    (hr : r.msg.label = 1 → r.task.period ≠ 0) :
    requestStep (some sv) r = some (admitStep sv r) := by
  rw [admitStep]
  by_cases hlabel : r.msg.label = 1
  · rw [requestStep_of_admission hlabel, h.schedAdmitChecked_of_ne (hr hlabel), if_pos hlabel]
    rfl
  · rw [requestStep_of_label hlabel, if_neg hlabel]

/-- Requests whose tasks can be bound never stop the server: it runs as `sched_admit` does,
and all it holds can be bound. -/
theorem requests_survive_of_bindable {reqs : List SchedRequest}
    (h : ∀ r ∈ reqs, r.msg.label = 1 → r.task.Bindable) :
    Run.exec requestStep (some SchedServer.zero) reqs =
        some (Run.exec admitStep SchedServer.zero reqs) ∧
      Survives (Run.exec requestStep (some SchedServer.zero) reqs) := by
  have hrun : ∀ sv, ServerInv sv → Run.exec requestStep (some sv) reqs =
      some (Run.exec admitStep sv reqs) ∧ ServerInv (Run.exec admitStep sv reqs) := by
    induction reqs with
    | nil => exact fun sv hsv => ⟨rfl, hsv⟩
    | cons r reqs ih =>
      intro sv hsv
      have hr := h r List.mem_cons_self
      have hsound : r.Sound sv := fun hlabel => ⟨(hr hlabel).period_ne, fun _ => hr hlabel⟩
      have hstep := hsv.requestStep_eq fun hlabel => (hr hlabel).period_ne
      obtain ⟨sv', he, hsv'⟩ := hsv.step hsound
      obtain rfl : admitStep sv r = sv' := Option.some.inj (hstep.symm.trans he)
      rw [Run.exec_cons, hstep]
      exact ih (fun r' hr' => h r' (List.mem_cons_of_mem r hr')) _ hsv'
  obtain ⟨heq, hinv⟩ := hrun _ SchedServer.zero_inv
  exact ⟨heq, _, heq, hinv.bindable⟩

/-- Over every sequence of requests, the server divides only by periods that are not zero and
admits only tasks that the kernel would bind, if and only if every request is sound where
it arrives. -/
theorem requests_survive_iff (reqs : List SchedRequest) :
    (∀ done, done <+: reqs → Survives (Run.exec requestStep (some SchedServer.zero) done)) ↔
      Run.Guarded requestStep (fun o r => ∀ sv, o = some sv → r.Sound sv)
        (some SchedServer.zero) reqs := by
  refine Run.exec_forall_prefix_iff_of_inv (fun o => ∃ sv, o = some sv ∧ ServerInv sv) ?_ ?_ ?_
    ⟨_, rfl, SchedServer.zero_inv⟩ reqs
  · rintro o ⟨sv, rfl, h⟩
    exact ⟨sv, rfl, h.bindable⟩
  · rintro o r ⟨sv, rfl, h⟩ hr
    exact h.step (hr sv rfl)
  · rintro o r ⟨sv, rfl, h⟩ hs sv' he
    cases he
    exact h.sound_of_survives hs

/-- A request for admission with this budget and period in partition 0. -/
def admitRequest (budget period : UInt64) : SchedRequest :=
  { msg := { IpcMsg.zero with
      label := 1
      length := 5
      words := fun i => if i = 2 then budget else if i = 3 then period else 0 }
    rt := false }

/-- The first request has no period, and the server divides by it.  The second has no budget
and is admitted.  The budget of the third is `2 ^ 62`, and a hundred times that wraps to 0:
with a period of 1000 it is taken for no percent at all and admitted too. -/
theorem bad_requests_not_survived :
    requestStep (some SchedServer.zero) (admitRequest 1 0) = none ∧
    (schedServerRun SchedServer.zero (admitRequest 0 1000)).map (fun x => x.2.taskCount) = some 1 ∧
    (schedServerRun SchedServer.zero (admitRequest 0x4000000000000000 1000)).map
      (fun x => x.2.taskCount) = some 1 ∧
    ¬ (∀ done, done <+: [admitRequest 1 0] →
      Survives (Run.exec requestStep (some SchedServer.zero) done)) := by
  have hnone : requestStep (some SchedServer.zero) (admitRequest 1 0) = none := by decide
  refine ⟨hnone, by decide, by decide, fun h => ?_⟩
  obtain ⟨sv, he, -⟩ := h [admitRequest 1 0] (List.prefix_refl _)
  rw [Run.exec_cons, Run.exec_nil, hnone] at he
  cases he

end Moonlight
