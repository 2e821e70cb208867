import Mathlib.Data.Fintype.Sum
import Cmgroups.Lib.Transition

/-!
# Softirqs and context switches

The switch path of every CPU (`__schedule` and `schedule_tail` in `kernel/sched/core.c`) together
with the softirqs raised on it (`kernel/softirq.c`). A task that is dequeued may fire a cmgroup's
tasklet, which raises `TASKLET_SOFTIRQ` without waking `ksoftirqd`; the tail of `__schedule` runs
`cmgroup_execute_softirq`. A task that was switched out before resumes in that tail; a newly
forked task starts in `schedule_tail` instead. Interrupts come at any point where they are
enabled and run softirqs when they return.
-/

namespace Cmgroups

open Function (update)

/-- `local_softirq_pending()`: the `TASKLET` bit, and any other bit. -/
structure Pending where
  /-- `TASKLET_SOFTIRQ`. -/
  tasklet : Bool := false
  /-- Some other softirq. -/
  other : Bool := false
  deriving DecidableEq, Repr

/-- Some softirq is pending. -/
def Pending.any (pending : Pending) : Bool := pending.tasklet || pending.other

/-- Where the current task of a CPU is. -/
inductive SwitchPc where
  /-- Outside the switch path. -/
  | outside
  /-- In `__schedule`, with the run-queue lock held. -/
  | locked
  /-- In `__schedule`, `prev` dequeued or kept, before `pick_next_task`. -/
  | dequeued
  /-- In `__schedule` after the switch, or without one, before `cmgroup_execute_softirq`. -/
  | tail
  /-- In `__schedule` after `cmgroup_execute_softirq`. -/
  | enable
  /-- In `schedule_tail`. -/
  | childTail
  deriving DecidableEq, Repr

/-- A CPU. -/
structure Cpu (τ : Type) where
  /-- The current task. -/
  curr : τ
  /-- Where the current task is. -/
  pc : SwitchPc
  /-- Pending softirqs. -/
  pending : Pending
  /-- The current task has softirqs disabled. -/
  bhDisabled : Bool
  /-- `ksoftirqd` was woken. -/
  woken : Bool
  /-- Ghost: a tasklet was posted without waking `ksoftirqd`, and since then neither its softirq
  has been run nor `ksoftirqd` woken. -/
  posted : Bool
  deriving DecidableEq, Repr

/-- `MAX_SOFTIRQ_RESTART`. -/
def maxSoftirqRestart : ℕ := 10

namespace Cpu

variable {τ : Type}

/-- `wakeup_softirqd`. -/
def wakeupSoftirqd (cpu : Cpu τ) : Cpu τ := { cpu with woken := true, posted := false }

/-- `tasklet_schedule_nosoftirqd_wake`. -/
def taskletScheduleNosoftirqdWake (cpu : Cpu τ) : Cpu τ :=
  { cpu with pending := { cpu.pending with tasklet := true }, posted := true }

/-- `tasklet_schedule`. -/
def taskletSchedule (cpu : Cpu τ) : Cpu τ :=
  let raised := { cpu with pending := { cpu.pending with tasklet := true } }
  if cpu.bhDisabled then raised else raised.wakeupSoftirqd

/-- One pass over the pending softirqs, while which others are raised. -/
def runPending (cpu : Cpu τ) (raised : Pending) : Cpu τ :=
  { cpu with pending := raised, posted := cpu.posted && !cpu.pending.tasklet }

/-- `__do_softirq`: the list has what is raised in each pass. Without a further entry a restart
is refused, because of the time it took or because of `need_resched()`. -/
def doSoftirqLoop : ℕ → List Pending → Cpu τ → Cpu τ
  | _, [], cpu => cpu.runPending {}
  | restarts, raised :: rest, cpu =>
    if raised.any = false then cpu.runPending raised
    else match restarts, rest with
      | restarts + 1, _ :: _ => doSoftirqLoop restarts rest (cpu.runPending raised)
      | _, _ => (cpu.runPending raised).wakeupSoftirqd

/-- `do_softirq`. -/
def doSoftirq (raised : List Pending) (cpu : Cpu τ) : Cpu τ :=
  if cpu.bhDisabled then cpu
  else if cpu.pending.any then cpu.doSoftirqLoop (maxSoftirqRestart - 1) raised else cpu

/-- `cmgroup_execute_softirq`. -/
def cmgroupExecuteSoftirq (raised : List Pending) (cpu : Cpu τ) : Cpu τ :=
  if cpu.pending.any then cpu.doSoftirq raised else cpu

/-- `irq_exit`, with `force_irqthreads`. -/
def irqExit (threaded : Bool) (raised : List Pending) (cpu : Cpu τ) : Cpu τ :=
  if cpu.bhDisabled = false ∧ cpu.pending.any = true then
    if threaded then cpu.wakeupSoftirqd else cpu.doSoftirqLoop (maxSoftirqRestart - 1) raised
  else cpu

end Cpu

/-- Steps of a CPU. -/
inductive CpuStep (τ : Type) where
  /-- `local_bh_disable`. -/
  | bhDisable
  /-- `local_bh_enable`. -/
  | bhEnable (raised : List Pending)
  /-- `tasklet_schedule` outside the switch path. -/
  | taskletSchedule
  /-- `run_ksoftirqd`. -/
  | ksoftirqd (raised : List Pending)
  /-- An interrupt that raises some softirqs. -/
  | interrupt (raises : Pending) (threaded : Bool) (raised : List Pending)
  /-- `__schedule` up to its lock. -/
  | schedule
  /-- `deactivate_task` of the current task; `fires` is whether its last step fires the tasklet
  of its cmgroup. -/
  | dequeue (fires : Bool)
  /-- The current task stays on its run queue. -/
  | keep
  /-- `pick_next_task` and the switch. -/
  | pick (next : τ)
  /-- `cmgroup_execute_softirq` at the end of `__schedule`. -/
  | executeSoftirq (raised : List Pending)
  /-- The test of `need_resched()` at the end of `__schedule`. -/
  | leave (resched : Bool)
  /-- Return of `schedule_tail`. -/
  | childReturn

/-- The CPUs and the tasks: `fresh` are those that were forked and not switched to yet. -/
structure Machine (τ κ : Type) where
  /-- The CPUs. -/
  cpu : κ → Cpu τ
  /-- The task was not switched to yet. -/
  fresh : τ → Bool

/-- Interrupts are enabled. -/
def SwitchPc.interruptible : SwitchPc → Bool
  | .outside | .tail | .enable | .childTail => true
  | .locked | .dequeued => false

/-- One step of a CPU other than a switch. -/
def Cpu.step {τ : Type} (cpu : Cpu τ) : CpuStep τ → Option (Cpu τ)
  | .bhDisable => if cpu.pc = .outside then some { cpu with bhDisabled := true } else none
  | .bhEnable raised =>
    if cpu.pc = .outside then some ({ cpu with bhDisabled := false }.doSoftirq raised) else none
  | .taskletSchedule => if cpu.pc = .outside then some cpu.taskletSchedule else none
  | .ksoftirqd raised =>
    if cpu.pc = .outside ∧ cpu.woken = true ∧ cpu.bhDisabled = false then
      some ({ cpu with woken := false }.doSoftirq raised)
    else none
  | .interrupt raises threaded raised =>
    if cpu.pc.interruptible then
      some ({ cpu with pending := ⟨cpu.pending.tasklet || raises.tasklet,
        cpu.pending.other || raises.other⟩ }.irqExit threaded raised)
    else none
  | .schedule =>
    -- scheduling with softirqs disabled is a bug that `schedule_debug` reports
    if cpu.pc = .outside ∧ cpu.bhDisabled = false then some { cpu with pc := .locked } else none
  | .dequeue fires =>
    if cpu.pc = .locked then
      some { (if fires then cpu.taskletScheduleNosoftirqdWake else cpu) with pc := .dequeued }
    else none
  | .keep => if cpu.pc = .locked then some { cpu with pc := .dequeued } else none
  | .pick _ => none
  | .executeSoftirq raised =>
    if cpu.pc = .tail then some { cpu.cmgroupExecuteSoftirq raised with pc := .enable } else none
  | .leave resched =>
    if cpu.pc = .enable then some { cpu with pc := if resched then .locked else .outside }
    else none
  | .childReturn => if cpu.pc = .childTail then some { cpu with pc := .outside } else none

/-- One step of the machine: a CPU's own step, or its switch to a task that runs nowhere else.
The task resumes where it was switched out, in the tail of `__schedule`, or starts in
`schedule_tail`. -/
def Machine.next {τ κ : Type} [DecidableEq τ] [DecidableEq κ] [Fintype κ] :
    κ × CpuStep τ → Machine τ κ → Option (Machine τ κ)
  | (c, .pick next), m =>
    if (m.cpu c).pc = .dequeued ∧ ∀ other, other ≠ c → (m.cpu other).curr ≠ next then
      some {
        cpu := update m.cpu c { m.cpu c with
          curr := next
          pc := if next ≠ (m.cpu c).curr ∧ m.fresh next = true then .childTail else .tail }
        fresh := update m.fresh next false }
    else none
  | (c, step), m =>
    ((m.cpu c).step step).map fun cpu => { m with cpu := update m.cpu c cpu }

/-- Initially every CPU runs a task outside the switch path and no softirq is raised. -/
structure Machine.Initial {τ κ : Type} (m : Machine τ κ) : Prop where
  /-- No CPU is on the switch path. -/
  pc : ∀ c, (m.cpu c).pc = .outside
  /-- No softirq is pending. -/
  pending : ∀ c, (m.cpu c).pending = {}
  /-- Softirqs are enabled. -/
  bhDisabled : ∀ c, (m.cpu c).bhDisabled = false
  /-- No tasklet was posted. -/
  posted : ∀ c, (m.cpu c).posted = false

end Cmgroups
