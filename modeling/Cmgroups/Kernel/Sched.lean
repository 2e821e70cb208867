import Cmgroups.Kernel.Code

/-!
# Scheduler and accounting

`kernel/sched/core.c`: a task that calls `schedule()` in a sleeping state is taken off its run
queue with `DEQUEUE_SLEEP`; a wake-up puts it back at once or hands it to another CPU's
`wake_list`; every other dequeue is a requeue at a `RequeueSite`. `enqueue_task` and
`dequeue_task` call the hooks of `include/linux/cmgroup.h`, which charge the task to its group
or uncharge it. Association and dissociation (`fs/cmgroup.c`) change the same two fields of the
current task.

The run-queue lock is modelled for each task: it excludes the scheduler's transitions of one
task from each other and, as in the kernel, nothing else.
-/

namespace Cmgroups

open Function (update)

variable {ι κ : Type} [DecidableEq ι]

/-- The state after a micro-step and the code it expands to, or `none` while it cannot be
executed. -/
abbrev Outcome (ι κ : Type) := Option (Shared ι κ × Code ι)

/-- `cmgroup_task_enqueued`. -/
def cmgroupTaskEnqueued (s : Shared ι κ) (p : ι) (flags : ℕ) : Code ι :=
  match s.cmgroup p with
  | none => []
  | some g =>
    if flags &&& enqueueNocmgroup = 0 ∧ s.charged p = false then [.acct (.charge p g)] else []

/-- `cmgroup_task_dequeued`. -/
def cmgroupTaskDequeued (s : Shared ι κ) (p : ι) (flags : ℕ) : Code ι :=
  match s.cmgroup p with
  | none => []
  | some g =>
    if flags &&& dequeueNocmgroup = 0 ∧ s.charged p = true then [.acct (.uncharge p g)] else []

/-- `try_to_wake_up(p, TASK_NORMAL, 0)`. A task found on its run queue is only set running
(`ttwu_remote`); else it is put on a run queue by the waker (`ttwu_do_activate`) or, with
`remote`, by the CPU whose `wake_list` it joins (`ttwu_queue_remote`). -/
def tryToWakeUp (s : Shared ι κ) (p : ι) (remote : Bool) : Outcome ι κ :=
  if (s.state p).wakeable = false then some (s, [])
  else if s.rqLock p ≠ none then none
  else if s.onRq p = true then some ({ s with state := update s.state p .running }, [])
  else if remote then
    some ({ s with
      state := update s.state p .waking
      wakeList := update s.wakeList p true }, [])
  else some ({ s with state := update s.state p .waking },
    [.sched (.activate p (enqueueWakeup ||| enqueueWaking))])

/-- Scheduler micro-steps. -/
def execSched (actor : Actor ι κ) (choice : Choice) (s : Shared ι κ) :
    SchedStep ι → Outcome ι κ
  | .setState t state => some ({ s with state := update s.state t state }, [])
  | .schedule t =>
    if s.rqLock t ≠ none then none
    else if s.state t = .running then some (s, [])
    else if s.state t = .interruptible ∧ s.sig t = true then
      some ({ s with state := update s.state t .running }, [])
    else some ({ s with rqLock := update s.rqLock t (some actor) },
      cmgroupTaskDequeued s t dequeueSleep ++ [.sched (.offRq t), .sched (.resume t)])
  | .offRq t =>
    some ({ s with
      onRq := update s.onRq t false
      rqLock := update s.rqLock t none }, [])
  | .resume t =>
    if s.onRq t = true ∧ s.state t = .running then some (s, []) else none
  | .ttwu p => tryToWakeUp s p choice.flag
  | .activate p flags =>
    if s.rqLock p ≠ none then none
    else some ({ s with rqLock := update s.rqLock p (some actor) },
      cmgroupTaskEnqueued s p flags ++ [.sched (.enterRq p)])
  | .enterRq p =>
    some ({ s with
      onRq := update s.onRq p true
      state := update s.state p .running
      rqLock := update s.rqLock p none }, [])
  | .requeueIn p site =>
    some (s, cmgroupTaskEnqueued s p site.enqueueFlags ++ [.sched (.requeueDone p)])
  | .requeueDone p => some ({ s with rqLock := update s.rqLock p none }, [])

/-- Association and accounting micro-steps. -/
def execAcct (s : Shared ι κ) : AcctStep ι → Outcome ι κ
  | .associate t g addref atomic =>
    if s.cmgroup t = some g then some (s, if addref then [] else [.obj (.unref g atomic)])
    else some (s, (if addref then [.obj (.ref g none)] else []) ++
      (if s.cmgroup t ≠ none then [.acct (.dissociate t atomic)] else []) ++
      [.acct (.storeCmgroup t g)])
  | .dissociate t atomic =>
    match s.cmgroup t with
    | none => some (s, [])
    | some g => some (s, (if s.charged t = true then [.acct (.uncharge t g)] else []) ++
        [.acct (.clearCmgroup t g), .obj (.unref g atomic)])
  | .storeCmgroup t g =>
    some ({ s with cmgroup := update s.cmgroup t (some g) },
      [.acct (.clearCharged t g (s.charged t))])
  | .clearCharged t g _ =>
    some ({ s with charged := update s.charged t false }, [.acct (.charge t g)])
  | .charge t g =>
    some ({ s with charged := update s.charged t true }, [.acct (.decAvailable t g)])
  | .decAvailable _ g =>
    some ({ s with available := update s.available g (Word32.wrap (s.available g - 1)) }, [])
  | .uncharge t g =>
    some ({ s with charged := update s.charged t false }, [.acct (.incAvailable t g)])
  | .incAvailable t g =>
    some ({ s with available := update s.available g (Word32.wrap (s.available g + 1)) },
      if Word32.wrap (s.available g + 1) = 1 then [.obj (.fire g (.lessRunnable t))] else [])
  | .clearCmgroup t _ =>
    some ({ s with cmgroup := update s.cmgroup t none }, [])
  | .setcvStore g nthreads =>
    some ({ s with concurrencyValue := update s.concurrencyValue g nthreads },
      [.acct (.setcvAdd g (Word32.wrap (nthreads - s.concurrencyValue g)))])
  | .setcvAdd g change =>
    let new := Word32.wrap (s.available g + change)
    let old := Word32.wrap (new - change)
    some ({ s with available := update s.available g new },
      if old < 1 ∧ 1 ≤ new then [.obj (.fire g .setConcurrencyValue)] else [])

end Cmgroups
