import Cmgroups.Kernel.Bind

/-!
# The tasklet

`tasklet_action` (`kernel/softirq.c`) for the tasklet embedded in a cmgroup, and its handler
`cmgroup_tasklet` (`fs/cmgroup.c`) with its five exits: nothing requested, one task woken, no
waiter, only waiters that cannot be woken, no opening left (with a re-check after the lock is
dropped), and the hand-over to a rescheduled instance after `max_passes` passes.
-/

namespace Cmgroups

open Function (update)

variable {ι κ : Type} [DecidableEq ι]

/-- `max_passes`. -/
def maxPasses : ℕ := 5

/-- `out_tasklet`: clear `tasklet_active`, unlock, drop the tasklet's reference. -/
def outTasklet (g : GroupId) : Code ι :=
  [.tasklet (.clear g), .lock (.unlockVia g .tasklet), .obj (.unref g true)]

/-- Tasklet micro-steps. -/
def execTasklet (choice : Choice) (s : Shared ι κ) : TaskletStep → Outcome ι κ
  | .trylock g =>
    if s.run g = true then some ({ s with linked := update s.linked g true }, [])
    else some ({ s with run := update s.run g true }, [.tasklet (.clearSched g)])
  | .clearSched g =>
    -- a clear bit is a `BUG()`
    if s.sched g = true then
      some ({ s with sched := update s.sched g false },
        [.tasklet (.again g 0), .tasklet (.unlock g)])
    else none
  | .again g pass => some (s, [.lock (.lockVia g .tasklet), .tasklet (.act g pass)])
  | .act g pass =>
    match s.action g with
    | .neutral => some (s, outTasklet g)
    | .resetWakeOne => some (s, [.tasklet (.reset g pass)])
    | .wakeAll => some (s, [.tasklet (.wakeAll g pass)])
  | .reset g pass =>
    if 0 < s.available g then
      some ({ s with action := update s.action g .neutral },
        (if s.queue (s.wqOf g) = [] then [] else [.lock (.wakeOne (s.wqOf g))]) ++ outTasklet g)
    else some (s, [.tasklet (.recheckClear g pass)])
  | .wakeAll g pass =>
    if s.queue (s.wqOf g) = [] then some (s, outTasklet g)
    else if maxPasses < pass + 1 then
      some (s, [.obj (.taskletSchedule g), .lock (.unlockVia g .tasklet)])
    else some (s, [.tasklet (.avail g (pass + 1))])
  | .avail g pass =>
    if 0 < s.available g then some (s, [.tasklet (.wake g pass)])
    else some (s, [.tasklet (.recheckClear g pass)])
  | .wake g pass =>
    (wakeUpLocked s (s.wqOf g) choice.flag).map fun (woken, code) =>
      (woken, code ++
        if woken.nWaked g = s.nWaked g then outTasklet g else [.tasklet (.wakeAll g pass)])
  | .clear g => some ({ s with taskletActive := update s.taskletActive g false }, [])
  | .recheckClear g pass =>
    some ({ s with taskletActive := update s.taskletActive g false },
      [.lock (.unlockVia g .tasklet), .tasklet (.recheck g pass)])
  | .recheck g pass =>
    if s.available g ≤ 0 then some (s, [.obj (.unref g true)])
    else some (s, [.tasklet (.reassert g pass)])
  | .reassert g pass =>
    if s.taskletActive g = true then some (s, [.obj (.unref g true)])
    else some ({ s with taskletActive := update s.taskletActive g true },
      [.tasklet (.again g pass)])
  | .unlock g => some ({ s with run := update s.run g false }, [])

end Cmgroups
