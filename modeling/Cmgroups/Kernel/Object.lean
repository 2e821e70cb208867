import Cmgroups.Kernel.Sched

/-!
# Object lifetime, locks and wake-ups

Reference counting and release of a cmgroup (`cmgroup_ref`, `cmgroup_unref`, `cmgroup_free`),
`fire_tasklet`, the error paths of `cmgroup_newgroup`, acquisition and release of locks, and
`wake_up_locked` and `wake_up_all_locked` on a wait queue. Entries of a cmgroup's own queue use
`cmgroup_wake_function`, which unlinks a woken entry and counts it; entries of an epoll queue
use `default_wake_function`.
-/

namespace Cmgroups

open Function (update)

variable {ι κ : Type} [DecidableEq ι] [DecidableEq κ]

/-- What the wake function of a queue does to the entry of a task it woke. -/
def wakeFunction (s : Shared ι κ) (p : ι) : LockId → Shared ι κ
  | .own g => { s with
      queue := update s.queue (.own g) ((s.queue (.own g)).erase p)
      nWaked := update s.nWaked g (s.nWaked g + 1) }
  | .epoll _ => s

/-- `wake_up_locked`: wake the first entry whose task can be woken. -/
def wakeUpLocked (s : Shared ι κ) (lock : LockId) (remote : Bool) : Outcome ι κ :=
  match (s.queue lock).find? fun p => (s.state p).wakeable with
  | none => some (s, [])
  | some p => (tryToWakeUp s p remote).map fun (woken, code) => (wakeFunction woken p lock, code)

/-- Object lifetime micro-steps. -/
def execObj (actor : Actor ι κ) (choice : Choice) (s : Shared ι κ) :
    ObjStep ι → Outcome ι κ
  | .ref g _ => some ({ s with kref := update s.kref g (s.kref g + 1) }, [])
  | .unref g atomic =>
    let counted := { s with kref := update s.kref g (s.kref g - 1) }
    if s.kref g - 1 = 0 then
      if atomic then some ({ counted with freeWork := update s.freeWork g (some actor) }, [])
      else some ({ counted with life := update s.life g .freed }, [])
    else some (counted, [])
  | .fire g site =>
    if s.taskletActive g = true then some (s, [])
    else some ({ s with taskletActive := update s.taskletActive g true },
      [.obj (.ref g (some site)), .obj (.taskletSchedule g)])
  | .taskletSchedule g =>
    if s.sched g = true then some (s, [])
    else some ({ s with
      sched := update s.sched g true
      linked := update s.linked g true }, [])
  | .newFd g =>
    -- `choice.flag`: no descriptor is left
    some (s, if choice.flag then [.obj (.free g), .obj (.ret enfile)] else [.obj (.newFile g)])
  | .newFile g =>
    -- `choice.flag`: no file could be created
    if choice.flag then some (s, [.obj (.free g), .obj (.ret enfile)])
    else some ({ s with files := update s.files g (s.files g + 1) }, [.obj (.ret 0)])
  | .free g => some ({ s with life := update s.life g .freed }, [])
  | .ret value => some ({ s with ret := update s.ret actor value }, [])

/-- Lock and wake-up micro-steps. -/
def execLock (actor : Actor ι κ) (choice : Choice) (s : Shared ι κ) :
    LockStep ι → Outcome ι κ
  | .lockVia g via => some (s, [.lock (.spinVia g (s.lockOf g) via)])
  | .spinVia _ lock _ =>
    if s.owner lock ≠ none then none
    else some ({ s with owner := update s.owner lock (some actor) }, [])
  | .unlockVia g _ => some ({ s with owner := update s.owner (s.lockOf g) none }, [])
  | .lock lock =>
    if s.owner lock ≠ none then none
    else some ({ s with owner := update s.owner lock (some actor) }, [])
  | .unlock lock => some ({ s with owner := update s.owner lock none }, [])
  | .mtxLock g =>
    -- `choice.flag`: sleep while the mutex is held by another actor
    if s.attachedMtx g ≠ none then
      if choice.flag then some (s, napThen actor (.lock (.mtxLock g))) else none
    else some ({ s with attachedMtx := update s.attachedMtx g (some actor) }, [])
  | .mtxUnlock g => some ({ s with attachedMtx := update s.attachedMtx g none }, [])
  | .epMtxLock e =>
    if s.epMtx e ≠ none then
      if choice.flag then some (s, napThen actor (.lock (.epMtxLock e))) else none
    else some ({ s with epMtx := update s.epMtx e (some actor) }, [])
  | .epMtxUnlock e => some ({ s with epMtx := update s.epMtx e none }, [])
  | .epPut e => some ({ s with epUsers := update s.epUsers e (s.epUsers e - 1) }, [])
  | .ctxPut c => some ({ s with users := update s.users c (s.users c - 1) }, [])
  | .wakeOne lock => wakeUpLocked s lock choice.flag
  | .wakeAll lock =>
    if (s.queue lock).any fun p => (s.state p).wakeable then
      (wakeUpLocked s lock choice.flag).map fun (woken, code) =>
        (woken, code ++ [.lock (.wakeAll lock)])
    else some (s, [])
  | .unlink t lock =>
    some ({ s with queue := update s.queue lock ((s.queue lock).erase t) }, [])

end Cmgroups
