import Mathlib.Data.Fintype.Sum
import Mathlib.Logic.Function.Basic
import Cmgroups.Lib.Word32

/-!
# Kernel state

The part of the kernel state that concurrency management groups read or write: the
`struct cmgroup` objects (`include/linux/cmgroup.h`), the fields added to `struct eventpoll`,
`struct kioctx` and `struct task_struct`, and the generic state they depend on (wait queues,
spinlocks, run-queue membership, the tasklet's `SCHED` and `RUN` bits, reference counts).

Objects are identified by numbers that are never used twice, so two objects are equal
exactly when they are the same object. Tasks and CPUs range over two arbitrary finite types:
a run has finitely many of each, and every result holds for any number of them. Each field
is a function of the object it belongs to.
-/

namespace Cmgroups

/-- A `struct cmgroup`. -/
abbrev GroupId := ℕ
/-- A `struct eventpoll`. -/
abbrev EpollId := ℕ
/-- A `struct kioctx`. -/
abbrev CtxId := ℕ

/-- `enum cmgroup_action`. -/
inductive Action where
  /-- `CMGROUP_ACTION_NEUTRAL`: no action. -/
  | neutral
  /-- `CMGROUP_ACTION_WAKEALL`: wake tasks until no opening or no waiter is left. -/
  | wakeAll
  /-- `CMGROUP_ACTION_RESET_WAKEONE`: reset to neutral and wake one task. -/
  | resetWakeOne
  deriving DecidableEq, Repr

/-- A wait queue head together with the spinlock that protects it. -/
inductive LockId where
  /-- `cmgroup->__wq` and `cmgroup->__wq.lock`. -/
  | own (group : GroupId)
  /-- `ep->wq` and `ep->lock`. -/
  | epoll (ep : EpollId)
  deriving DecidableEq, Repr

/-- Who executes code: a task in process context, or a CPU in interrupt, softirq or
kernel-worker context. -/
inductive Actor (ι κ : Type) where
  /-- Process context of a task. -/
  | task (t : ι)
  /-- A CPU's interrupt, softirq or worker context. -/
  | cpu (c : κ)
  deriving DecidableEq, Repr

/-- The finitely many actors of a system with finitely many tasks and CPUs. -/
instance {ι κ : Type} [Fintype ι] [Fintype κ] : Fintype (Actor ι κ) :=
  Fintype.ofEquiv (ι ⊕ κ)
    { toFun := Sum.elim Actor.task Actor.cpu
      invFun := fun actor => match actor with
        | .task t => .inl t
        | .cpu c => .inr c
      left_inv := fun side => by cases side <;> rfl
      right_inv := fun actor => by cases actor <;> rfl }

/-- `task->state`. -/
inductive TaskState where
  /-- `TASK_RUNNING`. -/
  | running
  /-- `TASK_INTERRUPTIBLE`. -/
  | interruptible
  /-- `TASK_UNINTERRUPTIBLE`. -/
  | uninterruptible
  /-- `TASK_WAKING`: woken and not yet put on a run queue. -/
  | waking
  /-- `TASK_DEAD`. -/
  | dead
  deriving DecidableEq, Repr

/-- Stages of an object's memory, and of a task. -/
inductive Life where
  /-- Not allocated yet. -/
  | unborn
  /-- Allocated. -/
  | live
  /-- Returned to the allocator, or dead. -/
  | freed
  deriving DecidableEq, Repr

/-- Stages of a `struct kioctx` or `struct eventpoll`. -/
inductive Stage where
  /-- Not allocated yet. -/
  | unborn
  /-- Inside `ioctx_alloc`, before `ioctx_add_table`. -/
  | building
  /-- Reachable by system calls: in the context table of its `mm`, or an open epoll file. -/
  | published
  /-- Removed from the context table by `kill_ioctx`. -/
  | killed
  /-- `free_ioctx` or `ep_free` has started. -/
  | freeing
  /-- Returned to the allocator. -/
  | freed
  deriving DecidableEq, Repr

/-- The shared state. -/
structure Shared (ι κ : Type) where
  /-- Memory of a cmgroup. -/
  life : GroupId → Life
  /-- `kref`. -/
  kref : GroupId → ℤ
  /-- Open cmgroup files (`cmgroup_fops`) that refer to the group. -/
  files : GroupId → ℕ
  /-- `concurrency_value`. -/
  concurrencyValue : GroupId → ℤ
  /-- `available`. -/
  available : GroupId → ℤ
  /-- `action`. -/
  action : GroupId → Action
  /-- `lock`: `none` is `&__wq.lock`, `some ep` is `&ep->lock`. -/
  lockPtr : GroupId → Option EpollId
  /-- `wq`: `none` is `&__wq`, `some ep` is `&ep->wq`. -/
  wqPtr : GroupId → Option EpollId
  /-- `tasklet_active`. -/
  taskletActive : GroupId → Bool
  /-- `TASKLET_STATE_SCHED` of the embedded tasklet. -/
  sched : GroupId → Bool
  /-- The tasklet is linked in some CPU's `tasklet_vec`. -/
  linked : GroupId → Bool
  /-- `TASKLET_STATE_RUN` of the embedded tasklet. -/
  run : GroupId → Bool
  /-- `n_waked`. -/
  nWaked : GroupId → ℤ
  /-- `attached_epoll`. -/
  attachedEpoll : GroupId → Option EpollId
  /-- `attached_aio`. -/
  attachedAio : GroupId → Option CtxId
  /-- Holder of `attached_mtx`. -/
  attachedMtx : GroupId → Option (Actor ι κ)
  /-- `free_work` is queued, by this actor. -/
  freeWork : GroupId → Option (Actor ι κ)
  /-- Holder of a queue's spinlock. -/
  owner : LockId → Option (Actor ι κ)
  /-- Entries of a wait queue, first to be woken first. -/
  queue : LockId → List ι
  /-- Stage of an eventpoll. -/
  epStage : EpollId → Stage
  /-- `ep->cmgroup`. -/
  epCmgroup : EpollId → Option GroupId
  /-- Number of items on `ep->rdllist`. -/
  rdllist : EpollId → ℕ
  /-- `ep->ovflist`: `none` is `EP_UNACTIVE_PTR`, else the number of chained items. -/
  ovflist : EpollId → Option ℕ
  /-- Number of items on the scanner's private `txlist`. -/
  txlist : EpollId → ℕ
  /-- Holder of `ep->mtx`. -/
  epMtx : EpollId → Option (Actor ι κ)
  /-- Calls and callbacks in progress that keep the eventpoll's file. -/
  epUsers : EpollId → ℤ
  /-- Stage of an AIO context. -/
  ctxStage : CtxId → Stage
  /-- `ctx->cmgroup`. -/
  ctxCmgroup : CtxId → Option GroupId
  /-- `ctx->users`. -/
  users : CtxId → ℤ
  /-- Whether a task was forked yet, and whether it has called `do_exit`. -/
  taskLife : ι → Life
  /-- `task->cmgroup`. -/
  cmgroup : ι → Option GroupId
  /-- `task->cmgroup_charged`. -/
  charged : ι → Bool
  /-- `task->on_rq`. -/
  onRq : ι → Bool
  /-- `task->state`. -/
  state : ι → TaskState
  /-- `signal_pending(task)`. -/
  sig : ι → Bool
  /-- Holder of the run-queue lock for a transition of this task. -/
  rqLock : ι → Option (Actor ι κ)
  /-- The task is on another CPU's `wake_list`. -/
  wakeList : ι → Bool
  /-- Result of the actor's last system call. -/
  ret : Actor ι κ → ℤ

namespace Shared

variable {ι κ : Type} (s : Shared ι κ)

/-- The spinlock `cmgroup->lock` points to. -/
def lockOf (g : GroupId) : LockId :=
  match s.lockPtr g with
  | none => .own g
  | some e => .epoll e

/-- The wait queue `cmgroup->wq` points to. -/
def wqOf (g : GroupId) : LockId :=
  match s.wqPtr g with
  | none => .own g
  | some e => .epoll e

/-- `ep_events_available`. -/
def epEventsAvailable (e : EpollId) : Bool := 0 < s.rdllist e || (s.ovflist e).isSome

end Shared

/-- States of a task that `try_to_wake_up` with `TASK_NORMAL` acts on. -/
def TaskState.wakeable : TaskState → Bool
  | .interruptible | .uninterruptible => true
  | _ => false

/-- `-EINTR`. -/
def eintr : ℤ := -4
/-- `-EBADF`. -/
def ebadf : ℤ := -9
/-- `-EFAULT`. -/
def efault : ℤ := -14
/-- `-EBUSY`. -/
def ebusy : ℤ := -16
/-- `-EINVAL`. -/
def einval : ℤ := -22
/-- `-ENFILE`, standing for the error of a failed descriptor or file allocation. -/
def enfile : ℤ := -23
/-- `-ERESTARTSYS`. -/
def erestartsys : ℤ := -512

/-- `KTIME_MAX`. -/
def ktimeMax : ℤ := 2 ^ 63 - 1

/-- `CMGROUP_MAX_CONCURRENCY_VALUE`. -/
def cmgroupMaxConcurrencyValue : ℤ := 1024 * 1024

end Cmgroups
