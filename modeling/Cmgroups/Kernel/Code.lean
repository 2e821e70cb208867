import Cmgroups.Kernel.State

/-!
# Kernel code as micro-steps

The C functions are cut into micro-steps at the points where other actors can observe them:
every access to an atomic variable (`available`, `tasklet_active`, `kref`, the tasklet bits),
every acquisition and release of a lock, every store another context may read without that
lock, and every switch to another task. Between two such points only data protected by a
held lock, or private to the task, is touched. Each family below names the functions it
covers; the semantics of a family is in the module of the same subject.
-/

namespace Cmgroups

/-- Under which rule of `cmgroup_lock_irq` a user takes the lock `cmgroup->lock` points to. -/
inductive Via where
  /-- In the tasklet. -/
  | tasklet
  /-- Under `attached_mtx`. -/
  | mutex
  /-- In `cmgroup_lockout_tasklet`, under `attached_mtx`. -/
  | lockout
  /-- In `__cmgroup_wait`, called with a reference to this AIO context. -/
  | waiter (c : CtxId)
  deriving DecidableEq, Repr

/-- Where `fire_tasklet` is called. -/
inductive Fire (ι : Type) where
  /-- `cmgroup_one_less_runnable` moved `available` from 0 to 1. -/
  | lessRunnable (t : ι)
  /-- `cmgroup_set_concurrency_value` moved `available` from at most 0 to at least 1. -/
  | setConcurrencyValue
  /-- `cmgroup_unlockout_tasklet`. -/
  | unlockout
  deriving DecidableEq, Repr

/-- An event source a cmgroup can be attached to. -/
inductive Source where
  /-- An eventpoll. -/
  | epoll (e : EpollId)
  /-- An AIO context. -/
  | aio (c : CtxId)
  deriving DecidableEq, Repr

/-- A file descriptor argument. -/
inductive Fd where
  /-- Not open. -/
  | bad
  /-- A file that is not a cmgroup file. -/
  | other
  /-- The cmgroup file of this group. -/
  | cm (g : GroupId)
  deriving DecidableEq, Repr

/-- The `timeout` argument of `ep_poll`. -/
inductive Timeout where
  /-- `timeout == 0`. -/
  | zero
  /-- `timeout > 0`. -/
  | finite
  /-- `timeout < 0`. -/
  | infinite
  deriving DecidableEq, Repr

/-- Places that take a queued task off its run queue and put it back at once, with the flags
of their `dequeue_task` and `enqueue_task` calls. -/
inductive RequeueSite where
  /-- `__migrate_swap_task`. -/
  | migrateSwapTask
  /-- `rt_mutex_setprio`, with its `enqueue_flag` (0, `ENQUEUE_HEAD` or `ENQUEUE_REPLENISH`). -/
  | rtMutexSetprio (enqueueFlag : Fin 3)
  /-- `set_user_nice`. -/
  | setUserNice
  /-- `__sched_setscheduler`. -/
  | schedSetscheduler
  /-- `__migrate_task`. -/
  | migrateTask
  /-- `sched_setnuma`. -/
  | schedSetnuma
  /-- `normalize_task`. -/
  | normalizeTask
  /-- `sched_move_task`. -/
  | schedMoveTask
  /-- `push_dl_task`. -/
  | pushDlTask
  /-- `pull_dl_task`. -/
  | pullDlTask
  /-- `push_rt_task`. -/
  | pushRtTask
  /-- `pull_rt_task`. -/
  | pullRtTask
  /-- `move_task` of the fair class. -/
  | moveTask
  deriving DecidableEq, Repr

/-- `ENQUEUE_WAKEUP`. -/
def enqueueWakeup : ℕ := 1
/-- `ENQUEUE_HEAD`. -/
def enqueueHead : ℕ := 2
/-- `ENQUEUE_WAKING`. -/
def enqueueWaking : ℕ := 4
/-- `ENQUEUE_REPLENISH`. -/
def enqueueReplenish : ℕ := 8
/-- `ENQUEUE_NOCMGROUP`. -/
def enqueueNocmgroup : ℕ := 16
/-- `DEQUEUE_SLEEP`. -/
def dequeueSleep : ℕ := 1
/-- `DEQUEUE_NOCMGROUP`. -/
def dequeueNocmgroup : ℕ := 2

/-- Flags of the `dequeue_task` or `deactivate_task` call of a requeueing place. -/
def RequeueSite.dequeueFlags : RequeueSite → ℕ
  | .migrateSwapTask | .rtMutexSetprio _ | .setUserNice | .schedSetscheduler | .migrateTask
  | .schedSetnuma | .normalizeTask | .schedMoveTask | .pushDlTask | .pullDlTask | .pushRtTask
  | .pullRtTask | .moveTask => dequeueNocmgroup

/-- Flags of the `enqueue_task` or `activate_task` call of a requeueing place. -/
def RequeueSite.enqueueFlags : RequeueSite → ℕ
  | .rtMutexSetprio 0 => enqueueNocmgroup
  | .rtMutexSetprio 1 => enqueueHead ||| enqueueNocmgroup
  | .rtMutexSetprio 2 => enqueueReplenish ||| enqueueNocmgroup
  | .migrateSwapTask | .setUserNice | .schedSetscheduler | .migrateTask
  | .schedSetnuma | .normalizeTask | .schedMoveTask | .pushDlTask | .pullDlTask | .pushRtTask
  | .pullRtTask | .moveTask => enqueueNocmgroup

/-- Scheduler: `__schedule`, `try_to_wake_up`, `enqueue_task`, `dequeue_task`. -/
inductive SchedStep (ι : Type) where
  /-- `set_current_state`. -/
  | setState (t : ι) (state : TaskState)
  /-- `schedule()`: the part of `__schedule` up to the end of `deactivate_task`. -/
  | schedule (t : ι)
  /-- `prev->on_rq = 0` and release of the run-queue lock. -/
  | offRq (t : ι)
  /-- The task is switched in again. -/
  | resume (t : ι)
  /-- `try_to_wake_up(p, TASK_NORMAL, 0)`. -/
  | ttwu (p : ι)
  /-- `activate_task(rq, p, flags)`, taking the run-queue lock. -/
  | activate (p : ι) (flags : ℕ)
  /-- `p->on_rq = 1`, `p->state = TASK_RUNNING`, release of the run-queue lock. -/
  | enterRq (p : ι)
  /-- The `enqueue_task` half of a requeueing place. -/
  | requeueIn (p : ι) (site : RequeueSite)
  /-- Release of the run-queue lock after requeueing. -/
  | requeueDone (p : ι)
  deriving DecidableEq

/-- Association and accounting: `cmgroup_associate`, `cmgroup_dissociate`,
`cmgroup_one_more_runnable`, `cmgroup_one_less_runnable`, `cmgroup_set_concurrency_value`. -/
inductive AcctStep (ι : Type) where
  /-- `cmgroup_associate(t, g, addref)`; `atomic` is `irqs_disabled()` in the caller. -/
  | associate (t : ι) (g : GroupId) (addref atomic : Bool)
  /-- `cmgroup_dissociate(t)`. -/
  | dissociate (t : ι) (atomic : Bool)
  /-- `task->cmgroup = cmgroup` in `cmgroup_associate`. -/
  | storeCmgroup (t : ι) (g : GroupId)
  /-- `task->cmgroup_charged = false` in `cmgroup_associate`; `stale` is a ghost, the value of
  the flag that is overwritten. -/
  | clearCharged (t : ι) (g : GroupId) (stale : Bool)
  /-- `task->cmgroup_charged = true` in `cmgroup_one_more_runnable`. -/
  | charge (t : ι) (g : GroupId)
  /-- `atomic_dec(&cmgroup->available)` in `cmgroup_one_more_runnable`. -/
  | decAvailable (t : ι) (g : GroupId)
  /-- `task->cmgroup_charged = false` in `cmgroup_one_less_runnable`. -/
  | uncharge (t : ι) (g : GroupId)
  /-- `atomic_inc_return(&cmgroup->available) == 1` in `cmgroup_one_less_runnable`. -/
  | incAvailable (t : ι) (g : GroupId)
  /-- `task->cmgroup = NULL` in `cmgroup_dissociate`. -/
  | clearCmgroup (t : ι) (g : GroupId)
  /-- `cmgroup->concurrency_value = nthreads`. -/
  | setcvStore (g : GroupId) (nthreads : ℤ)
  /-- `atomic_add_return(change, &cmgroup->available)` and the test after it. -/
  | setcvAdd (g : GroupId) (change : ℤ)
  deriving DecidableEq

/-- Object lifetime: `cmgroup_ref`, `cmgroup_unref`, `fire_tasklet`, `cmgroup_newgroup`. -/
inductive ObjStep (ι : Type) where
  /-- `cmgroup_ref` in `fire_tasklet`, or with `none` in `cmgroup_associate`. -/
  | ref (g : GroupId) (site : Option (Fire ι))
  /-- `cmgroup_unref`; `atomic` is `in_interrupt() || irqs_disabled()`. -/
  | unref (g : GroupId) (atomic : Bool)
  /-- The compare-and-swap of `fire_tasklet`. -/
  | fire (g : GroupId) (site : Fire ι)
  /-- `tasklet_schedule` or `tasklet_schedule_nosoftirqd_wake`. -/
  | taskletSchedule (g : GroupId)
  /-- `get_unused_fd_flags` in `cmgroup_newgroup`. -/
  | newFd (g : GroupId)
  /-- `anon_inode_getfile` and `fd_install` in `cmgroup_newgroup`. -/
  | newFile (g : GroupId)
  /-- `cmgroup_free` called directly on the error path of `cmgroup_newgroup`. -/
  | free (g : GroupId)
  /-- Return of a system call. -/
  | ret (value : ℤ)
  deriving DecidableEq

/-- Locks, object references held by calls, and wake-ups of a queue. -/
inductive LockStep (ι : Type) where
  /-- Load of `cmgroup->lock` in `cmgroup_lock_irq` or `cmgroup_lock_irqsave`. -/
  | lockVia (g : GroupId) (via : Via)
  /-- `spin_lock` of the lock just loaded. -/
  | spinVia (g : GroupId) (lock : LockId) (via : Via)
  /-- `cmgroup_unlock_irq` or `cmgroup_unlock_irqrestore`: release of `*cmgroup->lock`. -/
  | unlockVia (g : GroupId) (via : Via)
  /-- `spin_lock_irqsave` of a known lock. -/
  | lock (lock : LockId)
  /-- `spin_unlock_irqrestore` of a known lock. -/
  | unlock (lock : LockId)
  /-- `mutex_lock(&cmgroup->attached_mtx)`. -/
  | mtxLock (g : GroupId)
  /-- `mutex_unlock(&cmgroup->attached_mtx)`. -/
  | mtxUnlock (g : GroupId)
  /-- `mutex_lock(&ep->mtx)`. -/
  | epMtxLock (e : EpollId)
  /-- `mutex_unlock(&ep->mtx)`. -/
  | epMtxUnlock (e : EpollId)
  /-- The call gives up the epoll file. -/
  | epPut (e : EpollId)
  /-- `percpu_ref_put(&ioctx->users)`. -/
  | ctxPut (c : CtxId)
  /-- `wake_up_locked`. -/
  | wakeOne (lock : LockId)
  /-- `wake_up_all_locked`. -/
  | wakeAll (lock : LockId)
  /-- `list_del_init(&wait->task_list)` in `finish_wait`. -/
  | unlink (t : ι) (lock : LockId)
  deriving DecidableEq

/-- Binding: `ep_attach_cmgroup`, `io_set_cmgroup`, `cmgroup_begin_attach_*`,
`cmgroup_lockout_tasklet`, `cmgroup_unlockout_tasklet`, `cmgroup_detach`, and construction and
teardown of AIO contexts and eventpolls. -/
inductive BindStep where
  /-- `ep_attach_cmgroup`, called under `ep->mtx`. -/
  | attachEpoll (e : EpollId) (fd : Fd)
  /-- `cmgroup_begin_attach_epoll` after `mutex_lock`. -/
  | beginEpoll (g : GroupId) (e : EpollId)
  /-- One compare-and-swap of the loop in `cmgroup_lockout_tasklet`. -/
  | lockoutCas (g : GroupId)
  /-- The `ep->lock` section of `ep_attach_cmgroup`. -/
  | storeEpoll (g : GroupId) (e : EpollId)
  /-- `cmgroup_unlockout_tasklet`, up to its `atomic_cmpxchg(&tasklet_active, true, false)`. -/
  | unlockoutClear (g : GroupId)
  /-- `io_set_cmgroup`. -/
  | setAio (c : CtxId) (fd : Fd)
  /-- `lookup_ioctx` in `io_set_cmgroup`. -/
  | lookupAio (g : GroupId) (c : CtxId)
  /-- `cmgroup_begin_attach_aio` after `mutex_lock`. -/
  | beginAio (g : GroupId) (c : CtxId)
  /-- Test of `ioctx->cmgroup` and `ioctx->cmgroup = cmgroup`, under `ctx_lock`. -/
  | storeAio (g : GroupId) (c : CtxId)
  /-- `cmgroup_do_attach_aio`, under `ctx_lock`. -/
  | doAttachAio (g : GroupId) (c : CtxId)
  /-- `cmgroup_detach` after `mutex_lock`: which queue to look at. -/
  | detachQueue (g : GroupId)
  /-- One pass of the loop that empties the local queue in `cmgroup_detach`. -/
  | detachDrain (g : GroupId)
  /-- The stores of `cmgroup_detach`; `source` is a ghost, the event source that is destroyed. -/
  | detachStore (g : GroupId) (source : Source)
  /-- `kfree(ep)` at the end of `ep_free`. -/
  | epKfree (e : EpollId)
  /-- `kmem_cache_free` at the end of `free_ioctx`. -/
  | ctxKfree (c : CtxId)
  /-- `ioctx_add_table` in `ioctx_alloc`. -/
  | addTable (c : CtxId)
  /-- `ctx->cmgroup = NULL` in `ioctx_alloc`, after `ioctx_add_table`. -/
  | clearCtx (c : CtxId)
  /-- `put_user(ioctx->user_id, ctxp)` in `io_setup`. -/
  | setupDone (c : CtxId)
  /-- `kill_ioctx`. -/
  | kill (c : CtxId)
  deriving DecidableEq

/-- `tasklet_action` and `cmgroup_tasklet`. -/
inductive TaskletStep where
  /-- `tasklet_trylock`. -/
  | trylock (g : GroupId)
  /-- `test_and_clear_bit(TASKLET_STATE_SCHED)`. -/
  | clearSched (g : GroupId)
  /-- Label `again`. -/
  | again (g : GroupId) (pass : ℕ)
  /-- The tests of `action`, with the lock held. -/
  | act (g : GroupId) (pass : ℕ)
  /-- The `CMGROUP_ACTION_RESET_WAKEONE` branch. -/
  | reset (g : GroupId) (pass : ℕ)
  /-- Label `again_wakeall`. -/
  | wakeAll (g : GroupId) (pass : ℕ)
  /-- The test of `cmgroup_available` after `again_wakeall`. -/
  | avail (g : GroupId) (pass : ℕ)
  /-- `wake_up_locked` after `again_wakeall`, and the comparison of `n_waked` after it. -/
  | wake (g : GroupId) (pass : ℕ)
  /-- Label `out_tasklet`: clear `tasklet_active`. -/
  | clear (g : GroupId)
  /-- Label `out_recheck`: clear `tasklet_active`. -/
  | recheckClear (g : GroupId) (pass : ℕ)
  /-- The re-check of `available` after the lock was dropped. -/
  | recheck (g : GroupId) (pass : ℕ)
  /-- The attempt to set `tasklet_active` again. -/
  | reassert (g : GroupId) (pass : ℕ)
  /-- `tasklet_unlock`. -/
  | unlock (g : GroupId)
  deriving DecidableEq

/-- Why `cmgroup_wait` stopped waiting. -/
inductive WaitExit where
  /-- A read of `available` returned this value. -/
  | available (value : ℤ)
  /-- A signal is pending. -/
  | signal
  /-- The remaining time is this value. -/
  | expired (remaining : ℤ)
  deriving DecidableEq, Repr

/-- `io_getevents`, `cmgroup_wait` and `__cmgroup_wait`. `rem` is `*remaining`, or `none` for a
null pointer. -/
inductive WaitStep (ι : Type) where
  /-- `read_events` or `read_events_cm`; `ptr` is whether a timeout was passed. -/
  | read (t : ι) (c : CtxId) (ptr : Bool) (slack : ℤ)
  /-- The test of `ioctx->cmgroup` after reading events. -/
  | gate (t : ι) (c : CtxId) (ret : ℤ) (timeout rem : Option ℤ) (slack : ℤ)
  /-- `cmgroup_wait`. -/
  | enter (t : ι) (c : CtxId) (g : GroupId) (ret : ℤ) (timeout rem : Option ℤ) (slack : ℤ)
  /-- Head of the loop in `cmgroup_wait`: test for a signal. -/
  | loop (t : ι) (c : CtxId) (g : GroupId) (rem : Option ℤ) (slack : ℤ)
  /-- The fast check of `available` in `cmgroup_wait`. -/
  | fast (t : ι) (c : CtxId) (g : GroupId) (rem : Option ℤ) (slack : ℤ)
  /-- `__cmgroup_wait`. -/
  | begin (t : ι) (c : CtxId) (g : GroupId) (rem : Option ℤ) (slack : ℤ)
  /-- The check of `available` with the lock held. -/
  | check (t : ι) (c : CtxId) (g : GroupId) (rem : Option ℤ) (slack : ℤ)
  /-- `__add_wait_queue_tail_exclusive` and `set_current_state(TASK_INTERRUPTIBLE)`. -/
  | add (t : ι) (c : CtxId) (g : GroupId) (rem : Option ℤ) (slack : ℤ)
  /-- The test for a signal before sleeping. -/
  | signal (t : ι) (c : CtxId) (g : GroupId) (rem : Option ℤ) (slack : ℤ)
  /-- After `schedule()`. -/
  | woken (t : ι) (c : CtxId) (g : GroupId) (rem : Option ℤ) (slack : ℤ)
  /-- `finish_wait`. -/
  | finish (t : ι) (g : GroupId)
  /-- Return of `cmgroup_wait`. -/
  | done (t : ι) (g : GroupId) (slack : ℤ) (exit : WaitExit)
  deriving DecidableEq

/-- Program points of `ep_poll` and `ep_cmgroup_wait_available`. -/
inductive EpPc where
  /-- The `timeout == 0` branch, lock held. -/
  | zero
  /-- After the lock at `fetch_events`. -/
  | fetch
  /-- Label `fetch_events_locked_cmcheck`. -/
  | cmcheck
  /-- `ep_cmgroup_wait_available`: `__add_wait_queue_exclusive`. -/
  | waitAdd
  /-- `ep_cmgroup_wait_available`: test of `available`. -/
  | waitAvail
  /-- `ep_cmgroup_wait_available`: set state, test for a signal, request the action. -/
  | waitSet
  /-- `ep_cmgroup_wait_available`: `schedule_hrtimeout_range`. -/
  | waitSleep
  /-- `ep_cmgroup_wait_available`: switched in again. -/
  | waitWoken
  /-- `ep_cmgroup_wait_available`: lock retaken, request the neutral action. -/
  | waitBack (timedOut : Bool)
  /-- `ep_cmgroup_wait_available`: leave the queue and return. -/
  | waitDone (timedOut : Bool)
  /-- Label `fetch_events_locked`. -/
  | events
  /-- Head of the `for (;;)` loop. -/
  | loop
  /-- `schedule_hrtimeout_range` in the loop. -/
  | sleep
  /-- Switched in again in the loop. -/
  | woken
  /-- Lock retaken in the loop. -/
  | back
  /-- Attached while asleep: leave the queue for `fetch_events_locked_cmcheck`. -/
  | rejoin
  /-- `__remove_wait_queue` after the loop. -/
  | leave
  /-- The re-check against the concurrency limit after the loop. -/
  | slept
  /-- Label `check_events`. -/
  | check
  /-- After the unlock at `check_events`. -/
  | after (eavail : Bool)
  /-- `ep_send_events` has returned. -/
  | sent
  deriving DecidableEq, Repr

/-- Program points of `ep_poll` at which the caller holds `ep->lock`. -/
def EpPc.locked : EpPc → Bool
  | .zero | .fetch | .cmcheck | .waitAdd | .waitAvail | .waitSet | .waitBack _ | .waitDone _
  | .events | .loop | .back | .rejoin | .leave | .slept | .check => true
  | .waitSleep | .waitWoken | .sleep | .woken | .after _ | .sent => false

/-- Local variables of `ep_poll`. `gate` is a ghost: the value the last read of `available`
returned to the caller, if that read was made in the caller's current `ep->lock` section. -/
structure EpLocals where
  /-- The `timeout` argument. -/
  timeout : Timeout
  /-- `cmgroup`: last noted `ep->cmgroup`. -/
  cmgroup : Option GroupId := none
  /-- `timed_out`. -/
  timedOut : Bool := false
  /-- `slept`. -/
  slept : Bool := false
  /-- `res`. -/
  res : ℤ := 0
  /-- Ghost: last value read from `available` in this lock section. -/
  gate : Option ℤ := none
  deriving DecidableEq, Repr

/-- `ep_poll`, `ep_scan_ready_list`, `ep_wake_wq`, `ep_poll_callback`, `ep_insert`, `ep_modify`
and `ep_remove`. -/
inductive EpStep (ι : Type) where
  /-- `ep_poll` at a program point. -/
  | poll (t : ι) (e : EpollId) (pc : EpPc) (locals : EpLocals)
  /-- Use of a null cmgroup pointer: no step leads out of it. -/
  | oops
  /-- The first `ep->lock` section of `ep_scan_ready_list`. -/
  | scanBegin (e : EpollId)
  /-- The `sproc` callback. -/
  | scanProc (e : EpollId)
  /-- The second `ep->lock` section of `ep_scan_ready_list`. -/
  | scanEnd (e : EpollId)
  /-- `ep_wake_wq`: test of the queue and of `ep->cmgroup`. -/
  | wakeWq (e : EpollId)
  /-- `ep_wake_wq`: test of `available`. -/
  | wakeWqAvail (e : EpollId) (g : GroupId)
  /-- `ep_wake_wq`: `cmgroup_request_action(ep->cmgroup, CMGROUP_ACTION_RESET_WAKEONE)`. -/
  | wakeWqRequest (e : EpollId) (g : GroupId)
  /-- The `ep->lock` section of `ep_poll_callback`. -/
  | callback (e : EpollId)
  /-- The `ep->lock` section of `ep_insert` or `ep_modify`. -/
  | insert (e : EpollId)
  /-- The `ep->lock` section of `ep_remove`. -/
  | remove (e : EpollId)
  deriving DecidableEq

/-- A micro-step. -/
inductive Instr (ι : Type) where
  /-- Scheduler. -/
  | sched (step : SchedStep ι)
  /-- Association and accounting. -/
  | acct (step : AcctStep ι)
  /-- Object lifetime. -/
  | obj (step : ObjStep ι)
  /-- Locks and wake-ups. -/
  | lock (step : LockStep ι)
  /-- Binding. -/
  | bind (step : BindStep)
  /-- The tasklet. -/
  | tasklet (step : TaskletStep)
  /-- `io_getevents` and `cmgroup_wait`. -/
  | wait (step : WaitStep ι)
  /-- Epoll. -/
  | ep (step : EpStep ι)
  deriving DecidableEq

/-- Remaining code. -/
abbrev Code (ι : Type) := List (Instr ι)

/-- Resolution of what the code leaves open: scheduling, timers, allocation, and the outcome of
generic code that is not part of the model. -/
structure Choice where
  /-- Which of two outcomes. -/
  flag : Bool := false
  /-- An integer outcome. -/
  value : ℤ := 0
  /-- A second integer outcome. -/
  other : ℤ := 0
  /-- A third integer outcome. -/
  third : ℤ := 0
  deriving DecidableEq, Repr

variable {ι : Type}

/-- `cmgroup_lockout_tasklet`. -/
def lockoutTasklet (g : GroupId) : Code ι :=
  [.bind (.lockoutCas g), .lock (.lockVia g .lockout), .lock (.unlockVia g .lockout)]

/-- `cmgroup_detach`, called for the event source that is destroyed. -/
def cmgroupDetach (g : GroupId) (source : Source) : Code ι :=
  [Instr.lock (.mtxLock g), .bind (.detachQueue g)] ++ lockoutTasklet g ++
    [Instr.bind (.detachStore g source), .bind (.unlockoutClear g), .lock (.mtxUnlock g),
      .obj (.unref g false)]

/-- `ep_scan_ready_list`. -/
def epScanReadyList (e : EpollId) : Code ι :=
  [.lock (.epMtxLock e), .lock (.lock (.epoll e)), .ep (.scanBegin e),
    .lock (.unlock (.epoll e)), .ep (.scanProc e), .lock (.lock (.epoll e)),
    .ep (.scanEnd e), .lock (.unlock (.epoll e)), .lock (.epMtxUnlock e)]

/-- Sleep in an uninterruptible wait (a contended mutex, `msleep`) before going on. A worker
just goes on. -/
def napThen {κ : Type} (actor : Actor ι κ) (next : Instr ι) : Code ι :=
  match actor with
  | .task t => [.sched (.setState t .uninterruptible), .sched (.schedule t), next]
  | .cpu _ => [next]

end Cmgroups
