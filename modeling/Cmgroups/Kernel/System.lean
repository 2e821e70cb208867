import Cmgroups.Kernel.Epoll
import Cmgroups.Lib.Pool

/-!
# The system

Actors with no remaining code start operations: system calls and scheduling events of tasks,
interrupts, softirqs and work items of CPUs. An actor with remaining code executes its first
micro-step. Any interleaving of the actors is a run.
-/

namespace Cmgroups

open Function (update)

variable {ι κ : Type} [DecidableEq ι] [DecidableEq κ]

/-- Execution of a micro-step. -/
def exec (actor : Actor ι κ) (choice : Choice) (s : Shared ι κ) : Instr ι → Outcome ι κ
  | .sched step => execSched actor choice s step
  | .acct step => execAcct s step
  | .obj step => execObj actor choice s step
  | .lock step => execLock actor choice s step
  | .bind step => execBind actor choice s step
  | .tasklet step => execTasklet choice s step
  | .wait step => execWait choice s step
  | .ep step => execEp actor choice s step

/-- Operations of a task. -/
inductive TaskOp (ι : Type) where
  /-- `cmgroup_newgroup(nthreads, flags)`; `g` is the new object, `cpus` is
  `num_active_cpus()`. -/
  | newgroup (g : GroupId) (nthreads : ℤ) (flags cpus : ℕ)
  /-- Last close of the cmgroup file: `cmgroup_fop_release`. -/
  | closeFile (g : GroupId)
  /-- `cmgroup_associate(fd)`. -/
  | associate (fd : Fd)
  /-- `cmgroup_dissociate()`. -/
  | dissociate
  /-- `cmgroup_get_concurrency_value(fd)`. -/
  | getConcurrencyValue (fd : Fd)
  /-- `cmgroup_set_concurrency_value(fd, nthreads)`. -/
  | setConcurrencyValue (fd : Fd) (nthreads : ℤ) (cpus : ℕ)
  /-- `fork`: `dup_task_struct` and `wake_up_new_task` of the child `u`. -/
  | fork (u : ι)
  /-- `do_exit`. -/
  | exit
  /-- Sleep in some other wait. -/
  | block (interruptible : Bool)
  /-- Return to user mode: pending signals are delivered. -/
  | deliverSignal
  /-- `epoll_create`. -/
  | epollCreate (e : EpollId)
  /-- Last close of the epoll file: `ep_free`. -/
  | epollClose (e : EpollId)
  /-- `epoll_wait`. -/
  | epollWait (e : EpollId) (timeout : Timeout)
  /-- `epoll_ctl(EPOLL_CTL_SET_CMGROUP)`. -/
  | epollSetCmgroup (e : EpollId) (fd : Fd)
  /-- `epoll_ctl` adding or changing an item. -/
  | epollInsert (e : EpollId)
  /-- `epoll_ctl` removing an item, or a close of its file. -/
  | epollRemove (e : EpollId)
  /-- `f_op->poll` of the epoll file. -/
  | epollScan (e : EpollId)
  /-- `io_setup`. -/
  | ioSetup (c : CtxId)
  /-- `io_destroy`. -/
  | ioDestroy (c : CtxId)
  /-- `exit_aio`. -/
  | exitAio (c : CtxId)
  /-- `io_set_cmgroup`. -/
  | ioSetCmgroup (c : CtxId) (fd : Fd)
  /-- `io_getevents`. -/
  | ioGetevents (c : CtxId) (ptr : Bool) (slack : ℤ)

/-- Operations of a CPU outside process context. -/
inductive CpuOp (ι : Type) where
  /-- Wake a task for any reason: a timer, a completion, a mutex. -/
  | wake (p : ι)
  /-- Send a signal. -/
  | signal (p : ι)
  /-- `sched_ttwu_pending` for one task of the `wake_list`. -/
  | runWakeList (p : ι)
  /-- Requeue a queued task. -/
  | requeue (p : ι) (site : RequeueSite)
  /-- `tasklet_action` for the tasklet of a group. -/
  | softirq (g : GroupId)
  /-- `ep_poll_callback`. -/
  | callback (e : EpollId)
  /-- The work item `free_ioctx`. -/
  | freeIoctx (c : CtxId)
  /-- The work item `free_work`. -/
  | freeWork (g : GroupId)

/-- `nthreads` after the checks shared by `cmgroup_newgroup` and
`cmgroup_set_concurrency_value`. -/
def checkConcurrencyValue (nthreads : ℤ) (cpus : ℕ) : Option ℤ :=
  let count := if nthreads = 0 then (cpus : ℤ) else nthreads
  if count ≤ 0 ∨ cmgroupMaxConcurrencyValue < count then none else some count

/-- `cmgroup_alloc`. -/
def cmgroupAlloc (s : Shared ι κ) (g : GroupId) (nthreads : ℤ) : Shared ι κ :=
  { s with
    life := update s.life g .live
    kref := update s.kref g 1
    concurrencyValue := update s.concurrencyValue g nthreads
    available := update s.available g nthreads
    action := update s.action g .wakeAll
    lockPtr := update s.lockPtr g none
    wqPtr := update s.wqPtr g none
    owner := update s.owner (.own g) none
    queue := update s.queue (.own g) []
    taskletActive := update s.taskletActive g false
    sched := update s.sched g false
    run := update s.run g false
    nWaked := update s.nWaked g 0
    attachedEpoll := update s.attachedEpoll g none
    attachedAio := update s.attachedAio g none
    attachedMtx := update s.attachedMtx g none }

/-- `cmgroup_from_fd`, with the code to run on success. -/
def cmgroupFromFd (s : Shared ι κ) (fd : Fd) (success : GroupId → Code ι) :
    Shared ι κ × Code ι :=
  match fd with
  | .bad => (s, [.obj (.ret ebadf)])
  | .other => (s, [.obj (.ret einval)])
  | .cm g =>
    if s.files g = 0 then (s, [.obj (.ret ebadf)])
    else ({ s with kref := update s.kref g (s.kref g + 1) }, success g)

/-- A call on an epoll file keeps the file open. -/
def withEpoll (s : Shared ι κ) (e : EpollId) (code : Code ι) : Outcome ι κ :=
  if s.epStage e = .published then
    some ({ s with epUsers := update s.epUsers e (s.epUsers e + 1) }, code)
  else none

/-- Start of a task's operation. -/
def startTask (s : Shared ι κ) (t : ι) : TaskOp ι → Outcome ι κ
  | .newgroup g nthreads flags cpus =>
    -- only `CMGROUP_CLOEXEC` is a known flag
    if 1 < flags then some (s, [.obj (.ret einval)])
    else match checkConcurrencyValue nthreads cpus with
      | none => some (s, [.obj (.ret einval)])
      | some count =>
        if s.life g = .unborn then some (cmgroupAlloc s g count, [.obj (.newFd g)]) else none
  | .closeFile g =>
    if s.files g = 0 then none
    else some ({ s with files := update s.files g (s.files g - 1) }, [.obj (.unref g false)])
  | .associate fd =>
    some (cmgroupFromFd s fd fun g => [.acct (.associate t g false false), .obj (.ret 0)])
  | .dissociate => some (s, [.acct (.dissociate t false), .obj (.ret 0)])
  | .getConcurrencyValue fd =>
    some (cmgroupFromFd s fd fun g =>
      [.obj (.unref g false), .obj (.ret (s.concurrencyValue g))])
  | .setConcurrencyValue fd nthreads cpus =>
    match checkConcurrencyValue nthreads cpus with
    | none => some (s, [.obj (.ret einval)])
    | some count =>
      some (cmgroupFromFd s fd fun g =>
        [.lock (.mtxLock g), .lock (.lockVia g .mutex), .acct (.setcvStore g count),
          .lock (.unlockVia g .mutex), .lock (.mtxUnlock g), .obj (.unref g false),
          .obj (.ret 0)])
  | .fork u =>
    -- the child is a copy of its parent up to `cmgroup`; its `cmgroup_charged` is stale
    if s.taskLife u = .unborn then
      some ({ s with
        taskLife := update s.taskLife u .live
        cmgroup := update s.cmgroup u none
        charged := update s.charged u (s.charged t)
        state := update s.state u .running }, [.sched (.activate u 0)])
    else none
  | .exit =>
    some ({ s with taskLife := update s.taskLife t .freed },
      [.acct (.dissociate t false), .sched (.setState t .dead), .sched (.schedule t)])
  | .block interruptible =>
    some (s, [.sched (.setState t (if interruptible then .interruptible else .uninterruptible)),
      .sched (.schedule t), .sched (.setState t .running)])
  | .deliverSignal => some ({ s with sig := update s.sig t false }, [])
  | .epollCreate e =>
    if s.epStage e = .unborn then
      some ({ s with
        epStage := update s.epStage e .published
        epCmgroup := update s.epCmgroup e none }, [.obj (.ret 0)])
    else none
  | .epollClose e =>
    if s.epStage e = .published ∧ s.epUsers e = 0 then
      some ({ s with epStage := update s.epStage e .freeing },
        (match s.epCmgroup e with
          | none => []
          | some g => cmgroupDetach g (.epoll e)) ++ [.bind (.epKfree e)])
    else none
  | .epollWait e timeout =>
    withEpoll s e (match timeout with
      | .zero => [.lock (.lock (.epoll e)),
          .ep (.poll t e .zero { timeout := timeout, timedOut := true })]
      | _ => [.lock (.lock (.epoll e)), .ep (.poll t e .fetch { timeout := timeout })])
  | .epollSetCmgroup e fd =>
    withEpoll s e [.lock (.epMtxLock e), .bind (.attachEpoll e fd), .lock (.epMtxUnlock e),
      .lock (.epPut e)]
  | .epollInsert e =>
    withEpoll s e [.lock (.epMtxLock e), .lock (.lock (.epoll e)), .ep (.insert e),
      .lock (.unlock (.epoll e)), .lock (.epMtxUnlock e), .lock (.epPut e)]
  | .epollRemove e =>
    withEpoll s e [.lock (.epMtxLock e), .lock (.lock (.epoll e)), .ep (.remove e),
      .lock (.unlock (.epoll e)), .lock (.epMtxUnlock e), .lock (.epPut e)]
  | .epollScan e => withEpoll s e (epScanReadyList e ++ [.lock (.epPut e)])
  | .ioSetup c =>
    if s.ctxStage c = .unborn then
      some ({ s with
        ctxStage := update s.ctxStage c .building
        ctxCmgroup := update s.ctxCmgroup c none
        users := update s.users c 2 }, [.bind (.addTable c)])
    else none
  | .ioDestroy c =>
    if s.ctxStage c = .published then
      some ({ s with users := update s.users c (s.users c + 1) },
        [.bind (.kill c), .lock (.ctxPut c), .obj (.ret 0)])
    else some (s, [.obj (.ret einval)])
  | .exitAio c => some (s, [.bind (.kill c)])
  | .ioSetCmgroup c fd => some (s, [.bind (.setAio c fd)])
  | .ioGetevents c ptr slack =>
    if s.ctxStage c = .published then
      some ({ s with users := update s.users c (s.users c + 1) },
        [.wait (.read t c ptr slack)])
    else some (s, [.obj (.ret einval)])

/-- Start of a CPU's operation. A work item queued by a softirq runs only after that softirq
has ended on its CPU. -/
def startCpu (s : Shared ι κ) (todo : Actor ι κ → Code ι) (actor : Actor ι κ) :
    CpuOp ι → Outcome ι κ
  | .wake p => some (s, [.sched (.ttwu p)])
  | .signal p =>
    some ({ s with sig := update s.sig p true },
      if s.state p = .interruptible then [.sched (.ttwu p)] else [])
  | .runWakeList p =>
    if s.wakeList p = true then
      some ({ s with wakeList := update s.wakeList p false },
        [.sched (.activate p (enqueueWakeup ||| enqueueWaking))])
    else none
  | .requeue p site =>
    if s.onRq p = true ∧ s.rqLock p = none then
      some ({ s with rqLock := update s.rqLock p (some actor) },
        cmgroupTaskDequeued s p site.dequeueFlags ++ [.sched (.requeueIn p site)])
    else none
  | .softirq g =>
    if s.linked g = true then
      some ({ s with linked := update s.linked g false }, [.tasklet (.trylock g)])
    else none
  | .callback e =>
    withEpoll s e [.lock (.lock (.epoll e)), .ep (.callback e), .lock (.unlock (.epoll e)),
      .lock (.epPut e)]
  | .freeIoctx c =>
    if s.ctxStage c = .killed ∧ s.users c = 0 then
      some ({ s with ctxStage := update s.ctxStage c .freeing },
        (match s.ctxCmgroup c with
          | none => []
          | some g => cmgroupDetach g (.aio c)) ++ [.bind (.ctxKfree c)])
    else none
  | .freeWork g =>
    match s.freeWork g with
    | none => none
    | some (.task _) => some ({ s with
        freeWork := update s.freeWork g none
        life := update s.life g .freed }, [])
    | some (.cpu c) =>
      if todo (.cpu c) = [] then
        some ({ s with
          freeWork := update s.freeWork g none
          life := update s.life g .freed }, [])
      else none

/-- A global state: the shared state and the remaining code of every actor. -/
abbrev Sys (ι κ : Type) := Pool.Config (Shared ι κ) (Actor ι κ) (Instr ι)

/-- Labels of global steps. -/
inductive Label (ι κ : Type) where
  /-- The actor executes its next micro-step. -/
  | run (actor : Actor ι κ) (choice : Choice)
  /-- A task starts an operation. -/
  | task (t : ι) (op : TaskOp ι)
  /-- A CPU starts an operation. -/
  | cpu (c : κ) (op : CpuOp ι)

/-- A task starts operations only while it exists, is on a run queue and is running. -/
def canStart (s : Shared ι κ) (t : ι) : Bool :=
  s.taskLife t = .live && s.onRq t && s.state t = .running

/-- The global state after the first micro-step of an actor was replaced by `outcome`. -/
def proceed (y : Sys ι κ) (actor : Actor ι κ) (rest : Code ι) (outcome : Outcome ι κ) :
    Option (Sys ι κ) :=
  outcome.map fun (s, code) => ⟨s, update y.todo actor (code ++ rest)⟩

/-- One global step. -/
def next : Label ι κ → Sys ι κ → Option (Sys ι κ)
  | .run actor choice, y =>
    match y.todo actor with
    | [] => none
    | step :: rest => proceed y actor rest (exec actor choice y.shared step)
  | .task t op, y =>
    if y.todo (.task t) = [] ∧ canStart y.shared t = true then
      proceed y (.task t) [] (startTask y.shared t op)
    else none
  | .cpu c op, y =>
    if y.todo (.cpu c) = [] then
      proceed y (.cpu c) [] (startCpu y.shared y.todo (.cpu c) op)
    else none

/-- Initially no object exists, nothing is queued or locked, some tasks run and belong to no
group. -/
structure Initial (y : Sys ι κ) : Prop where
  /-- No actor is in the middle of an operation. -/
  idle : ∀ actor, y.todo actor = []
  /-- No cmgroup exists. -/
  life : ∀ g, y.shared.life g = .unborn
  /-- No cmgroup is referenced. -/
  kref : ∀ g, y.shared.kref g = 0
  /-- No cmgroup file exists. -/
  files : ∀ g, y.shared.files g = 0
  /-- No cmgroup has charged tasks. -/
  available : ∀ g, y.shared.available g = y.shared.concurrencyValue g
  /-- No cmgroup has a concurrency value. -/
  concurrencyValue : ∀ g, y.shared.concurrencyValue g = 0
  /-- Actions are at rest. -/
  action : ∀ g, y.shared.action g = .wakeAll
  /-- Lock pointers are local. -/
  lockPtr : ∀ g, y.shared.lockPtr g = none
  /-- Queue pointers are local. -/
  wqPtr : ∀ g, y.shared.wqPtr g = none
  /-- No tasklet is active. -/
  taskletActive : ∀ g, y.shared.taskletActive g = false
  /-- No tasklet is scheduled. -/
  sched : ∀ g, y.shared.sched g = false
  /-- No tasklet is linked. -/
  linked : ∀ g, y.shared.linked g = false
  /-- No tasklet runs. -/
  run : ∀ g, y.shared.run g = false
  /-- Nothing is attached. -/
  attachedEpoll : ∀ g, y.shared.attachedEpoll g = none
  /-- Nothing is attached. -/
  attachedAio : ∀ g, y.shared.attachedAio g = none
  /-- Mutexes are free. -/
  attachedMtx : ∀ g, y.shared.attachedMtx g = none
  /-- No work is queued. -/
  freeWork : ∀ g, y.shared.freeWork g = none
  /-- Locks are free. -/
  owner : ∀ lock, y.shared.owner lock = none
  /-- Queues are empty. -/
  queue : ∀ lock, y.shared.queue lock = []
  /-- No eventpoll exists. -/
  epStage : ∀ e, y.shared.epStage e = .unborn
  /-- No eventpoll is bound. -/
  epCmgroup : ∀ e, y.shared.epCmgroup e = none
  /-- Ready lists are empty. -/
  rdllist : ∀ e, y.shared.rdllist e = 0
  /-- No scan is in progress. -/
  ovflist : ∀ e, y.shared.ovflist e = none
  /-- Mutexes are free. -/
  epMtx : ∀ e, y.shared.epMtx e = none
  /-- No call uses an eventpoll. -/
  epUsers : ∀ e, y.shared.epUsers e = 0
  /-- No AIO context exists. -/
  ctxStage : ∀ c, y.shared.ctxStage c = .unborn
  /-- No AIO context is bound. -/
  ctxCmgroup : ∀ c, y.shared.ctxCmgroup c = none
  /-- No AIO context is used. -/
  users : ∀ c, y.shared.users c = 0
  /-- No task belongs to a group. -/
  cmgroup : ∀ t, y.shared.cmgroup t = none
  /-- Tasks exist and are on a run queue, or are still to be forked. -/
  tasks : ∀ t, y.shared.taskLife t = .live ∧ y.shared.onRq t = true ∨
    y.shared.taskLife t = .unborn ∧ y.shared.onRq t = false
  /-- No task sleeps. -/
  state : ∀ t, y.shared.state t = .running
  /-- Run-queue locks are free. -/
  rqLock : ∀ t, y.shared.rqLock t = none
  /-- Wake lists are empty. -/
  wakeList : ∀ t, y.shared.wakeList t = false

/-- A machine at boot, on which the tasks that `forked` selects exist. -/
def boot (forked : ι → Bool) : Sys ι κ where
  todo := fun _ => []
  shared :=
    { life := fun _ => .unborn
      kref := fun _ => 0
      files := fun _ => 0
      concurrencyValue := fun _ => 0
      available := fun _ => 0
      action := fun _ => .wakeAll
      lockPtr := fun _ => none
      wqPtr := fun _ => none
      taskletActive := fun _ => false
      sched := fun _ => false
      linked := fun _ => false
      run := fun _ => false
      nWaked := fun _ => 0
      attachedEpoll := fun _ => none
      attachedAio := fun _ => none
      attachedMtx := fun _ => none
      freeWork := fun _ => none
      owner := fun _ => none
      queue := fun _ => []
      epStage := fun _ => .unborn
      epCmgroup := fun _ => none
      rdllist := fun _ => 0
      ovflist := fun _ => none
      txlist := fun _ => 0
      epMtx := fun _ => none
      epUsers := fun _ => 0
      ctxStage := fun _ => .unborn
      ctxCmgroup := fun _ => none
      users := fun _ => 0
      taskLife := fun t => if forked t then .live else .unborn
      cmgroup := fun _ => none
      charged := fun _ => false
      onRq := forked
      state := fun _ => .running
      sig := fun _ => false
      rqLock := fun _ => none
      wakeList := fun _ => false
      ret := fun _ => 0 }

omit [DecidableEq ι] [DecidableEq κ] in
/-- Runs can start at boot. -/
theorem boot_initial (forked : ι → Bool) : Initial (boot forked : Sys ι κ) := by
  constructor
  case tasks =>
    intro t
    cases chosen : forked t <;> simp [boot, chosen]
  all_goals exact fun _ => rfl

/-- Global states of runs. -/
abbrev Reachable : Sys ι κ → Prop := Transition.Reach Initial next

end Cmgroups
