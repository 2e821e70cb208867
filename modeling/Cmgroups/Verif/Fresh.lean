import Cmgroups.Verif.Frames

/-!
# Objects nobody knows

A micro-step leaves the fields of every cmgroup it does not name unchanged. Hence a cmgroup
that is not allocated yet, or whose file does not exist yet, keeps the fields it was given by
`cmgroup_alloc`: no code names it but the call that creates it, and no object refers to it.
-/

set_option linter.unusedSectionVars false

namespace Cmgroups

open Function (update)
open Pool

variable {ι κ : Type} [DecidableEq ι] [DecidableEq κ]

/-- The micro-step names the cmgroup or its own queue. -/
def Instr.names (g : GroupId) : Instr ι → Prop
  | .acct (.associate _ h _ _) | .acct (.storeCmgroup _ h) | .acct (.clearCharged _ h _)
  | .acct (.charge _ h) | .acct (.decAvailable _ h) | .acct (.uncharge _ h)
  | .acct (.incAvailable _ h) | .acct (.clearCmgroup _ h) | .acct (.setcvStore h _)
  | .acct (.setcvAdd h _) | .obj (.ref h _) | .obj (.unref h _) | .obj (.fire h _)
  | .obj (.taskletSchedule h) | .obj (.newFd h) | .obj (.newFile h) | .obj (.free h)
  | .lock (.lockVia h _) | .lock (.unlockVia h _) | .lock (.mtxLock h) | .lock (.mtxUnlock h)
  | .bind (.beginEpoll h _) | .bind (.lockoutCas h) | .bind (.storeEpoll h _)
  | .bind (.unlockoutClear h) | .bind (.lookupAio h _) | .bind (.beginAio h _)
  | .bind (.storeAio h _) | .bind (.doAttachAio h _) | .bind (.detachQueue h)
  | .bind (.detachDrain h) | .bind (.detachStore h _)
  | .tasklet (.trylock h) | .tasklet (.clearSched h) | .tasklet (.again h _)
  | .tasklet (.act h _) | .tasklet (.reset h _) | .tasklet (.wakeAll h _)
  | .tasklet (.avail h _) | .tasklet (.wake h _) | .tasklet (.clear h)
  | .tasklet (.recheckClear h _) | .tasklet (.recheck h _) | .tasklet (.reassert h _)
  | .tasklet (.unlock h)
  | .wait (.enter _ _ h _ _ _ _) | .wait (.loop _ _ h _ _) | .wait (.fast _ _ h _ _)
  | .wait (.begin _ _ h _ _) | .wait (.check _ _ h _ _) | .wait (.add _ _ h _ _)
  | .wait (.signal _ _ h _ _) | .wait (.woken _ _ h _ _) | .wait (.finish _ h)
  | .wait (.done _ h _ _)
  | .ep (.wakeWqAvail _ h) | .ep (.wakeWqRequest _ h) => g = h
  | .lock (.spinVia h spin _) => g = h ∨ .own g = spin
  | .lock (.lock spin) | .lock (.unlock spin) | .lock (.wakeOne spin) | .lock (.wakeAll spin)
  | .lock (.unlink _ spin) => .own g = spin
  | .ep (.poll _ _ _ locals) => locals.cmgroup = some g
  | _ => False

/-- The micro-step is one of `cmgroup_newgroup`, before the group has a file. -/
def Instr.creates (g : GroupId) : Instr ι → Prop
  | .obj (.newFd h) | .obj (.newFile h) | .obj (.free h) => g = h
  | _ => False

/-- The fields of a cmgroup, with its own queue and lock, are the same. -/
structure SameGroup (g : GroupId) (s s' : Shared ι κ) : Prop where
  life : s'.life g = s.life g
  kref : s'.kref g = s.kref g
  files : s'.files g = s.files g
  concurrencyValue : s'.concurrencyValue g = s.concurrencyValue g
  available : s'.available g = s.available g
  action : s'.action g = s.action g
  lockPtr : s'.lockPtr g = s.lockPtr g
  wqPtr : s'.wqPtr g = s.wqPtr g
  taskletActive : s'.taskletActive g = s.taskletActive g
  sched : s'.sched g = s.sched g
  linked : s'.linked g = s.linked g
  run : s'.run g = s.run g
  nWaked : s'.nWaked g = s.nWaked g
  attachedEpoll : s'.attachedEpoll g = s.attachedEpoll g
  attachedAio : s'.attachedAio g = s.attachedAio g
  attachedMtx : s'.attachedMtx g = s.attachedMtx g
  freeWork : s'.freeWork g = s.freeWork g
  owner : s'.owner (.own g) = s.owner (.own g)
  queue : s'.queue (.own g) = s.queue (.own g)

section Same

variable {actor : Actor ι κ} {choice : Choice} {s s' : Shared ι κ} {code : Code ι} {g : GroupId}

theorem lockOf_ne_own (s : Shared ι κ) {h : GroupId} (other : g ≠ h) : .own g ≠ s.lockOf h := by
  unfold Shared.lockOf
  split <;> simp [other]

theorem wqOf_ne_own (s : Shared ι κ) {h : GroupId} (other : g ≠ h) : .own g ≠ s.wqOf h := by
  unfold Shared.wqOf
  split <;> simp [other]

/-- Waking a queue leaves the groups whose own queue it is not unchanged. -/
theorem wakeUpLocked_same {lock : LockId} {remote : Bool} (other : .own g ≠ lock)
    (done : wakeUpLocked s lock remote = some (s', code)) : SameGroup g s s' := by
  have kept : s'.queue (.own g) = s.queue (.own g) ∧ s'.nWaked g = s.nWaked g := by
    unfold wakeUpLocked at done
    split at done
    · simp only [Option.some.injEq, Prod.mk.injEq] at done
      rw [← done.1]
      exact ⟨rfl, rfl⟩
    · simp only [Option.map_eq_some_iff, Prod.exists, Prod.mk.injEq] at done
      obtain ⟨woken, code', tried, rfl, -⟩ := done
      rw [tryToWakeUp_frame tried]
      cases lock with
      | own h =>
        have different : g ≠ h := fun same => other (by rw [same])
        exact ⟨Function.update_of_ne other _ _, Function.update_of_ne different _ _⟩
      | epoll e => exact ⟨rfl, rfl⟩
  rw [wakeUpLocked_frame done]
  constructor
  case nWaked => exact kept.2
  case queue => exact kept.1
  all_goals rfl

/-- A micro-step that does not name a cmgroup, and is not executed on an epoll bound to it,
leaves it unchanged while it has no file. -/
theorem exec_same {step : Instr ι} (silent : ¬ step.names g) (closed : s.files g = 0)
    (unbound : ∀ t e pc locals, step = .ep (.poll t e pc locals) → s.epCmgroup e ≠ some g)
    (done : exec actor choice s step = some (s', code)) : SameGroup g s s' := by
  cases step with
  | sched step =>
    rw [execSched_frame done]
    constructor <;> rfl
  | acct step =>
    have kept : s'.available g = s.available g ∧
        s'.concurrencyValue g = s.concurrencyValue g := by
      cases step <;> simp only [exec, execAcct] at done
      all_goals repeat' split at done
      all_goals simp only [Option.some.injEq, Prod.mk.injEq] at done
      all_goals obtain ⟨rfl, -⟩ := done
      all_goals dsimp only [Instr.names] at silent
      all_goals first
        | exact ⟨rfl, rfl⟩
        | exact ⟨Function.update_of_ne silent _ _, rfl⟩
        | exact ⟨rfl, Function.update_of_ne silent _ _⟩
    rw [execAcct_frame done]
    constructor
    case available => exact kept.1
    case concurrencyValue => exact kept.2
    all_goals rfl
  | obj step =>
    have kept : s'.life g = s.life g ∧ s'.kref g = s.kref g ∧ s'.files g = s.files g ∧
        s'.taskletActive g = s.taskletActive g ∧ s'.sched g = s.sched g ∧
        s'.linked g = s.linked g ∧ s'.freeWork g = s.freeWork g := by
      cases step <;> simp only [exec, execObj] at done
      all_goals repeat' split at done
      all_goals simp only [Option.some.injEq, Prod.mk.injEq] at done
      all_goals obtain ⟨rfl, -⟩ := done
      all_goals dsimp only [Instr.names] at silent
      all_goals first
        | exact ⟨rfl, rfl, rfl, rfl, rfl, rfl, rfl⟩
        | (refine ⟨?_, ?_, ?_, ?_, ?_, ?_, ?_⟩ <;>
            first | rfl | exact Function.update_of_ne silent _ _)
    obtain ⟨life, kref, files, taskletActive, sched, linked, freeWork⟩ := kept
    rw [execObj_frame done]
    constructor
    all_goals first | rfl | assumption
  | lock step =>
    have frame := execLock_frame done
    cases step with
    | wakeOne lock => exact wakeUpLocked_same silent done
    | wakeAll lock =>
      simp only [exec, execLock] at done
      split at done
      · simp only [Option.map_eq_some_iff, Prod.exists, Prod.mk.injEq] at done
        obtain ⟨woken, code', tried, rfl, -⟩ := done
        exact wakeUpLocked_same silent tried
      · simp only [Option.some.injEq, Prod.mk.injEq] at done
        obtain ⟨rfl, -⟩ := done
        constructor <;> rfl
    | unlockVia h via =>
      simp only [exec, execLock, Option.some.injEq, Prod.mk.injEq] at done
      obtain ⟨rfl, -⟩ := done
      constructor
      case owner => exact Function.update_of_ne (lockOf_ne_own s silent) _ _
      all_goals rfl
    | spinVia h lock via =>
      simp only [exec, execLock] at done
      split at done
      all_goals simp only [Option.some.injEq, Prod.mk.injEq, reduceCtorEq] at done
      obtain ⟨rfl, -⟩ := done
      constructor
      case owner => exact Function.update_of_ne (fun same => silent (.inr same)) _ _
      all_goals rfl
    | _ =>
      have kept : s'.attachedMtx g = s.attachedMtx g ∧
          s'.owner (.own g) = s.owner (.own g) ∧ s'.queue (.own g) = s.queue (.own g) ∧
          s'.nWaked g = s.nWaked g := by
        simp only [exec, execLock] at done
        repeat' split at done
        all_goals simp only [Option.some.injEq, Prod.mk.injEq, reduceCtorEq] at done
        all_goals obtain ⟨rfl, -⟩ := done
        all_goals dsimp only [Instr.names] at silent
        all_goals first
          | exact ⟨rfl, rfl, rfl, rfl⟩
          | exact ⟨Function.update_of_ne silent _ _, rfl, rfl, rfl⟩
          | exact ⟨rfl, Function.update_of_ne silent _ _, rfl, rfl⟩
          | exact ⟨rfl, rfl, Function.update_of_ne silent _ _, rfl⟩
      obtain ⟨attachedMtx, owner, queue, nWaked⟩ := kept
      rw [frame]
      constructor
      all_goals first | rfl | assumption
  | bind step =>
    have kept : s'.kref g = s.kref g ∧ s'.action g = s.action g ∧
        s'.lockPtr g = s.lockPtr g ∧ s'.wqPtr g = s.wqPtr g ∧
        s'.taskletActive g = s.taskletActive g ∧ s'.attachedEpoll g = s.attachedEpoll g ∧
        s'.attachedAio g = s.attachedAio g := by
      cases step <;> simp only [exec, execBind] at done
      all_goals repeat' split at done
      all_goals simp only [Option.some.injEq, Prod.mk.injEq] at done
      all_goals obtain ⟨rfl, -⟩ := done
      all_goals dsimp only [Instr.names] at silent
      all_goals first
        | exact ⟨rfl, rfl, rfl, rfl, rfl, rfl, rfl⟩
        | (refine ⟨?_, ?_, ?_, ?_, ?_, ?_, ?_⟩ <;>
            first
            | rfl
            | exact Function.update_of_ne silent _ _
            | (refine Function.update_of_ne ?_ _ _; rintro rfl; contradiction))
    obtain ⟨kref, action, lockPtr, wqPtr, taskletActive, attachedEpoll, attachedAio⟩ := kept
    rw [execBind_frame done]
    constructor
    all_goals first | rfl | assumption
  | tasklet step =>
    have frame := execTasklet_frame done
    cases step with
    | wake h pass =>
      simp only [exec, execTasklet, Option.map_eq_some_iff, Prod.exists, Prod.mk.injEq] at done
      obtain ⟨woken, code', tried, rfl, -⟩ := done
      exact wakeUpLocked_same (wqOf_ne_own s silent) tried
    | _ =>
      have kept : s'.action g = s.action g ∧ s'.taskletActive g = s.taskletActive g ∧
          s'.sched g = s.sched g ∧ s'.linked g = s.linked g ∧ s'.run g = s.run g ∧
          s'.nWaked g = s.nWaked g ∧ s'.queue (.own g) = s.queue (.own g) := by
        simp only [exec, execTasklet] at done
        repeat' split at done
        all_goals simp only [Option.some.injEq, Prod.mk.injEq, reduceCtorEq] at done
        all_goals obtain ⟨rfl, -⟩ := done
        all_goals dsimp only [Instr.names] at silent
        all_goals first
          | exact ⟨rfl, rfl, rfl, rfl, rfl, rfl, rfl⟩
          | (refine ⟨?_, ?_, ?_, ?_, ?_, ?_, ?_⟩ <;>
              first | rfl | exact Function.update_of_ne silent _ _)
      obtain ⟨action, taskletActive, sched, linked, run, nWaked, queue⟩ := kept
      rw [frame]
      constructor
      all_goals first | rfl | assumption
  | wait step =>
    have queue : s'.queue (.own g) = s.queue (.own g) := by
      cases step <;> simp only [exec, execWait] at done
      all_goals repeat' split at done
      all_goals simp only [Option.some.injEq, Prod.mk.injEq] at done
      all_goals obtain ⟨rfl, -⟩ := done
      all_goals dsimp only [Instr.names] at silent
      all_goals first
        | rfl
        | exact Function.update_of_ne (wqOf_ne_own s silent) _ _
    rw [execWait_frame done]
    constructor
    case queue => exact queue
    all_goals rfl
  | ep step =>
    have kept : s'.action g = s.action g ∧ s'.queue (.own g) = s.queue (.own g) := by
      cases step with
      | poll t e pc locals =>
        have other := unbound t e pc locals rfl
        cases pc <;> simp only [exec, execEp, execPoll] at done
        all_goals repeat' split at done
        all_goals simp only [Option.some.injEq, Prod.mk.injEq] at done
        all_goals obtain ⟨rfl, -⟩ := done
        all_goals first
          | exact ⟨rfl, rfl⟩
          | (refine ⟨Function.update_of_ne ?_ _ _, rfl⟩; rintro rfl; exact other ‹_›)
      | _ =>
        simp only [exec, execEp] at done
        repeat' split at done
        all_goals simp only [Option.some.injEq, Prod.mk.injEq, reduceCtorEq] at done
        all_goals obtain ⟨rfl, -⟩ := done
        all_goals dsimp only [Instr.names] at silent
        all_goals first
          | exact ⟨rfl, rfl⟩
          | exact ⟨Function.update_of_ne silent _ _, rfl⟩
    rw [execEp_frame done]
    constructor
    case action => exact kept.1
    case queue => exact kept.2
    all_goals rfl

end Same

/-- No object refers to the cmgroup, and its fields are those of a new object. -/
structure Unknown (s : Shared ι κ) (g : GroupId) : Prop where
  /-- It has no file. -/
  files : s.files g = 0
  /-- No task belongs to it. -/
  cmgroup : ∀ t, s.cmgroup t ≠ some g
  /-- No epoll is bound to it. -/
  epCmgroup : ∀ e, s.epCmgroup e ≠ some g
  /-- No AIO context is bound to it. -/
  ctxCmgroup : ∀ c, s.ctxCmgroup c ≠ some g
  /-- Its action is at rest. -/
  action : s.action g = .wakeAll
  /-- Its lock is local. -/
  lockPtr : s.lockPtr g = none
  /-- Its queue is local. -/
  wqPtr : s.wqPtr g = none
  /-- Its tasklet is not active. -/
  taskletActive : s.taskletActive g = false
  /-- Its tasklet is not scheduled. -/
  sched : s.sched g = false
  /-- Its tasklet is not linked. -/
  linked : s.linked g = false
  /-- Its tasklet does not run. -/
  run : s.run g = false
  /-- It is not attached. -/
  attachedEpoll : s.attachedEpoll g = none
  /-- It is not attached. -/
  attachedAio : s.attachedAio g = none
  /-- Its mutex is free. -/
  attachedMtx : s.attachedMtx g = none
  /-- No work is queued. -/
  freeWork : s.freeWork g = none
  /-- Its lock is free. -/
  owner : s.owner (.own g) = none
  /-- Its queue is empty. -/
  queue : s.queue (.own g) = []

section Silent

variable {actor : Actor ι κ} {choice : Choice} {s s' : Shared ι κ} {step : Instr ι}
  {code : Code ι} {g : GroupId}

/-- Code that does not name an unknown cmgroup does not come to name it. -/
theorem Expands.silent (unknown : Unknown s g) (silent : ¬ step.names g)
    (flow : Expands s actor step code) : ∀ later ∈ code, ¬ later.names g := by
  obtain ⟨files, cmgroup, epCmgroup, ctxCmgroup, -⟩ := unknown
  induction flow <;>
    simp only [List.mem_cons, List.not_mem_nil, or_false, forall_eq_or_imp, forall_eq,
      IsEmpty.forall_iff, implies_true] <;>
    dsimp only [Instr.names] at silent ⊢
  all_goals first
    | exact not_false
    | exact silent
    | (simp only [silent, not_false_eq_true, and_self]; done)
    | (simp only [silent, lockOf_ne_own s silent, wqOf_ne_own s silent, not_false_eq_true, and_self,
        or_self]; done)
    | grind

/-- Operations do not name an unknown cmgroup, but for its creation. -/
theorem Starts.silent (unknown : Unknown s g) (flow : Starts s actor code) :
    ∀ later ∈ code, later.names g → later.creates g ∧ s.life g = .unborn := by
  obtain ⟨files, cmgroup, epCmgroup, ctxCmgroup, -, -, -, -, -, linked, -⟩ := unknown
  induction flow <;>
    simp only [List.mem_cons, List.not_mem_nil, or_false, forall_eq_or_imp, forall_eq,
      IsEmpty.forall_iff, implies_true] <;>
    dsimp only [Instr.names, Instr.creates]
  all_goals first
    | exact False.elim
    | (simp only [false_implies, and_self]; done)
    | grind

/-- A cmgroup whose fields are the same is still unknown while nothing comes to refer to it. -/
theorem Unknown.same (unknown : Unknown s g) (same : SameGroup g s s')
    (cmgroup : ∀ t, s'.cmgroup t ≠ some g) (epCmgroup : ∀ e, s'.epCmgroup e ≠ some g)
    (ctxCmgroup : ∀ c, s'.ctxCmgroup c ≠ some g) : Unknown s' g where
  files := same.files.trans unknown.files
  cmgroup := cmgroup
  epCmgroup := epCmgroup
  ctxCmgroup := ctxCmgroup
  action := same.action.trans unknown.action
  lockPtr := same.lockPtr.trans unknown.lockPtr
  wqPtr := same.wqPtr.trans unknown.wqPtr
  taskletActive := same.taskletActive.trans unknown.taskletActive
  sched := same.sched.trans unknown.sched
  linked := same.linked.trans unknown.linked
  run := same.run.trans unknown.run
  attachedEpoll := same.attachedEpoll.trans unknown.attachedEpoll
  attachedAio := same.attachedAio.trans unknown.attachedAio
  attachedMtx := same.attachedMtx.trans unknown.attachedMtx
  freeWork := same.freeWork.trans unknown.freeWork
  owner := same.owner.trans unknown.owner
  queue := same.queue.trans unknown.queue

/-- A task comes to belong to a cmgroup only by code that names the cmgroup. -/
theorem exec_cmgroup (silent : ¬ step.names g) (before : ∀ t, s.cmgroup t ≠ some g)
    (done : exec actor choice s step = some (s', code)) (t : ι) : s'.cmgroup t ≠ some g := by
  cases step with
  | acct step =>
    cases step <;> simp only [exec, execAcct] at done
    all_goals repeat' split at done
    all_goals simp only [Option.some.injEq, Prod.mk.injEq] at done
    all_goals obtain ⟨rfl, -⟩ := done
    case storeCmgroup u h =>
      dsimp only [Instr.names] at silent
      dsimp only
      rw [Function.update_apply]
      split_ifs
      · simpa [eq_comm] using silent
      · exact before t
    case clearCmgroup u h =>
      dsimp only
      rw [Function.update_apply]
      split_ifs
      · simp
      · exact before t
    all_goals exact before t
  | sched step => rw [execSched_frame done]; exact before t
  | obj step => rw [execObj_frame done]; exact before t
  | lock step => rw [execLock_frame done]; exact before t
  | bind step => rw [execBind_frame done]; exact before t
  | tasklet step => rw [execTasklet_frame done]; exact before t
  | wait step => rw [execWait_frame done]; exact before t
  | ep step => rw [execEp_frame done]; exact before t

/-- An event source comes to be bound to a cmgroup only by code that names the cmgroup. -/
theorem exec_bound (silent : ¬ step.names g)
    (before : (∀ e, s.epCmgroup e ≠ some g) ∧ ∀ c, s.ctxCmgroup c ≠ some g)
    (done : exec actor choice s step = some (s', code)) :
    (∀ e, s'.epCmgroup e ≠ some g) ∧ ∀ c, s'.ctxCmgroup c ≠ some g := by
  cases step with
  | bind step =>
    cases step <;> simp only [exec, execBind] at done
    all_goals repeat' split at done
    all_goals simp only [Option.some.injEq, Prod.mk.injEq] at done
    all_goals obtain ⟨rfl, -⟩ := done
    all_goals dsimp only [Instr.names] at silent
    all_goals first
      | exact before
      | skip
    all_goals simp only [Function.update_apply]
    all_goals refine ⟨fun e => ?_, fun c => ?_⟩
    all_goals first
      | exact before.1 e
      | exact before.2 c
      | (split_ifs <;> grind)
  | sched step => rw [execSched_frame done]; exact before
  | acct step => rw [execAcct_frame done]; exact before
  | obj step => rw [execObj_frame done]; exact before
  | lock step => rw [execLock_frame done]; exact before
  | tasklet step => rw [execTasklet_frame done]; exact before
  | wait step => rw [execWait_frame done]; exact before
  | ep step => rw [execEp_frame done]; exact before

/-- An unknown cmgroup stays unknown under code that does not name it. -/
theorem exec_unknown (unknown : Unknown s g) (silent : ¬ step.names g)
    (done : exec actor choice s step = some (s', code)) : Unknown s' g :=
  have bound := exec_bound silent ⟨unknown.epCmgroup, unknown.ctxCmgroup⟩ done
  unknown.same (exec_same silent unknown.files (fun _ e _ _ _ => unknown.epCmgroup e) done)
    (exec_cmgroup silent unknown.cmgroup done) bound.1 bound.2

/-- An unknown cmgroup stays unknown when a task starts an operation. -/
theorem startTask_unknown {t : ι} {op : TaskOp ι} (unknown : Unknown s g)
    (done : startTask s t op = some (s', code)) : Unknown s' g := by
  have files := unknown.files
  cases op <;> simp only [startTask, withEpoll, cmgroupFromFd] at done
  all_goals repeat' split at done
  all_goals simp only [Option.some.injEq, Prod.mk.injEq, reduceCtorEq] at done
  all_goals obtain ⟨rfl, -⟩ := done
  all_goals first
    | exact { unknown with }
    | skip
  case h_2.isTrue h _ _ _ _ _ _ _ _ =>
    by_cases same : g = h
    · subst same
      constructor <;> dsimp only [cmgroupAlloc] <;> first
        | exact Function.update_self _ _ _
        | exact unknown.files
        | exact unknown.cmgroup
        | exact unknown.epCmgroup
        | exact unknown.ctxCmgroup
        | exact unknown.linked
        | exact unknown.freeWork
    · refine unknown.same ?_ unknown.cmgroup unknown.epCmgroup unknown.ctxCmgroup
      constructor <;> dsimp only [cmgroupAlloc] <;> first
        | rfl
        | exact Function.update_of_ne same _ _
        | exact Function.update_of_ne (by simpa using same) _ _
  case closeFile h opened =>
    have other : g ≠ h := by
      rintro rfl
      exact opened files
    exact { unknown with files := by rw [← files]; exact Function.update_of_ne other _ _ }
  case fork u _ =>
    refine { unknown with cmgroup := fun t => ?_ }
    dsimp only
    rw [Function.update_apply]
    split_ifs
    · simp
    · exact unknown.cmgroup t
  case epollCreate e _ =>
    refine { unknown with epCmgroup := fun f => ?_ }
    dsimp only
    rw [Function.update_apply]
    split_ifs
    · simp
    · exact unknown.epCmgroup f
  case ioSetup c _ =>
    refine { unknown with ctxCmgroup := fun d => ?_ }
    dsimp only
    rw [Function.update_apply]
    split_ifs
    · simp
    · exact unknown.ctxCmgroup d

/-- An unknown cmgroup stays unknown when a CPU starts an operation. -/
theorem startCpu_unknown {todo : Actor ι κ → Code ι} {op : CpuOp ι} (unknown : Unknown s g)
    (done : startCpu s todo actor op = some (s', code)) : Unknown s' g := by
  have linked := unknown.linked
  have work := unknown.freeWork
  cases op <;> simp only [startCpu, withEpoll] at done
  all_goals repeat' split at done
  all_goals simp only [Option.some.injEq, Prod.mk.injEq, reduceCtorEq] at done
  all_goals obtain ⟨rfl, -⟩ := done
  all_goals first
    | exact { unknown with }
    | skip
  case softirq h found =>
    have other : g ≠ h := by
      rintro rfl
      simp [linked] at found
    exact { unknown with linked := by rw [← linked]; exact Function.update_of_ne other _ _ }
  case h_2 h _ _ found =>
    have other : g ≠ h := by
      rintro rfl
      simp [work] at found
    exact { unknown with freeWork := by rw [← work]; exact Function.update_of_ne other _ _ }
  case h_3.isTrue h _ _ found _ =>
    have other : g ≠ h := by
      rintro rfl
      simp [work] at found
    exact { unknown with freeWork := by rw [← work]; exact Function.update_of_ne other _ _ }

end Silent

/-- Calls of `cmgroup_newgroup` that have created the cmgroup and not its file. -/
def createWeight (g : GroupId) : Instr ι → ℤ
  | .obj (.newFd h) | .obj (.newFile h) | .obj (.free h) => if g = h then 1 else 0
  | _ => 0

theorem createWeight_nonneg (g : GroupId) (step : Instr ι) : 0 ≤ createWeight g step := by
  unfold createWeight
  split
  all_goals first
    | exact le_rfl
    | split_ifs <;> decide

/-- The weight counts the creating micro-steps. -/
theorem createWeight_pos {g : GroupId} {step : Instr ι} :
    0 < createWeight g step ↔ step.creates g := by
  unfold createWeight Instr.creates
  split
  all_goals first
    | simp
    | (split_ifs <;> simp_all)

section Creating

variable {actor : Actor ι κ} {choice : Choice} {s s' : Shared ι κ} {step : Instr ι}
  {code : Code ι} {g : GroupId}

/-- Code that creates no cmgroup does not come to create one. -/
theorem Expands.create_load (silent : ¬ step.creates g) (flow : Expands s actor step code) :
    load (createWeight g) code = createWeight g step := by
  induction flow <;> simp only [load_cons, load_nil] <;> dsimp only [createWeight, Instr.creates] at *
  all_goals first
    | rfl
    | simp [silent]

/-- Operations create only what was not born. -/
theorem Starts.create_load (flow : Starts s actor code) :
    load (createWeight g) code = 0 ∨
      s.life g = .unborn ∧ code = [.obj (.newFd g)] := by
  induction flow
  case newgroup h unborn =>
    by_cases same : g = h
    · subst same
      exact .inr ⟨unborn, rfl⟩
    · simp [createWeight, same]
  all_goals exact .inl (by simp [createWeight])

/-- Nothing is known initially. -/
theorem Initial.unknown {y : Sys ι κ} (initial : Initial y) (g : GroupId) :
    Unknown y.shared g where
  files := initial.files g
  cmgroup := by simp [initial.cmgroup]
  epCmgroup := by simp [initial.epCmgroup]
  ctxCmgroup := by simp [initial.ctxCmgroup]
  action := initial.action g
  lockPtr := initial.lockPtr g
  wqPtr := initial.wqPtr g
  taskletActive := initial.taskletActive g
  sched := initial.sched g
  linked := initial.linked g
  run := initial.run g
  attachedEpoll := initial.attachedEpoll g
  attachedAio := initial.attachedAio g
  attachedMtx := initial.attachedMtx g
  freeWork := initial.freeWork g
  owner := initial.owner _
  queue := initial.queue _

/-- Nothing is born by executing code. -/
theorem exec_unborn (done : exec actor choice s step = some (s', code))
    (unborn : s'.life g = .unborn) : s.life g = .unborn := by
  cases step with
  | obj step =>
    cases step <;> simp only [exec, execObj] at done
    all_goals repeat' split at done
    all_goals simp only [Option.some.injEq, Prod.mk.injEq] at done
    all_goals obtain ⟨rfl, -⟩ := done
    all_goals first
      | exact unborn
      | (simp only [Function.update_apply] at unborn; split_ifs at unborn; exact unborn)
  | sched step => rw [execSched_frame done] at unborn; exact unborn
  | acct step => rw [execAcct_frame done] at unborn; exact unborn
  | lock step => rw [execLock_frame done] at unborn; exact unborn
  | bind step => rw [execBind_frame done] at unborn; exact unborn
  | tasklet step => rw [execTasklet_frame done] at unborn; exact unborn
  | wait step => rw [execWait_frame done] at unborn; exact unborn
  | ep step => rw [execEp_frame done] at unborn; exact unborn

/-- Starting an operation makes a cmgroup live exactly when it creates it. -/
theorem startTask_life {t : ι} {op : TaskOp ι} (done : startTask s t op = some (s', code)) :
    (s'.life g = s.life g ∧ (s'.kref g = s.kref g ∨ s.files g ≠ 0) ∧ code ≠ [.obj (.newFd g)]) ∨
      s.life g = .unborn ∧ s'.life g = .live ∧ s'.kref g = 1 := by
  cases op <;> simp only [startTask, withEpoll, cmgroupFromFd] at done
  all_goals repeat' split at done
  all_goals simp only [Option.some.injEq, Prod.mk.injEq, reduceCtorEq] at done
  all_goals obtain ⟨rfl, rfl⟩ := done
  all_goals first
    | exact .inl ⟨rfl, .inl rfl, by simp [cmgroupDetach, epScanReadyList]⟩
    | skip
  case h_2.isTrue h _ _ _ _ _ _ _ unborn =>
    by_cases same : g = h
    · subst same
      exact .inr ⟨unborn, Function.update_self _ _ _, Function.update_self _ _ _⟩
    · exact .inl ⟨Function.update_of_ne same _ _, .inl (Function.update_of_ne same _ _),
        by simp [Ne.symm same]⟩
  all_goals
    rename_i h opened
    refine .inl ⟨rfl, ?_, by simp⟩
    by_cases same : g = h
    · subst same
      exact .inr opened
    · exact .inl (Function.update_of_ne same _ _)

/-- A CPU's operation creates nothing. -/
theorem startCpu_life {todo : Actor ι κ → Code ι} {op : CpuOp ι}
    (done : startCpu s todo actor op = some (s', code)) :
    s'.kref g = s.kref g ∧ code ≠ [.obj (.newFd g)] ∧
      (s'.life g = s.life g ∨ s'.life g = .freed ∧ s.freeWork g ≠ none) := by
  cases op with
  | requeue p site =>
    simp only [startCpu, cmgroupTaskDequeued_requeue] at done
    split at done
    all_goals simp only [Option.some.injEq, Prod.mk.injEq, reduceCtorEq] at done
    obtain ⟨rfl, rfl⟩ := done
    exact ⟨rfl, by simp, .inl rfl⟩
  | _ =>
  simp only [startCpu, withEpoll, cmgroupDetach] at done
  repeat' split at done
  all_goals simp only [Option.some.injEq, Prod.mk.injEq, reduceCtorEq] at done
  all_goals obtain ⟨rfl, rfl⟩ := done
  all_goals refine ⟨rfl, by simp, ?_⟩
  all_goals first
    | exact .inl rfl
    | skip
  all_goals simp only [Function.update_apply]
  all_goals split_ifs <;> simp_all

end Creating

/-- A cmgroup that is not allocated, or is being created, is named by no code but that of its
creation. -/
structure Concealed (y : Sys ι κ) [Fintype ι] [Fintype κ] (g : GroupId) : Prop where
  /-- At most one call creates it. -/
  single : total (createWeight g) y.todo ≤ 1
  /-- Creation is of live memory, with the reference of the file to come. -/
  born : 0 < total (createWeight g) y.todo → y.shared.life g = .live ∧ y.shared.kref g = 1
  /-- Nothing refers to it before its file exists. -/
  unknown : y.shared.life g = .unborn ∨ 0 < total (createWeight g) y.todo → Unknown y.shared g
  /-- No other code names it before its file exists. -/
  silent : y.shared.life g = .unborn ∨ 0 < total (createWeight g) y.todo →
    ∀ actor, ∀ step ∈ y.todo actor, step.names g → step.creates g

section Reached

variable [Fintype ι] [Fintype κ] {y y' : Sys ι κ} {actor : Actor ι κ} {choice : Choice}
  {step : Instr ι} {gained : Code ι} {g : GroupId}

/-- A creating micro-step shows that the cmgroup is being created. -/
theorem creating_of_mem (member : step ∈ y.todo actor) (creates : step.creates g) :
    0 < total (createWeight g) y.todo :=
  (createWeight_pos.2 creates).trans_le (weight_le_total (createWeight_nonneg g) member)

/-- Code of other objects keeps a cmgroup concealed. -/
theorem Concealed.exec_other (concealed : Concealed y g) (silent : ¬ step.creates g)
    (done : exec actor choice y.shared step = some (y'.shared, gained))
    (move : Move y.todo y'.todo actor [step] gained) : Concealed y' g := by
  have flow := exec_expands done
  have balance : total (createWeight g) y'.todo = total (createWeight g) y.todo := by
    have moved := move.total (createWeight g)
    rw [flow.create_load silent, load_cons, load_nil] at moved
    omega
  have member : step ∈ y.todo actor := by
    obtain ⟨rest, before, -⟩ := move
    simp [before]
  have hidden : y'.shared.life g = .unborn ∨ 0 < total (createWeight g) y'.todo →
      y.shared.life g = .unborn ∨ 0 < total (createWeight g) y.todo := by
    rw [balance]
    exact Or.imp_left (exec_unborn done)
  have unnamed : y.shared.life g = .unborn ∨ 0 < total (createWeight g) y.todo →
      ¬ step.names g := fun before names =>
    silent (concealed.silent before actor step member names)
  constructor
  case single => exact balance ▸ concealed.single
  case born =>
    intro creating
    rw [balance] at creating
    have unknown := concealed.unknown (.inr creating)
    have same := exec_same (unnamed (.inr creating)) unknown.files
      (fun _ e _ _ _ => unknown.epCmgroup e) done
    rw [same.life, same.kref]
    exact concealed.born creating
  case unknown =>
    intro after
    exact exec_unknown (concealed.unknown (hidden after)) (unnamed (hidden after)) done
  case silent =>
    intro after other later present names
    rcases move.mem present with old | ⟨rfl, new⟩
    · exact concealed.silent (hidden after) other later old names
    · exact absurd names
        (flow.silent (concealed.unknown (hidden after)) (unnamed (hidden after)) later new)

/-- The steps of `cmgroup_newgroup` go on with the creation or end it. -/
theorem exec_creates (creates : step.creates g) {s s' : Shared ι κ}
    (done : exec actor choice s step = some (s', gained)) :
    (load (createWeight g) gained = 1 ∧ s' = s ∧
        ∀ later ∈ gained, later.names g → later.creates g) ∨
      load (createWeight g) gained = 0 ∧ (s'.life g = s.life g ∨ s'.life g = .freed) := by
  unfold Instr.creates at creates
  split at creates
  case h_4 => exact absurd creates id
  all_goals subst creates
  all_goals simp only [exec, execObj] at done
  all_goals repeat' split at done
  all_goals simp only [Option.some.injEq, Prod.mk.injEq] at done
  all_goals obtain ⟨rfl, rfl⟩ := done
  all_goals simp only [load_cons, load_nil, List.forall_mem_cons, List.not_mem_nil, false_implies,
    implies_true, and_true]
  all_goals try dsimp only [createWeight, Instr.names, Instr.creates]
  all_goals simp

/-- The call that creates a cmgroup keeps it concealed until it has a file. -/
theorem Concealed.exec_self (concealed : Concealed y g) (creates : step.creates g)
    (done : exec actor choice y.shared step = some (y'.shared, gained))
    (move : Move y.todo y'.todo actor [step] gained) : Concealed y' g := by
  have member : step ∈ y.todo actor := by
    obtain ⟨rest, before, -⟩ := move
    simp [before]
  have creating := creating_of_mem member creates
  have moved := move.total (createWeight g)
  have weight : createWeight g step = 1 := by
    have upper := (weight_le_total (createWeight_nonneg g) member).trans concealed.single
    have lower := createWeight_pos.2 creates
    omega
  rw [load_cons, load_nil, weight] at moved
  have single := concealed.single
  rcases exec_creates creates done with ⟨one, same, named⟩ | ⟨zero, life⟩
  · constructor
    case single => omega
    case born =>
      intro _
      rw [same]
      exact concealed.born creating
    case unknown =>
      intro _
      rw [same]
      exact concealed.unknown (.inr creating)
    case silent =>
      intro _ other later present names
      rcases move.mem present with old | ⟨rfl, new⟩
      · exact concealed.silent (.inr creating) other later old names
      · exact named later new names
  · have ended : ¬ (y'.shared.life g = .unborn ∨ 0 < total (createWeight g) y'.todo) := by
      rintro (unborn | more)
      · rw [unborn, (concealed.born creating).1] at life
        simp at life
      · omega
    constructor
    case single => omega
    case born => exact fun more => absurd (.inr more) ended
    case unknown => exact fun hidden => absurd hidden ended
    case silent => exact fun hidden => absurd hidden ended

/-- Starting an operation keeps a cmgroup concealed, or starts its creation. -/
theorem Concealed.start {actor : Actor ι κ} (concealed : Concealed y g)
    (flow : Starts y.shared actor gained)
    (unknown : Unknown y.shared g → Unknown y'.shared g)
    (unborn : y'.shared.life g = .unborn → y.shared.life g = .unborn)
    (born : Unknown y.shared g → gained = [.obj (.newFd g)] →
      y'.shared.life g = .live ∧ y'.shared.kref g = 1)
    (same : Unknown y.shared g → y.shared.life g = .live →
      y'.shared.life g = .live ∧ y'.shared.kref g = y.shared.kref g)
    (move : Move y.todo y'.todo actor [] gained) : Concealed y' g := by
  have moved := move.total (createWeight g)
  rw [load_nil] at moved
  have single := concealed.single
  rcases flow.create_load (g := g) with zero | ⟨before, rfl⟩
  · have balance : total (createWeight g) y'.todo = total (createWeight g) y.todo := by omega
    have hidden : y'.shared.life g = .unborn ∨ 0 < total (createWeight g) y'.todo →
        y.shared.life g = .unborn ∨ 0 < total (createWeight g) y.todo := by
      rw [balance]
      exact Or.imp_left unborn
    constructor
    case single => omega
    case born =>
      intro creating
      rw [balance] at creating
      obtain ⟨live, kref⟩ := concealed.born creating
      obtain ⟨life, count⟩ := same (concealed.unknown (.inr creating)) live
      exact ⟨life, count.trans kref⟩
    case unknown => exact fun after => unknown (concealed.unknown (hidden after))
    case silent =>
      intro after other later present names
      rcases move.mem present with old | ⟨rfl, new⟩
      · exact concealed.silent (hidden after) other later old names
      · exact (flow.silent (concealed.unknown (hidden after)) later new names).1
  · have clean := concealed.unknown (.inl before)
    have none : total (createWeight g) y.todo = 0 := by
      by_contra some
      have nonneg : 0 ≤ total (createWeight g) y.todo :=
        Finset.sum_nonneg fun other _ => load_nonneg (createWeight_nonneg g) _
      have live := (concealed.born (by omega)).1
      simp [before] at live
    have one : load (createWeight g) [(.obj (.newFd g) : Instr ι)] = 1 := by simp [createWeight]
    constructor
    case single => omega
    case born => exact fun _ => born clean rfl
    case unknown => exact fun _ => unknown clean
    case silent =>
      intro _ other later present names
      rcases move.mem present with old | ⟨rfl, new⟩
      · exact concealed.silent (.inl before) other later old names
      · obtain rfl : later = .obj (.newFd g) := by simpa using new
        exact rfl

/-- In every run, cmgroups are concealed until their files exist. -/
theorem Reachable.concealed (reached : Reachable y) (g : GroupId) : Concealed y g := by
  induction reached with
  | start initial =>
    have none := total_idle (createWeight g) initial.idle
    constructor
    case single => omega
    case born => exact fun some => by omega
    case unknown => exact fun _ => initial.unknown g
    case silent =>
      intro _ actor step member
      simp [initial.idle actor] at member
  | step _ _ taken ih =>
    obtain ⟨actor, spent, gained, effect, move⟩ := next_effect taken
    cases effect with
    | @exec _ _ step _ _ done =>
      by_cases creates : step.creates g
      · exact ih.exec_self creates done move
      · exact ih.exec_other creates done move
    | task idle able done =>
      have life := startTask_life (g := g) done
      refine ih.start (startTask_starts done) (fun unknown => startTask_unknown unknown done)
        ?_ ?_ ?_ move
      · intro unborn
        rcases life with ⟨same, -⟩ | ⟨-, live, -⟩
        · exact same.symm.trans unborn
        · simp [unborn] at live
      · rintro unknown rfl
        rcases life with ⟨-, -, other⟩ | ⟨-, live, kref⟩
        · exact absurd rfl other
        · exact ⟨live, kref⟩
      · intro unknown live
        rcases life with ⟨same, kref | opened, -⟩ | ⟨unborn, -⟩
        · exact ⟨same.trans live, kref⟩
        · exact absurd unknown.files opened
        · simp [live] at unborn
    | cpu idle done =>
      obtain ⟨kref, other, life⟩ := startCpu_life (g := g) done
      refine ih.start (startCpu_starts done) (fun unknown => startCpu_unknown unknown done)
        ?_ ?_ ?_ move
      · intro unborn
        rcases life with same | ⟨freed, -⟩
        · exact same.symm.trans unborn
        · simp [unborn] at freed
      · exact fun _ creation => absurd creation other
      · intro unknown live
        rcases life with same | ⟨-, queued⟩
        · exact ⟨same.trans live, kref⟩
        · exact absurd unknown.freeWork queued

/-- Nothing refers to a cmgroup that is not allocated. -/
theorem Reachable.unknown (reached : Reachable y) {g : GroupId}
    (unborn : y.shared.life g = .unborn) : Unknown y.shared g :=
  (reached.concealed g).unknown (.inl unborn)

/-- Code names no cmgroup that is not allocated. -/
theorem Reachable.unborn_silent (reached : Reachable y) {g : GroupId}
    (unborn : y.shared.life g = .unborn) {actor : Actor ι κ} {step : Instr ι}
    (member : step ∈ y.todo actor) : ¬ step.names g := by
  intro names
  have concealed := reached.concealed g
  have creates := concealed.silent (.inl unborn) actor step member names
  have live := (concealed.born (creating_of_mem member creates)).1
  simp [unborn] at live

/-- Nothing is held of a cmgroup that is not allocated. -/
theorem Reachable.unborn_total (reached : Reachable y) {g : GroupId} {weight : Instr ι → ℤ}
    (unborn : y.shared.life g = .unborn) (confined : ∀ step, ¬ step.names g → weight step = 0) :
    total weight y.todo = 0 := by
  refine Finset.sum_eq_zero fun actor _ => List.sum_eq_zero fun value member => ?_
  obtain ⟨step, present, rfl⟩ := List.mem_map.1 member
  exact confined step (reached.unborn_silent unborn present)

end Reached

section Start

variable {s s' : Shared ι κ} {code : Code ι} {actor : Actor ι κ}

/-- `cmgroup_alloc` writes few fields another value than they had. -/
theorem cmgroupAlloc_frame {g : GroupId} (unknown : Unknown s g) (nthreads : ℤ) :
    cmgroupAlloc s g nthreads = { s with
      life := update s.life g .live
      kref := update s.kref g 1
      concurrencyValue := update s.concurrencyValue g nthreads
      available := update s.available g nthreads
      nWaked := update s.nWaked g 0 } := by
  have same : ∀ {δ : Type} {f : GroupId → δ} {value : δ}, f g = value → update f g value = f := by
    intro δ f value equal
    rw [← equal, Function.update_eq_self]
  have owner : update s.owner (.own g) none = s.owner := by
    rw [← unknown.owner, Function.update_eq_self]
  have queue : update s.queue (.own g) [] = s.queue := by
    rw [← unknown.queue, Function.update_eq_self]
  unfold cmgroupAlloc
  rw [same unknown.action, same unknown.lockPtr, same unknown.wqPtr, same unknown.taskletActive,
    same unknown.sched, same unknown.run, same unknown.attachedEpoll, same unknown.attachedAio,
    same unknown.attachedMtx, owner, queue]

/-- Fields changed by starting a task's operation. -/
theorem startTask_frame {t : ι} {op : TaskOp ι}
    (fresh : ∀ {g}, s.life g = .unborn → Unknown s g)
    (done : startTask s t op = some (s', code)) :
    s' = { s with
      life := s'.life
      kref := s'.kref
      files := s'.files
      concurrencyValue := s'.concurrencyValue
      available := s'.available
      nWaked := s'.nWaked
      epStage := s'.epStage
      epCmgroup := s'.epCmgroup
      epUsers := s'.epUsers
      ctxStage := s'.ctxStage
      ctxCmgroup := s'.ctxCmgroup
      users := s'.users
      taskLife := s'.taskLife
      cmgroup := s'.cmgroup
      charged := s'.charged
      state := s'.state
      sig := s'.sig } := by
  cases op <;> simp only [startTask, withEpoll, cmgroupFromFd] at done
  all_goals repeat' split at done
  all_goals simp only [Option.some.injEq, Prod.mk.injEq, reduceCtorEq] at done
  all_goals obtain ⟨rfl, -⟩ := done
  all_goals first
    | rfl
    | skip
  case h_2.isTrue unborn => rw [cmgroupAlloc_frame (fresh unborn)]

/-- Fields changed by starting a CPU's operation. -/
theorem startCpu_frame {todo : Actor ι κ → Code ι} {op : CpuOp ι}
    (done : startCpu s todo actor op = some (s', code)) :
    s' = { s with
      life := s'.life
      linked := s'.linked
      freeWork := s'.freeWork
      epUsers := s'.epUsers
      ctxStage := s'.ctxStage
      sig := s'.sig
      rqLock := s'.rqLock
      wakeList := s'.wakeList } := by
  cases op <;> simp only [startCpu, withEpoll] at done
  all_goals repeat' split at done
  all_goals simp only [Option.some.injEq, Prod.mk.injEq, reduceCtorEq] at done
  all_goals obtain ⟨rfl, -⟩ := done
  all_goals rfl

end Start

end Cmgroups
