import Cmgroups.Verif.Expansion

/-!
# Frames

Which fields of the shared state each family of micro-steps can change. A frame is stated as
an equation between records: every field it does not name is unchanged.
-/

set_option linter.unusedSectionVars false

namespace Cmgroups

open Function (update)

variable {ι κ : Type} [DecidableEq ι] [DecidableEq κ]
variable {actor : Actor ι κ} {choice : Choice} {s s' : Shared ι κ} {code : Code ι}

/-- A wake-up changes the state of the woken task and the wake lists. -/
theorem tryToWakeUp_frame {p : ι} {remote : Bool}
    (done : tryToWakeUp s p remote = some (s', code)) :
    s' = { s with state := s'.state, wakeList := s'.wakeList } := by
  unfold tryToWakeUp at done
  repeat' split at done
  all_goals simp only [Option.some.injEq, Prod.mk.injEq, reduceCtorEq] at done
  all_goals obtain ⟨rfl, -⟩ := done
  all_goals rfl

/-- A wake-up of a queue also changes the queue and `n_waked`. -/
theorem wakeUpLocked_frame {lock : LockId} {remote : Bool}
    (done : wakeUpLocked s lock remote = some (s', code)) :
    s' = { s with
      queue := s'.queue
      nWaked := s'.nWaked
      state := s'.state
      wakeList := s'.wakeList } := by
  unfold wakeUpLocked at done
  split at done
  · simp only [Option.some.injEq, Prod.mk.injEq] at done
    obtain ⟨rfl, -⟩ := done
    rfl
  · simp only [Option.map_eq_some_iff, Prod.exists, Prod.mk.injEq] at done
    obtain ⟨woken, code', tried, rfl, -⟩ := done
    have frame := tryToWakeUp_frame tried
    rw [frame]
    cases lock <;> rfl

/-- `wake_up_all_locked` is a series of such wake-ups. -/
theorem wakeAll_frame (actor : Actor ι κ) {lock : LockId}
    (done : execLock actor choice s (.wakeAll lock) = some (s', code)) :
    s' = { s with
      queue := s'.queue
      nWaked := s'.nWaked
      state := s'.state
      wakeList := s'.wakeList } := by
  simp only [execLock] at done
  split at done
  · simp only [Option.map_eq_some_iff, Prod.exists, Prod.mk.injEq] at done
    obtain ⟨woken, code', tried, rfl, -⟩ := done
    exact wakeUpLocked_frame tried
  · simp only [Option.some.injEq, Prod.mk.injEq] at done
    obtain ⟨rfl, -⟩ := done
    rfl

/-- The tasklet wakes one task at a time. -/
theorem wake_frame {g : GroupId} {pass : ℕ}
    (done : execTasklet choice s (.wake g pass) = some (s', code)) :
    s' = { s with
      queue := s'.queue
      nWaked := s'.nWaked
      state := s'.state
      wakeList := s'.wakeList } := by
  simp only [execTasklet, Option.map_eq_some_iff, Prod.exists, Prod.mk.injEq] at done
  obtain ⟨woken, code', tried, rfl, -⟩ := done
  exact wakeUpLocked_frame tried

/-- Fields of the scheduler. -/
theorem execSched_frame {step : SchedStep ι}
    (done : execSched actor choice s step = some (s', code)) :
    s' = { s with
      onRq := s'.onRq
      state := s'.state
      rqLock := s'.rqLock
      wakeList := s'.wakeList } := by
  cases step with
  | ttwu p =>
    have frame := tryToWakeUp_frame done
    rw [frame]
  | _ =>
    simp only [execSched] at done
    repeat' split at done
    all_goals simp only [Option.some.injEq, Prod.mk.injEq, reduceCtorEq] at done
    all_goals obtain ⟨rfl, -⟩ := done
    all_goals rfl

/-- Fields of association and accounting. -/
theorem execAcct_frame {step : AcctStep ι} (done : execAcct s step = some (s', code)) :
    s' = { s with
      cmgroup := s'.cmgroup
      charged := s'.charged
      available := s'.available
      concurrencyValue := s'.concurrencyValue } := by
  cases step <;> simp only [execAcct] at done
  all_goals repeat' split at done
  all_goals simp only [Option.some.injEq, Prod.mk.injEq] at done
  all_goals obtain ⟨rfl, -⟩ := done
  all_goals rfl

/-- Fields of object lifetime. -/
theorem execObj_frame {step : ObjStep ι} (done : execObj actor choice s step = some (s', code)) :
    s' = { s with
      life := s'.life
      kref := s'.kref
      files := s'.files
      taskletActive := s'.taskletActive
      sched := s'.sched
      linked := s'.linked
      freeWork := s'.freeWork
      ret := s'.ret } := by
  cases step <;> simp only [execObj] at done
  all_goals repeat' split at done
  all_goals simp only [Option.some.injEq, Prod.mk.injEq] at done
  all_goals obtain ⟨rfl, -⟩ := done
  all_goals rfl

/-- Fields of locks and wake-ups. -/
theorem execLock_frame {step : LockStep ι}
    (done : execLock actor choice s step = some (s', code)) :
    s' = { s with
      nWaked := s'.nWaked
      attachedMtx := s'.attachedMtx
      owner := s'.owner
      queue := s'.queue
      epMtx := s'.epMtx
      epUsers := s'.epUsers
      users := s'.users
      state := s'.state
      wakeList := s'.wakeList } := by
  cases step with
  | wakeOne lock =>
    have frame := wakeUpLocked_frame done
    rw [frame]
  | wakeAll lock =>
    have frame := wakeAll_frame actor done
    rw [frame]
  | _ =>
    simp only [execLock] at done
    repeat' split at done
    all_goals simp only [Option.some.injEq, Prod.mk.injEq, reduceCtorEq] at done
    all_goals obtain ⟨rfl, -⟩ := done
    all_goals rfl

/-- Fields of binding. -/
theorem execBind_frame {step : BindStep}
    (done : execBind actor choice s step = some (s', code)) :
    s' = { s with
      kref := s'.kref
      action := s'.action
      lockPtr := s'.lockPtr
      wqPtr := s'.wqPtr
      taskletActive := s'.taskletActive
      attachedEpoll := s'.attachedEpoll
      attachedAio := s'.attachedAio
      epStage := s'.epStage
      epCmgroup := s'.epCmgroup
      ctxStage := s'.ctxStage
      ctxCmgroup := s'.ctxCmgroup
      users := s'.users } := by
  cases step <;> simp only [execBind] at done
  all_goals repeat' split at done
  all_goals simp only [Option.some.injEq, Prod.mk.injEq] at done
  all_goals obtain ⟨rfl, -⟩ := done
  all_goals rfl

/-- Fields of the tasklet. -/
theorem execTasklet_frame {step : TaskletStep}
    (done : execTasklet choice s step = some (s', code)) :
    s' = { s with
      action := s'.action
      taskletActive := s'.taskletActive
      sched := s'.sched
      linked := s'.linked
      run := s'.run
      nWaked := s'.nWaked
      queue := s'.queue
      state := s'.state
      wakeList := s'.wakeList } := by
  cases step with
  | wake g pass =>
    have frame := wake_frame done
    rw [frame]
  | _ =>
    simp only [execTasklet] at done
    repeat' split at done
    all_goals simp only [Option.some.injEq, Prod.mk.injEq, reduceCtorEq] at done
    all_goals obtain ⟨rfl, -⟩ := done
    all_goals rfl

/-- Fields of `cmgroup_wait`. -/
theorem execWait_frame {step : WaitStep ι} (done : execWait choice s step = some (s', code)) :
    s' = { s with queue := s'.queue, state := s'.state } := by
  cases step <;> simp only [execWait] at done
  all_goals repeat' split at done
  all_goals simp only [Option.some.injEq, Prod.mk.injEq] at done
  all_goals obtain ⟨rfl, -⟩ := done
  all_goals rfl

/-- Fields of `ep_poll`. -/
theorem execPoll_frame {t : ι} {e : EpollId} {locals : EpLocals} {pc : EpPc}
    (done : execPoll choice s t e locals pc = some (s', code)) :
    s' = { s with action := s'.action, queue := s'.queue, state := s'.state } := by
  cases pc <;> simp only [execPoll] at done
  all_goals repeat' split at done
  all_goals simp only [Option.some.injEq, Prod.mk.injEq] at done
  all_goals obtain ⟨rfl, -⟩ := done
  all_goals rfl

/-- Fields of epoll. -/
theorem execEp_frame {step : EpStep ι} (done : execEp actor choice s step = some (s', code)) :
    s' = { s with
      action := s'.action
      queue := s'.queue
      rdllist := s'.rdllist
      ovflist := s'.ovflist
      txlist := s'.txlist
      state := s'.state } := by
  cases step with
  | poll t e pc locals =>
    have frame := execPoll_frame done
    rw [frame]
  | _ =>
    simp only [execEp] at done
    repeat' split at done
    all_goals simp only [Option.some.injEq, Prod.mk.injEq, reduceCtorEq] at done
    all_goals obtain ⟨rfl, -⟩ := done
    all_goals rfl

end Cmgroups
