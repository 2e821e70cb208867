import Cmgroups.Verif.Ledgers

/-!
# Running tasks

Code of a task runs while the task is on its run queue. A task that sleeps is activated by at
most one wake-up at a time, and the run-queue lock keeps wake-ups away while the task leaves its
run queue.
-/

set_option linter.unusedSectionVars false

namespace Cmgroups

open Function (update)
open Pool

variable {ι κ : Type} [DecidableEq ι] [DecidableEq κ]

/-- The task that executes the micro-step, where the micro-step is about its own execution. -/
def Instr.self : Instr ι → Option ι
  | .sched (.setState t _) | .sched (.schedule t) | .sched (.offRq t) | .sched (.resume t)
  | .acct (.associate t _ _ _) | .acct (.dissociate t _) | .acct (.storeCmgroup t _)
  | .acct (.clearCharged t _ _) | .acct (.uncharge t _) | .acct (.incAvailable t _)
  | .acct (.clearCmgroup t _)
  | .obj (.fire _ (.lessRunnable t)) | .obj (.ref _ (some (.lessRunnable t)))
  | .lock (.unlink t _)
  | .wait (.read t _ _ _) | .wait (.gate t _ _ _ _ _) | .wait (.enter t _ _ _ _ _ _)
  | .wait (.loop t _ _ _ _) | .wait (.fast t _ _ _ _) | .wait (.begin t _ _ _ _)
  | .wait (.check t _ _ _ _) | .wait (.add t _ _ _ _) | .wait (.signal t _ _ _ _)
  | .wait (.woken t _ _ _ _) | .wait (.finish t _) | .wait (.done t _ _ _)
  | .ep (.poll t _ _ _) => some t
  | _ => none

/-- Code about a task's own execution is code of the task. -/
theorem Expands.self {s : Shared ι κ} {actor : Actor ι κ} {step : Instr ι} {code : Code ι}
    (flow : Expands s actor step code)
    (own : ∀ t, step.self = some t → actor = .task t) :
    ∀ later ∈ code, ∀ t, later.self = some t → actor = .task t := by
  induction flow <;>
    simp only [List.mem_cons, List.not_mem_nil, or_false, forall_eq_or_imp, forall_eq,
      IsEmpty.forall_iff, implies_true] <;>
    dsimp only [Instr.self] at own ⊢
  all_goals and_intros
  all_goals first
    | exact own
    | (intro _ same; contradiction)
    | grind

/-- Operations start with code of their own. -/
theorem Starts.self {s : Shared ι κ} {actor : Actor ι κ} {code : Code ι}
    (flow : Starts s actor code) :
    ∀ later ∈ code, ∀ t, later.self = some t → actor = .task t := by
  induction flow <;>
    simp only [List.mem_cons, List.not_mem_nil, or_false, forall_eq_or_imp, forall_eq,
      IsEmpty.forall_iff, implies_true] <;>
    dsimp only [Instr.self]
  all_goals and_intros
  all_goals first
    | (intro _ same; contradiction)
    | grind

/-- Code about a task's own execution is code of the task. -/
theorem Reachable.self {y : Sys ι κ} (reached : Reachable y) {actor : Actor ι κ} {step : Instr ι}
    (member : step ∈ y.todo actor) {t : ι} (own : step.self = some t) : actor = .task t :=
  @Reachable.forall_mem _ _ _ _ (fun actor step => ∀ t, step.self = some t → actor = .task t)
    (fun flow own => flow.self own) (fun flow => flow.self) _ reached actor step member t own

/-- Holding the run-queue lock for a transition of the task. -/
def rqWeight (t : ι) : Instr ι → ℤ
  | .sched (.offRq p) | .sched (.enterRq p) | .sched (.requeueIn p _)
  | .sched (.requeueDone p) => if p = t then 1 else 0
  | _ => 0

/-- Activations of the task that are still to be completed. -/
def activateWeight (t : ι) : Instr ι → ℤ
  | .sched (.activate p _) | .sched (.enterRq p) => if p = t then 1 else 0
  | _ => 0

theorem rqWeight_nonneg (t : ι) (step : Instr ι) : 0 ≤ rqWeight t step := by
  unfold rqWeight
  split
  all_goals first
    | exact le_rfl
    | split_ifs <;> decide

theorem activateWeight_nonneg (t : ι) (step : Instr ι) : 0 ≤ activateWeight t step := by
  unfold activateWeight
  split
  all_goals first
    | exact le_rfl
    | split_ifs <;> decide

/-- What a micro-step does to the scheduling of a task. -/
inductive Transit (t : ι) (s s' : Shared ι κ) (step : Instr ι) (code : Code ι) : Prop where
  /-- Nothing. -/
  | quiet (state : s'.state t = s.state t) (onRq : s'.onRq t = s.onRq t)
      (wakeList : s'.wakeList t = s.wakeList t)
      (activations : load (activateWeight t) code = activateWeight t step)
  /-- The task sets its own state. -/
  | own (own : step.self = some t) (resumed : step ≠ .sched (.resume t))
      (onRq : s'.onRq t = s.onRq t) (wakeList : s'.wakeList t = s.wakeList t)
      (activations : load (activateWeight t) code = activateWeight t step)
      (asleep : s'.state t ≠ .waking ∨ step = .sched (.setState t .waking))
  /-- The task leaves its run queue. -/
  | leave (leaves : step = .sched (.offRq t)) (state : s'.state t = s.state t)
      (onRq : s'.onRq t = false) (wakeList : s'.wakeList t = s.wakeList t)
      (activations : load (activateWeight t) code = activateWeight t step)
  /-- The task enters its run queue. -/
  | enter (enters : step = .sched (.enterRq t)) (state : s'.state t = .running)
      (onRq : s'.onRq t = true) (wakeList : s'.wakeList t = s.wakeList t)
      (activations : load (activateWeight t) code = 0)
  /-- The task is woken on its run queue. -/
  | woken (asleep : (s.state t).wakeable = true) (free : s.rqLock t = none)
      (queued : s.onRq t = true) (state : s'.state t = .running) (onRq : s'.onRq t = true)
      (wakeList : s'.wakeList t = s.wakeList t)
      (activations : load (activateWeight t) code = activateWeight t step)
  /-- The task is woken off its run queue: its activation is started or handed to another CPU. -/
  | waking (asleep : (s.state t).wakeable = true) (free : s.rqLock t = none)
      (absent : s.onRq t = false) (state : s'.state t = .waking) (onRq : s'.onRq t = false)
      (activations : s'.wakeList t = s.wakeList t ∧
          load (activateWeight t) code = activateWeight t step + 1 ∨
        s'.wakeList t = true ∧ load (activateWeight t) code = activateWeight t step)

section Step

variable {actor : Actor ι κ} {choice : Choice} {s s' : Shared ι κ} {step : Instr ι}
  {code : Code ι} {t : ι}

/-- What a wake-up does to the scheduling of a task, with any code after it that activates
nothing. -/
theorem tryToWakeUp_transit {p : ι} {remote : Bool} {later : Code ι}
    (done : tryToWakeUp s p remote = some (s', code)) (idle : activateWeight t step = 0)
    (none : load (activateWeight t) later = 0) : Transit t s s' step (code ++ later) := by
  by_cases same : p = t
  · subst same
    unfold tryToWakeUp at done
    repeat' split at done
    all_goals simp only [Option.some.injEq, Prod.mk.injEq, reduceCtorEq] at done
    all_goals obtain ⟨rfl, rfl⟩ := done
    · exact .quiet rfl rfl rfl (by simp [idle, none])
    · exact .woken (by simp_all) (by simp_all) ‹_› (by simp) ‹_› rfl (by simp [idle, none])
    · exact .waking (by simp_all) (by simp_all) (by simp_all) (by simp) (by simp_all)
        (.inr ⟨by simp, by simp [idle, none]⟩)
    · exact .waking (by simp_all) (by simp_all) (by simp_all) (by simp) (by simp_all)
        (.inl ⟨rfl, by rw [load_append, none, idle]; simp [activateWeight]⟩)
  · unfold tryToWakeUp at done
    repeat' split at done
    all_goals simp only [Option.some.injEq, Prod.mk.injEq, reduceCtorEq] at done
    all_goals obtain ⟨rfl, rfl⟩ := done
    all_goals
      refine .quiet (by simp [Ne.symm same]) rfl (by simp [Ne.symm same]) ?_
      rw [load_append, none, idle]
      simp [activateWeight, same]

/-- Only the fields of the scheduler matter. -/
theorem Transit.congr {s'' : Shared ι κ} (transit : Transit t s s' step code)
    (state : s''.state = s'.state) (onRq : s''.onRq = s'.onRq)
    (wakeList : s''.wakeList = s'.wakeList) : Transit t s s'' step code := by
  cases transit
  case quiet => exact .quiet (by simp_all) (by simp_all) (by simp_all) ‹_›
  case own => exact .own ‹_› ‹_› (by simp_all) (by simp_all) ‹_› (by simp_all)
  case leave => exact .leave ‹_› (by simp_all) (by simp_all) (by simp_all) ‹_›
  case enter => exact .enter ‹_› (by simp_all) (by simp_all) (by simp_all) ‹_›
  case woken => exact .woken ‹_› ‹_› ‹_› (by simp_all) (by simp_all) (by simp_all) ‹_›
  case waking => exact .waking ‹_› ‹_› ‹_› (by simp_all) (by simp_all) (by simp_all)

/-- A task sets its own state. -/
theorem Transit.set {p : ι} {value : TaskState} (own : step.self = some p)
    (resumed : step ≠ .sched (.resume p)) (state : s'.state = update s.state p value)
    (onRq : s'.onRq = s.onRq) (wakeList : s'.wakeList = s.wakeList)
    (activations : load (activateWeight t) code = activateWeight t step)
    (asleep : value ≠ .waking) : Transit t s s' step code := by
  by_cases same : p = t
  · subst same
    exact .own own resumed (by rw [onRq]) (by rw [wakeList]) activations
      (.inl (by rw [state, Function.update_self]; exact asleep))
  · exact .quiet (by rw [state, Function.update_of_ne (Ne.symm same)]) (by rw [onRq])
      (by rw [wakeList]) activations

/-- What waking a queue does to the scheduling of a task. -/
theorem wakeUpLocked_transit {lock : LockId} {remote : Bool} {later : Code ι}
    (done : wakeUpLocked s lock remote = some (s', code)) (idle : activateWeight t step = 0)
    (none : load (activateWeight t) later = 0) : Transit t s s' step (code ++ later) := by
  unfold wakeUpLocked at done
  split at done
  · simp only [Option.some.injEq, Prod.mk.injEq] at done
    obtain ⟨rfl, rfl⟩ := done
    exact .quiet rfl rfl rfl (by simp [idle, none])
  · simp only [Option.map_eq_some_iff, Prod.exists, Prod.mk.injEq] at done
    obtain ⟨woken, code', tried, rfl, rfl⟩ := done
    have transit := tryToWakeUp_transit tried idle none
    cases lock with
    | epoll e => exact transit
    | own g => exact transit.congr rfl rfl rfl

/-- Waiting sets the state of the caller, and never to `TASK_WAKING`. -/
theorem execWait_state {w : WaitStep ι} (done : execWait choice s w = some (s', code)) :
    s'.state = s.state ∨ ∃ p value, (Instr.wait w).self = some p ∧ value ≠ .waking ∧
      s'.state = update s.state p value := by
  cases w <;> simp only [execWait] at done
  all_goals repeat' split at done
  all_goals simp only [Option.some.injEq, Prod.mk.injEq] at done
  all_goals obtain ⟨rfl, -⟩ := done
  all_goals first
    | exact .inl rfl
    | exact .inr ⟨_, _, rfl, by simp, rfl⟩

/-- So does `ep_poll`. -/
theorem execPoll_state {p : ι} {e : EpollId} {locals : EpLocals} {pc : EpPc}
    (done : execPoll choice s p e locals pc = some (s', code)) :
    s'.state = s.state ∨ ∃ value, value ≠ .waking ∧ s'.state = update s.state p value := by
  cases pc <;> simp only [execPoll] at done
  all_goals repeat' split at done
  all_goals simp only [Option.some.injEq, Prod.mk.injEq] at done
  all_goals obtain ⟨rfl, -⟩ := done
  all_goals first
    | exact .inl rfl
    | exact .inr ⟨_, by simp, rfl⟩

/-- Code that activates tasks comes from the scheduler and from wake-ups only. -/
theorem Expands.inactive (flow : Expands s actor step code) (sched : ∀ i, step ≠ .sched i)
    (wakeOne : ∀ lock, step ≠ .lock (.wakeOne lock))
    (wakeAll : ∀ lock, step ≠ .lock (.wakeAll lock))
    (wake : ∀ g pass, step ≠ .tasklet (.wake g pass)) : load (activateWeight t) code = 0 := by
  induction flow
  all_goals first
    | rfl
    | exact absurd rfl (sched _)
    | exact absurd rfl (wakeOne _)
    | exact absurd rfl (wakeAll _)
    | exact absurd rfl (wake _ _)

/-- What each micro-step does to the scheduling of a task. -/
theorem exec_transit (t : ι) (done : exec actor choice s step = some (s', code)) :
    Transit t s s' step code := by
  cases step with
  | sched step =>
    cases step with
    | ttwu p =>
      have transit : Transit t s s' (.sched (.ttwu p)) (code ++ []) :=
        tryToWakeUp_transit done rfl rfl
      simpa using transit
    | setState p state =>
      simp only [exec, execSched, Option.some.injEq, Prod.mk.injEq] at done
      obtain ⟨rfl, rfl⟩ := done
      by_cases same : p = t
      · subst same
        refine .own rfl (by simp) rfl rfl rfl ?_
        by_cases waking : state = .waking
        · exact .inr (by rw [waking])
        · exact .inl (by simpa using waking)
      · exact .quiet (by simp [Ne.symm same]) rfl rfl rfl
    | schedule p =>
      have code := exec_expands done
      simp only [exec, execSched] at done
      repeat' split at done
      all_goals simp only [Option.some.injEq, Prod.mk.injEq, reduceCtorEq] at done
      all_goals obtain ⟨rfl, rfl⟩ := done
      · exact .quiet rfl rfl rfl rfl
      · by_cases same : p = t
        · subst same
          exact .own rfl (by simp) rfl rfl rfl (.inl (by simp))
        · exact .quiet (by simp [Ne.symm same]) rfl rfl rfl
      · refine .quiet rfl rfl rfl ?_
        simp only [cmgroupTaskDequeued]
        repeat' split
        all_goals simp [activateWeight]
    | offRq p =>
      simp only [exec, execSched, Option.some.injEq, Prod.mk.injEq] at done
      obtain ⟨rfl, rfl⟩ := done
      by_cases same : p = t
      · subst same
        exact .leave rfl rfl (by simp) rfl rfl
      · exact .quiet rfl (by simp [Ne.symm same]) rfl rfl
    | enterRq p =>
      simp only [exec, execSched, Option.some.injEq, Prod.mk.injEq] at done
      obtain ⟨rfl, rfl⟩ := done
      by_cases same : p = t
      · subst same
        exact .enter rfl (by simp) (by simp) rfl rfl
      · exact .quiet (by simp [Ne.symm same]) (by simp [Ne.symm same]) rfl
          (by simp [activateWeight, same])
    | resume p =>
      simp only [exec, execSched] at done
      split at done
      all_goals simp only [Option.some.injEq, Prod.mk.injEq, reduceCtorEq] at done
      obtain ⟨rfl, rfl⟩ := done
      exact .quiet rfl rfl rfl rfl
    | activate p flags =>
      simp only [exec, execSched] at done
      split at done
      all_goals simp only [Option.some.injEq, Prod.mk.injEq, reduceCtorEq] at done
      obtain ⟨rfl, rfl⟩ := done
      refine .quiet rfl rfl rfl ?_
      simp only [cmgroupTaskEnqueued]
      repeat' split
      all_goals simp [activateWeight]
    | requeueIn p site =>
      simp only [exec, execSched, cmgroupTaskEnqueued_requeue, Option.some.injEq,
        Prod.mk.injEq] at done
      obtain ⟨rfl, rfl⟩ := done
      exact .quiet rfl rfl rfl rfl
    | requeueDone p =>
      simp only [exec, execSched, Option.some.injEq, Prod.mk.injEq] at done
      obtain ⟨rfl, rfl⟩ := done
      exact .quiet rfl rfl rfl rfl
  | lock step =>
    cases step with
    | wakeOne lock =>
      have transit : Transit t s s' (.lock (.wakeOne lock)) (code ++ []) :=
        wakeUpLocked_transit done rfl rfl
      simpa using transit
    | wakeAll lock =>
      simp only [exec, execLock] at done
      split at done
      · simp only [Option.map_eq_some_iff, Prod.exists, Prod.mk.injEq] at done
        obtain ⟨woken, code', tried, rfl, rfl⟩ := done
        exact wakeUpLocked_transit tried rfl rfl
      · simp only [Option.some.injEq, Prod.mk.injEq] at done
        obtain ⟨rfl, rfl⟩ := done
        exact .quiet rfl rfl rfl rfl
    | _ =>
      have none : load (activateWeight t) code = 0 :=
        (exec_expands done).inactive (by simp) (by simp) (by simp) (by simp)
      simp only [exec, execLock] at done
      repeat' split at done
      all_goals simp only [Option.some.injEq, Prod.mk.injEq, reduceCtorEq] at done
      all_goals obtain ⟨rfl, rfl⟩ := done
      all_goals exact .quiet rfl rfl rfl none
  | tasklet step =>
    cases step with
    | wake g pass =>
      simp only [exec, execTasklet, Option.map_eq_some_iff, Prod.exists, Prod.mk.injEq] at done
      obtain ⟨woken, code', tried, rfl, rfl⟩ := done
      refine wakeUpLocked_transit tried rfl ?_
      split <;> rfl
    | _ =>
      have none : load (activateWeight t) code = 0 :=
        (exec_expands done).inactive (by simp) (by simp) (by simp) (by simp)
      simp only [exec, execTasklet] at done
      repeat' split at done
      all_goals simp only [Option.some.injEq, Prod.mk.injEq, reduceCtorEq] at done
      all_goals obtain ⟨rfl, rfl⟩ := done
      all_goals exact .quiet rfl rfl rfl none
  | wait step =>
    have none : load (activateWeight t) code = 0 :=
      (exec_expands done).inactive (by simp) (by simp) (by simp) (by simp)
    have frame := execWait_frame done
    have onRq : s'.onRq = s.onRq := by rw [frame]
    have wakeList : s'.wakeList = s.wakeList := by rw [frame]
    rcases execWait_state done with same | ⟨p, value, own, asleep, set⟩
    · exact .quiet (congrFun same t) (congrFun onRq t) (congrFun wakeList t) none
    · exact .set own (by simp) set onRq wakeList none asleep
  | ep step =>
    have none : load (activateWeight t) code = 0 :=
      (exec_expands done).inactive (by simp) (by simp) (by simp) (by simp)
    have idle : activateWeight t (.ep step) = 0 := rfl
    cases step with
    | poll p e pc locals =>
      have frame := execPoll_frame done
      have onRq : s'.onRq = s.onRq := by rw [frame]
      have wakeList : s'.wakeList = s.wakeList := by rw [frame]
      rcases execPoll_state done with same | ⟨value, asleep, set⟩
      · exact .quiet (congrFun same t) (congrFun onRq t) (congrFun wakeList t) none
      · exact .set rfl (by simp) set onRq wakeList none asleep
    | _ =>
      simp only [exec, execEp] at done
      repeat' split at done
      all_goals simp only [Option.some.injEq, Prod.mk.injEq, reduceCtorEq] at done
      all_goals obtain ⟨rfl, -⟩ := done
      all_goals exact .quiet rfl rfl rfl none
  | acct step =>
    rw [execAcct_frame done]
    exact .quiet rfl rfl rfl
      ((exec_expands done).inactive (by simp) (by simp) (by simp) (by simp))
  | obj step =>
    rw [execObj_frame done]
    exact .quiet rfl rfl rfl
      ((exec_expands done).inactive (by simp) (by simp) (by simp) (by simp))
  | bind step =>
    rw [execBind_frame done]
    exact .quiet rfl rfl rfl
      ((exec_expands done).inactive (by simp) (by simp) (by simp) (by simp))

end Step

/-- Micro-steps between the decision to leave the run queue and leaving it. -/
def Instr.departs : Instr ι → Bool
  | .acct (.uncharge _ _) | .acct (.incAvailable _ _) | .obj (.fire _ _) | .obj (.ref _ _)
  | .obj (.taskletSchedule _) => true
  | _ => false

/-- A task that leaves its run queue does so after it was uncharged, and goes on when it is
switched in again. -/
def Leaves (step : Instr ι) (rest : Code ι) : Prop :=
  (∀ t, step = .sched (.offRq t) → rest.head? = some (.sched (.resume t))) ∧
    ∀ t, .sched (.offRq t) ∈ rest → step.departs = true

/-- Code leaves the run queue in one way only. -/
theorem Reachable.leaves {y : Sys ι κ} (reached : Reachable y) (actor : Actor ι κ) :
    Tails Leaves (y.todo actor) := by
  refine reached.tails (fun flow rest before => ?_) (fun flow => ?_) actor
  · have last := before.2
    induction flow <;> simp only [tails_cons, tails_nil, Leaves, and_true, reduceCtorEq,
      Instr.sched.injEq, false_implies, implies_true, List.cons_append, List.nil_append,
      List.head?_cons, SchedStep.offRq.injEq, forall_eq', true_and, List.mem_cons,
      false_or] <;> dsimp only [Instr.departs] at last ⊢
    all_goals grind
  · induction flow <;> simp only [tails_cons, tails_nil, Leaves, and_true, reduceCtorEq,
      Instr.sched.injEq, false_implies, implies_true, List.mem_cons, List.not_mem_nil, or_self]

/-- What comes next in code is in the relation to the rest. -/
theorem Reachable.leaves_head {y : Sys ι κ} (reached : Reachable y) {actor : Actor ι κ}
    {step : Instr ι} {rest : Code ι} (head : y.todo actor = step :: rest) : Leaves step rest := by
  have tails := reached.leaves actor
  rw [head] at tails
  exact tails.1

/-- On the way off the run queue no state is set. -/
theorem exec_departs {actor : Actor ι κ} {choice : Choice} {s s' : Shared ι κ} {step : Instr ι}
    {code : Code ι} (departs : step.departs = true)
    (done : exec actor choice s step = some (s', code)) : s'.state = s.state := by
  cases step with
  | acct step => rw [execAcct_frame done]
  | obj step => rw [execObj_frame done]
  | _ => simp [Instr.departs] at departs

/-- The micro-step does not set a task waking. -/
def Instr.wakesNobody : Instr ι → Bool
  | .sched (.setState _ .waking) => false
  | _ => true

/-- No task sets itself waking. -/
theorem Reachable.set_ne_waking {y : Sys ι κ} (reached : Reachable y) {actor : Actor ι κ} {t : ι} :
    .sched (.setState t .waking) ∉ y.todo actor := by
  intro member
  refine absurd (@Reachable.forall_mem _ _ _ _ (fun _ step => step.wakesNobody = true)
    (fun flow _ => List.all_eq_true.1 ?_) (fun flow => List.all_eq_true.1 ?_) _ reached
    actor _ member) Bool.false_ne_true
  · induction flow <;> rfl
  · induction flow
    case block value sleeps => cases value <;> first | rfl | contradiction
    all_goals rfl

section Reached

variable [Fintype ι] [Fintype κ] {y : Sys ι κ}

/-- Only the scheduler deals with the run-queue lock. -/
theorem Expands.rq_load {s : Shared ι κ} {actor : Actor ι κ} {step : Instr ι} {code : Code ι}
    {t : ι} (flow : Expands s actor step code) (sched : ∀ i, step = .sched i → ∃ p, i = .ttwu p) :
    load (rqWeight t) code = rqWeight t step := by
  induction flow
  all_goals first
    | rfl
    | (simp [rqWeight]; done)
    | exact absurd (sched _ rfl) (by simp)

/-- A micro-step changes the state of the run-queue lock as it changes who holds it. -/
theorem exec_rq {actor : Actor ι κ} {choice : Choice} {s s' : Shared ι κ} {step : Instr ι}
    {code : Code ι} {t : ι} (held : 1 ≤ rqWeight t step → (s.rqLock t).isSome = true)
    (done : exec actor choice s step = some (s', code)) :
    load (rqWeight t) code - rqWeight t step =
      (s'.rqLock t).isSome.toInt - (s.rqLock t).isSome.toInt := by
  cases step with
  | sched step =>
    cases step with
    | ttwu p =>
      rw [tryToWakeUp_frame done, (exec_expands done).rq_load (by simp), sub_self]
      exact (sub_self _).symm
    | requeueIn p site =>
      simp only [exec, execSched, cmgroupTaskEnqueued_requeue, Option.some.injEq,
        Prod.mk.injEq] at done
      obtain ⟨rfl, rfl⟩ := done
      simp [rqWeight]
    | _ =>
      simp only [exec, execSched, cmgroupTaskDequeued, cmgroupTaskEnqueued] at done
      repeat' split at done
      all_goals simp only [Option.some.injEq, Prod.mk.injEq, reduceCtorEq] at done
      all_goals obtain ⟨rfl, rfl⟩ := done
      all_goals simp only [List.cons_append, List.nil_append, load_cons, load_nil,
        Function.update_apply]
      all_goals dsimp only [rqWeight] at held ⊢
      all_goals first
        | exact (sub_self (_ : ℤ)).symm
        | grind
  | lock step =>
    rw [execLock_frame done, (exec_expands done).rq_load (by simp), sub_self]
    exact (sub_self _).symm
  | obj step =>
    rw [execObj_frame done, (exec_expands done).rq_load (by simp), sub_self]
    exact (sub_self _).symm
  | bind step =>
    rw [execBind_frame done, (exec_expands done).rq_load (by simp), sub_self]
    exact (sub_self _).symm
  | tasklet step =>
    rw [execTasklet_frame done, (exec_expands done).rq_load (by simp), sub_self]
    exact (sub_self _).symm
  | acct step =>
    rw [execAcct_frame done, (exec_expands done).rq_load (by simp), sub_self]
    exact (sub_self _).symm
  | wait step =>
    rw [execWait_frame done, (exec_expands done).rq_load (by simp), sub_self]
    exact (sub_self _).symm
  | ep step =>
    rw [execEp_frame done, (exec_expands done).rq_load (by simp), sub_self]
    exact (sub_self _).symm

/-- Starting a CPU's operation takes the run-queue lock to requeue. -/
theorem startCpu_rq {todo : Actor ι κ → Code ι} {op : CpuOp ι} {actor : Actor ι κ}
    {s s' : Shared ι κ} {code : Code ι} {t : ι}
    (done : startCpu s todo actor op = some (s', code)) :
    load (rqWeight t) code = (s'.rqLock t).isSome.toInt - (s.rqLock t).isSome.toInt := by
  cases op <;> simp only [startCpu, withEpoll, cmgroupDetach, lockoutTasklet,
    cmgroupTaskDequeued_requeue] at done
  all_goals repeat' split at done
  all_goals simp only [Option.some.injEq, Prod.mk.injEq, reduceCtorEq] at done
  all_goals obtain ⟨rfl, rfl⟩ := done
  all_goals simp only [List.cons_append, List.nil_append, load_cons, load_nil, rqWeight,
    Function.update_apply]
  all_goals first
    | exact (sub_self (_ : ℤ)).symm
    | grind

/-- Starting a task's operation takes no run-queue lock. -/
theorem startTask_rq {op : TaskOp ι} {s s' : Shared ι κ} {code : Code ι} {t p : ι}
    (done : startTask s p op = some (s', code)) : load (rqWeight t) code = 0 := by
  cases op <;> simp only [startTask, withEpoll, cmgroupFromFd, cmgroupDetach, lockoutTasklet,
    epScanReadyList] at done
  all_goals repeat' split at done
  all_goals simp only [Option.some.injEq, Prod.mk.injEq, reduceCtorEq] at done
  all_goals obtain ⟨-, rfl⟩ := done
  all_goals rfl

/-- The run-queue lock is held exactly while remaining code has to release it. -/
theorem Reachable.rq (reached : Reachable y) (t : ι) :
    total (rqWeight t) y.todo = (y.shared.rqLock t).isSome.toInt := by
  refine reached.ledger (fun s => (s.rqLock t).isSome.toInt) ?_ ?_
  · intro y initial
    simp [initial.rqLock]
  · intro y label actor spent s gained rest reached balance before effect
    cases effect with
    | @exec _ _ step _ _ done =>
      rw [load_cons, load_nil, add_zero]
      refine exec_rq (fun holds => ?_) done
      have member : step ∈ y.todo actor := by simp [before]
      have upper := weight_le_total (rqWeight_nonneg t) member
      revert balance
      cases (y.shared.rqLock t).isSome
      · simp
        omega
      · simp
    | task idle able done =>
      rw [startTask_rq done, load_nil, startTask_frame reached.unknown done]
      simp
    | cpu idle done =>
      rw [load_nil, sub_zero]
      exact startCpu_rq done

/-- The task is being activated: it exists, is not on its run queue, and was woken or forked. -/
def activating (t : ι) (s : Shared ι κ) : ℤ :=
  if s.taskLife t ≠ .unborn ∧ s.onRq t = false ∧ (s.state t = .waking ∨ s.state t = .running) then 1
  else 0

/-- How the code of tasks fits their scheduling. -/
structure Awake (y : Sys ι κ) : Prop where
  /-- A task that was not forked does nothing. -/
  unborn : ∀ t, y.shared.taskLife t = .unborn → y.todo (.task t) = [] ∧
    y.shared.onRq t = false ∧ y.shared.state t = .running
  /-- A task executes code while it is on its run queue. -/
  runs : ∀ t, y.todo (.task t) = [] ∨ (y.todo (.task t)).head? = some (.sched (.resume t)) ∨
    y.shared.onRq t = true
  /-- A task on its run queue is not waking. -/
  queued : ∀ t, y.shared.onRq t = true → y.shared.state t ≠ .waking
  /-- A task that leaves its run queue sleeps. -/
  leaving : ∀ actor t, .sched (.offRq t) ∈ y.todo actor →
    y.shared.state t ≠ .waking ∧ y.shared.state t ≠ .running
  /-- A task that is being activated is activated once. -/
  once : ∀ t, total (activateWeight t) y.todo + (y.shared.wakeList t).toInt =
    activating t y.shared

/-- Code neither creates nor ends tasks. -/
theorem exec_taskLife {actor : Actor ι κ} {choice : Choice} {s s' : Shared ι κ} {step : Instr ι}
    {code : Code ι} (done : exec actor choice s step = some (s', code)) :
    s'.taskLife = s.taskLife := by
  cases step with
  | sched step => rw [execSched_frame done]
  | acct step => rw [execAcct_frame done]
  | obj step => rw [execObj_frame done]
  | lock step => rw [execLock_frame done]
  | bind step => rw [execBind_frame done]
  | tasklet step => rw [execTasklet_frame done]
  | wait step => rw [execWait_frame done]
  | ep step => rw [execEp_frame done]

/-- A task decides to leave its run queue when it sleeps. -/
theorem exec_offRq {actor : Actor ι κ} {choice : Choice} {s s' : Shared ι κ} {step : Instr ι}
    {code : Code ι} {t : ι} (done : exec actor choice s step = some (s', code))
    (member : .sched (.offRq t) ∈ code) :
    step = .sched (.schedule t) ∧ s'.state t = s.state t ∧ s.state t ≠ .running := by
  have flow := exec_expands done
  obtain rfl : step = .sched (.schedule t) := by
    induction flow <;> simp_all
  refine ⟨rfl, ?_⟩
  simp only [exec, execSched] at done
  repeat' split at done
  all_goals simp only [Option.some.injEq, Prod.mk.injEq, reduceCtorEq] at done
  all_goals obtain ⟨rfl, rfl⟩ := done
  · simp at member
  · simp at member
  · exact ⟨rfl, ‹_›⟩

/-- A task that leaves its run queue holds the run-queue lock. -/
theorem Reachable.leaving_locked (reached : Reachable y) {actor : Actor ι κ} {t : ι}
    (member : .sched (.offRq t) ∈ y.todo actor) : y.shared.rqLock t ≠ none := by
  have lower := weight_le_total (rqWeight_nonneg t) member
  have weighs : rqWeight t (.sched (.offRq t) : Instr ι) = 1 := by simp [rqWeight]
  intro free
  have ledger := reached.rq t
  simp [free] at ledger
  omega

/-- A task that leaves its run queue is not entering it. -/
theorem Reachable.leaving_alone (reached : Reachable y) {actor other : Actor ι κ} {t : ι}
    (member : .sched (.offRq t) ∈ y.todo actor) : .sched (.enterRq t) ∉ y.todo other := by
  intro enters
  have both := weight_add_weight_le_total (rqWeight_nonneg t) member enters (by simp)
  have ledger := reached.rq t
  have bound : ∀ b : Bool, b.toInt ≤ 1 := by decide
  have := bound (y.shared.rqLock t).isSome
  simp [rqWeight] at both
  omega

/-- Whether a task is being activated does not depend on tasks that are on their run queue. -/
theorem activating_queued {t : ι} {s : Shared ι κ} (queued : s.onRq t = true) :
    activating t s = 0 := by
  simp [activating, queued]

theorem activating_le_one (t : ι) (s : Shared ι κ) : activating t s ≤ 1 := by
  unfold activating
  split_ifs <;> decide

/-- Code that a task executes shows that the task is on its run queue. -/
theorem Awake.executes (awake : Awake y) {t : ι} {step : Instr ι} {rest : Code ι}
    (head : y.todo (.task t) = step :: rest) (other : step ≠ .sched (.resume t)) :
    y.shared.onRq t = true := by
  rcases awake.runs t with idle | resumes | queued
  · simp [head] at idle
  · simp [head] at resumes
    exact absurd resumes other
  · exact queued

/-- Activations in progress keep the task off its run queue. -/
theorem Awake.entering (awake : Awake y) {t : ι} {actor : Actor ι κ} {step : Instr ι}
    (member : step ∈ y.todo actor) (activates : activateWeight t step = 1) :
    activating t y.shared = 1 ∧ total (activateWeight t) y.todo = 1 ∧
      y.shared.wakeList t = false := by
  have lower := weight_le_total (activateWeight_nonneg t) member
  have once := awake.once t
  have upper := activating_le_one t y.shared
  revert once
  cases y.shared.wakeList t <;> simp <;> omega

section Exec

variable {actor : Actor ι κ} {choice : Choice} {y' : Sys ι κ} {step : Instr ι}
  {gained rest : Code ι}

/-- Executing code keeps the code of tasks and their scheduling together. -/
theorem Awake.exec (reached : Reachable y) (awake : Awake y)
    (done : exec actor choice y.shared step = some (y'.shared, gained))
    (move : Move y.todo y'.todo actor [step] gained) : Awake y' := by
  obtain ⟨rest, head, after⟩ := id move
  have member : step ∈ y.todo actor := by simp [head]
  have life := exec_taskLife done
  -- a task that executes its own code is on its run queue
  have own : ∀ {t}, step.self = some t → actor = .task t := fun self => reached.self member self
  have queued : ∀ {t}, step.self = some t → step ≠ .sched (.resume t) →
      y.shared.onRq t = true := by
    intro t self other
    obtain rfl := own self
    exact awake.executes head other
  constructor
  case unborn =>
    intro t unborn
    rw [life] at unborn
    obtain ⟨idle, absent, state⟩ := awake.unborn t unborn
    have foreign : actor ≠ .task t := by
      rintro rfl
      simp [idle] at head
    refine ⟨by rw [move.other foreign.symm, idle], ?_⟩
    cases exec_transit t done with
    | quiet state' onRq => exact ⟨onRq.trans absent, state'.trans state⟩
    | own self => exact absurd (own self) foreign
    | leave leaves => exact absurd (own (by simp [leaves, Instr.self])) foreign
    | enter enters =>
      have active := (awake.entering (t := t) member (by simp [enters, activateWeight])).1
      simp [activating, unborn] at active
    | woken asleep => simp [state, TaskState.wakeable] at asleep
    | waking asleep => simp [state, TaskState.wakeable] at asleep
  case runs =>
    intro t
    by_cases mine : actor = .task t
    · subst mine
      right
      by_cases resumes : step = .sched (.resume t)
      · right
        subst resumes
        simp only [Cmgroups.exec, execSched] at done
        split at done
        all_goals simp only [Option.some.injEq, Prod.mk.injEq, reduceCtorEq] at done
        rw [← done.1]
        exact (‹_ ∧ _›).1
      · have before := awake.executes head resumes
        cases exec_transit t done with
        | quiet state onRq => exact .inr (onRq.trans before)
        | own self resumed onRq => exact .inr (onRq.trans before)
        | leave leaves =>
          left
          subst leaves
          have next := reached.leaves_head head
          cases exec_expands done
          rw [after, Function.update_self, List.nil_append]
          exact next.1 t rfl
        | enter enters state onRq => exact .inr onRq
        | woken asleep free queued state onRq => exact .inr onRq
        | waking asleep free absent => simp [before] at absent
    · rw [move.other (Ne.symm mine)]
      refine (awake.runs t).imp_right (Or.imp_right fun before => ?_)
      cases exec_transit t done with
      | quiet state onRq => exact onRq.trans before
      | own self => exact absurd (own self) mine
      | leave leaves => exact absurd (own (by simp [leaves, Instr.self])) mine
      | enter enters state onRq => exact onRq
      | woken asleep free queued state onRq => exact onRq
      | waking asleep free absent => simp [before] at absent
  case queued =>
    intro t on
    cases exec_transit t done with
    | quiet state onRq =>
      rw [state]
      exact awake.queued t (onRq ▸ on)
    | own self resumed onRq wakeList activations asleep =>
      refine asleep.resolve_right fun waking => ?_
      exact reached.set_ne_waking (waking ▸ member)
    | leave leaves state onRq => simp [onRq] at on
    | enter enters state => simp [state]
    | woken asleep free queued state => simp [state]
    | waking asleep free absent state onRq => simp [onRq] at on
  case leaving =>
    intro other t present
    rcases move.mem present with old | ⟨rfl, new⟩
    · have before := awake.leaving other t old
      have sleeps : other = .task t := reached.self old rfl
      cases exec_transit t done with
      | quiet state => rwa [state]
      | own self =>
        -- between the decision to leave and leaving, the task does not set its state
        obtain rfl := own self
        obtain rfl := sleeps
        have later : .sched (.offRq t) ∈ rest := by
          rw [after, Function.update_self, List.mem_append] at present
          refine present.resolve_left fun new => ?_
          obtain ⟨rfl, same, -⟩ := exec_offRq done new
          rw [head] at old
          have departs := (reached.leaves_head head).2 t
            ((List.mem_cons.1 old).resolve_left (by simp))
          simp [Instr.departs] at departs
        have departs := (reached.leaves_head head).2 t later
        rwa [exec_departs departs done]
      | leave leaves state => rwa [state]
      | enter enters => exact absurd (enters ▸ member) (reached.leaving_alone old)
      | woken asleep free => exact absurd free (reached.leaving_locked old)
      | waking asleep free => exact absurd free (reached.leaving_locked old)
    · obtain ⟨rfl, same, asleep⟩ := exec_offRq done new
      rw [same]
      exact ⟨awake.queued t (queued rfl (by simp)), asleep⟩
  case once =>
    intro t
    have once := awake.once t
    have moved := move.total (activateWeight t)
    rw [load_cons, load_nil, add_zero] at moved
    cases exec_transit t done with
    | quiet state onRq wakeList activations =>
      have same : activating t y'.shared = activating t y.shared := by
        simp only [activating, life, state, onRq]
      rw [same, wakeList]
      omega
    | own self resumed onRq wakeList activations =>
      have before := queued self resumed
      rw [activating_queued before] at once
      rw [activating_queued (onRq.trans before), wakeList]
      omega
    | leave leaves state onRq wakeList activations =>
      have before := queued (t := t) (by simp [leaves, Instr.self]) (by simp [leaves])
      have asleep := awake.leaving actor t (leaves ▸ member)
      have none : activating t y'.shared = 0 := by
        simp [activating, state, asleep.1, asleep.2]
      rw [activating_queued before] at once
      rw [none, wakeList]
      omega
    | enter enters state onRq wakeList activations =>
      have weighs : activateWeight t step = 1 := by simp [enters, activateWeight]
      obtain ⟨active, single, handed⟩ := awake.entering member weighs
      rw [activating_queued onRq, wakeList, handed]
      simp
      omega
    | woken asleep free queued state onRq wakeList activations =>
      rw [activating_queued queued] at once
      rw [activating_queued onRq, wakeList]
      omega
    | waking asleep free absent state onRq activations =>
      have born : y.shared.taskLife t ≠ .unborn := by
        intro unborn
        simp [(awake.unborn t unborn).2.2, TaskState.wakeable] at asleep
      have before : activating t y.shared = 0 := by
        have sleeps : y.shared.state t ≠ .waking ∧ y.shared.state t ≠ .running := by
          constructor <;> intro same <;> simp [same, TaskState.wakeable] at asleep
        simp [activating, sleeps.1, sleeps.2]
      have now : activating t y'.shared = 1 := by
        simp [activating, life, born, onRq, state]
      have nonneg : 0 ≤ total (activateWeight t) y.todo :=
        Finset.sum_nonneg fun actor _ => load_nonneg (activateWeight_nonneg t) (y.todo actor)
      rw [before] at once
      rw [now]
      rcases activations with ⟨wakeList, more⟩ | ⟨wakeList, same⟩
      · rw [wakeList]
        omega
      · rw [wakeList]
        revert once
        cases y.shared.wakeList t <;> simp <;> omega

end Exec

/-- What starting a task's operation does to the scheduling of a task. -/
theorem startTask_transit {op : TaskOp ι} {s s' : Shared ι κ} {code : Code ι} {p : ι} (t : ι)
    (done : startTask s p op = some (s', code)) :
    (s'.taskLife t = s.taskLife t ∨ t = p ∧ s'.taskLife t = .freed) ∧ s'.state t = s.state t ∧
        load (activateWeight t) code = 0 ∨
      s.taskLife t = .unborn ∧ s'.taskLife t = .live ∧ s'.state t = .running ∧
        load (activateWeight t) code = 1 := by
  cases op with
  | fork u =>
    simp only [startTask] at done
    split at done
    all_goals simp only [Option.some.injEq, Prod.mk.injEq, reduceCtorEq] at done
    obtain ⟨rfl, rfl⟩ := done
    by_cases same : t = u
    · subst same
      exact .inr ⟨‹_›, by simp, by simp, by simp [activateWeight]⟩
    · exact .inl ⟨.inl (by simp [same]), by simp [same], by simp [activateWeight, Ne.symm same]⟩
  | exit =>
    simp only [startTask, Option.some.injEq, Prod.mk.injEq] at done
    obtain ⟨rfl, rfl⟩ := done
    by_cases same : t = p
    · exact .inl ⟨.inr ⟨same, by simp [same]⟩, rfl, rfl⟩
    · exact .inl ⟨.inl (by simp [same]), rfl, rfl⟩
  | _ =>
    simp only [startTask, withEpoll, cmgroupFromFd, cmgroupDetach, lockoutTasklet,
      epScanReadyList] at done
    repeat' split at done
    all_goals simp only [Option.some.injEq, Prod.mk.injEq, reduceCtorEq] at done
    all_goals obtain ⟨rfl, rfl⟩ := done
    all_goals exact .inl ⟨.inl rfl, rfl, rfl⟩

/-- What starting a CPU's operation does to the scheduling of a task. -/
theorem startCpu_transit {todo : Actor ι κ → Code ι} {op : CpuOp ι} {actor : Actor ι κ}
    {s s' : Shared ι κ} {code : Code ι} (t : ι)
    (done : startCpu s todo actor op = some (s', code)) :
    s'.taskLife = s.taskLife ∧ s'.state = s.state ∧ s'.onRq = s.onRq ∧
      load (activateWeight t) code + (s'.wakeList t).toInt = (s.wakeList t).toInt := by
  cases op <;> simp only [startCpu, withEpoll, cmgroupDetach, lockoutTasklet,
    cmgroupTaskDequeued_requeue] at done
  all_goals repeat' split at done
  all_goals simp only [Option.some.injEq, Prod.mk.injEq, reduceCtorEq] at done
  all_goals obtain ⟨rfl, rfl⟩ := done
  all_goals refine ⟨rfl, rfl, rfl, ?_⟩
  all_goals simp only [List.cons_append, List.nil_append, load_cons, load_nil, activateWeight,
    Function.update_apply]
  all_goals grind

/-- No code leaves the run queue when it starts. -/
theorem Starts.stays {s : Shared ι κ} {actor : Actor ι κ} {code : Code ι}
    (flow : Starts s actor code) (t : ι) : .sched (.offRq t) ∉ code := by
  induction flow <;> simp

/-- In every run the code of tasks fits their scheduling. -/
theorem Reachable.awake (reached : Reachable y) : Awake y := by
  induction reached with
  | start initial =>
    constructor
    case unborn =>
      intro t unborn
      rcases initial.tasks t with ⟨live, -⟩ | ⟨-, absent⟩
      · simp [live] at unborn
      · exact ⟨initial.idle _, absent, initial.state t⟩
    case runs => exact fun t => .inl (initial.idle _)
    case queued => simp [initial.state]
    case leaving => simp [initial.idle]
    case once =>
      intro t
      rw [total_idle _ initial.idle, initial.wakeList t]
      rcases initial.tasks t with ⟨live, on⟩ | ⟨unborn, -⟩
      · simp [activating, on]
      · simp [activating, unborn]
  | @step label y y' reached _ taken ih =>
    obtain ⟨actor, spent, gained, effect, move⟩ := next_effect taken
    cases effect with
    | exec done => exact ih.exec reached done move
    | @task p op _ _ idle able done =>
      have frame := startTask_frame (Reachable.unknown reached) done
      have onRq : y'.shared.onRq = y.shared.onRq := by rw [frame]
      have wakeList : y'.shared.wakeList = y.shared.wakeList := by rw [frame]
      simp only [canStart, Bool.and_eq_true, decide_eq_true_eq] at able
      obtain ⟨⟨live, on⟩, running⟩ := able
      have flow := startTask_starts done
      constructor
      case unborn =>
        intro t unborn
        rcases startTask_transit t done with ⟨life | ⟨rfl, freed⟩, state, -⟩ | ⟨-, born, -⟩
        · rw [life] at unborn
          obtain ⟨none, absent, still⟩ := ih.unborn t unborn
          have other : t ≠ p := by
            rintro rfl
            simp [live] at unborn
          exact ⟨by rw [move.other (by simpa using other), none], by rw [onRq, absent],
            state.trans still⟩
        · simp [freed] at unborn
        · simp [born] at unborn
      case runs =>
        intro t
        by_cases same : t = p
        · subst same
          exact .inr (.inr (by rw [onRq, on]))
        · rw [move.other (by simpa using same), onRq]
          exact ih.runs t
      case queued =>
        intro t queued
        rw [onRq] at queued
        rcases startTask_transit t done with ⟨-, state, -⟩ | ⟨-, -, state, -⟩
        · rw [state]
          exact ih.queued t queued
        · simp [state]
      case leaving =>
        intro other t present
        have old := (move.mem present).resolve_right fun new => flow.stays t new.2
        have before := ih.leaving other t old
        rcases startTask_transit t done with ⟨-, state, -⟩ | ⟨unborn, -⟩
        · rwa [state]
        · obtain rfl : other = .task t := Reachable.self reached old rfl
          simp [(ih.unborn t unborn).1] at old
      case once =>
        intro t
        have once := ih.once t
        have moved := move.total (activateWeight t)
        rw [load_nil] at moved
        rw [wakeList]
        rcases startTask_transit t done with ⟨life, state, none⟩ | ⟨unborn, born, state, one⟩
        · have same : activating t y'.shared = activating t y.shared := by
            rcases life with life | ⟨rfl, -⟩
            · simp only [activating, life, state, onRq]
            · rw [activating_queued on, activating_queued (by rw [onRq, on])]
          omega
        · have before : activating t y.shared = 0 := by simp [activating, unborn]
          have now : activating t y'.shared = 1 := by
            simp [activating, born, state, onRq, (ih.unborn t unborn).2.1]
          omega
    | cpu idle done =>
      have flow := startCpu_starts done
      have tasks : ∀ t, y'.todo (.task t) = y.todo (.task t) := fun t => move.other (by simp)
      constructor
      case unborn =>
        intro t unborn
        obtain ⟨life, state, onRq, -⟩ := startCpu_transit t done
        rw [tasks, onRq, state]
        exact ih.unborn t (life ▸ unborn)
      case runs =>
        intro t
        obtain ⟨-, -, onRq, -⟩ := startCpu_transit t done
        rw [tasks, onRq]
        exact ih.runs t
      case queued =>
        intro t
        obtain ⟨-, state, onRq, -⟩ := startCpu_transit t done
        rw [state, onRq]
        exact ih.queued t
      case leaving =>
        intro other t present
        obtain ⟨-, state, -⟩ := startCpu_transit t done
        rw [state]
        exact ih.leaving other t ((move.mem present).resolve_right fun new => flow.stays t new.2)
      case once =>
        intro t
        obtain ⟨life, state, onRq, change⟩ := startCpu_transit t done
        have once := ih.once t
        have moved := move.total (activateWeight t)
        rw [load_nil] at moved
        have same : activating t y'.shared = activating t y.shared := by
          simp only [activating, life, state, onRq]
        omega

end Reached

end Cmgroups
