import Cmgroups.Verif.Lifetime
import Cmgroups.Verif.Ownership

/-!
# Freed memory

No micro-step accesses a cmgroup that was returned to the allocator, with one exception:
`tasklet_unlock`, which clears the `RUN` bit of a tasklet whose handler has dropped its reference
before. Whether the cmgroup is gone by then depends only on who drops the last reference.
-/

set_option linter.unusedSectionVars false

namespace Cmgroups

open Function (update)
open Pool

variable {ι κ : Type} [DecidableEq ι] [DecidableEq κ]

/-- The micro-step reads or writes a field of the cmgroup, or its own queue or lock: it names them,
or finds the cmgroup through the epoll it is executed on. -/
def Instr.accesses (s : Shared ι κ) (g : GroupId) (step : Instr ι) : Prop :=
  step.names g ∨ ∃ t e pc locals, step = .ep (.poll t e pc locals) ∧ s.epCmgroup e = some g

/-- Instances of the tasklet that `tasklet_action` has locked and not unlocked yet. -/
def runWeight (g : GroupId) : Instr ι → ℤ
  | .tasklet (.clearSched h) | .tasklet (.unlock h) => if h = g then 1 else 0
  | _ => 0

/-- What the tasklet does while it has a reference. -/
def graspNeed (g : GroupId) : Instr ι → ℤ
  | .lock (.lockVia h via) | .lock (.spinVia h _ via) => if h = g then via.tasklets else 0
  | .lock (.wakeOne spin) => if spin = .own g then 1 else 0
  | .tasklet (.clear h) => if h = g then 1 else 0
  | _ => 0

/-- The micro-step is about a task that belongs to the cmgroup. -/
def Instr.belongs (g : GroupId) : Instr ι → Prop
  | .acct (.clearCharged _ h _) | .acct (.charge _ h) | .acct (.decAvailable _ h)
  | .acct (.uncharge _ h) | .acct (.incAvailable _ h) | .acct (.clearCmgroup _ h)
  | .obj (.fire h (.lessRunnable _)) | .obj (.ref h (some (.lessRunnable _))) => h = g
  | _ => False

/-- A tasklet that hands its reference over unlocks the cmgroup between `tasklet_schedule` and
`tasklet_unlock`. -/
def HandsOver (g : GroupId) (step : Instr ι) (rest : Code ι) : Prop :=
  ∀ later, rest = .lock (.unlockVia g .tasklet) :: .tasklet (.unlock g) :: later →
    step = .obj (.taskletSchedule g)

/-- The micro-step is one of the handler, up to its last test. -/
def Instr.handles (g : GroupId) : Instr ι → Prop
  | .tasklet (.again h _) | .tasklet (.act h _) | .tasklet (.reset h _) | .tasklet (.wakeAll h _)
  | .tasklet (.avail h _) | .tasklet (.wake h _) | .tasklet (.recheckClear h _)
  | .tasklet (.recheck h _) | .tasklet (.reassert h _) => h = g
  | _ => False

/-- `tasklet_unlock` follows the handler. -/
def Returns (g : GroupId) (step : Instr ι) (rest : Code ι) : Prop :=
  step.handles g → ∃ later, rest = .tasklet (.unlock g) :: later

/-- The handler unlocks the cmgroup while it has a reference, or as its last micro-step. -/
def Unlocks (g : GroupId) (step : Instr ι) (rest : Code ι) : Prop :=
  step = .lock (.unlockVia g .tasklet) →
    ∃ last later, rest = last :: later ∧ (refWeight g last = 1 ∨ last = .tasklet (.unlock g))

/-- Why a cmgroup is allocated when a micro-step accesses it: the micro-step owns a reference, or the
tasklet's code after it does, or the call, its event source or a task. There is no reason for
`tasklet_unlock`. -/
def Reason (g : GroupId) (step : Instr ι) : Prop :=
  refWeight g step = 1 ∨ graspNeed g step = 1 ∨ callNeed g step = 1 ∨ step.relies g ∨
    step.unlocks g ∨ step.belongs g ∨ startingWeight g step = 1 ∨
    step = .lock (.unlockVia g .tasklet) ∨ step = .tasklet (.unlock g)

section Flow

variable {s s' : Shared ι κ} {actor : Actor ι κ} {choice : Choice} {step : Instr ι}
  {code : Code ι} {g : GroupId}

theorem runWeight_nonneg (step : Instr ι) : 0 ≤ runWeight g step := by
  unfold runWeight
  split
  all_goals first
    | exact le_rfl
    | split_ifs <;> decide

theorem graspNeed_nonneg (step : Instr ι) : 0 ≤ graspNeed g step := by
  unfold graspNeed
  split
  case h_1 via | h_2 via => cases via <;> dsimp only [Via.tasklets] <;> split_ifs <;> decide
  all_goals first
    | exact le_rfl
    | split_ifs <;> decide

theorem Expands.grasp_secured (flow : Expands s actor step code) :
    Secured (refWeight g) (graspNeed g) (min (-0) (refWeight g step - graspNeed g step)) code := by
  have own : ∀ h, s.wqOf h = .own g → h = g := fun h same => by
    by_contra other
    exact wqOf_ne_own s (Ne.symm other) same.symm
  induction flow <;> simp only [secured_cons, secured_nil, load_cons, load_nil, and_true] <;>
    dsimp only [refWeight, instanceWeight, operationWeight, graspNeed, Via.tasklets]
  all_goals first
    | decide
    | (split_ifs <;> omega)
    | (split_ifs <;> first | omega | grind)

theorem Starts.grasp_secured (flow : Starts s actor code) :
    Secured (refWeight g) (graspNeed g) 0 code := by
  induction flow <;> simp only [secured_cons, secured_nil, load_cons, load_nil, and_true] <;>
    dsimp only [refWeight, instanceWeight, operationWeight, graspNeed, Via.tasklets]
  all_goals first
    | decide
    | (split_ifs <;> omega)

/-- Only the tasklet deals with the `RUN` bit. -/
theorem Expands.run_load (flow : Expands s actor step code)
    (tasklet : ∀ i, step = .tasklet i → ∃ h pass, i = .wake h pass) :
    load (runWeight g) code = runWeight g step := by
  induction flow
  all_goals first
    | rfl
    | (simp [runWeight]; done)
    | exact absurd (tasklet _ rfl) (by simp)

/-- A micro-step changes the `RUN` bit as it changes who has locked the tasklet. -/
theorem exec_run (held : 1 ≤ runWeight g step → s.run g = true)
    (done : exec actor choice s step = some (s', code)) :
    load (runWeight g) code - runWeight g step = (s'.run g).toInt - (s.run g).toInt := by
  cases step with
  | tasklet step =>
    cases step with
    | wake h pass =>
      rw [wake_frame done, (exec_expands done).run_load (by simp), sub_self]
      exact (sub_self _).symm
    | _ =>
      simp only [exec, execTasklet] at done
      repeat' split at done
      all_goals simp only [Option.some.injEq, Prod.mk.injEq, reduceCtorEq] at done
      all_goals obtain ⟨rfl, rfl⟩ := done
      all_goals simp only [outTasklet, load_append, load_cons, load_nil, Function.update_apply]
      all_goals dsimp only [runWeight] at held ⊢
      all_goals first
        | exact (sub_self (_ : ℤ)).symm
        | grind
  | obj step =>
    rw [execObj_frame done, (exec_expands done).run_load (by simp), sub_self]
    exact (sub_self _).symm
  | bind step =>
    rw [execBind_frame done, (exec_expands done).run_load (by simp), sub_self]
    exact (sub_self _).symm
  | sched step =>
    rw [execSched_frame done, (exec_expands done).run_load (by simp), sub_self]
    exact (sub_self _).symm
  | acct step =>
    rw [execAcct_frame done, (exec_expands done).run_load (by simp), sub_self]
    exact (sub_self _).symm
  | lock step =>
    rw [execLock_frame done, (exec_expands done).run_load (by simp), sub_self]
    exact (sub_self _).symm
  | wait step =>
    rw [execWait_frame done, (exec_expands done).run_load (by simp), sub_self]
    exact (sub_self _).symm
  | ep step =>
    rw [execEp_frame done, (exec_expands done).run_load (by simp), sub_self]
    exact (sub_self _).symm

/-- No operation starts in the middle of a tasklet's run. -/
theorem Starts.run_load (flow : Starts s actor code) : load (runWeight g) code = 0 := by
  induction flow <;> simp [runWeight]

/-- A tasklet hands over in this order. -/
theorem Expands.handsOver (flow : Expands s actor step code) (rest : Code ι)
    (order : HandsOver g step rest) :
    Tails (fun later tail => HandsOver g later (tail ++ rest)) code := by
  induction flow <;> simp only [tails_cons, tails_nil, List.cons_append, List.nil_append, HandsOver,
    reduceCtorEq, imp_false, false_implies, List.cons.injEq, true_and, and_true, false_and, and_false,
    not_false_eq_true, implies_true] at order ⊢
  all_goals grind

theorem Starts.handsOver (flow : Starts s actor code) : Tails (HandsOver g) code := by
  induction flow <;> simp [HandsOver]

/-- The handler returns to `tasklet_action`. -/
theorem Expands.returns (flow : Expands s actor step code) (rest : Code ι)
    (returns : Returns g step rest) :
    Tails (fun later tail => Returns g later (tail ++ rest)) code := by
  induction flow <;> simp only [tails_cons, tails_nil, List.cons_append, List.nil_append, and_true] <;>
    dsimp only [Returns, Instr.handles] at returns ⊢
  all_goals first
    | exact trivial
    | exact returns
    | (simp; done)
    | simpa using returns

theorem Starts.returns (flow : Starts s actor code) : Tails (Returns g) code := by
  induction flow <;> simp [Returns, Instr.handles]

/-- Where the handler unlocks the cmgroup. -/
theorem Expands.unlocks_last (flow : Expands s actor step code) (rest : Code ι)
    (returns : Returns g step rest) :
    Tails (fun later tail => Unlocks g later (tail ++ rest)) code := by
  induction flow <;> simp only [tails_cons, tails_nil, List.cons_append, List.nil_append, Unlocks,
    reduceCtorEq, false_implies, Instr.lock.injEq, LockStep.unlockVia.injEq, and_false, true_and,
    and_true]
  case wakeAllHandOver h pass =>
    rintro rfl
    obtain ⟨later, rfl⟩ := returns rfl
    exact ⟨_, _, rfl, .inr rfl⟩
  all_goals
    rintro rfl
    exact ⟨_, _, rfl, .inl (by simp [refWeight, instanceWeight, operationWeight])⟩

theorem Starts.unlocks_last (flow : Starts s actor code) : Tails (Unlocks g) code := by
  induction flow <;> simp [Unlocks]

/-- No code starts with an unlock before `tasklet_unlock`. -/
theorem Expands.leads {later : Code ι} (flow : Expands s actor step code)
    (head : code = .lock (.unlockVia g .tasklet) :: later) :
    ∃ pass, later = [.tasklet (.recheck g pass)] := by
  induction flow <;> simp at head
  case recheckClear h pass =>
    obtain ⟨rfl, rfl⟩ := head
    exact ⟨pass, rfl⟩

theorem Starts.leads (flow : Starts s actor code) (later : Code ι) :
    code ≠ .lock (.unlockVia g .tasklet) :: later := by
  induction flow <;> simp

/-- Only `tasklet_action` clears the `SCHED` bit. -/
theorem exec_sched (done : exec actor choice s step = some (s', code)) :
    s'.sched g = s.sched g ∨ step = .obj (.taskletSchedule g) ∨ step = .tasklet (.clearSched g) := by
  cases step with
  | obj step =>
    cases step <;> simp only [exec, execObj] at done
    all_goals repeat' split at done
    all_goals simp only [Option.some.injEq, Prod.mk.injEq] at done
    all_goals obtain ⟨rfl, -⟩ := done
    all_goals grind
  | tasklet step =>
    cases step with
    | wake h pass =>
      rw [wake_frame done]
      exact .inl rfl
    | _ =>
      simp only [exec, execTasklet] at done
      repeat' split at done
      all_goals simp only [Option.some.injEq, Prod.mk.injEq, reduceCtorEq] at done
      all_goals obtain ⟨rfl, -⟩ := done
      all_goals grind
  | bind step => rw [execBind_frame done]; exact .inl rfl
  | sched step => rw [execSched_frame done]; exact .inl rfl
  | acct step => rw [execAcct_frame done]; exact .inl rfl
  | lock step => rw [execLock_frame done]; exact .inl rfl
  | wait step => rw [execWait_frame done]; exact .inl rfl
  | ep step => rw [execEp_frame done]; exact .inl rfl

/-- `tasklet_schedule` sets it. -/
theorem exec_taskletSchedule
    (done : exec actor choice s (.obj (.taskletSchedule g)) = some (s', code)) :
    s'.sched g = true ∧ code = [] := by
  simp only [exec, execObj] at done
  split at done
  all_goals simp only [Option.some.injEq, Prod.mk.injEq] at done
  all_goals obtain ⟨rfl, rfl⟩ := done
  · exact ⟨‹_›, rfl⟩
  · exact ⟨Function.update_self _ _ _, rfl⟩

/-- Every access has a reason to find the cmgroup allocated. -/
theorem Instr.names.reason (names : step.names g)
    (spins : ∀ h via, step = .lock (.spinVia h (.own g) via) → h = g) : Reason g step := by
  have spun : ∀ h spin via, step = .lock (.spinVia h spin via) → h = g := by
    rintro h spin via rfl
    rcases names with rfl | same
    · rfl
    · exact spins h via (by rw [same])
  unfold Instr.names at names
  split at names
  case h_58 h spin via =>
    obtain rfl := spun h spin via rfl
    cases via <;> simp [Reason, graspNeed, callNeed, Instr.relies, Via.tasklets, Via.mutexes]
  case h_64 => exact .inr (.inr (.inr (.inl names)))
  case h_65 => exact names.elim
  all_goals subst names
  case h_1 addref _ =>
    cases addref <;> simp [Reason, refWeight, instanceWeight, operationWeight, Instr.relies]
  case h_11 site =>
    rcases site with _ | _ | _ | _ <;>
      simp [Reason, callNeed, Fire.called, Instr.relies, Instr.unlocks, Instr.belongs]
  case h_13 site =>
    cases site <;> simp [Reason, callNeed, Fire.called, Instr.unlocks, Instr.belongs]
  case h_18 via | h_19 via =>
    cases via <;> simp [Reason, graspNeed, callNeed, Instr.relies, Via.tasklets, Via.mutexes]
  all_goals
    simp [Reason, refWeight, instanceWeight, operationWeight, graspNeed, callNeed, startingWeight,
      Instr.relies, Instr.unlocks, Instr.belongs]

/-- It is done under the mutex, which it releases last. -/
theorem Instr.unlocks.needs (unlocks : step.unlocks g) (release : step ≠ .lock (.mtxUnlock g)) :
    mtxNeed g step = 1 := by
  unfold Instr.unlocks at unlocks
  split at unlocks
  case h_4 => exact absurd (unlocks ▸ rfl) release
  case h_5 => exact unlocks.elim
  all_goals simp [mtxNeed, Fire.mutexes, unlocks]

/-- Operations of tasks begin with cmgroups that have a file. -/
theorem startTask_same {t : ι} {op : TaskOp ι} (born : s.life g ≠ .unborn) (closed : s.files g = 0)
    (done : startTask s t op = some (s', code)) : SameGroup g s s' := by
  have other : ∀ {h}, s.life h = .unborn ∨ s.files h ≠ 0 → g ≠ h := by
    rintro h fresh rfl
    rcases fresh with unborn | opened
    · exact born unborn
    · exact opened closed
  cases op <;> simp only [startTask, withEpoll, cmgroupFromFd] at done
  all_goals repeat' split at done
  all_goals simp only [Option.some.injEq, Prod.mk.injEq, reduceCtorEq] at done
  all_goals obtain ⟨rfl, -⟩ := done
  all_goals constructor
  all_goals first
    | rfl
    | exact Function.update_of_ne (other (by tauto)) _ _
    | (refine Function.update_of_ne ?_ _ _; intro same; exact other (by tauto) (by simpa using same))

/-- Operations of CPUs, with cmgroups whose tasklet is linked or that are queued to be freed. -/
theorem startCpu_same {todo : Actor ι κ → Code ι} {op : CpuOp ι} (linked : s.linked g = false)
    (queued : s.freeWork g = none) (done : startCpu s todo actor op = some (s', code)) :
    SameGroup g s s' := by
  cases op <;> simp only [startCpu, withEpoll] at done
  all_goals repeat' split at done
  all_goals simp only [Option.some.injEq, Prod.mk.injEq, reduceCtorEq] at done
  all_goals obtain ⟨rfl, -⟩ := done
  all_goals constructor
  all_goals first
    | rfl
    | (refine Function.update_of_ne ?_ _ _; rintro rfl; simp_all)

end Flow

section Run

variable {y y' : Sys ι κ} {actor other : Actor ι κ} {choice : Choice} {step : Instr ι}
  {gained rest : Code ι} {g : GroupId} [Fintype ι] [Fintype κ]

/-- The `RUN` bit stands for one instance of the tasklet. -/
theorem Reachable.running (reached : Reachable y) (g : GroupId) :
    total (runWeight g) y.todo = (y.shared.run g).toInt := by
  refine reached.ledger (fun s => (s.run g).toInt) ?_ ?_
  · intro y initial
    simp [initial.run]
  · intro y label actor spent s gained rest reached balance before effect
    cases effect with
    | @exec _ _ step _ _ done =>
      rw [load_cons, load_nil, add_zero]
      refine exec_run (fun held => ?_) done
      have member : step ∈ y.todo actor := by simp [before]
      have lower := weight_le_total (runWeight_nonneg (g := g)) member
      cases run : y.shared.run g with
      | true => rfl
      | false => simp [run] at balance; omega
    | task idle able done =>
      rw [(startTask_starts done).run_load, load_nil, startTask_frame reached.unknown done]
      simp
    | cpu idle done =>
      rw [(startCpu_starts done).run_load, load_nil, startCpu_frame done]
      simp

/-- While one actor runs the tasklet, no other does. -/
theorem Reachable.run_alone (reached : Reachable y)
    (runs : .tasklet (.unlock g) ∈ y.todo actor) (member : step ∈ y.todo other)
    (other : step ≠ .tasklet (.unlock g)) : runWeight g step = 0 := by
  have both := weight_add_weight_le_total (runWeight_nonneg (g := g)) runs member other.symm
  have nonneg := runWeight_nonneg (g := g) step
  have one : runWeight g (.tasklet (.unlock g) : Instr ι) = 1 := by simp [runWeight]
  rw [reached.running g, one] at both
  revert both
  cases y.shared.run g <;> simp <;> omega

/-- The tasklet has a reference, or is about to get one, for all it does before its last unlock. -/
theorem Reachable.grasp_secured (reached : Reachable y) (g : GroupId) (actor : Actor ι κ) :
    Secured (refWeight g) (graspNeed g) 0 (y.todo actor) :=
  reached.secured graspNeed_nonneg le_rfl Expands.grasp_secured Starts.grasp_secured actor

/-- In every run the handler unlocks the cmgroup while it has a reference, or as its last
micro-step. -/
theorem Reachable.unlocks_last (reached : Reachable y) (actor : Actor ι κ) :
    Tails (fun step rest => Returns g step rest ∧ Unlocks g step rest) (y.todo actor) :=
  reached.tails (fun flow rest both => (flow.returns rest both.1).and (flow.unlocks_last rest both.1))
    (fun flow => flow.returns.and flow.unlocks_last) actor

theorem Reachable.handsOver (reached : Reachable y) (actor : Actor ι κ) :
    Tails (HandsOver g) (y.todo actor) :=
  reached.tails Expands.handsOver Starts.handsOver actor

/-- After handing its reference over, the handler unlocks a cmgroup whose tasklet is scheduled. -/
theorem Reachable.handed (reached : Reachable y)
    (head : y.todo actor = .lock (.unlockVia g .tasklet) :: .tasklet (.unlock g) :: rest) :
    y.shared.sched g = true := by
  induction reached generalizing rest with
  | start initial => simp [initial.idle actor] at head
  | @step label before after reached _ taken ih =>
    obtain ⟨acting, spent, gained, effect, later, was, now⟩ := next_effect taken
    by_cases self : actor = acting
    · subst self
      rw [now, Function.update_self] at head
      cases effect with
      | @exec _ _ step _ _ done =>
        rw [List.singleton_append] at was
        cases gained with
        | nil =>
          have order := Reachable.handsOver (g := g) reached actor
          rw [was] at order
          obtain rfl := order.1 rest head
          exact (exec_taskletSchedule done).1
        | cons first gained =>
          simp only [List.cons_append, List.cons.injEq] at head
          obtain ⟨rfl, head⟩ := head
          obtain ⟨pass, rfl⟩ := (exec_expands done).leads rfl
          simp at head
      | task idle able done =>
        obtain rfl : later = [] := by simpa [idle] using was.symm
        rw [List.append_nil] at head
        exact absurd head ((startTask_starts done).leads _)
      | cpu idle done =>
        obtain rfl : later = [] := by simpa [idle] using was.symm
        rw [List.append_nil] at head
        exact absurd head ((startCpu_starts done).leads _)
    · rw [now, Function.update_of_ne self] at head
      have scheduled := ih head
      cases effect with
      | @exec _ _ step _ _ done =>
        rcases exec_sched (g := g) done with same | rfl | rfl
        · rw [same, scheduled]
        · exact (exec_taskletSchedule done).1
        · have runs : .tasklet (.unlock g) ∈ before.todo actor := by simp [head]
          have member : .tasklet (.clearSched g) ∈ before.todo acting := by simp [was]
          have alone := Reachable.run_alone reached runs member (by simp)
          simp [runWeight] at alone
      | task idle able done =>
        rw [startTask_frame (Reachable.unknown reached) done]
        exact scheduled
      | cpu idle done =>
        rw [startCpu_frame done]
        exact scheduled

/-- A scheduled tasklet has a reference. -/
theorem Reachable.scheduled_pos (reached : Reachable y) (scheduled : y.shared.sched g = true) :
    1 ≤ references y g := by
  have code : 0 ≤ total (instanceWeight g) y.todo :=
    Finset.sum_nonneg fun actor _ => (reached.instance_secured g actor).nonneg fun _ => le_rfl
  refine reached.references_pos (.inr (.inr (.inr (.inl ?_))))
  simp only [instances, scheduled, Bool.toInt_true]
  omega

/-- The code of an actor has a share of the references. -/
theorem Reachable.load_pos (reached : Reachable y)
    (owns : 1 ≤ load (refWeight g) (y.todo actor)) : 1 ≤ references y g := by
  have whole := load_le_total (fun other =>
    (reached.grasp_secured g other).nonneg graspNeed_nonneg) actor
  have others : 0 ≤ holders g y.shared := by
    have belongs := members_nonneg g y.shared
    have attached := attachments_nonneg g y.shared
    simp only [holders]
    cases y.shared.sched g <;> simp <;> omega
  rw [references]
  omega

/-- The task that a micro-step is about belongs to the cmgroup. -/
theorem Reachable.belonging (reached : Reachable y) (head : y.todo actor = step :: rest)
    (belongs : step.belongs g) : ∃ t, y.shared.cmgroup t = some g := by
  have charged := Reachable.charged reached
  unfold Instr.belongs at belongs
  split at belongs
  case h_2 t h => exact ⟨t, belongs ▸ (charged.charge_head head).1⟩
  case h_3 t h => exact ⟨t, belongs ▸ (charged.deduct_head head).1⟩
  case h_9 => exact belongs.elim
  all_goals exact ⟨_, belongs ▸ (charged.own_head reached head rfl).1⟩

/-- A cmgroup that is accessed has a reference, except by `tasklet_unlock`. -/
theorem Reachable.accessed (reached : Reachable y) (head : y.todo actor = step :: rest)
    (accesses : step.accesses y.shared g) (unlock : step ≠ .tasklet (.unlock g)) :
    1 ≤ references y g := by
  have present : step ∈ y.todo actor := by simp [head]
  have grasped := reached.grasp_secured g actor
  rw [head] at grasped
  have tail : 0 ≤ load (refWeight g) rest := grasped.2.nonneg graspNeed_nonneg
  rcases accesses with names | ⟨t, e, pc, locals, rfl, bound⟩
  · have spins : ∀ h via, step = .lock (.spinVia h (.own g) via) → h = g := by
      rintro h via rfl
      have loaded := reached.locking.spin actor h (.own g) via present
      by_contra other
      exact lockOf_ne_own y.shared (Ne.symm other) loaded
    rcases names.reason spins with owned | needs | needs | relies | unlocks | belongs | starts |
      rfl | same
    · have owns : 1 ≤ load (refWeight g) (y.todo actor) := by
        rw [head, load_cons]
        omega
      exact reached.load_pos owns
    · have owns : 1 ≤ load (refWeight g) (y.todo actor) := by
        rw [head]
        exact needs.symm.trans_le grasped.head
      exact reached.load_pos owns
    · have called := reached.called head needs
      have all := reached.load_le_operations g actor
      refine reached.references_pos ?_
      omega
    · exact reached.relying head relies
    · have held : 1 ≤ load (mtxWeight g) (y.todo actor) := by
        by_cases release : step = .lock (.mtxUnlock g)
        · have secured := reached.mtx_secured g actor
          have one : mtxWeight g (.lock (.mtxUnlock g) : Instr ι) = 1 := by simp [mtxWeight]
          rw [head, release] at secured ⊢
          rw [load_cons, one]
          linarith [secured.2.nonneg (mtxNeed_nonneg g)]
        · exact reached.mtx_head head (unlocks.needs release)
      have covered := reached.unlocking held present unlocks
      have all := reached.load_le_operations g actor
      refine reached.references_pos ?_
      omega
    · obtain ⟨t, member⟩ := reached.belonging head belongs
      exact reached.references_pos (.inr (.inl ⟨t, member⟩))
    · have lower := weight_le_total (startingWeight_nonneg (g := g)) present
      refine reached.scheduled_pos ?_
      rw [reached.starting g, starts] at lower
      revert lower
      cases y.shared.sched g <;> cases y.shared.linked g <;> simp
    · have last := reached.unlocks_last (g := g) actor
      rw [head] at last
      obtain ⟨next, later, rfl, owned | rfl⟩ := last.1.2 rfl
      · have after : 0 ≤ load (refWeight g) later := grasped.2.2.nonneg graspNeed_nonneg
        have none : refWeight g (.lock (.unlockVia g .tasklet) : Instr ι) = 0 := rfl
        have owns : 1 ≤ load (refWeight g) (y.todo actor) := by
          rw [head, load_cons, load_cons]
          omega
        exact reached.load_pos owns
      · exact reached.scheduled_pos (reached.handed head)
    · exact absurd same unlock
  · have needs : useNeed (.epoll e) (.ep (.poll t e pc locals) : Instr ι) = 1 := by
      simp [useNeed, epUsersNeed]
    have used := reached.use_head head needs
    rw [← head] at used
    exact reached.bound_pos (reached.used_bound used bound)

/-- A cmgroup that is not allocated has no file, its tasklet is not linked, and it is not queued to
be freed. -/
theorem Reachable.forgotten (reached : Reachable y) (dead : y.shared.life g ≠ .live) :
    y.shared.files g = 0 ∧ y.shared.linked g = false ∧ y.shared.freeWork g = none := by
  have referenced := reached.referenced g
  have none := referenced.gone (.inl dead)
  refine ⟨?_, ?_, ?_⟩
  · by_contra opened
    linarith [reached.references_pos (g := g) (.inl opened)]
  · by_contra linked
    have starting := reached.starting g
    have nonneg : 0 ≤ total (startingWeight g) y.todo :=
      Finset.sum_nonneg fun other _ => load_nonneg startingWeight_nonneg (y.todo other)
    have scheduled : y.shared.sched g = true := by
      revert starting linked
      cases y.shared.sched g <;> cases y.shared.linked g <;> simp
      omega
    linarith [reached.scheduled_pos scheduled]
  · by_contra queued
    exact dead (referenced.queued queued)

/-- No step accesses a cmgroup that was freed, and none changes it, except for `tasklet_unlock`, which
clears its `RUN` bit. In particular no cmgroup is freed twice. -/
theorem freed_untouched (reached : Reachable y) {label : Label ι κ} (taken : next label y = some y')
    (freed : y.shared.life g = .freed) :
    (SameGroup g y.shared y'.shared ∧
      ∀ step, executed label y = some step → ¬ step.accesses y.shared g) ∨
    (executed label y = some (.tasklet (.unlock g)) ∧
      y'.shared = { y.shared with run := update y.shared.run g false }) := by
  have dead : y.shared.life g ≠ .live := by simp [freed]
  obtain ⟨closed, linked, queued⟩ := reached.forgotten dead
  obtain ⟨actor, spent, gained, effect, rest, was, -⟩ := next_effect taken
  generalize y'.shared = s at effect ⊢
  cases effect with
  | @exec _ _ step _ _ done =>
    rw [List.singleton_append] at was
    have runs : executed (.run actor ‹_› : Label ι κ) y = some step := by simp [executed, was]
    rw [runs]
    by_cases unlock : step = .tasklet (.unlock g)
    · subst unlock
      simp only [exec, execTasklet, Option.some.injEq, Prod.mk.injEq] at done
      exact .inr ⟨rfl, done.1.symm⟩
    · have untouched : ¬ step.accesses y.shared g := by
        intro accesses
        exact dead ((reached.referenced g).lives (reached.accessed was accesses unlock)).1
      refine .inl ⟨exec_same (fun names => untouched (.inl names)) closed ?_ done, ?_⟩
      · rintro t e pc locals rfl bound
        exact untouched (.inr ⟨t, e, pc, locals, rfl, bound⟩)
      · intro other same
        obtain rfl := Option.some.inj same
        exact untouched
  | task idle able done =>
    exact .inl ⟨startTask_same (by simp [freed]) closed done, by simp [executed]⟩
  | cpu idle done => exact .inl ⟨startCpu_same linked queued done, by simp [executed]⟩

end Run

/-- A task creates a group, joins and leaves it, which fires the tasklet. The tasklet runs until its
handler has dropped its reference. Then the task closes the file. -/
def closeRun : List (Label Unit Unit) :=
  [Label.task () (.newgroup 0 1 0 1), .run (.task ()) {}, .run (.task ()) {}, .run (.task ()) {},
    .task () (.associate (.cm 0))] ++ List.replicate 6 (Label.run (.task ()) {}) ++
  [Label.task () .dissociate] ++ List.replicate 9 (Label.run (.task ()) {}) ++
  [Label.cpu () (.softirq 0)] ++ List.replicate 10 (Label.run (.cpu ()) {}) ++
  [Label.task () (.closeFile 0), .run (.task ()) {}]

/-- The cmgroup is freed when `tasklet_unlock` clears the `RUN` bit. -/
theorem freed_untouched_unlock : ∃ y y' : Sys Unit Unit, Reachable y ∧
    y.shared.life 0 = .freed ∧ y.shared.run 0 = true ∧ next (.run (.cpu ()) {}) y = some y' ∧
    ((SameGroup 0 y.shared y'.shared ∧
      ∀ step, executed (.run (.cpu ()) {}) y = some step → ¬ step.accesses y.shared 0) ∨
    (executed (.run (.cpu ()) {}) y = some (.tasklet (.unlock 0)) ∧
      y'.shared = { y.shared with run := update y.shared.run 0 false })) := by
  have replayed : (Transition.run next closeRun (boot fun _ => true)).map (fun y => decide
      (y.shared.life 0 = .freed ∧ y.shared.run 0 = true ∧
        (next (.run (.cpu ()) {}) y).isSome = true)) = some true := by decide +kernel
  obtain ⟨y, reached, passed⟩ :=
    Transition.exists_reach_of_run (boot_initial fun _ => true) replayed
  obtain ⟨freed, runs, steps⟩ := of_decide_eq_true passed
  obtain ⟨y', taken⟩ := Option.isSome_iff_exists.1 steps
  exact ⟨y, y', reached, freed, runs, taken, freed_untouched reached taken freed⟩

/-- The micro-step is executed in softirq context, and leads to no `cmgroup_unref` that frees at
once. -/
def Instr.softirq : Instr ι → Bool
  | .tasklet _ | .lock (.lockVia _ _) | .lock (.spinVia _ _ _) | .lock (.unlockVia _ _)
  | .lock (.wakeOne _) | .sched (.activate _ _) | .sched (.enterRq _) | .acct (.charge _ _)
  | .acct (.decAvailable _ _) | .obj (.unref _ true) | .obj (.taskletSchedule _) => true
  | _ => false

/-- The micro-step is `tasklet_unlock`. -/
def Instr.unlocksTasklet : Instr ι → Bool
  | .tasklet (.unlock _) => true
  | _ => false

/-- What stands before `tasklet_unlock` is executed in softirq context. -/
def InSoftirq : Instr ι → Code ι → Prop :=
  Before (fun later => later.unlocksTasklet = true) fun step => step.softirq = true

/-- No micro-step other than the tasklet's own drops the last reference to a cmgroup whose tasklet
is locked by `tasklet_action`. -/
def NoForeignDrop : Label ι κ → Sys ι κ → Prop
  | .run actor _, y => ∀ g atomic rest, y.todo actor = .obj (.unref g atomic) :: rest →
      y.shared.kref g = 1 → y.shared.run g = true → .tasklet (.unlock g) ∈ y.todo actor
  | _, _ => True

section Softirq

variable {s s' : Shared ι κ} {actor : Actor ι κ} {choice : Choice} {step : Instr ι}
  {code : Code ι} {g : GroupId}

/-- Code in softirq context stays there. -/
theorem Expands.softirq (flow : Expands s actor step code) (softirq : step.softirq = true) :
    ∀ later ∈ code, later.softirq = true := by
  refine List.all_eq_true.1 ?_
  induction flow
  all_goals first
    | rfl
    | contradiction

theorem Expands.inSoftirq (flow : Expands s actor step code) (rest : Code ι)
    (inside : InSoftirq step rest) :
    Tails (fun later tail => InSoftirq later (tail ++ rest)) code := by
  refine Tails.before (tails_before_of_ordered ?_) fun waiting => flow.softirq (inside waiting)
  induction flow <;> rfl

theorem Starts.inSoftirq (flow : Starts s actor code) : Tails InSoftirq code :=
  tails_before_of_ordered (by induction flow <;> rfl)

/-- The micro-step is one of `tasklet_action`. -/
def Instr.isTasklet : Instr ι → Bool
  | .tasklet _ => true
  | _ => false

/-- Tasks do not run tasklets. -/
theorem Expands.no_tasklet (flow : Expands s actor step code) (other : ∀ t, step ≠ .tasklet t) :
    ∀ later ∈ code, ∀ t, later ≠ .tasklet t := by
  have others : code.all (fun later => !later.isTasklet) = true := by
    induction flow
    all_goals first
      | rfl
      | exact absurd rfl (other _)
  rintro later member t rfl
  exact absurd (List.all_eq_true.1 others _ member) Bool.false_ne_true

/-- Who frees a cmgroup, or queues it to be freed. -/
theorem exec_life (done : exec actor choice s step = some (s', code)) :
    s'.life g = s.life g ∧ s'.freeWork g = s.freeWork g ∨
      step = .obj (.unref g false) ∧ s.kref g = 1 ∧ s'.freeWork g = s.freeWork g ∨
      step = .obj (.unref g true) ∧ s.kref g = 1 ∧ s'.life g = s.life g ∧
        s'.freeWork g = some actor ∨
      step = .obj (.free g) ∧ s'.freeWork g = s.freeWork g := by
  cases step with
  | obj step =>
    cases step <;> simp only [exec, execObj] at done
    all_goals repeat' split at done
    all_goals simp only [Option.some.injEq, Prod.mk.injEq] at done
    all_goals obtain ⟨rfl, -⟩ := done
    all_goals grind
  | tasklet step => rw [execTasklet_frame done]; exact .inl ⟨rfl, rfl⟩
  | bind step => rw [execBind_frame done]; exact .inl ⟨rfl, rfl⟩
  | sched step => rw [execSched_frame done]; exact .inl ⟨rfl, rfl⟩
  | acct step => rw [execAcct_frame done]; exact .inl ⟨rfl, rfl⟩
  | lock step => rw [execLock_frame done]; exact .inl ⟨rfl, rfl⟩
  | wait step => rw [execWait_frame done]; exact .inl ⟨rfl, rfl⟩
  | ep step => rw [execEp_frame done]; exact .inl ⟨rfl, rfl⟩

/-- Who sets and clears the `RUN` bit. -/
theorem exec_runs (done : exec actor choice s step = some (s', code)) :
    step = .tasklet (.trylock g) ∨ step = .tasklet (.unlock g) ∧ s'.run g = false ∨
      step ≠ .tasklet (.unlock g) ∧ s'.run g = s.run g := by
  cases step with
  | tasklet step =>
    cases step with
    | wake h pass =>
      rw [wake_frame done]
      exact .inr (.inr ⟨by simp, rfl⟩)
    | _ =>
      simp only [exec, execTasklet] at done
      repeat' split at done
      all_goals simp only [Option.some.injEq, Prod.mk.injEq, reduceCtorEq] at done
      all_goals obtain ⟨rfl, -⟩ := done
      all_goals grind
  | obj step => rw [execObj_frame done]; exact .inr (.inr ⟨by simp, rfl⟩)
  | bind step => rw [execBind_frame done]; exact .inr (.inr ⟨by simp, rfl⟩)
  | sched step => rw [execSched_frame done]; exact .inr (.inr ⟨by simp, rfl⟩)
  | acct step => rw [execAcct_frame done]; exact .inr (.inr ⟨by simp, rfl⟩)
  | lock step => rw [execLock_frame done]; exact .inr (.inr ⟨by simp, rfl⟩)
  | wait step => rw [execWait_frame done]; exact .inr (.inr ⟨by simp, rfl⟩)
  | ep step => rw [execEp_frame done]; exact .inr (.inr ⟨by simp, rfl⟩)

/-- Nor do they start to. -/
theorem startTask_no_tasklet {t : ι} {op : TaskOp ι} (done : startTask s t op = some (s', code)) :
    ∀ later ∈ code, ∀ handler, later ≠ .tasklet handler := by
  cases op <;> simp only [startTask, withEpoll, cmgroupFromFd, cmgroupDetach, lockoutTasklet,
    epScanReadyList] at done
  all_goals repeat' split at done
  all_goals simp only [Option.some.injEq, Prod.mk.injEq, reduceCtorEq] at done
  all_goals obtain ⟨-, rfl⟩ := done
  all_goals simp

/-- A work item is run after the softirq that queued it. -/
theorem startCpu_freed {todo : Actor ι κ → Code ι} {op : CpuOp ι}
    (done : startCpu s todo actor op = some (s', code)) :
    s'.life g = s.life g ∧ s'.freeWork g = s.freeWork g ∨ s'.freeWork g = none ∧
      ∃ holder, s.freeWork g = some holder ∧ ((∃ t, holder = .task t) ∨ todo holder = []) := by
  cases op with
  | freeWork h =>
    simp only [startCpu] at done
    by_cases same : g = h
    · subst same
      right
      repeat' split at done
      all_goals simp only [Option.some.injEq, Prod.mk.injEq, reduceCtorEq] at done
      all_goals obtain ⟨rfl, -⟩ := done
      all_goals refine ⟨Function.update_self _ _ _, _, ‹_›, ?_⟩
      · exact .inl ⟨_, rfl⟩
      · exact .inr ‹_›
    · left
      repeat' split at done
      all_goals simp only [Option.some.injEq, Prod.mk.injEq, reduceCtorEq] at done
      all_goals obtain ⟨rfl, -⟩ := done
      all_goals exact ⟨Function.update_of_ne same _ _, Function.update_of_ne same _ _⟩
  | _ =>
    left
    simp only [startCpu, withEpoll] at done
    repeat' split at done
    all_goals simp only [Option.some.injEq, Prod.mk.injEq, reduceCtorEq] at done
    all_goals obtain ⟨rfl, -⟩ := done
    all_goals exact ⟨rfl, rfl⟩

end Softirq

section Outlives

variable {y y' : Sys ι κ} {actor : Actor ι κ} {step : Instr ι} {g : GroupId} [Fintype ι]
  [Fintype κ]

/-- Tasklets run on CPUs. -/
theorem Reachable.no_tasklet (reached : Reachable y) {t : ι} :
    ∀ step ∈ y.todo (.task t), ∀ handler, step ≠ .tasklet handler := by
  induction reached with
  | start initial => simp [initial.idle]
  | @step label before after reached _ taken ih =>
    obtain ⟨acting, spent, gained, effect, move⟩ := next_effect taken
    intro step member handler
    rcases move.mem member with old | ⟨rfl, new⟩
    · exact ih step old handler
    · cases effect with
      | @exec _ _ first _ _ done =>
        obtain ⟨rest, was, -⟩ := move
        exact (exec_expands done).no_tasklet (ih first (by simp [was])) step new handler
      | task idle able done => exact startTask_no_tasklet done step new handler

/-- A tasklet that is locked does not outlive its cmgroup. -/
structure Guarded (y : Sys ι κ) (g : GroupId) : Prop where
  /-- A cmgroup that was freed is not in use by `tasklet_action`. -/
  freed : y.shared.life g = .freed → y.shared.run g = false
  /-- One that is queued to be freed is in use at most on the CPU that queued it. -/
  queued : ∀ holder, y.shared.freeWork g = some holder → y.shared.run g = true →
    .tasklet (.unlock g) ∈ y.todo holder

/-- `tasklet_action` locks a tasklet whose cmgroup is allocated and stays so. -/
theorem Reachable.trylock_lives (reached : Reachable y) {rest : Code ι}
    (head : y.todo actor = .tasklet (.trylock g) :: rest) :
    y.shared.life g = .live ∧ y.shared.freeWork g = none := by
  have held := reached.accessed head (.inl rfl) (by simp)
  obtain ⟨lives, idle, -⟩ := (reached.referenced g).lives held
  exact ⟨lives, idle⟩

/-- A micro-step keeps it so, unless it is the last drop by somebody else. -/
theorem Guarded.exec {choice : Choice} {rest gained : Code ι} (guarded : Guarded y g)
    (reached : Reachable y) (admitted : NoForeignDrop (.run actor choice) y)
    (head : y.todo actor = step :: rest)
    (done : exec actor choice y.shared step = some (y'.shared, gained))
    (move : Move y.todo y'.todo actor [step] gained) : Guarded y' g := by
  have dropped : ∀ atomic, step = .obj (.unref g atomic) → y.shared.kref g = 1 →
      y.shared.run g = true → .tasklet (.unlock g) ∈ rest := by
    rintro atomic rfl count locked
    simpa [head] using admitted g atomic rest head count locked
  rcases exec_runs (g := g) done with rfl | ⟨rfl, clear⟩ | ⟨other, same⟩
  · obtain ⟨lives, idle⟩ := reached.trylock_lives head
    rcases exec_life (g := g) done with ⟨life, freeWork⟩ | ⟨drop, -⟩ | ⟨drop, -⟩ | ⟨free, -⟩
    · exact ⟨by simp [life, lives], by simp [freeWork, idle]⟩
    all_goals simp at *
  · exact ⟨fun _ => clear, by simp [clear]⟩
  have kept : ∀ holder, .tasklet (.unlock g) ∈ y.todo holder →
      .tasklet (.unlock g) ∈ y'.todo holder := fun holder member =>
    move.keep member (by simpa using other.symm)
  rcases exec_life (g := g) done with ⟨life, freeWork⟩ | ⟨rfl, count, freeWork⟩ |
    ⟨rfl, count, life, freeWork⟩ | ⟨rfl, freeWork⟩
  · refine ⟨fun freed => same ▸ guarded.freed (life ▸ freed), fun holder queued locked => ?_⟩
    exact kept holder (guarded.queued holder (freeWork ▸ queued) (same ▸ locked))
  · have idle : y.shared.run g = false := by
      by_contra locked
      have inside : Tails InSoftirq (y.todo actor) :=
        reached.tails Expands.inSoftirq Starts.inSoftirq actor
      rw [head] at inside
      have softirq := inside.1 ⟨_, dropped _ rfl count (by simpa using locked), rfl⟩
      simp [Instr.softirq] at softirq
    rw [idle] at same
    exact ⟨fun _ => same, by simp [same]⟩
  · refine ⟨fun freed => same ▸ guarded.freed (life ▸ freed), fun holder queued locked => ?_⟩
    rw [freeWork] at queued
    obtain rfl := Option.some.inj queued
    refine kept _ ?_
    rw [head]
    exact List.mem_cons_of_mem _ (dropped _ rfl count (same ▸ locked))
  · have member : .obj (.free g) ∈ y.todo actor := by simp [head]
    have creating : 0 < total (createWeight g) y.todo := creating_of_mem member rfl
    have idle := ((reached.concealed g).unknown (.inr creating)).run
    rw [idle] at same
    exact ⟨fun _ => same, by simp [same]⟩

/-- In every run without such a drop a locked tasklet does not outlive its cmgroup. -/
theorem guarded (run : Transition.ReachWith Initial next NoForeignDrop y) (g : GroupId) :
    Guarded y g := by
  induction run with
  | start initial =>
    exact ⟨fun _ => initial.run g, fun holder queued => by simp [initial.freeWork] at queued⟩
  | @step label before after run admitted taken ih =>
    have reached := run.reach
    obtain ⟨acting, spent, gained, effect, move⟩ := next_effect taken
    cases effect with
    | @exec _ choice step _ _ done =>
      obtain ⟨rest, head, -⟩ := id move
      rw [List.singleton_append] at head
      exact ih.exec reached admitted head done move
    | task idle able done =>
      have frame := startTask_frame (Reachable.unknown reached) done
      have freeWork : after.shared.freeWork = before.shared.freeWork := by rw [frame]
      have runs : after.shared.run = before.shared.run := by rw [frame]
      refine ⟨fun freed => ?_, fun holder queued locked => ?_⟩
      · rw [runs]
        rcases startTask_life (g := g) done with ⟨same, -⟩ | ⟨-, lives, -⟩
        · exact ih.freed (same ▸ freed)
        · simp [lives] at freed
      · rw [freeWork] at queued
        rw [runs] at locked
        exact move.keep (ih.queued holder queued locked) (by simp)
    | cpu idle done =>
      have frame := startCpu_frame done
      have runs : after.shared.run = before.shared.run := by rw [frame]
      rcases startCpu_freed (g := g) done with ⟨life, freeWork⟩ | ⟨idle, holder, queued, later⟩
      · refine ⟨fun freed => runs ▸ ih.freed (life ▸ freed), fun holder queued locked => ?_⟩
        rw [freeWork] at queued
        rw [runs] at locked
        exact move.keep (ih.queued holder queued locked) (by simp)
      · refine ⟨fun _ => ?_, fun holder queued => by simp [idle] at queued⟩
        rw [runs]
        by_contra locked
        have unlock := ih.queued holder queued (by simpa using locked)
        rcases later with ⟨t, rfl⟩ | none
        · exact Reachable.no_tasklet reached _ unlock _ rfl
        · simp [none] at unlock

/-- A cmgroup outlives the run of its tasklet, in every run in which nobody else drops the last
reference while `tasklet_action` has locked the tasklet. -/
theorem outlives_tasklet (run : Transition.ReachWith Initial next NoForeignDrop y)
    (freed : y.shared.life g = .freed) :
    y.shared.run g = false ∧ ∀ actor, .tasklet (.clearSched g) ∉ y.todo actor ∧
      .tasklet (.unlock g) ∉ y.todo actor := by
  have idle := (guarded run g).freed freed
  have none : total (runWeight g) y.todo = 0 := by
    rw [Reachable.running run.reach, idle]
    rfl
  have absent : ∀ actor, ∀ step ∈ y.todo actor, runWeight g step ≠ 1 := by
    intro actor step member locked
    have lower := weight_le_total (runWeight_nonneg (g := g)) member
    omega
  exact ⟨idle, fun actor => ⟨fun member => absent actor _ member (by simp [runWeight]),
    fun member => absent actor _ member (by simp [runWeight])⟩⟩

end Outlives

/-- A test for the absence of such drops. -/
def noForeignDrop : Label ι κ → Sys ι κ → Bool
  | .run actor _, y =>
    match y.todo actor with
    | .obj (.unref g _) :: _ => !decide (y.shared.kref g = 1) || !y.shared.run g ||
        (y.todo actor).any fun later => decide (later = .tasklet (.unlock g))
    | _ => true
  | _, _ => true

/-- The test is sound. -/
theorem noForeignDrop_sound (label : Label ι κ) (y : Sys ι κ)
    (passed : noForeignDrop label y = true) : NoForeignDrop label y := by
  cases label with
  | run actor choice =>
    intro g atomic rest head last running
    simpa [noForeignDrop, head, last, running] using passed
  | task t op => trivial
  | cpu c op => trivial

/-- The file is closed before the tasklet runs, so that the handler drops the last reference, and the
cmgroup is freed by its work item. -/
def freeWorkRun : List (Label Unit Unit) :=
  [Label.task () (.newgroup 0 1 0 1), .run (.task ()) {}, .run (.task ()) {}, .run (.task ()) {},
    .task () (.associate (.cm 0))] ++ List.replicate 6 (Label.run (.task ()) {}) ++
  [Label.task () .dissociate] ++ List.replicate 9 (Label.run (.task ()) {}) ++
  [Label.task () (.closeFile 0), .run (.task ()) {}, .cpu () (.softirq 0)] ++
  List.replicate 11 (Label.run (.cpu ()) {}) ++ [Label.cpu () (.freeWork 0)]

/-- The work item frees it after `tasklet_unlock`. -/
theorem outlives_tasklet_work : ∃ y : Sys Unit Unit,
    Transition.ReachWith Initial next NoForeignDrop y ∧ y.shared.life 0 = .freed ∧
    (y.shared.run 0 = false ∧ ∀ actor, .tasklet (.clearSched 0) ∉ y.todo actor ∧
      .tasklet (.unlock 0) ∉ y.todo actor) := by
  have replayed : (Transition.runWith next noForeignDrop freeWorkRun (boot fun _ => true)).map
      (fun y => decide (y.shared.life 0 = .freed)) = some true := by decide +kernel
  obtain ⟨y, reached, passed⟩ := Transition.exists_reachWith_of_run noForeignDrop_sound
    (boot_initial fun _ => true) replayed
  have freed := of_decide_eq_true passed
  exact ⟨y, reached, freed, outlives_tasklet reached freed⟩

end Cmgroups
