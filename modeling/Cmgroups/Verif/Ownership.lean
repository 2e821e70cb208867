import Cmgroups.Verif.Locking

/-!
# Ownership of `tasklet_active`

`tasklet_active` is set by `fire_tasklet`, by a tasklet that re-asserts it and by a lock-out, and
is cleared by whoever owns it. The owners are counted by kind, from the code they still have
to execute; a scheduled tasklet that was not started is an owner too, recorded by its `SCHED`
bit. The bit itself stands for one instance that is linked or about to start.
-/

set_option linter.unusedSectionVars false

namespace Cmgroups

open Function (update)
open Pool

variable {ι κ : Type} [DecidableEq ι] [DecidableEq κ]

/-- Owners between a successful compare-and-swap and `tasklet_schedule`: in `fire_tasklet`, or in a
tasklet that hands over to a rescheduled instance. -/
def firingWeight (g : GroupId) : Instr ι → ℤ
  | .obj (.taskletSchedule h) => if h = g then 1 else 0
  | _ => 0

/-- Running tasklets that have not cleared `tasklet_active`, or have re-asserted it. -/
def runningWeight (g : GroupId) : Instr ι → ℤ
  | .tasklet (.again h _) | .tasklet (.act h _) | .tasklet (.reset h _)
  | .tasklet (.wakeAll h _) | .tasklet (.avail h _) | .tasklet (.wake h _)
  | .tasklet (.clear h) | .tasklet (.recheckClear h _) => if h = g then 1 else 0
  | _ => 0

/-- Attachments and detachments between `cmgroup_lockout_tasklet` and
`cmgroup_unlockout_tasklet`. -/
def lockoutWeight (g : GroupId) : Instr ι → ℤ
  | .bind (.storeEpoll h _) | .bind (.storeAio h _) | .bind (.doAttachAio h _)
  | .bind (.unlockoutClear h) => if h = g then 1 else 0
  | .bind (.lockoutCas h) => if h = g then -1 else 0
  | _ => 0

/-- Instances taken off a CPU's `tasklet_vec` that have not cleared their `SCHED` bit. -/
def startingWeight (g : GroupId) : Instr ι → ℤ
  | .tasklet (.trylock h) | .tasklet (.clearSched h) => if h = g then 1 else 0
  | _ => 0

/-- The number of owners of `tasklet_active`. -/
def owners [Fintype ι] [Fintype κ] (y : Sys ι κ) (g : GroupId) : ℤ :=
  total (firingWeight g) y.todo + (y.shared.sched g).toInt + total (runningWeight g) y.todo +
    total (lockoutWeight g) y.todo

section Step

variable {s s' : Shared ι κ} {actor : Actor ι κ} {choice : Choice} {step : Instr ι}
  {code : Code ι} {g : GroupId}

/-- The kinds of owners are the owners. -/
theorem ownWeight_eq (step : Instr ι) :
    ownWeight g step = firingWeight g step + runningWeight g step + lockoutWeight g step := by
  unfold ownWeight firingWeight runningWeight lockoutWeight
  split <;> simp

theorem firingWeight_nonneg (step : Instr ι) : 0 ≤ firingWeight g step := by
  unfold firingWeight
  split
  · split_ifs <;> decide
  · exact le_rfl

theorem runningWeight_nonneg (step : Instr ι) : 0 ≤ runningWeight g step := by
  unfold runningWeight
  split
  all_goals first
    | exact le_rfl
    | split_ifs <;> decide

theorem startingWeight_nonneg (step : Instr ι) : 0 ≤ startingWeight g step := by
  unfold startingWeight
  split
  all_goals first
    | exact le_rfl
    | split_ifs <;> decide

theorem Expands.lockout_secured (flow : Expands s actor step code) :
    Secured (lockoutWeight g) (fun _ => 0) (min (-0) (lockoutWeight g step - 0)) code := by
  induction flow <;> simp only [secured_cons, secured_nil, load_cons, load_nil, and_true] <;>
    dsimp only [lockoutWeight]
  all_goals first
    | decide
    | (split_ifs <;> omega)

theorem Starts.lockout_secured (flow : Starts s actor code) :
    Secured (lockoutWeight g) (fun _ => 0) 0 code := by
  induction flow <;> simp only [secured_cons, secured_nil, load_cons, load_nil, and_true] <;>
    dsimp only [lockoutWeight]
  all_goals first
    | decide
    | (split_ifs <;> omega)

/-- Only objects and the tasklet deal with the `SCHED` bit. -/
theorem Expands.starting_load (flow : Expands s actor step code) (obj : ∀ i, step ≠ .obj i)
    (tasklet : ∀ i, step = .tasklet i → ∃ h pass, i = .wake h pass) :
    load (startingWeight g) code = startingWeight g step := by
  induction flow
  all_goals first
    | rfl
    | exact absurd rfl (obj _)
    | (simp [startingWeight]; done)
    | exact absurd (tasklet _ rfl) (by simp)

/-- A micro-step changes the `SCHED` bit and the links as it changes who is starting. -/
theorem exec_starting
    (starts : 1 ≤ startingWeight g step → s.sched g = true ∧ s.linked g = false)
    (links : s.linked g = true → s.sched g = true)
    (done : exec actor choice s step = some (s', code)) :
    load (startingWeight g) code - startingWeight g step =
      ((s'.sched g).toInt - (s'.linked g).toInt) - ((s.sched g).toInt - (s.linked g).toInt) := by
  cases step with
  | obj step =>
    cases step <;> simp only [exec, execObj] at done
    all_goals repeat' split at done
    all_goals simp only [Option.some.injEq, Prod.mk.injEq] at done
    all_goals obtain ⟨rfl, rfl⟩ := done
    all_goals simp only [load_cons, load_nil, Function.update_apply]
    all_goals dsimp only [startingWeight] at starts ⊢
    all_goals first
      | exact (sub_self (_ : ℤ)).symm
      | grind
  | tasklet step =>
    cases step with
    | wake h pass =>
      rw [wake_frame done, (exec_expands done).starting_load (by simp) (by simp), sub_self]
      exact (sub_self _).symm
    | _ =>
      simp only [exec, execTasklet] at done
      repeat' split at done
      all_goals simp only [Option.some.injEq, Prod.mk.injEq, reduceCtorEq] at done
      all_goals obtain ⟨rfl, rfl⟩ := done
      all_goals simp only [outTasklet, load_append, load_cons, load_nil, Function.update_apply]
      all_goals dsimp only [startingWeight] at starts ⊢
      all_goals first
        | exact (sub_self (_ : ℤ)).symm
        | grind
  | bind step =>
    rw [execBind_frame done, (exec_expands done).starting_load (by simp) (by simp), sub_self]
    exact (sub_self _).symm
  | sched step =>
    rw [execSched_frame done, (exec_expands done).starting_load (by simp) (by simp), sub_self]
    exact (sub_self _).symm
  | acct step =>
    rw [execAcct_frame done, (exec_expands done).starting_load (by simp) (by simp), sub_self]
    exact (sub_self _).symm
  | lock step =>
    rw [execLock_frame done, (exec_expands done).starting_load (by simp) (by simp), sub_self]
    exact (sub_self _).symm
  | wait step =>
    rw [execWait_frame done, (exec_expands done).starting_load (by simp) (by simp), sub_self]
    exact (sub_self _).symm
  | ep step =>
    rw [execEp_frame done, (exec_expands done).starting_load (by simp) (by simp), sub_self]
    exact (sub_self _).symm

/-- A task's operation starts no tasklet. -/
theorem startTask_starting {t : ι} {op : TaskOp ι} (done : startTask s t op = some (s', code)) :
    load (startingWeight g) code = 0 := by
  cases op <;> simp only [startTask, withEpoll, cmgroupFromFd, cmgroupDetach, lockoutTasklet,
    epScanReadyList] at done
  all_goals repeat' split at done
  all_goals simp only [Option.some.injEq, Prod.mk.injEq, reduceCtorEq] at done
  all_goals obtain ⟨-, rfl⟩ := done
  all_goals simp [startingWeight]

/-- A softirq takes the tasklet it starts off its list. -/
theorem startCpu_starting {todo : Actor ι κ → Code ι} {op : CpuOp ι}
    (done : startCpu s todo actor op = some (s', code)) :
    load (startingWeight g) code = (s.linked g).toInt - (s'.linked g).toInt := by
  cases op <;> simp only [startCpu, withEpoll, cmgroupDetach, lockoutTasklet,
    cmgroupTaskDequeued_requeue] at done
  all_goals repeat' split at done
  all_goals simp only [Option.some.injEq, Prod.mk.injEq, reduceCtorEq] at done
  all_goals obtain ⟨rfl, rfl⟩ := done
  all_goals simp only [List.cons_append, List.nil_append, load_cons, load_nil,
    Function.update_apply]
  all_goals try dsimp only [startingWeight]
  all_goals grind

end Step

section Reached

variable [Fintype ι] [Fintype κ] {y : Sys ι κ}

/-- No lock-out ends that has not begun. -/
theorem Reachable.lockout_secured (reached : Reachable y) (g : GroupId) (actor : Actor ι κ) :
    Secured (lockoutWeight g) (fun _ => 0) 0 (y.todo actor) :=
  reached.secured (fun _ => le_rfl) le_rfl Expands.lockout_secured Starts.lockout_secured actor

/-- The `SCHED` bit stands for exactly one instance that is linked or about to start. -/
theorem Reachable.starting (reached : Reachable y) (g : GroupId) :
    total (startingWeight g) y.todo = (y.shared.sched g).toInt - (y.shared.linked g).toInt := by
  refine reached.ledger (fun s => (s.sched g).toInt - (s.linked g).toInt) ?_ ?_
  · intro y initial
    simp [initial.sched, initial.linked]
  · intro y label actor spent s gained rest reached balance before effect
    have nonneg : 0 ≤ total (startingWeight g) y.todo :=
      Finset.sum_nonneg fun other _ => load_nonneg startingWeight_nonneg (y.todo other)
    have links : y.shared.linked g = true → y.shared.sched g = true := by
      intro linked
      cases sched : y.shared.sched g with
      | true => rfl
      | false => simp [linked, sched] at balance; omega
    cases effect with
    | @exec _ _ step _ _ done =>
      rw [load_cons, load_nil, add_zero]
      refine exec_starting (fun starts => ?_) links done
      have member : step ∈ y.todo actor := by simp [before]
      have lower := weight_le_total (startingWeight_nonneg (g := g)) member
      revert balance
      cases y.shared.sched g <;> cases y.shared.linked g <;> simp <;> omega
    | task idle able done =>
      rw [startTask_starting done, load_nil, startTask_frame reached.unknown done]
      simp
    | cpu idle done =>
      rw [startCpu_starting done, load_nil, startCpu_frame done]
      ring

/-- The owners are counted by `tasklet_active`. -/
theorem Reachable.owners (reached : Reachable y) (g : GroupId) :
    owners y g = (y.shared.taskletActive g).toInt := by
  have own := reached.own g
  have split : total (ownWeight g) y.todo = total (firingWeight g) y.todo +
      total (runningWeight g) y.todo + total (lockoutWeight g) y.todo := by
    simp only [total, ← Finset.sum_add_distrib]
    refine Finset.sum_congr rfl fun actor _ => ?_
    rw [← load_add, ← load_add]
    congr 1
    funext step
    exact ownWeight_eq step
  unfold Cmgroups.owners
  linarith

/-- `tasklet_active` is set exactly while it has one owner and never has more; a scheduled tasklet
implies it; `tasklet_schedule` finds the `SCHED` bit clear and creates the one instance that
will start; and no tasklet is in its lock-protected body while a lock-out has passed the lock
and unlock pair of `cmgroup_lockout_tasklet`. -/
theorem tasklet_active_owned (reached : Reachable y) (g : GroupId) :
    (y.shared.taskletActive g = true ↔ owners y g = 1) ∧ owners y g ≤ 1 ∧
    (0 ≤ total (firingWeight g) y.todo ∧ 0 ≤ total (runningWeight g) y.todo ∧
      ∀ actor, 0 ≤ load (lockoutWeight g) (y.todo actor)) ∧
    (y.shared.sched g = true → y.shared.taskletActive g = true) ∧
    (∀ actor rest, y.todo actor = .obj (.taskletSchedule g) :: rest → y.shared.sched g = false) ∧
    (total (startingWeight g) y.todo + (y.shared.linked g).toInt = (y.shared.sched g).toInt ∧
      ∀ actor rest, y.todo actor = .tasklet (.clearSched g) :: rest → y.shared.sched g = true) ∧
    ∀ actor, 1 ≤ load (sealWeight g) (y.todo actor) →
      ∀ other, load (viaWeight Via.tasklets g) (y.todo other) ≤ 0 := by
  have count := reached.owners g
  have own := reached.own g
  have starting := reached.starting g
  have firing : 0 ≤ total (firingWeight g) y.todo :=
    Finset.sum_nonneg fun other _ => load_nonneg firingWeight_nonneg (y.todo other)
  have running : 0 ≤ total (runningWeight g) y.todo :=
    Finset.sum_nonneg fun other _ => load_nonneg runningWeight_nonneg (y.todo other)
  have lockout : ∀ actor, 0 ≤ load (lockoutWeight g) (y.todo actor) := fun actor =>
    (reached.lockout_secured g actor).nonneg fun _ => le_rfl
  have owned : 0 ≤ total (ownWeight g) y.todo :=
    Finset.sum_nonneg fun other _ => reached.own_load_nonneg g other
  refine ⟨?_, ?_, ⟨firing, running, lockout⟩, ?_, ?_, ⟨by linarith, ?_⟩, reached.locking.locked g⟩
  · rw [count]
    cases y.shared.taskletActive g <;> simp
  · rw [count]
    cases y.shared.taskletActive g <;> simp
  · intro scheduled
    rw [own, scheduled] at owned
    cases active : y.shared.taskletActive g with
    | true => rfl
    | false => simp [active] at owned
  · intro actor rest head
    have upper := head_le_total
      (fun step => add_nonneg (ownNeed_nonneg g step) (sealNeed_nonneg g step))
      (reached.own_nonneg g) head
    simp only [ownWeight, if_true, own] at upper
    revert upper
    cases y.shared.taskletActive g <;> cases y.shared.sched g <;> simp
  · intro actor rest head
    have member : .tasklet (.clearSched g) ∈ y.todo actor := by simp [head]
    have lower := weight_le_total (startingWeight_nonneg (g := g)) member
    simp only [startingWeight, if_true, starting] at lower
    revert lower
    cases y.shared.sched g <;> cases y.shared.linked g <;> simp

end Reached

/-- A task associates itself with a group of concurrency value 1 and leaves it again, up to
`tasklet_schedule` in `fire_tasklet`. -/
def fireRun : List (Label Unit Unit) :=
  [Label.task () (.newgroup 0 1 0 1), .run (.task ()) {}, .run (.task ()) {}, .run (.task ()) {},
    .task () (.associate (.cm 0))] ++ List.replicate 6 (Label.run (.task ()) {}) ++
  [Label.task () .dissociate] ++ List.replicate 5 (Label.run (.task ()) {})

/-- The task that fires the tasklet is its one owner, and finds it not scheduled. -/
theorem tasklet_active_owned_fire : ∃ y : Sys Unit Unit, Reachable y ∧
    y.shared.taskletActive 0 = true ∧ owners y 0 = 1 ∧ y.shared.sched 0 = false := by
  have replayed : (Transition.run next fireRun (boot fun _ => true)).map (fun y => decide
      (y.shared.taskletActive 0 = true ∧
        (y.todo (.task ())).head? = some (.obj (.taskletSchedule 0)))) = some true := by
    decide +kernel
  obtain ⟨y, reached, tested⟩ :=
    Transition.exists_reach_of_run (boot_initial fun _ => true) replayed
  obtain ⟨active, head⟩ := of_decide_eq_true tested
  obtain ⟨rest, front⟩ := List.head?_eq_some_iff.mp head
  obtain ⟨owner, -, -, -, free, -, -⟩ := tasklet_active_owned reached 0
  exact ⟨y, reached, active, owner.mp active, free _ rest front⟩

end Cmgroups
