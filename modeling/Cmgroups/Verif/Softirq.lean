import Cmgroups.Kernel.Softirq

/-!
# Servicing of tasklets posted by the scheduler

Between `fire_tasklet` in `__schedule` and the end of the switch path, the posted softirq is run
or `ksoftirqd` is woken, on every CPU and whatever task is switched to, as long as no newly
forked task is switched to while a posted tasklet is outstanding. `schedule_tail` does not
service softirqs.
-/

namespace Cmgroups

open Function (update)

namespace Cpu

variable {τ : Type} {cpu after : Cpu τ}

/-- A posted tasklet is pending and the CPU is on its way to `cmgroup_execute_softirq`; on the
switch path softirqs are enabled. -/
structure Serviced (cpu : Cpu τ) : Prop where
  /-- A posted tasklet is pending. -/
  pending : cpu.posted = true → cpu.pending.tasklet = true
  /-- It is outstanding only before `cmgroup_execute_softirq`. -/
  before : cpu.posted = true → cpu.pc = .dequeued ∨ cpu.pc = .tail
  /-- The switch path is entered with softirqs enabled. -/
  enabled : cpu.pc ≠ .outside → cpu.bhDisabled = false

/-- Running softirqs changes nothing but what is pending, who was woken, and what is posted. -/
theorem doSoftirqLoop_same (restarts : ℕ) (raised : List Pending) (cpu : Cpu τ) :
    (cpu.doSoftirqLoop restarts raised).pc = cpu.pc ∧
      (cpu.doSoftirqLoop restarts raised).bhDisabled = cpu.bhDisabled := by
  fun_induction doSoftirqLoop restarts raised cpu with
  | case1 => exact ⟨rfl, rfl⟩
  | case2 => exact ⟨rfl, rfl⟩
  | case3 cpu _ _ _ _ _ ih => exact ih
  | case4 => exact ⟨rfl, rfl⟩

/-- A pass over the pending softirqs services a posted tasklet. -/
theorem runPending_posted (pending : cpu.posted = true → cpu.pending.tasklet = true)
    (raised : Pending) : (cpu.runPending raised).posted = false := by
  simp only [runPending]
  cases posted : cpu.posted with
  | false => rfl
  | true => simp [pending posted]

/-- Running softirqs services a posted tasklet. -/
theorem doSoftirqLoop_posted (restarts : ℕ) (raised : List Pending)
    (pending : cpu.posted = true → cpu.pending.tasklet = true) :
    (cpu.doSoftirqLoop restarts raised).posted = false := by
  fun_induction doSoftirqLoop restarts raised cpu with
  | case1 => exact runPending_posted pending _
  | case2 => exact runPending_posted pending _
  | case3 cpu _ _ _ _ _ ih =>
    refine ih fun posted => ?_
    rw [runPending_posted pending] at posted
    exact absurd posted (by decide)
  | case4 => rfl

/-- Nothing outstanding, and softirqs enabled on the switch path. -/
theorem Serviced.quiet (unposted : after.posted = false)
    (enabled : after.pc ≠ .outside → after.bhDisabled = false) : Serviced after :=
  ⟨fun posted => absurd posted (by simp [unposted]), fun posted => absurd posted (by simp [unposted]),
    enabled⟩

/-- Nothing is outstanding away from the two places before `cmgroup_execute_softirq`. -/
theorem Serviced.elsewhere (serviced : Serviced cpu) {pc : SwitchPc} (there : cpu.pc = pc)
    (away : pc ≠ .dequeued ∧ pc ≠ .tail) : cpu.posted = false := by
  cases posted : cpu.posted with
  | false => rfl
  | true =>
    rcases serviced.before posted with before | before
    · exact absurd (there.symm.trans before) away.1
    · exact absurd (there.symm.trans before) away.2

/-- Outside the switch path nothing is outstanding. -/
theorem Serviced.outside (serviced : Serviced cpu) (outside : cpu.pc = .outside) :
    cpu.posted = false :=
  serviced.elsewhere outside (by decide)

/-- `do_softirq` services a posted tasklet unless softirqs are disabled. -/
theorem doSoftirq_posted (raised : List Pending)
    (pending : cpu.posted = true → cpu.pending.tasklet = true) (enabled : cpu.bhDisabled = false) :
    (cpu.doSoftirq raised).posted = false := by
  simp only [doSoftirq, enabled, Bool.false_eq_true, if_false]
  split_ifs with any
  · exact doSoftirqLoop_posted _ _ pending
  · cases posted : cpu.posted with
    | false => rfl
    | true => simp [Pending.any, pending posted] at any

theorem doSoftirq_same (raised : List Pending) (cpu : Cpu τ) :
    (cpu.doSoftirq raised).pc = cpu.pc ∧ (cpu.doSoftirq raised).bhDisabled = cpu.bhDisabled := by
  simp only [doSoftirq]
  split_ifs
  · exact ⟨rfl, rfl⟩
  · exact doSoftirqLoop_same ..
  · exact ⟨rfl, rfl⟩

/-- With nothing pending nothing is outstanding. -/
theorem Serviced.unposted (serviced : Serviced cpu) (none_ : cpu.pending.any = false) :
    cpu.posted = false := by
  cases posted : cpu.posted with
  | false => rfl
  | true => simp [Pending.any, serviced.pending posted] at none_

/-- The return from an interrupt leaves nothing outstanding. -/
theorem Serviced.irqExit {raises : Pending} {threaded : Bool} {raised : List Pending}
    (serviced : Serviced cpu) :
    Serviced ({ cpu with pending := ⟨cpu.pending.tasklet || raises.tasklet,
      cpu.pending.other || raises.other⟩ }.irqExit threaded raised) := by
  simp only [Cpu.irqExit]
  split_ifs with serves
  · exact .quiet rfl fun _ => serves.1
  · refine .quiet (doSoftirqLoop_posted _ _ fun posted => ?_) fun _ => ?_
    · simp [serviced.pending posted]
    · rw [(doSoftirqLoop_same ..).2]
      exact serves.1
  · refine .quiet ?_ serviced.enabled
    cases disabled : cpu.bhDisabled with
    | true =>
      refine serviced.outside ?_
      by_contra inside
      simp [serviced.enabled inside] at disabled
    | false =>
      refine serviced.unposted ?_
      simp only [disabled, true_and, Bool.not_eq_true, Pending.any, Bool.or_eq_false_iff] at serves
      simp [Pending.any, serves]

/-- Every step of a CPU other than a switch keeps track of a posted tasklet. -/
theorem Serviced.step {step : CpuStep τ} (serviced : Serviced cpu)
    (taken : cpu.step step = some after) : Serviced after := by
  cases step with
  | bhDisable =>
    simp only [Cpu.step, Option.ite_none_right_eq_some, Option.some.injEq] at taken
    obtain ⟨outside, rfl⟩ := taken
    exact .quiet (serviced.outside outside) fun inside => absurd outside inside
  | bhEnable raised =>
    simp only [Cpu.step, Option.ite_none_right_eq_some, Option.some.injEq] at taken
    obtain ⟨outside, rfl⟩ := taken
    have same := doSoftirq_same raised { cpu with bhDisabled := false }
    exact .quiet (doSoftirq_posted raised serviced.pending rfl) fun _ => same.2
  | taskletSchedule =>
    simp only [Cpu.step, Option.ite_none_right_eq_some, Option.some.injEq] at taken
    obtain ⟨outside, rfl⟩ := taken
    have unposted := serviced.outside outside
    simp only [Cpu.taskletSchedule]
    split_ifs
    · exact .quiet unposted fun inside => absurd outside inside
    · exact .quiet rfl fun inside => absurd outside inside
  | ksoftirqd raised =>
    simp only [Cpu.step, Option.ite_none_right_eq_some, Option.some.injEq] at taken
    obtain ⟨⟨outside, -, enabled⟩, rfl⟩ := taken
    have same := doSoftirq_same raised { cpu with woken := false }
    exact .quiet (doSoftirq_posted raised serviced.pending enabled)
      fun inside => absurd (same.1.trans outside) inside
  | interrupt raises threaded raised =>
    simp only [Cpu.step, Option.ite_none_right_eq_some, Option.some.injEq] at taken
    obtain ⟨-, rfl⟩ := taken
    exact serviced.irqExit
  | schedule =>
    simp only [Cpu.step, Option.ite_none_right_eq_some, Option.some.injEq] at taken
    obtain ⟨⟨outside, enabled⟩, rfl⟩ := taken
    exact .quiet (serviced.outside outside) fun _ => enabled
  | dequeue fires =>
    simp only [Cpu.step, Option.ite_none_right_eq_some, Option.some.injEq] at taken
    obtain ⟨locked, rfl⟩ := taken
    have enabled : cpu.bhDisabled = false := serviced.enabled (by simp [locked])
    cases fires with
    | true => exact ⟨fun _ => rfl, fun _ => .inl rfl, fun _ => enabled⟩
    | false => exact ⟨serviced.pending, fun _ => .inl rfl, fun _ => enabled⟩
  | keep =>
    simp only [Cpu.step, Option.ite_none_right_eq_some, Option.some.injEq] at taken
    obtain ⟨locked, rfl⟩ := taken
    have enabled : cpu.bhDisabled = false := serviced.enabled (by simp [locked])
    exact ⟨serviced.pending, fun _ => .inl rfl, fun _ => enabled⟩
  | pick next => simp [Cpu.step] at taken
  | executeSoftirq raised =>
    simp only [Cpu.step, Option.ite_none_right_eq_some, Option.some.injEq] at taken
    obtain ⟨tail, rfl⟩ := taken
    have enabled : cpu.bhDisabled = false := serviced.enabled (by simp [tail])
    have same := doSoftirq_same raised cpu
    simp only [cmgroupExecuteSoftirq]
    split_ifs with any
    · exact .quiet (doSoftirq_posted raised serviced.pending enabled) fun _ => same.2.trans enabled
    · refine .quiet ?_ fun _ => enabled
      exact serviced.unposted (Bool.eq_false_iff.mpr any)
  | leave resched =>
    simp only [Cpu.step, Option.ite_none_right_eq_some, Option.some.injEq] at taken
    obtain ⟨enable, rfl⟩ := taken
    have enabled : cpu.bhDisabled = false := serviced.enabled (by simp [enable])
    exact .quiet (serviced.elsewhere enable (by decide)) fun _ => enabled
  | childReturn =>
    simp only [Cpu.step, Option.ite_none_right_eq_some, Option.some.injEq] at taken
    obtain ⟨child, rfl⟩ := taken
    have enabled : cpu.bhDisabled = false := serviced.enabled (by simp [child])
    exact .quiet (serviced.elsewhere child (by decide)) fun _ => enabled

end Cpu

section Machine

variable {τ κ : Type} [DecidableEq τ] [DecidableEq κ] [Fintype κ] {m : Machine τ κ}

/-- No newly forked task is switched to while a posted tasklet is outstanding on that CPU. -/
def FreshQuiet (label : κ × CpuStep τ) (m : Machine τ κ) : Prop :=
  ∀ next, label.2 = .pick next → next ≠ (m.cpu label.1).curr → m.fresh next = true →
    (m.cpu label.1).posted = false

/-- A switch keeps track of a posted tasklet. -/
theorem Cpu.Serviced.pick {cpu : Cpu τ} {next : τ} {fresh : Bool} (serviced : Cpu.Serviced cpu)
    (dequeued : cpu.pc = .dequeued)
    (quiet : next ≠ cpu.curr → fresh = true → cpu.posted = false) :
    Cpu.Serviced { cpu with
      curr := next
      pc := if next ≠ cpu.curr ∧ fresh = true then .childTail else .tail } := by
  have enabled : cpu.bhDisabled = false := serviced.enabled (by simp [dequeued])
  split_ifs with child
  · exact .quiet (quiet child.1 child.2) fun _ => enabled
  · exact ⟨serviced.pending, fun _ => .inr rfl, fun _ => enabled⟩

/-- Every CPU keeps track of a posted tasklet. -/
theorem Machine.serviced
    (reached : Transition.ReachWith Machine.Initial Machine.next FreshQuiet m) (c : κ) :
    Cpu.Serviced (m.cpu c) := by
  induction reached generalizing c with
  | start initial =>
    exact .quiet (initial.posted c) fun _ => initial.bhDisabled c
  | @step label before after reached quiet taken ih =>
    obtain ⟨c', step⟩ := label
    have move : ∀ cpu, Cpu.Serviced cpu → Cpu.Serviced (update before.cpu c' cpu c) := by
      intro cpu serviced
      by_cases here : c = c'
      · rw [here, Function.update_self]
        exact serviced
      · rw [Function.update_of_ne here]
        exact ih c
    cases step with
    | pick next =>
      simp only [Machine.next, Option.ite_none_right_eq_some, Option.some.injEq] at taken
      obtain ⟨⟨dequeued, -⟩, rfl⟩ := taken
      exact move _ ((ih c').pick dequeued (quiet next rfl))
    | _ =>
      simp only [Machine.next, Option.map_eq_some_iff] at taken
      obtain ⟨cpu, stepped, rfl⟩ := taken
      exact move _ ((ih c').step stepped)

/-- In every run in which no newly forked task is switched to while a posted tasklet is
outstanding, a tasklet posted by the scheduler has been run, or `ksoftirqd` woken for it, whenever
a CPU is outside the switch path. -/
theorem posted_serviced
    (reached : Transition.ReachWith Machine.Initial Machine.next FreshQuiet m) (c : κ)
    (outside : (m.cpu c).pc = .outside) : (m.cpu c).posted = false :=
  (Machine.serviced reached c).outside outside

/-- One CPU that runs a task, and a second task that was just forked. -/
def forkedMachine : Machine Bool Unit where
  cpu := fun _ => ⟨false, .outside, {}, false, false, false⟩
  fresh := id

theorem forkedMachine_initial : Machine.Initial forkedMachine :=
  ⟨fun _ => rfl, fun _ => rfl, fun _ => rfl, fun _ => rfl⟩

/-- The condition, as a test. -/
def freshQuiet (label : Unit × CpuStep Bool) (m : Machine Bool Unit) : Bool :=
  match label.2 with
  | .pick next => decide (next = (m.cpu label.1).curr) || !m.fresh next || !(m.cpu label.1).posted
  | _ => true

theorem freshQuiet_sound (label : Unit × CpuStep Bool) (m : Machine Bool Unit)
    (passed : freshQuiet label m = true) : FreshQuiet label m := by
  intro next picks other fresh
  simp only [freshQuiet, picks] at passed
  simpa [other, fresh] using passed

/-- A task that fires a tasklet as it goes to sleep, is woken at once and resumes in the tail of
`__schedule`: the tasklet has been run when it leaves. -/
theorem posted_serviced_same : ∃ m : Machine Bool Unit,
    Transition.ReachWith Machine.Initial Machine.next FreshQuiet m ∧
      (m.cpu ()).pc = .outside ∧ (m.cpu ()).posted = false := by
  have replayed : (Transition.runWith Machine.next freshQuiet [((), .schedule),
      ((), .dequeue true), ((), .pick false), ((), .executeSoftirq []), ((), .leave false)]
      forkedMachine).map (fun m => decide ((m.cpu ()).pc = .outside)) = some true := by decide
  obtain ⟨m, reached, outside⟩ :=
    Transition.exists_reachWith_of_run freshQuiet_sound forkedMachine_initial replayed
  exact ⟨m, reached, of_decide_eq_true outside,
    posted_serviced reached () (of_decide_eq_true outside)⟩

/-- A task that fires a tasklet as it goes to sleep, and a newly forked task that is switched to:
`schedule_tail` returns with the tasklet neither run nor `ksoftirqd` woken. -/
theorem posted_lost : ∃ m : Machine Bool Unit,
    Transition.Reach Machine.Initial Machine.next m ∧ (m.cpu ()).pc = .outside ∧
      (m.cpu ()).posted = true ∧ (m.cpu ()).pending.tasklet = true ∧ (m.cpu ()).woken = false := by
  have replayed : (Transition.run Machine.next [((), .schedule), ((), .dequeue true),
      ((), .pick true), ((), .childReturn)] forkedMachine).map (fun m => decide
        ((m.cpu ()).pc = .outside ∧ (m.cpu ()).posted = true ∧
          (m.cpu ()).pending.tasklet = true ∧ (m.cpu ()).woken = false)) = some true := by decide
  obtain ⟨m, reached, tested⟩ := Transition.exists_reach_of_run forkedMachine_initial replayed
  exact ⟨m, reached, of_decide_eq_true tested⟩

end Machine

end Cmgroups
