import Mathlib.Algebra.BigOperators.Ring.Finset
import Mathlib.Data.Set.Card
import Cmgroups.Verif.Accounting
import Cmgroups.Verif.Locking

/-!
# Openings

`available` is the concurrency value less the number of counted tasks, where a change that
`cmgroup_set_concurrency_value` has stored and not yet added is left out. The equation holds
modulo the word size in every run, and exactly while the group has fewer than `2 ^ 30` tasks.
-/

set_option linter.unusedSectionVars false

namespace Cmgroups

open Function (update)
open Pool

variable {ι κ : Type} [DecidableEq ι] [DecidableEq κ]

/-- What the pending accounting of a task will take from `available`, less what the flag of the
task will lose. -/
def taskWeight (g : GroupId) (t : ι) : Instr ι → ℤ
  | .acct (.decAvailable p h) => if h = g ∧ p = t then 1 else 0
  | .acct (.incAvailable p h) => if h = g ∧ p = t then -1 else 0
  | .acct (.clearCharged p h stale) => if h = g ∧ p = t then stale.toInt else 0
  | _ => 0

/-- What will be added to `available` because the concurrency value was changed. -/
def changeWeight (g : GroupId) : Instr ι → ℤ
  | .acct (.setcvAdd h change) => if h = g then change else 0
  | _ => 0

/-- Both together. -/
def acctWeight (g : GroupId) : Instr ι → ℤ
  | .acct (.decAvailable _ h) => if h = g then 1 else 0
  | .acct (.incAvailable _ h) => if h = g then -1 else 0
  | .acct (.clearCharged _ h stale) => if h = g then stale.toInt else 0
  | .acct (.setcvAdd h change) => if h = g then -change else 0
  | _ => 0

/-- One for a charged task of the group. -/
def member (g : GroupId) (s : Shared ι κ) (t : ι) : ℤ :=
  if s.cmgroup t = some g ∧ s.charged t = true then 1 else 0

section Step

variable {actor : Actor ι κ} {choice : Choice} {s s' : Shared ι κ} {step : Instr ι}
  {code : Code ι} {g : GroupId}

/-- Code that does not name the group has nothing pending for it. -/
theorem acctWeight_silent (silent : ¬ step.names g) : acctWeight g step = 0 := by
  cases step with
  | acct step =>
    cases step <;> first
      | rfl
      | exact if_neg (Ne.symm silent)
  | _ => rfl

/-- The micro-step is part of the accounting. -/
def Instr.accounts : Instr ι → Bool
  | .acct _ => true
  | _ => false

/-- Other code has nothing pending. -/
theorem Expands.acct_load (other : step.accounts = false) (flow : Expands s actor step code) :
    load (acctWeight g) code = 0 := by
  induction flow <;> first
    | rfl
    | simp [Instr.accounts] at other

/-- Other code writes none of these fields. -/
theorem exec_spared (other : step.accounts = false)
    (done : exec actor choice s step = some (s', code)) :
    s'.available = s.available ∧ s'.concurrencyValue = s.concurrencyValue ∧
      s'.cmgroup = s.cmgroup ∧ s'.charged = s.charged := by
  cases step with
  | acct step => simp [Instr.accounts] at other
  | sched step => rw [execSched_frame done]; exact ⟨rfl, rfl, rfl, rfl⟩
  | obj step => rw [execObj_frame done]; exact ⟨rfl, rfl, rfl, rfl⟩
  | lock step => rw [execLock_frame done]; exact ⟨rfl, rfl, rfl, rfl⟩
  | bind step => rw [execBind_frame done]; exact ⟨rfl, rfl, rfl, rfl⟩
  | tasklet step => rw [execTasklet_frame done]; exact ⟨rfl, rfl, rfl, rfl⟩
  | wait step => rw [execWait_frame done]; exact ⟨rfl, rfl, rfl, rfl⟩
  | ep step => rw [execEp_frame done]; exact ⟨rfl, rfl, rfl, rfl⟩

/-- Operations start with nothing pending. -/
theorem Starts.acct_load (flow : Starts s actor code) : load (acctWeight g) code = 0 := by
  induction flow <;> rfl

variable [Fintype ι]

/-- Charged tasks of the group less the openings that are taken. -/
def taken (g : GroupId) (s : Shared ι κ) : ℤ :=
  s.available g - s.concurrencyValue g + ∑ t, member g s t

/-- When the fields of one task change, so does what it adds to the sum. -/
theorem taken_task (t : ι) (available : s'.available = s.available)
    (value : s'.concurrencyValue = s.concurrencyValue)
    (others : ∀ u, u ≠ t → s'.cmgroup u = s.cmgroup u ∧ s'.charged u = s.charged u) :
    taken g s' - taken g s = member g s' t - member g s t := by
  have same : ∑ u ∈ Finset.univ.erase t, member g s' u = ∑ u ∈ Finset.univ.erase t, member g s u := by
    refine Finset.sum_congr rfl fun u other => ?_
    obtain ⟨group, flag⟩ := others u (Finset.ne_of_mem_erase other)
    simp only [member, group, flag]
  simp only [taken, available, value]
  rw [← Finset.add_sum_erase _ _ (Finset.mem_univ t),
    ← Finset.add_sum_erase _ (member g s) (Finset.mem_univ t), same]
  ring

/-- When the fields of no task change, only the two counters matter. -/
theorem taken_word (group : s'.cmgroup = s.cmgroup) (flag : s'.charged = s.charged) :
    taken g s' - taken g s = s'.available g - s.available g -
      (s'.concurrencyValue g - s.concurrencyValue g) := by
  simp only [taken, member, group, flag]
  ring

/-- A micro-step that is executed in the right state of its task moves `available`, the flags and
the pending accounting together. -/
theorem exec_taken (done : exec actor choice s step = some (s', code))
    (charge : ∀ t h, step = .acct (.charge t h) → s.cmgroup t = some h ∧ s.charged t = false)
    (uncharge : ∀ t h, step = .acct (.uncharge t h) → s.cmgroup t = some h ∧ s.charged t = true)
    (store : ∀ t h, step = .acct (.storeCmgroup t h) → s.cmgroup t = none)
    (clear : ∀ t h stale, step = .acct (.clearCharged t h stale) →
      s.cmgroup t = some h ∧ s.charged t = stale)
    (leave : ∀ t h, step = .acct (.clearCmgroup t h) → s.cmgroup t = some h ∧ s.charged t = false) :
    (2 ^ 32 : ℤ) ∣ (load (acctWeight g) code - acctWeight g step) - (taken g s' - taken g s) := by
  have balanced : load (acctWeight g) code - acctWeight g step = taken g s' - taken g s →
      (2 ^ 32 : ℤ) ∣ (load (acctWeight g) code - acctWeight g step) - (taken g s' - taken g s) := by
    intro equal
    simp [equal]
  cases step with
  | acct step =>
    cases step with
    | charge t h =>
      obtain ⟨group, flag⟩ := charge t h rfl
      simp only [exec, execAcct, Option.some.injEq, Prod.mk.injEq] at done
      obtain ⟨after, rfl⟩ := done
      refine balanced ?_
      rw [taken_task t (by rw [← after]) (by rw [← after]) fun u other => by simp [← after, other]]
      simp [member, acctWeight, group, flag, ← after]
    | uncharge t h =>
      obtain ⟨group, flag⟩ := uncharge t h rfl
      simp only [exec, execAcct, Option.some.injEq, Prod.mk.injEq] at done
      obtain ⟨after, rfl⟩ := done
      refine balanced ?_
      rw [taken_task t (by rw [← after]) (by rw [← after]) fun u other => by simp [← after, other]]
      simp [member, acctWeight, group, flag, ← after]
      split_ifs <;> rfl
    | storeCmgroup t h =>
      have group := store t h rfl
      simp only [exec, execAcct, Option.some.injEq, Prod.mk.injEq] at done
      obtain ⟨after, rfl⟩ := done
      refine balanced ?_
      rw [taken_task t (by rw [← after]) (by rw [← after]) fun u other => by simp [← after, other]]
      cases flag : s.charged t <;> simp [member, acctWeight, group, flag, ← after]
    | clearCharged t h stale =>
      obtain ⟨group, flag⟩ := clear t h stale rfl
      simp only [exec, execAcct, Option.some.injEq, Prod.mk.injEq] at done
      obtain ⟨after, rfl⟩ := done
      refine balanced ?_
      rw [taken_task t (by rw [← after]) (by rw [← after]) fun u other => by simp [← after, other]]
      cases stale <;> simp [member, acctWeight, group, flag, ← after]
    | clearCmgroup t h =>
      obtain ⟨group, flag⟩ := leave t h rfl
      simp only [exec, execAcct, Option.some.injEq, Prod.mk.injEq] at done
      obtain ⟨after, rfl⟩ := done
      refine balanced ?_
      rw [taken_task t (by rw [← after]) (by rw [← after]) fun u other => by simp [← after, other]]
      simp [member, acctWeight, group, flag, ← after]
    | decAvailable t h =>
      simp only [exec, execAcct, Option.some.injEq, Prod.mk.injEq] at done
      obtain ⟨after, rfl⟩ := done
      have wraps := Word32.dvd_wrap_sub (s.available h - 1)
      rw [taken_word (by rw [← after]) (by rw [← after])]
      simp only [← after, acctWeight, load_nil, Function.update_apply]
      clear balanced
      by_cases same : h = g
      · subst same
        simp only [↓reduceIte]
        omega
      · simp [same, Ne.symm same]
    | incAvailable t h =>
      have wraps := Word32.dvd_wrap_sub (s.available h + 1)
      simp only [exec, execAcct, Option.some.injEq, Prod.mk.injEq] at done
      have none : load (acctWeight g) code = 0 := by
        rw [← done.2]
        split_ifs <;> rfl
      rw [taken_word (by rw [← done.1]) (by rw [← done.1]), none]
      simp only [← done.1, acctWeight, Function.update_apply]
      clear balanced
      by_cases same : h = g
      · subst same
        simp only [↓reduceIte]
        omega
      · simp [same, Ne.symm same]
    | setcvStore h n =>
      simp only [exec, execAcct, Option.some.injEq, Prod.mk.injEq] at done
      obtain ⟨after, rfl⟩ := done
      have wraps := Word32.dvd_wrap_sub (n - s.concurrencyValue h)
      rw [taken_word (by rw [← after]) (by rw [← after])]
      simp only [← after, acctWeight, load_nil, load_cons, Function.update_apply]
      clear balanced
      by_cases same : h = g
      · subst same
        simp only [↓reduceIte]
        omega
      · simp [same, Ne.symm same]
    | setcvAdd h change =>
      have wraps := Word32.dvd_wrap_sub (s.available h + change)
      simp only [exec, execAcct, Option.some.injEq, Prod.mk.injEq] at done
      have none : load (acctWeight g) code = 0 := by
        rw [← done.2]
        split_ifs <;> rfl
      rw [taken_word (by rw [← done.1]) (by rw [← done.1]), none]
      simp only [← done.1, acctWeight, Function.update_apply]
      clear balanced
      by_cases same : h = g
      · subst same
        simp only [↓reduceIte]
        omega
      · simp [same, Ne.symm same]
    | associate t h addref atomic =>
      refine balanced ?_
      simp only [exec, execAcct] at done
      split at done
      all_goals simp only [Option.some.injEq, Prod.mk.injEq] at done
      all_goals obtain ⟨rfl, rfl⟩ := done
      all_goals split_ifs <;> simp [acctWeight]
    | dissociate t atomic =>
      refine balanced ?_
      simp only [exec, execAcct] at done
      split at done
      all_goals simp only [Option.some.injEq, Prod.mk.injEq] at done
      all_goals obtain ⟨rfl, rfl⟩ := done
      case h_1 => simp [acctWeight]
      case h_2 => split_ifs <;> simp [acctWeight]
  | _ =>
    have quiet := exec_spared rfl done
    refine balanced ?_
    rw [(exec_expands done).acct_load rfl, taken_word quiet.2.2.1 quiet.2.2.2, quiet.1, quiet.2.1]
    simp [acctWeight]

/-- Counters start as new words. -/
theorem checkConcurrencyValue_bounds {nthreads count : ℤ} {cpus : ℕ}
    (passed : checkConcurrencyValue nthreads cpus = some count) :
    1 ≤ count ∧ count ≤ cmgroupMaxConcurrencyValue := by
  simp only [checkConcurrencyValue, Option.ite_none_left_eq_some, Option.some.injEq] at passed
  obtain ⟨bounds, rfl⟩ := passed
  omega

/-- Starting a task's operation leaves the counters of a cmgroup alone or allocates it. -/
theorem startTask_counters {op : TaskOp ι} {p : ι} (g : GroupId)
    (done : startTask s p op = some (s', code)) :
    s'.available g = s.available g ∧ s'.concurrencyValue g = s.concurrencyValue g ∨
      s.life g = .unborn ∧ s'.available g = s'.concurrencyValue g ∧
        1 ≤ s'.concurrencyValue g ∧ s'.concurrencyValue g ≤ cmgroupMaxConcurrencyValue := by
  cases op with
  | newgroup h nthreads flags cpus =>
    simp only [startTask] at done
    repeat' split at done
    all_goals simp only [Option.some.injEq, Prod.mk.injEq, reduceCtorEq] at done
    all_goals obtain ⟨rfl, -⟩ := done
    · exact .inl ⟨rfl, rfl⟩
    · exact .inl ⟨rfl, rfl⟩
    · by_cases same : g = h
      · subst same
        refine .inr ⟨‹_›, ?_⟩
        simp only [cmgroupAlloc, Function.update_self]
        exact ⟨trivial, checkConcurrencyValue_bounds ‹_›⟩
      · simp [cmgroupAlloc, same]
  | _ =>
    simp only [startTask, withEpoll, cmgroupFromFd] at done
    repeat' split at done
    all_goals simp only [Option.some.injEq, Prod.mk.injEq, reduceCtorEq] at done
    all_goals obtain ⟨rfl, -⟩ := done
    all_goals exact .inl ⟨rfl, rfl⟩

/-- Storing a wrapped value leaves a word. -/
theorem update_word (counter : GroupId → ℤ) (g h : GroupId) (value : ℤ) :
    update counter h (Word32.wrap value) g = counter g ∨
      Word32.InRange (update counter h (Word32.wrap value) g) := by
  by_cases same : g = h
  · subst same
    rw [Function.update_self]
    exact .inr (Word32.wrap_inRange value)
  · exact .inl (Function.update_of_ne same _ _)

/-- Every operation on `available` leaves a word. -/
theorem exec_available (done : exec actor choice s step = some (s', code)) (g : GroupId) :
    s'.available g = s.available g ∨ Word32.InRange (s'.available g) := by
  cases accounts : step.accounts
  · exact .inl (by rw [(exec_spared accounts done).1])
  · cases step with
    | acct step =>
      cases step <;> simp only [exec, execAcct] at done
      all_goals repeat' split at done
      all_goals simp only [Option.some.injEq, Prod.mk.injEq] at done
      all_goals obtain ⟨rfl, -⟩ := done
      all_goals first
        | exact .inl rfl
        | exact update_word _ _ _ _
    | _ => simp [Instr.accounts] at accounts

end Step

section Reached

variable [Fintype ι] [Fintype κ] {y y' : Sys ι κ} {actor : Actor ι κ} {choice : Choice}
  {step : Instr ι} {gained rest : Code ι}

/-- `available` is always a word. -/
theorem Reachable.available_inRange (reached : Reachable y) (g : GroupId) :
    Word32.InRange (y.shared.available g) := by
  induction reached with
  | start initial =>
    rw [initial.available, initial.concurrencyValue]
    constructor <;> norm_num
  | step reached _ taken ih =>
    obtain ⟨actor, spent, gained, effect, -⟩ := next_effect taken
    cases effect with
    | exec done =>
      rcases exec_available done g with same | range
      · rwa [same]
      · exact range
    | task idle able done =>
      rcases startTask_counters g done with ⟨same, -⟩ | ⟨-, same, lower, upper⟩
      · rwa [same]
      · simp only [cmgroupMaxConcurrencyValue] at upper
        constructor <;> omega
    | cpu idle done =>
      rw [startCpu_frame done]
      exact ih

/-- What a task's own code expects of its two fields. -/
theorem Charged.own_head (charged : Charged y) (reached : Reachable y)
    (head : y.todo actor = step :: rest) {t : ι} (self : step.self = some t) :
    step.account t (y.shared.cmgroup t) (y.shared.charged t) (Accounts t rest) := by
  have member : step ∈ y.todo actor := by simp [head]
  obtain rfl := reached.self member self
  have accounts := charged.own t
  rwa [head, accounts_cons] at accounts

/-- A task that is charged belongs to the group and was not charged. -/
theorem Charged.charge_head (charged : Charged y) {t : ι} {g : GroupId}
    (head : y.todo actor = .acct (.charge t g) :: rest) :
    y.shared.cmgroup t = some g ∧ y.shared.charged t = false := by
  rcases charged.charging actor t g (by simp [head]) with rfl | ⟨-, fields⟩
  · have accounts := charged.own t
    rw [head, accounts_cons] at accounts
    simp only [Instr.account, if_true] at accounts
    exact ⟨accounts.1, accounts.2.1⟩
  · exact fields

/-- `available` follows the flags of the tasks, up to what is pending. -/
theorem Reachable.taken (reached : Reachable y) (g : GroupId) :
    (2 ^ 32 : ℤ) ∣ total (acctWeight g) y.todo - taken g y.shared := by
  induction reached with
  | start initial =>
    rw [total_idle _ initial.idle]
    simp [Cmgroups.taken, member, initial.available, initial.cmgroup]
  | @step label y y' reached _ step ih =>
    obtain ⟨actor, spent, gained, effect, move⟩ := next_effect step
    have charged := Reachable.charged reached
    have moved := move.total (acctWeight g)
    obtain ⟨rest, head, -⟩ := move
    cases effect with
    | exec done =>
      rw [List.singleton_append] at head
      rw [load_cons, load_nil, add_zero] at moved
      have change := exec_taken (g := g) done
        (by rintro t h rfl; exact charged.charge_head head)
        (by
          rintro t h rfl
          have due := charged.own_head reached head rfl
          exact ⟨due.1, due.2.1⟩)
        (by rintro t h rfl; exact (charged.own_head reached head rfl).1)
        (by
          rintro t h stale rfl
          have due := charged.own_head reached head rfl
          exact ⟨due.1, due.2.1⟩)
        (by
          rintro t h rfl
          have due := charged.own_head reached head rfl
          exact ⟨due.1, due.2.1⟩)
      rw [moved]
      omega
    | @task p op _ _ idle able done =>
      rw [(startTask_starts done).acct_load, load_nil] at moved
      have fields : Cmgroups.taken g y'.shared - Cmgroups.taken g y.shared =
          y'.shared.available g - y.shared.available g -
            (y'.shared.concurrencyValue g - y.shared.concurrencyValue g) := by
        have same : ∀ t, member g y'.shared t = member g y.shared t := by
          intro t
          rcases (startTask_member t done).1 with ⟨group, flag⟩ | ⟨born, group⟩
          · simp only [member, group, flag]
          · simp [member, group, charged.unborn t born]
        simp only [Cmgroups.taken, same]
        ring
      rcases startTask_counters g done with ⟨available, value⟩ | ⟨unborn, equal, -⟩
      · rw [moved]
        omega
      · -- nothing is pending for a group that is not allocated, and no task belongs to it
        have none := Reachable.unborn_total reached unborn fun _ => acctWeight_silent
        have single : Cmgroups.taken g y.shared =
            y.shared.available g - y.shared.concurrencyValue g := by
          have unknown := Reachable.unknown reached unborn
          simp [Cmgroups.taken, member, unknown.cmgroup]
        rw [moved]
        omega
    | cpu idle done =>
      rw [(startCpu_starts done).acct_load, load_nil] at moved
      have frame := startCpu_frame done
      have same : Cmgroups.taken g y'.shared = Cmgroups.taken g y.shared := by
        rw [frame]
        rfl
      rw [moved, same]
      simpa using ih

/-- The pending accounting of the tasks and of the concurrency value. -/
theorem acctWeight_split (g : GroupId) (step : Instr ι) :
    acctWeight g step = ∑ t, taskWeight g t step - changeWeight g step := by
  cases step with
  | acct step =>
    cases step <;> simp [acctWeight, taskWeight, changeWeight, ite_and, apply_ite (- ·)]
  | _ => simp [acctWeight, taskWeight, changeWeight]

/-- The same of code. -/
theorem load_acct (g : GroupId) (code : Code ι) :
    load (acctWeight g) code = ∑ t, load (taskWeight g t) code - load (changeWeight g) code := by
  induction code with
  | nil => simp
  | cons head rest ih =>
    simp only [load_cons, ih, acctWeight_split, Finset.sum_add_distrib]
    ring

/-- The same of all code. -/
theorem total_acct (g : GroupId) (todo : Actor ι κ → Code ι) :
    total (acctWeight g) todo = ∑ t, total (taskWeight g t) todo - total (changeWeight g) todo := by
  simp only [total, load_acct, Finset.sum_sub_distrib]
  rw [Finset.sum_comm]

/-- The task is counted by `available` against the group: it is charged and was deducted, or it was
uncharged and is still deducted. -/
def Deducted (y : Sys ι κ) (g : GroupId) (t : ι) : Prop :=
  (∃ actor, .acct (.incAvailable t g) ∈ y.todo actor) ∨
    y.shared.cmgroup t = some g ∧ y.shared.charged t = true ∧
      ∀ actor, .acct (.decAvailable t g) ∉ y.todo actor ∧
        .acct (.clearCharged t g true) ∉ y.todo actor

/-- The micro-step completes the accounting of the task. -/
def Instr.counts (g : GroupId) (t : ι) : Instr ι → Prop
  | .acct (.decAvailable p h) | .acct (.incAvailable p h) | .acct (.clearCharged p h _) =>
    h = g ∧ p = t
  | _ => False

/-- Only such micro-steps have a weight. -/
theorem taskWeight_eq_zero {g : GroupId} {t : ι} (other : ¬ step.counts g t) :
    taskWeight g t step = 0 := by
  cases step with
  | acct step =>
    cases step <;> first
      | rfl
      | exact if_neg other
  | _ => rfl

/-- What completes the accounting of a task is executed as soon as it appears. -/
theorem Reachable.counts_head (reached : Reachable y) {g : GroupId} {t : ι}
    (member : step ∈ y.todo actor) (counts : step.counts g t) :
    ∃ rest, y.todo actor = step :: rest := by
  cases shape : y.todo actor with
  | nil => simp [shape] at member
  | cons first rest =>
    have late : step ∉ rest := reached.completes shape (by
      cases step with
      | acct step => cases step <;> first | rfl | exact absurd counts id
      | _ => exact absurd counts id)
    rw [shape, List.mem_cons] at member
    obtain rfl := member.resolve_right late
    exact ⟨rest, rfl⟩

/-- The accounting of a task is completed by the task or by the actor that activates it. -/
theorem Charged.counts_actor (charged : Charged y) (reached : Reachable y) {g : GroupId} {t : ι}
    (member : step ∈ y.todo actor) (counts : step.counts g t) :
    actor = .task t ∨ .sched (.enterRq t) ∈ y.todo actor := by
  cases step with
  | acct step =>
    cases step with
    | decAvailable p h =>
      obtain ⟨rfl, rfl⟩ := counts
      exact (charged.deducting actor p h member).imp_right And.left
    | incAvailable p h =>
      obtain ⟨rfl, rfl⟩ := counts
      exact .inl (reached.self member rfl)
    | clearCharged p h stale =>
      obtain ⟨rfl, rfl⟩ := counts
      exact .inl (reached.self member rfl)
    | _ => exact absurd counts id
  | _ => exact absurd counts id

/-- One actor at a time completes the accounting of a task. -/
theorem Reachable.counts_unique (reached : Reachable y) {g : GroupId} {t : ι}
    {other : Actor ι κ} {later : Instr ι} (member : step ∈ y.todo actor)
    (counts : step.counts g t) (present : later ∈ y.todo other) (also : later.counts g t) :
    other = actor := by
  have charged := Reachable.charged reached
  -- a task that completes its own accounting is not being activated
  have apart : ∀ {step : Instr ι} {actor : Actor ι κ}, step ∈ y.todo (.task t) →
      step.counts g t → .sched (.enterRq t) ∉ y.todo actor := by
    intro step actor member counts enters
    obtain ⟨rest, head⟩ := reached.counts_head member counts
    have off := (reached.entering_off (t := t) enters (by simp [activateWeight])).1
    rw [(Reachable.awake reached).executes head (by rintro rfl; exact counts)] at off
    simp at off
  rcases charged.counts_actor reached member counts with rfl | enters
  · rcases charged.counts_actor reached present also with rfl | enters
    · rfl
    · exact absurd enters (apart member counts)
  · rcases charged.counts_actor reached present also with rfl | enters'
    · exact absurd enters (apart present also)
    · exact reached.entering_unique enters' enters

/-- The weight of the actor's code is that of its first micro-step. -/
theorem Reachable.load_task (reached : Reachable y) (g : GroupId) (t : ι)
    (head : y.todo actor = step :: rest) :
    load (taskWeight g t) (y.todo actor) = taskWeight g t step := by
  have none : ∀ later ∈ rest, taskWeight g t later = 0 := by
    intro later present
    refine taskWeight_eq_zero fun counts => reached.completes head ?_ present
    cases later with
    | acct step => cases step <;> first | rfl | exact absurd counts id
    | _ => exact absurd counts id
  rw [head, load_cons, load, List.sum_eq_zero (by simpa using none), add_zero]

/-- The task's pending accounting, when there is some. -/
theorem Reachable.total_task (reached : Reachable y) {g : GroupId} {t : ι}
    (member : step ∈ y.todo actor) (counts : step.counts g t) :
    total (taskWeight g t) y.todo = taskWeight g t step := by
  obtain ⟨rest, head⟩ := reached.counts_head member counts
  rw [← reached.load_task g t head]
  refine Finset.sum_eq_single actor (fun other _ different => ?_) (by simp)
  refine List.sum_eq_zero fun weight present => ?_
  obtain ⟨later, here, rfl⟩ := List.mem_map.1 present
  exact taskWeight_eq_zero fun also => different (reached.counts_unique member counts here also)

/-- A deduction is pending for a charged task of the group. -/
theorem Charged.deduct_head (charged : Charged y) {t : ι} {g : GroupId}
    (head : y.todo actor = .acct (.decAvailable t g) :: rest) :
    y.shared.cmgroup t = some g ∧ y.shared.charged t = true := by
  rcases charged.deducting actor t g (by simp [head]) with rfl | ⟨-, fields⟩
  · have accounts := charged.own t
    rw [head, accounts_cons] at accounts
    exact accounts.1 rfl
  · exact fields

open Classical in
/-- A task is counted once or not at all. -/
theorem Reachable.deducted (reached : Reachable y) (g : GroupId) (t : ι) :
    member g y.shared t - total (taskWeight g t) y.todo = if Deducted y g t then 1 else 0 := by
  have charged := Reachable.charged reached
  by_cases pending : ∃ actor step, step ∈ y.todo actor ∧ step.counts g t
  · obtain ⟨actor, step, present, counts⟩ := pending
    obtain ⟨rest, head⟩ := reached.counts_head present counts
    -- the task is not completing another update of its fields
    have single : ∀ {later : Instr ι} {other}, later ∈ y.todo other → later.counts g t →
        later = step := by
      intro later other here also
      obtain rfl := reached.counts_unique present counts here also
      obtain ⟨tail, shape⟩ := reached.counts_head here also
      rw [head] at shape
      exact (List.cons.inj shape).1.symm
    rw [reached.total_task present counts]
    cases step with
    | acct step =>
      cases step with
      | decAvailable p h =>
        obtain ⟨rfl, rfl⟩ := counts
        obtain ⟨group, flag⟩ := charged.deduct_head head
        have spared : ¬ Deducted y h p := by
          rintro (⟨other, here⟩ | ⟨-, -, done⟩)
          · simpa using single here ⟨rfl, rfl⟩
          · exact (done actor).1 present
        simp [member, taskWeight, group, flag, spared]
      | incAvailable p h =>
        obtain ⟨rfl, rfl⟩ := counts
        obtain ⟨group, flag, -⟩ := charged.own_head reached head rfl
        have counted : Deducted y h p := .inl ⟨actor, present⟩
        simp [member, taskWeight, flag, counted]
      | clearCharged p h stale =>
        obtain ⟨rfl, rfl⟩ := counts
        obtain ⟨group, flag, -⟩ := charged.own_head reached head rfl
        have spared : ¬ Deducted y h p := by
          rintro (⟨other, here⟩ | ⟨-, now, done⟩)
          · simpa using single here ⟨rfl, rfl⟩
          · rw [flag] at now
            exact (done actor).2 (now ▸ present)
        cases stale <;> simp [member, taskWeight, group, flag, spared]
      | _ => exact absurd counts id
    | _ => exact absurd counts id
  · push Not at pending
    have none : total (taskWeight g t) y.todo = 0 := by
      refine Finset.sum_eq_zero fun actor _ => List.sum_eq_zero fun weight present => ?_
      obtain ⟨step, here, rfl⟩ := List.mem_map.1 present
      exact taskWeight_eq_zero (pending actor step here)
    have same : Deducted y g t ↔ y.shared.cmgroup t = some g ∧ y.shared.charged t = true := by
      constructor
      · rintro (⟨actor, here⟩ | ⟨group, flag, -⟩)
        · exact absurd ⟨rfl, rfl⟩ (pending actor _ here)
        · exact ⟨group, flag⟩
      · rintro ⟨group, flag⟩
        refine .inr ⟨group, flag, fun actor => ⟨fun here => ?_, fun here => ?_⟩⟩
        · exact pending actor _ here ⟨rfl, rfl⟩
        · exact pending actor _ here ⟨rfl, rfl⟩
    rw [none, sub_zero]
    simp only [member, same]

/-- The number of tasks that are counted against the group. -/
theorem Reachable.deducted_card (reached : Reachable y) (g : GroupId) :
    ∑ t, (member g y.shared t - total (taskWeight g t) y.todo) = {t | Deducted y g t}.ncard := by
  classical
  rw [Set.ncard_eq_toFinset_card', Finset.sum_congr rfl fun t _ => reached.deducted g t,
    Finset.sum_boole]
  simp

/-- The micro-step is in the middle of an operation that changes whether the task is counted or on
its run queue. -/
def Instr.moves (t : ι) : Instr ι → Prop
  | .acct (.storeCmgroup p _) | .acct (.clearCharged p _ _) | .acct (.charge p _)
  | .acct (.decAvailable p _) | .acct (.uncharge p _) | .acct (.incAvailable p _)
  | .acct (.clearCmgroup p _) | .sched (.offRq p) | .sched (.enterRq p) => p = t
  | _ => False

/-- The task is in the middle of such an operation. -/
def Midway (y : Sys ι κ) (t : ι) : Prop := ∃ actor, ∃ step ∈ y.todo actor, step.moves t

/-- A task that is not in the middle of an operation is settled while it executes. -/
theorem Accounts.settled {t : ι} {code : Code ι} {group : Option GroupId} {charged : Bool}
    (accounts : Accounts t code group charged) (tails : Tails Resumes code)
    (own : ∀ step ∈ code, ∀ p, step.self = some p → p = t)
    (still : ∀ step ∈ code, ¬ step.moves t) (goes : code.head? ≠ some (.sched (.resume t))) :
    Settled group charged := by
  induction code with
  | nil => exact accounts
  | cons step rest ih =>
    have self := own step (by simp)
    have quiet := still step (by simp)
    have later : Accounts t rest group charged → Settled group charged := by
      intro accounts
      refine ih accounts tails.2 (fun step member => own step (by simp [member]))
        (fun step member => still step (by simp [member])) fun resumes => ?_
      obtain ⟨p, rfl⟩ := tails.1 t resumes
      exact quiet (self p rfl)
    rw [accounts_cons] at accounts
    cases step with
    | acct step =>
      cases step with
      | associate | dissociate | setcvStore | setcvAdd => exact accounts.1
      | charge p g =>
        have other : p ≠ t := quiet
        simp only [Instr.account, if_neg other] at accounts
        exact later accounts
      | decAvailable p g => exact later accounts.2
      | _ => exact absurd (self _ rfl) quiet
    | sched step =>
      cases step with
      | offRq p => exact absurd (self p rfl) quiet
      | resume p =>
        obtain rfl := self p rfl
        simp at goes
      | _ => exact accounts.1
    | obj step =>
      cases step with
      | taskletSchedule | unref => exact later accounts
      | fire g site =>
        cases site with
        | lessRunnable p => exact later accounts.2
        | _ => exact later accounts
      | ref g site =>
        rcases site with _ | _ | _
        case some.lessRunnable p => exact later accounts.2
        all_goals exact later accounts
      | _ => exact accounts.1
    | _ => exact accounts.1

/-- Outside these operations the members of a group are charged exactly while they are on a run
queue. -/
theorem Reachable.charged_iff (reached : Reachable y) {t : ι} (joined : y.shared.cmgroup t ≠ none)
    (still : ¬ Midway y t) : y.shared.charged t = true ↔ y.shared.onRq t = true := by
  have charged := Reachable.charged reached
  constructor
  · intro flag
    by_contra off
    rcases charged.asleep t (by simpa using off) joined with unset | ⟨actor, enters⟩
    · simp [flag] at unset
    · exact still ⟨actor, _, enters, rfl⟩
  · intro on
    by_cases resumes : (y.todo (.task t)).head? = some (.sched (.resume t))
    · exact charged.back t on resumes joined
    · refine (charged.own t).settled (reached.resumes_tails _) (fun step member p self => ?_)
        (fun step member moves => still ⟨.task t, step, member, moves⟩) resumes joined
      simpa using (reached.self member self).symm

/-- The concurrency value stays within its limits, with or without a change in progress. -/
structure Resized (y : Sys ι κ) (g : GroupId) : Prop where
  /-- The limits of the concurrency value. -/
  value : 0 ≤ y.shared.concurrencyValue g ∧ y.shared.concurrencyValue g ≤ cmgroupMaxConcurrencyValue
  /-- The limits of what is about to be stored. -/
  store : ∀ actor nthreads, .acct (.setcvStore g nthreads) ∈ y.todo actor →
    1 ≤ nthreads ∧ nthreads ≤ cmgroupMaxConcurrencyValue
  /-- Before the change in progress the limits were kept. -/
  add : ∀ actor change, .acct (.setcvAdd g change) ∈ y.todo actor →
    0 ≤ y.shared.concurrencyValue g - change ∧
      y.shared.concurrencyValue g - change ≤ cmgroupMaxConcurrencyValue

/-- The concurrency value is stored in one place. -/
theorem exec_concurrencyValue {s s' : Shared ι κ} {code : Code ι} {g : GroupId}
    (done : exec actor choice s step = some (s', code)) :
    s'.concurrencyValue g = s.concurrencyValue g ∨ ∃ nthreads,
      step = .acct (.setcvStore g nthreads) ∧ s'.concurrencyValue g = nthreads := by
  cases accounts : step.accounts
  · exact .inl (by rw [(exec_spared accounts done).2.1])
  · cases step with
    | acct step =>
      cases step with
      | setcvStore h nthreads =>
        simp only [exec, execAcct, Option.some.injEq, Prod.mk.injEq] at done
        obtain ⟨rfl, -⟩ := done
        by_cases same : g = h
        · subst same
          exact .inr ⟨nthreads, rfl, Function.update_self _ _ _⟩
        · exact .inl (Function.update_of_ne same _ _)
      | _ =>
        simp only [exec, execAcct] at done
        repeat' split at done
        all_goals simp only [Option.some.injEq, Prod.mk.injEq] at done
        all_goals obtain ⟨rfl, -⟩ := done
        all_goals exact .inl rfl
    | _ => simp [Instr.accounts] at accounts

/-- Only `cmgroup_set_concurrency_value` starts with a store, of a checked value. -/
theorem startTask_setcvStore {s s' : Shared ι κ} {code : Code ι} {op : TaskOp ι} {p : ι}
    {g : GroupId} {nthreads : ℤ} (done : startTask s p op = some (s', code))
    (member : .acct (.setcvStore g nthreads) ∈ code) :
    1 ≤ nthreads ∧ nthreads ≤ cmgroupMaxConcurrencyValue := by
  cases op with
  | setConcurrencyValue fd wanted cpus =>
    simp only [startTask, cmgroupFromFd] at done
    split at done
    all_goals simp only [Option.some.injEq] at done
    · simp only [Prod.mk.injEq] at done
      obtain ⟨-, rfl⟩ := done
      simp at member
    · repeat' split at done
      all_goals simp only [Prod.mk.injEq] at done
      all_goals obtain ⟨-, rfl⟩ := done
      all_goals simp at member
      obtain ⟨rfl, rfl⟩ := member
      exact checkConcurrencyValue_bounds ‹_›
  | _ =>
    simp only [startTask, withEpoll, cmgroupFromFd, cmgroupDetach, lockoutTasklet,
      epScanReadyList] at done
    repeat' split at done
    all_goals simp only [Option.some.injEq, Prod.mk.injEq, reduceCtorEq] at done
    all_goals obtain ⟨-, rfl⟩ := done
    all_goals simp at member

/-- No CPU changes a concurrency value. -/
theorem startCpu_setcvStore {s s' : Shared ι κ} {code : Code ι} {todo : Actor ι κ → Code ι}
    {op : CpuOp ι} {g : GroupId} {nthreads : ℤ}
    (done : startCpu s todo actor op = some (s', code)) : .acct (.setcvStore g nthreads) ∉ code := by
  cases op <;> simp only [startCpu, withEpoll, cmgroupDetach, lockoutTasklet,
    cmgroupTaskDequeued_requeue] at done
  all_goals repeat' split at done
  all_goals simp only [Option.some.injEq, Prod.mk.injEq, reduceCtorEq] at done
  all_goals obtain ⟨-, rfl⟩ := done
  all_goals simp

/-- What is done under `attached_mtx` is done by its holder. -/
theorem Reachable.mtx_head (reached : Reachable y) {g : GroupId}
    (head : y.todo actor = step :: rest) (needs : mtxNeed g step = 1) :
    1 ≤ load (mtxWeight g) (y.todo actor) := by
  have secured := reached.mtx_secured g actor
  rw [head] at secured ⊢
  rw [← needs]
  exact secured.head

/-- A change that is pending is added next. -/
theorem Reachable.change_head (reached : Reachable y) {g : GroupId} {change : ℤ}
    (member : .acct (.setcvAdd g change) ∈ y.todo actor) :
    ∃ rest, y.todo actor = .acct (.setcvAdd g change) :: rest := by
  cases shape : y.todo actor with
  | nil => simp [shape] at member
  | cons first rest =>
    have late : .acct (.setcvAdd g change) ∉ rest := reached.completes shape rfl
    rw [shape, List.mem_cons] at member
    obtain rfl := member.resolve_right late
    exact ⟨rest, rfl⟩

/-- The concurrency value is stored while no change is pending. -/
theorem Reachable.resize_alone (reached : Reachable y) {g : GroupId} {nthreads change : ℤ}
    (head : y.todo actor = .acct (.setcvStore g nthreads) :: rest) {other : Actor ι κ} :
    .acct (.setcvAdd g change) ∉ y.todo other := by
  intro member
  obtain ⟨tail, shape⟩ := reached.change_head member
  obtain rfl := reached.mtx_unique (g := g) (reached.mtx_head shape (by simp [mtxNeed]))
    (reached.mtx_head head (by simp [mtxNeed]))
  rw [head] at shape
  simp at shape

/-- The micro-step stores a concurrency value, or goes on with the change. -/
def Instr.resizes : Instr ι → Bool
  | .acct (.setcvStore _ _) | .acct (.setcvAdd _ _) => true
  | _ => false

theorem Instr.resizes.absent {code : Code ι} {later : Instr ι} (member : later ∈ code)
    (checked : code.all (fun step => !step.resizes) = true) : ¬ later.resizes = true :=
  absent_of_all (Instr.resizes · = true) Instr.resizes (fun _ => id) member checked

theorem Expands.no_store {s : Shared ι κ} {code : Code ι} {nthreads : ℤ}
    (flow : Expands s actor step code) : .acct (.setcvStore g nthreads) ∉ code := by
  intro member
  induction flow
  case setcvStore => simp at member
  all_goals exact Instr.resizes.absent member rfl rfl

/-- The change of a concurrency value follows its store. -/
theorem Expands.change_source {s : Shared ι κ} {code : Code ι} {change : ℤ}
    (flow : Expands s actor step code) (member : .acct (.setcvAdd g change) ∈ code) :
    ∃ nthreads, step = .acct (.setcvStore g nthreads) := by
  induction flow
  case setcvStore h nthreads =>
    simp only [List.mem_singleton, Instr.acct.injEq, AcctStep.setcvAdd.injEq] at member
    exact ⟨h, by rw [member.1]⟩
  all_goals exact absurd rfl (Instr.resizes.absent member rfl)

/-- The limits are kept in every run. -/
theorem Reachable.resized (reached : Reachable y) (g : GroupId) : Resized y g := by
  induction reached with
  | start initial =>
    constructor
    case value =>
      rw [initial.concurrencyValue]
      simp [cmgroupMaxConcurrencyValue]
    all_goals simp [initial.idle]
  | @step label y y' reached _ taken ih =>
    obtain ⟨actor, spent, gained, effect, move⟩ := next_effect taken
    cases effect with
    | @exec _ _ step _ _ done =>
      obtain ⟨rest, head, after⟩ := id move
      rw [List.singleton_append] at head
      have flow := exec_expands done
      constructor
      case value =>
        rcases exec_concurrencyValue (g := g) done with same | ⟨nthreads, rfl, now⟩
        · rw [same]
          exact ih.value
        · have limits := ih.store actor nthreads (by simp [head])
          omega
      case store =>
        intro other nthreads present
        rcases move.mem present with old | ⟨rfl, new⟩
        · exact ih.store other nthreads old
        · exact absurd new flow.no_store
      case add =>
        intro other change present
        have value := ih.value
        by_cases stores : ∃ nthreads, step = .acct (.setcvStore g nthreads)
        · obtain ⟨nthreads, rfl⟩ := stores
          have limits := ih.store actor nthreads (by simp [head])
          have alone : .acct (.setcvAdd g change) ∉ y.todo other :=
            Reachable.resize_alone reached head
          obtain ⟨rfl, new⟩ := (move.mem present).resolve_left alone
          have fits : Word32.InRange (nthreads - y.shared.concurrencyValue g) := by
            simp only [cmgroupMaxConcurrencyValue] at limits value
            constructor <;> omega
          simp only [Cmgroups.exec, execAcct, Word32.wrap_eq_self fits, Option.some.injEq,
            Prod.mk.injEq] at done
          obtain ⟨stored, rfl⟩ := done
          have now : y'.shared.concurrencyValue g = nthreads := by
            rw [← stored]
            exact Function.update_self _ _ _
          simp only [List.mem_singleton, Instr.acct.injEq, AcctStep.setcvAdd.injEq, true_and] at new
          omega
        · have same := (exec_concurrencyValue (g := g) done).resolve_right
            fun stored => stores (stored.imp fun _ => And.left)
          rw [same]
          rcases move.mem present with old | ⟨rfl, new⟩
          · exact ih.add other change old
          · exact absurd (flow.change_source new) stores
    | task idle able done =>
      have flow := startTask_starts done
      have quiet : ∀ {other change}, .acct (.setcvAdd g change) ∈ y'.todo other →
          .acct (.setcvAdd g change) ∈ y.todo other := by
        intro other change present
        refine (move.mem present).resolve_right fun new => ?_
        have gains := new.2
        cases flow <;> simp at gains
      constructor
      case value =>
        rcases startTask_counters g done with ⟨-, same⟩ | ⟨-, -, lower, upper⟩
        · rw [same]
          exact ih.value
        · exact ⟨by omega, upper⟩
      case store =>
        intro other nthreads present
        rcases move.mem present with old | ⟨-, new⟩
        · exact ih.store other nthreads old
        · exact startTask_setcvStore done new
      case add =>
        intro other change present
        rcases startTask_counters g done with ⟨-, same⟩ | ⟨unborn, -⟩
        · rw [same]
          exact ih.add other change (quiet present)
        · exact absurd rfl (Reachable.unborn_silent reached unborn (quiet present))
    | cpu idle done =>
      have flow := startCpu_starts done
      have old : ∀ {other step}, step ∈ y'.todo other → step ∉ gained → step ∈ y.todo other :=
        fun present absent => (move.mem present).resolve_right fun new => absent new.2
      have same : y'.shared.concurrencyValue = y.shared.concurrencyValue := by
        rw [startCpu_frame done]
      constructor
      case value =>
        rw [same]
        exact ih.value
      case store =>
        intro other nthreads present
        exact ih.store other nthreads (old present (startCpu_setcvStore done))
      case add =>
        intro other change present
        rw [same]
        exact ih.add other change (old present fun new => by cases flow <;> simp at new)

/-- The change of the concurrency value that a `cmgroup_set_concurrency_value` in progress has not
yet added to `available`. -/
def ChangePending (y : Sys ι κ) (g : GroupId) (change : ℤ) : Prop :=
  (∃ actor, .acct (.setcvAdd g change) ∈ y.todo actor) ∨
    change = 0 ∧ ∀ actor other, .acct (.setcvAdd g other) ∉ y.todo actor

/-- What is pending for the concurrency value. -/
theorem Reachable.changePending (reached : Reachable y) (g : GroupId) :
    ChangePending y g (total (changeWeight g) y.todo) := by
  have weighs : ∀ {actor}, (∀ change, .acct (.setcvAdd g change) ∉ y.todo actor) →
      load (changeWeight g) (y.todo actor) = 0 := by
    intro actor none
    refine List.sum_eq_zero fun weight present => ?_
    obtain ⟨step, member, rfl⟩ := List.mem_map.1 present
    cases step with
    | acct step =>
      cases step with
      | setcvAdd h change => exact if_neg fun same : h = g => none change (same ▸ member)
      | _ => rfl
    | _ => rfl
  by_cases pending : ∃ actor change, .acct (.setcvAdd g change) ∈ y.todo actor
  · obtain ⟨actor, change, member⟩ := pending
    obtain ⟨rest, head⟩ := reached.change_head member
    have single : total (changeWeight g) y.todo = load (changeWeight g) (y.todo actor) := by
      refine Finset.sum_eq_single actor (fun other _ different => weighs fun later present => ?_)
        (by simp)
      obtain ⟨tail, shape⟩ := reached.change_head present
      exact different (reached.mtx_unique (g := g) (reached.mtx_head head (by simp [mtxNeed]))
        (reached.mtx_head shape (by simp [mtxNeed])))
    have later : load (changeWeight g) rest = 0 := by
      refine List.sum_eq_zero fun weight present => ?_
      obtain ⟨step, here, rfl⟩ := List.mem_map.1 present
      cases step with
      | acct step =>
        cases step with
        | setcvAdd h change => exact absurd here (reached.completes head rfl)
        | _ => rfl
      | _ => rfl
    left
    refine ⟨actor, ?_⟩
    rw [single, head, load_cons, later]
    simp [changeWeight]
  · push Not at pending
    exact .inr ⟨Finset.sum_eq_zero fun actor _ => weighs (pending actor), pending⟩

/-- Runnable accounting: `available` is the concurrency value less the change in progress and less
the number of counted tasks, and members of the group outside every operation are counted exactly
while they are charged, which is while they are on a run queue. -/
theorem runnable_accounting (reached : Reachable y) (g : GroupId) :
    (∃ change, ChangePending y g change ∧
      y.shared.available g =
        Word32.wrap (y.shared.concurrencyValue g - change - {t | Deducted y g t}.ncard) ∧
      ({t | Deducted y g t}.ncard < 2 ^ 30 →
        y.shared.available g = y.shared.concurrencyValue g - change - {t | Deducted y g t}.ncard)) ∧
    ∀ t, y.shared.cmgroup t = some g → ¬ Midway y t →
      (y.shared.charged t = true ↔ y.shared.onRq t = true) ∧
        (Deducted y g t ↔ y.shared.charged t = true) := by
  constructor
  · have pending := reached.changePending g
    have range := reached.available_inRange g
    have resized := reached.resized g
    have ledger := reached.taken g
    have card := reached.deducted_card g
    rw [total_acct] at ledger
    rw [Finset.sum_sub_distrib] at card
    simp only [Cmgroups.taken] at ledger
    have word : y.shared.available g = Word32.wrap (y.shared.concurrencyValue g -
        total (changeWeight g) y.todo - {t | Deducted y g t}.ncard) := by
      refine Word32.eq_wrap_of_dvd range ?_
      rw [← dvd_neg]
      refine ledger.trans (dvd_of_eq ?_)
      linarith
    refine ⟨_, pending, word, fun few => ?_⟩
    have limits : 0 ≤ y.shared.concurrencyValue g - total (changeWeight g) y.todo ∧
        y.shared.concurrencyValue g - total (changeWeight g) y.todo ≤ cmgroupMaxConcurrencyValue := by
      rcases pending with ⟨actor, member⟩ | ⟨none, -⟩
      · exact resized.add actor _ member
      · rw [none, sub_zero]
        exact resized.value
    rw [word]
    refine Word32.wrap_eq_self ?_
    simp only [cmgroupMaxConcurrencyValue] at limits
    constructor <;> omega
  · intro t group still
    refine ⟨reached.charged_iff (by simp [group]) still, ?_⟩
    have quiet : ∀ {step : Instr ι} {actor}, step.moves t → step ∉ y.todo actor :=
      fun moves member => still ⟨_, _, member, moves⟩
    constructor
    · rintro (⟨actor, member⟩ | ⟨-, flag, -⟩)
      · exact absurd member (quiet rfl)
      · exact flag
    · exact fun flag => .inr ⟨group, flag, fun actor => ⟨quiet rfl, quiet rfl⟩⟩

end Reached

/-- A task creates a group and associates itself with it. -/
def associateRun : List (Label Unit Unit) :=
  [Label.task () (.newgroup 0 1 0 1), .run (.task ()) {}, .run (.task ()) {}, .run (.task ()) {},
    .task () (.associate (.cm 0))] ++ List.replicate 6 (Label.run (.task ()) {})

/-- The task is counted, and takes the one opening. -/
theorem runnable_accounting_associated : ∃ y : Sys Unit Unit, Reachable y ∧
    y.shared.onRq () = true ∧ Deducted y 0 () ∧ ∃ change, ChangePending y 0 change ∧
      y.shared.available 0 = y.shared.concurrencyValue 0 - change - {t | Deducted y 0 t}.ncard := by
  have replayed : (Transition.run next associateRun (boot fun _ => true)).map (fun y => decide
      (y.shared.onRq () = true ∧ y.shared.cmgroup () = some 0 ∧ ∀ actor, y.todo actor = [])) =
        some true := by decide +kernel
  obtain ⟨y, reached, passed⟩ :=
    Transition.exists_reach_of_run (boot_initial fun _ => true) replayed
  obtain ⟨on, joined, idle⟩ := of_decide_eq_true passed
  have still : ¬ Midway y () := by simp [Midway, idle]
  obtain ⟨⟨change, pending, -, exact⟩, members⟩ := runnable_accounting reached 0
  obtain ⟨charged, counted⟩ := members () joined still
  refine ⟨y, reached, on, counted.2 (charged.2 on), change, pending, exact ?_⟩
  have few : {t : Unit | Deducted y 0 t}.ncard ≤ 1 :=
    (Set.ncard_le_ncard (Set.subset_univ _)).trans (by simp)
  omega

/-- A task creates a group of concurrency value 1 and changes it to 2, up to the store of the new
concurrency value. -/
def resizeRun : List (Label Unit Unit) :=
  [Label.task () (.newgroup 0 1 0 1), .run (.task ()) {}, .run (.task ()) {}, .run (.task ()) {},
    .task () (.setConcurrencyValue (.cm 0) 2 1)] ++ List.replicate 4 (Label.run (.task ()) {})

/-- A charged task forks, and the child, whose flag is a copy, associates itself with the group of
its parent, up to the store of the group. -/
def staleRun : List (Label Bool Unit) :=
  [Label.task true (.newgroup 0 2 0 1), .run (.task true) {}, .run (.task true) {},
    .run (.task true) {}, .task true (.associate (.cm 0))] ++ List.replicate 6 (Label.run (.task true) {}) ++
  [Label.task true (.fork false), .run (.task true) {}, .run (.task true) {},
    .task false (.associate (.cm 0)), .run (.task false) {}, .run (.task false) {}]

/-- In the first run `available` is not yet changed though no task is in the group; in the second
two members have the flag and one of them was deducted. -/
theorem runnable_accounting_midway :
    (∃ y : Sys Unit Unit, Reachable y ∧ (∀ t, y.shared.cmgroup t ≠ some 0) ∧
      y.shared.concurrencyValue 0 = 2 ∧ y.shared.available 0 = 1) ∧
    ∃ y : Sys Bool Unit, Reachable y ∧
      (∀ t, y.shared.cmgroup t = some 0 ∧ y.shared.charged t = true) ∧
      (∀ actor t, .acct (.decAvailable t 0) ∉ y.todo actor ∧ .acct (.charge t 0) ∉ y.todo actor) ∧
      y.shared.concurrencyValue 0 = 2 ∧ y.shared.available 0 = 1 := by
  constructor
  · have replayed : (Transition.run next resizeRun (boot fun _ => true)).map (fun y => decide
        ((∀ t, y.shared.cmgroup t ≠ some 0) ∧ y.shared.concurrencyValue 0 = 2 ∧
          y.shared.available 0 = 1)) = some true := by decide +kernel
    obtain ⟨y, reached, passed⟩ :=
      Transition.exists_reach_of_run (boot_initial fun _ => true) replayed
    exact ⟨y, reached, of_decide_eq_true passed⟩
  · have replayed : (Transition.run next staleRun (boot id)).map (fun y => decide
        ((∀ t, y.shared.cmgroup t = some 0 ∧ y.shared.charged t = true) ∧
          (∀ actor t, .acct (.decAvailable t 0) ∉ y.todo actor ∧
            .acct (.charge t 0) ∉ y.todo actor) ∧
          y.shared.concurrencyValue 0 = 2 ∧ y.shared.available 0 = 1)) = some true := by
      decide +kernel
    obtain ⟨y, reached, passed⟩ := Transition.exists_reach_of_run (boot_initial id) replayed
    exact ⟨y, reached, of_decide_eq_true passed⟩

end Cmgroups
