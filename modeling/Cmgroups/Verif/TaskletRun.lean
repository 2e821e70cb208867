import Cmgroups.Verif.Expansion

/-!
# One run of the tasklet's handler

A single invocation of `cmgroup_tasklet`, from its first pass through `again` to its return.
Between two of its micro-steps the environment changes the shared state in any way; nothing
is assumed about it. The invocation is charged one round each time it goes through `again` or
`again_wakeall`, and one step for every micro-step. A budget that each micro-step lowers bounds
both, as long as the branch for `CMGROUP_ACTION_RESET_WAKEONE` finds an opening. Where it finds
none, the handler re-checks and starts over without advancing `pass`, so no number of rounds
bounds it.
-/

set_option linter.unusedSectionVars false

namespace Cmgroups

open Function (update)
open Pool

variable {ι κ : Type} [DecidableEq ι] [DecidableEq κ]

/-- An invocation of `cmgroup_tasklet` in progress. -/
structure Invocation (ι κ : Type) where
  /-- The shared state. -/
  shared : Shared ι κ
  /-- The code the invocation still has to execute. -/
  code : Code ι
  /-- How often it went through `again` and `again_wakeall`. -/
  rounds : ℤ
  /-- How many micro-steps it has executed. -/
  steps : ℤ

/-- What happens before and in one micro-step of an invocation. -/
structure Turn (ι κ : Type) where
  /-- What the environment does first. -/
  interfere : Shared ι κ → Shared ι κ
  /-- How the micro-step resolves what the code leaves open. -/
  choice : Choice

/-- The passes through `again` and `again_wakeall`. -/
def roundCost : Instr ι → ℤ
  | .tasklet (.again _ _) | .tasklet (.wakeAll _ _) => 1
  | _ => 0

/-- One turn of an invocation executed by `actor`. -/
def Invocation.next (actor : Actor ι κ) (turn : Turn ι κ) (run : Invocation ι κ) :
    Option (Invocation ι κ) :=
  match run.code with
  | [] => none
  | step :: rest =>
    (exec actor turn.choice (turn.interfere run.shared) step).map fun (s, code) =>
      { shared := s
        code := code ++ rest
        rounds := run.rounds + roundCost step
        steps := run.steps + 1 }

/-- An invocation starts at `again` with `pass = 0`, in any state. -/
def Invocation.Entered (g : GroupId) (run : Invocation ι κ) : Prop :=
  run.code = [.tasklet (.again g 0)] ∧ run.rounds = 0 ∧ run.steps = 0

/-- The branch for `CMGROUP_ACTION_RESET_WAKEONE`, if it is the next micro-step, finds an
opening. -/
def Invocation.ResetOpen (turn : Turn ι κ) (run : Invocation ι κ) : Prop :=
  ∀ g pass rest, run.code = .tasklet (.reset g pass) :: rest →
    0 < (turn.interfere run.shared).available g

/-- Passes that `max_passes` still allows. -/
def passesLeft (pass : ℕ) : ℤ := (maxPasses - pass : ℕ)

/-- The rounds a micro-step of the handler can still lead to. -/
def roundBudget : Instr ι → ℤ
  | .tasklet (.act _ pass) | .tasklet (.wakeAll _ pass) | .tasklet (.wake _ pass) =>
    1 + 2 * passesLeft pass
  | .tasklet (.again _ pass) | .tasklet (.avail _ pass) | .tasklet (.recheckClear _ pass)
  | .tasklet (.recheck _ pass) | .tasklet (.reassert _ pass) => 2 + 2 * passesLeft pass
  | _ => 0

/-- The micro-steps a micro-step of the handler can still lead to, itself included; nothing for
micro-steps the handler does not execute. -/
def stepBudget : Instr ι → ℤ
  | .sched (.activate _ _) => 4
  | .sched (.enterRq _) => 1
  | .acct (.charge _ _) => 2
  | .acct (.decAvailable _ _) => 1
  | .obj (.unref _ _) | .obj (.taskletSchedule _) => 1
  | .lock (.lockVia _ _) => 2
  | .lock (.spinVia _ _ _) | .lock (.unlockVia _ _) => 1
  | .lock (.wakeOne _) => 5
  | .tasklet (.clear _) => 1
  | .tasklet (.reset _ _) => 9
  | .tasklet (.wakeAll _ pass) => 4 + 15 * passesLeft pass
  | .tasklet (.wake _ pass) => 9 + 15 * passesLeft pass
  | .tasklet (.act _ pass) => 10 + 15 * passesLeft pass
  | .tasklet (.again _ pass) => 13 + 15 * passesLeft pass
  | .tasklet (.reassert _ pass) => 14 + 15 * passesLeft pass
  | .tasklet (.recheck _ pass) => 15 + 15 * passesLeft pass
  | .tasklet (.recheckClear _ pass) => 17 + 15 * passesLeft pass
  | .tasklet (.avail _ pass) => 18 + 15 * passesLeft pass
  | _ => 0

section Step

variable {s s' : Shared ι κ} {actor : Actor ι κ} {choice : Choice} {step : Instr ι}
  {code : Code ι} {g : GroupId} {pass : ℕ}

theorem passesLeft_nonneg (pass : ℕ) : 0 ≤ passesLeft pass := Int.natCast_nonneg _

/-- A pass within `max_passes` uses one of the passes that were left. -/
theorem passesLeft_succ (within : ¬ maxPasses < pass + 1) :
    passesLeft pass = passesLeft (pass + 1) + 1 := by
  simp only [passesLeft]
  omega

theorem roundBudget_nonneg (step : Instr ι) : 0 ≤ roundBudget step := by
  unfold roundBudget
  split
  all_goals have left := passesLeft_nonneg
  all_goals grind

theorem stepBudget_nonneg (step : Instr ι) : 0 ≤ stepBudget step := by
  unfold stepBudget
  split
  all_goals have left := passesLeft_nonneg
  all_goals grind

/-- A micro-step of the handler lowers both budgets by what it uses, and is followed by
micro-steps of the handler. -/
theorem Expands.budget (handler : 0 < stepBudget step)
    (opening : ∀ g pass, step = .tasklet (.reset g pass) → 0 < s.available g)
    (flow : Expands s actor step code) :
    load stepBudget code + 1 ≤ stepBudget step ∧
      load roundBudget code + roundCost step ≤ roundBudget step ∧
      ∀ next ∈ code, 0 < stepBudget next := by
  have left := passesLeft_nonneg
  induction flow
  case resetRecheck g pass full => exact absurd (opening g pass rfl) full
  case wakeAllPass g pass within =>
    have used := passesLeft_succ within
    have rest := left (pass + 1)
    simp only [load_cons, load_nil, stepBudget, roundBudget, roundCost, List.mem_singleton,
      forall_eq]
    omega
  all_goals dsimp only [stepBudget] at handler
  all_goals try exact absurd handler (lt_irrefl _)
  all_goals simp only [load_cons, load_nil, stepBudget, roundBudget, roundCost, List.mem_cons,
    List.not_mem_nil, or_false, forall_eq_or_imp, forall_eq, false_imp_iff, implies_true]
  all_goals grind

/-- With every lock free, each micro-step of the handler can be executed. -/
theorem exec_handler (handler : 0 < stepBudget step) (owners : ∀ lock, s.owner lock = none)
    (queues : ∀ p, s.rqLock p = none) : (exec actor choice s step).isSome = true := by
  have woken : ∀ lock remote, (wakeUpLocked s lock remote).isSome = true := by
    intro lock remote
    unfold wakeUpLocked
    split
    · rfl
    · simp only [Option.isSome_map, tryToWakeUp, queues]
      split_ifs <;> first | rfl | contradiction
  cases step with
  | sched step =>
    cases step <;> dsimp only [stepBudget] at handler <;>
      first | exact absurd handler (lt_irrefl _) | simp [exec, execSched, queues]
  | acct step =>
    cases step <;> dsimp only [stepBudget] at handler <;>
      first | exact absurd handler (lt_irrefl _) | simp [exec, execAcct]
  | obj step =>
    cases step <;> dsimp only [stepBudget] at handler <;> simp only [exec, execObj]
    all_goals first | exact absurd handler (lt_irrefl _) | (split_ifs <;> rfl)
  | lock step =>
    cases step <;> dsimp only [stepBudget] at handler <;>
      first
      | exact absurd handler (lt_irrefl _)
      | simp [exec, execLock, owners, woken]
  | tasklet step =>
    cases step <;> dsimp only [stepBudget] at handler <;> simp only [exec, execTasklet]
    case wake => rw [Option.isSome_map, woken]
    all_goals first
      | exact absurd handler (lt_irrefl _)
      | rfl
      | (split <;> first | rfl | (split <;> rfl))
  | bind step => exact absurd handler (lt_irrefl _)
  | wait step => exact absurd handler (lt_irrefl _)
  | ep step => exact absurd handler (lt_irrefl _)

end Step

section Run

variable {actor : Actor ι κ} {g : GroupId} {run : Invocation ι κ}

/-- What is used and what is left of both budgets never exceeds the budgets of a fresh
invocation. -/
theorem Invocation.budget
    (reached : Transition.ReachWith (Invocation.Entered g) (Invocation.next actor)
      Invocation.ResetOpen run) :
    run.steps + load stepBudget run.code ≤ 88 ∧ run.rounds + load roundBudget run.code ≤ 12 ∧
      ∀ step ∈ run.code, 0 < stepBudget step := by
  induction reached with
  | @start run entered =>
    obtain ⟨code, rounds, steps⟩ := entered
    simp [code, rounds, steps, stepBudget, roundBudget, passesLeft, maxPasses]
  | @step turn before after reached opening taken ih =>
    obtain ⟨stepsLeft, roundsLeft, handler⟩ := ih
    cases code : before.code with
    | nil => simp [Invocation.next, code] at taken
    | cons step rest =>
      simp only [Invocation.next, code, Option.map_eq_some_iff, Prod.exists] at taken
      obtain ⟨s', next, done, rfl⟩ := taken
      rw [code] at stepsLeft roundsLeft handler
      obtain ⟨stepUsed, roundUsed, handlers⟩ := (exec_expands done).budget
        (handler step List.mem_cons_self) fun h pass next => opening h pass rest (by rw [code, next])
      simp only [load_cons, load_append] at stepsLeft roundsLeft ⊢
      refine ⟨by linarith, by linarith, fun next member => ?_⟩
      rcases List.mem_append.mp member with inside | inside
      · exact handlers next inside
      · exact handler next (List.mem_cons_of_mem _ inside)

/-- An invocation whose `CMGROUP_ACTION_RESET_WAKEONE` branch always finds an opening goes at
most 12 times through `again` and `again_wakeall` and executes at most 88 micro-steps, and it
never stops before its end: with the locks it needs free, it can always go on. -/
theorem tasklet_run_bounded
    (reached : Transition.ReachWith (Invocation.Entered g) (Invocation.next actor)
      Invocation.ResetOpen run) :
    run.rounds ≤ 12 ∧ run.steps ≤ 88 ∧
      (run.code = [] ∨ ∃ turn, run.ResetOpen turn ∧ (run.next actor turn).isSome = true) := by
  obtain ⟨steps, rounds, handler⟩ := Invocation.budget reached
  have stepsLeft : 0 ≤ load stepBudget run.code := load_nonneg stepBudget_nonneg run.code
  have roundsLeft : 0 ≤ load roundBudget run.code := load_nonneg roundBudget_nonneg run.code
  refine ⟨by linarith, by linarith, ?_⟩
  cases code : run.code with
  | nil => exact .inl rfl
  | cons step rest =>
    -- the environment releases every lock and leaves an opening
    let free : Turn ι κ := ⟨fun s => { s with
      owner := fun _ => none
      rqLock := fun _ => none
      available := fun _ => 1 }, {}⟩
    refine .inr ⟨free, fun _ _ _ _ => Int.one_pos, ?_⟩
    simp only [Invocation.next, code, Option.isSome_map]
    refine exec_handler (handler step ?_) (fun _ => rfl) (fun _ => rfl)
    rw [code]
    exact List.mem_cons_self

end Run

/-- A fresh invocation for a group at boot, and the state after its pass through `again`. -/
theorem tasklet_run_bounded_again : ∃ run : Invocation Unit Unit,
    run.code = [.lock (.lockVia 0 .tasklet), .tasklet (.act 0 0)] ∧ run.rounds = 1 ∧
      run.rounds ≤ 12 := by
  have entered : Transition.ReachWith (Invocation.Entered 0) (Invocation.next (.cpu ()))
      Invocation.ResetOpen
      ⟨(boot fun _ => true : Sys Unit Unit).shared, [.tasklet (.again 0 0)], 0, 0⟩ :=
    .start ⟨rfl, rfl, rfl⟩
  have taken : Invocation.next (.cpu ()) ⟨id, {}⟩
      ⟨(boot fun _ => true : Sys Unit Unit).shared, [.tasklet (.again 0 0)], 0, 0⟩ =
      some ⟨(boot fun _ => true : Sys Unit Unit).shared,
        [.lock (.lockVia 0 .tasklet), .tasklet (.act 0 0)], 1, 1⟩ := rfl
  have again := entered.step (fun _ _ _ front => by simp at front) taken
  exact ⟨_, rfl, rfl, (tasklet_run_bounded again).1⟩

section Unbounded

variable {actor : Actor ι κ} {g : GroupId} {s s' : Shared ι κ} {step : Instr ι}
  {code rest : Code ι} {rounds steps : ℤ}

/-- Invocations in any environment. -/
abbrev Invocation.Reached (actor : Actor ι κ) (g : GroupId) : Invocation ι κ → Prop :=
  Transition.Reach (Invocation.Entered g) (Invocation.next actor)

/-- One turn further. -/
theorem Invocation.Reached.turn (turn : Turn ι κ)
    (reached : Invocation.Reached actor g ⟨s, step :: rest, rounds, steps⟩)
    (done : exec actor turn.choice (turn.interfere s) step = some (s', code)) :
    Invocation.Reached actor g ⟨s', code ++ rest, rounds + roundCost step, steps + 1⟩ := by
  have taken : Invocation.next actor turn ⟨s, step :: rest, rounds, steps⟩ =
      some ⟨s', code ++ rest, rounds + roundCost step, steps + 1⟩ := by
    simp [Invocation.next, done]
  exact .step reached trivial taken

/-- A turn before which the environment changes nothing but `available`. -/
def availableTurn (g : GroupId) (value : ℤ) : Turn ι κ :=
  ⟨fun s => { s with available := update s.available g value }, {}⟩

/-- A request to wake one task leads to its branch. -/
theorem exec_act_reset {choice : Choice} {pass : ℕ} (asked : s.action g = .resetWakeOne) :
    exec actor choice s (.tasklet (.act g pass)) = some (s, [.tasklet (.reset g pass)]) := by
  simp [exec, execTasklet, asked]

/-- An invocation that finds no opening while it holds the lock, and one when it re-checks, is
back at `again` with the same `pass`: the environment only has to change `available`. -/
theorem Invocation.Reached.round {pass : ℕ}
    (reached : Invocation.Reached actor g ⟨s, [.tasklet (.again g pass)], rounds, steps⟩)
    (asked : s.action g = .resetWakeOne) (free : s.owner (s.lockOf g) = none) :
    ∃ run, Invocation.Reached actor g run ∧ run.code = [.tasklet (.again g pass)] ∧
      run.rounds = rounds + 1 ∧ run.shared.action g = .resetWakeOne ∧
      run.shared.owner (run.shared.lockOf g) = none := by
  have full : ∀ s : Shared ι κ, ¬ 0 < ((availableTurn g 0).interfere s).available g := by
    intro s
    simp [availableTurn]
  have opening : ∀ s : Shared ι κ, ¬ ((availableTurn g 1).interfere s).available g ≤ 0 := by
    intro s
    simp [availableTurn]
  have loaded := (reached.turn (availableTurn g 0) rfl).turn (availableTurn g 0) rfl
  have locked := loaded.turn (availableTurn g 0) (if_neg (not_not.mpr free))
  have tested := locked.turn (availableTurn g 0) (exec_act_reset asked)
  have closed := tested.turn (availableTurn g 0) (if_neg (full _))
  have unlocked := (closed.turn (availableTurn g 0) rfl).turn (availableTurn g 1) rfl
  have rechecked := unlocked.turn (availableTurn g 1) (if_neg (opening _))
  have active : ∀ active : GroupId → Bool, ¬ update active g false g = true := by simp
  have back := rechecked.turn (availableTurn g 1) (if_neg (active _))
  exact ⟨_, back, rfl, by simp [roundCost], asked, Function.update_self ..⟩

end Unbounded

/-- A group with a request to wake one task. -/
def requested : Shared Unit Unit :=
  { (boot fun _ => true : Sys Unit Unit).shared with action := fun _ => .resetWakeOne }

/-- However often the invocation has gone round, it can go round once more. -/
theorem requested_rounds (count : ℕ) : ∃ run : Invocation Unit Unit,
    Invocation.Reached (.cpu ()) 0 run ∧ run.code = [.tasklet (.again 0 0)] ∧
      run.rounds = count ∧ run.shared.action 0 = .resetWakeOne ∧
      run.shared.owner (run.shared.lockOf 0) = none := by
  induction count with
  | zero =>
    exact ⟨⟨requested, [.tasklet (.again 0 0)], 0, 0⟩, .start ⟨rfl, rfl, rfl⟩, rfl, rfl, rfl, rfl⟩
  | succ count ih =>
    obtain ⟨⟨s, code, rounds, steps⟩, reached, rfl, rfl, asked, free⟩ := ih
    obtain ⟨run, around, code, rounds, asked, free⟩ := reached.round asked free
    exact ⟨run, around, code, by simpa using rounds, asked, free⟩

/-- Without the restriction no number bounds the rounds of one invocation. -/
theorem tasklet_run_unbounded : ¬ ∃ bound : ℤ, ∀ run : Invocation Unit Unit,
    Invocation.Reached (.cpu ()) 0 run → run.rounds ≤ bound := by
  rintro ⟨bound, bounded⟩
  obtain ⟨run, reached, -, rounds, -, -⟩ := requested_rounds (bound.toNat + 1)
  have within := bounded run reached
  have above : bound ≤ bound.toNat := Int.self_le_toNat bound
  rw [rounds, Nat.cast_add, Nat.cast_one] at within
  omega

end Cmgroups
