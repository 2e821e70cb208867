import Cmgroups.Verif.PollCalls
import Cmgroups.Verif.Sources

/-!
# The wait queue of an epoll

`ep_poll` enters `ep->wq` at three places and leaves it at three others, with sleeps, other
callers and unlocked windows in between. `Reachable.entries` counts the entries of a task against
its program point; `Poised` says what the code of a task asks of its state, so that the task is
running wherever it is not about to sleep.
-/

set_option linter.unusedSectionVars false

namespace Cmgroups

open Function (update)
open Pool

variable {ι κ : Type} [DecidableEq ι] [DecidableEq κ]

/-- Program points of `ep_poll` at which the caller has an entry in `ep->wq`. -/
def EpPc.entered : EpPc → Bool
  | .waitAvail | .waitSet | .waitSleep | .waitWoken | .waitBack _ | .waitDone _ | .loop | .sleep
  | .woken | .back | .rejoin | .leave => true
  | _ => false

/-- Entries of the task in `ep->wq`, by the code of its call. -/
def entryWeight (e : EpollId) (t : ι) : Instr ι → ℤ
  | .ep (.poll p f pc _) => if p = t ∧ f = e then pc.entered.toInt else 0
  | _ => 0

/-- The micro-step is a program point of `ep_poll`. -/
def Instr.isPoll : Instr ι → Bool
  | .ep (.poll _ _ _ _) => true
  | _ => false

/-- Program points of `ep_poll` at which the caller is running for certain. -/
def EpPc.running : EpPc → Bool
  | .waitDone _ | .waitSleep | .waitWoken | .sleep | .woken | .leave => false
  | _ => true

/-- What a micro-step asks of the state of its task, where `later` is asked afterwards. -/
def Instr.poised (later : TaskState → Prop) : Instr ι → TaskState → Prop
  | .ep (.poll _ _ pc _), state => (pc.running = true → state = .running) ∧ ∀ any, later any
  | .wait _, _ => ∀ any, later any
  | .lock (.epPut _), state => state = .running ∧ later state
  | .sched (.setState _ value), _ => later value
  | .sched (.schedule _), _ | .sched (.resume _), _ => later .running
  | _, state => later state

/-- In this state the task reaches the program points of `ep_poll` that ask for it, and the end of
every call on an epoll, running. -/
def Poised : Code ι → TaskState → Prop
  | [] => fun _ => True
  | step :: rest => step.poised (Poised rest)

@[simp] theorem poised_nil (state : TaskState) : Poised ([] : Code ι) state := trivial

@[simp] theorem poised_cons (step : Instr ι) (rest : Code ι) (state : TaskState) :
    Poised (step :: rest) state ↔ step.poised (Poised rest) state := Iff.rfl

section Queue

variable {actor : Actor ι κ} {choice : Choice} {s s' : Shared ι κ} {step : Instr ι}
  {front code : Code ι} {t : ι} {e f : EpollId} {pc after : EpPc} {locals locals' : EpLocals}

/-- A step of `ep_poll` leaves the wait queues alone, adds the caller to `ep->wq`, or removes it. -/
theorem Goes.entry (goes : Goes s choice t e locals pc s' front after locals') :
    s'.queue = s.queue ∧ after.entered = pc.entered ∨
    s'.queue = update s.queue (.epoll e) (t :: s.queue (.epoll e)) ∧ pc.entered = false ∧
      after.entered = true ∨
    s'.queue = update s.queue (.epoll e) ((s.queue (.epoll e)).erase t) ∧ pc.entered = true ∧
      after.entered = false := by
  cases goes
  case waitAdd | events => exact .inr (.inl ⟨rfl, rfl, rfl⟩)
  case waitDone | waitDoneOut | rejoin | leave => exact .inr (.inr ⟨rfl, rfl, rfl⟩)
  all_goals exact .inl ⟨rfl, rfl⟩

/-- One entry inside the queue and none outside it, if it was so before. -/
theorem Goes.entries (goes : Goes s choice t e locals pc s' front after locals')
    (entries : ((s.queue (.epoll e)).count t : ℤ) = pc.entered.toInt) :
    ((s'.queue (.epoll e)).count t : ℤ) = after.entered.toInt := by
  rcases goes.entry with ⟨queue, same⟩ | ⟨queue, out, inside⟩ | ⟨queue, inside, out⟩
  · rw [queue, entries, same]
  · rw [queue, Function.update_self, List.count_cons_self, Nat.cast_add, entries, out, inside]
    rfl
  · rw [inside, Bool.toInt_true] at entries
    have one : (s.queue (.epoll e)).count t = 1 := by exact_mod_cast entries
    rw [queue, Function.update_self, List.count_erase_self, one, out]
    rfl

/-- A step of `ep_poll` leaves the entries of other tasks and the queues of other epolls alone. -/
theorem Goes.other_entries (goes : Goes s choice t e locals pc s' front after locals') {p : ι}
    (other : ¬ (t = p ∧ e = f)) :
    (s'.queue (.epoll f)).count p = (s.queue (.epoll f)).count p := by
  by_cases file : e = f
  · subst file
    have different : t ≠ p := fun task => other ⟨task, rfl⟩
    rcases goes.entry with ⟨queue, -⟩ | ⟨queue, -, -⟩ | ⟨queue, -, -⟩
    · rw [queue]
    · rw [queue, Function.update_self, List.count_cons_of_ne different]
    · rw [queue, Function.update_self, List.count_erase_of_ne different.symm]
  · have elsewhere : LockId.epoll f ≠ .epoll e := by simpa using Ne.symm file
    rcases goes.entry with ⟨queue, -⟩ | ⟨queue, -, -⟩ | ⟨queue, -, -⟩
    · rw [queue]
    · rw [queue, Function.update_of_ne elsewhere]
    · rw [queue, Function.update_of_ne elsewhere]

/-- Code without program points of `ep_poll` stands for no entry. -/
theorem load_entry_of_all (others : code.all (fun later => !later.isPoll) = true) :
    load (entryWeight e t) code = 0 := by
  refine List.sum_eq_zero fun value present => ?_
  obtain ⟨later, member, rfl⟩ := List.mem_map.1 present
  have other := List.all_eq_true.1 others later member
  unfold entryWeight
  split
  case h_1 => simp [Instr.isPoll] at other
  case h_2 => rfl

theorem Instr.isPoll_of_polls (other : step.polls = false) : step.isPoll = false := by
  cases step with
  | ep step => cases step <;> first | rfl | contradiction
  | _ => rfl

theorem all_isPoll_of_polls (others : code.all (fun later => !later.polls) = true) :
    code.all (fun later => !later.isPoll) = true := by
  refine List.all_eq_true.2 fun later member => ?_
  have other := List.all_eq_true.1 others later member
  simpa using Instr.isPoll_of_polls (by simpa using other)

/-- Only `ep_poll` goes on to its program points. -/
theorem Expands.isPoll (flow : Expands s actor step code) (other : step.isPoll = false) :
    code.all (fun later => !later.isPoll) = true := by
  induction flow <;> first | rfl | contradiction

/-- A wake-up takes nobody out of `ep->wq`. -/
theorem wakeUpLocked_queue {lock : LockId} {remote : Bool}
    (done : wakeUpLocked s lock remote = some (s', code)) :
    s'.queue (.epoll e) = s.queue (.epoll e) := by
  unfold wakeUpLocked at done
  split at done
  · simp only [Option.some.injEq, Prod.mk.injEq] at done
    obtain ⟨rfl, -⟩ := done
    rfl
  · simp only [Option.map_eq_some_iff, Prod.exists, Prod.mk.injEq] at done
    obtain ⟨woken, code', tried, rfl, -⟩ := done
    have frame := tryToWakeUp_frame tried
    cases lock with
    | own g =>
      simp only [wakeFunction]
      rw [Function.update_of_ne (by simp), frame]
    | epoll f =>
      simp only [wakeFunction]
      rw [frame]

/-- Apart from `ep_poll`, only `__cmgroup_wait` and `finish_wait` change the entries of a queue that
is not woken with removal. -/
theorem exec_queue (other : step.isPoll = false)
    (add : ∀ p c g rem slack, step = .wait (.add p c g rem slack) → s.wqOf g ≠ .epoll e)
    (unlink : ∀ p lock, step = .lock (.unlink p lock) → lock ≠ .epoll e)
    (done : exec actor choice s step = some (s', code)) :
    s'.queue (.epoll e) = s.queue (.epoll e) := by
  cases step with
  | sched step => rw [execSched_frame done]
  | acct step => rw [execAcct_frame done]
  | obj step => rw [execObj_frame done]
  | bind step => rw [execBind_frame done]
  | lock step =>
    cases step with
    | wakeOne lock => exact wakeUpLocked_queue done
    | wakeAll lock =>
      simp only [exec, execLock] at done
      split at done
      · simp only [Option.map_eq_some_iff, Prod.exists, Prod.mk.injEq] at done
        obtain ⟨woken, code', tried, rfl, -⟩ := done
        exact wakeUpLocked_queue tried
      · simp only [Option.some.injEq, Prod.mk.injEq] at done
        obtain ⟨rfl, -⟩ := done
        rfl
    | unlink p lock =>
      simp only [exec, execLock, Option.some.injEq, Prod.mk.injEq] at done
      obtain ⟨rfl, -⟩ := done
      exact Function.update_of_ne (unlink p lock rfl).symm _ _
    | _ =>
      simp only [exec, execLock] at done
      repeat' split at done
      all_goals simp only [Option.some.injEq, Prod.mk.injEq, reduceCtorEq] at done
      all_goals obtain ⟨rfl, -⟩ := done
      all_goals rfl
  | tasklet step =>
    cases step with
    | wake g pass =>
      simp only [exec, execTasklet, Option.map_eq_some_iff, Prod.exists, Prod.mk.injEq] at done
      obtain ⟨woken, code', tried, rfl, -⟩ := done
      exact wakeUpLocked_queue tried
    | _ =>
      simp only [exec, execTasklet] at done
      repeat' split at done
      all_goals simp only [Option.some.injEq, Prod.mk.injEq, reduceCtorEq] at done
      all_goals obtain ⟨rfl, -⟩ := done
      all_goals rfl
  | wait step =>
    cases step with
    | add p c g rem slack =>
      simp only [exec, execWait, Option.some.injEq, Prod.mk.injEq] at done
      obtain ⟨rfl, -⟩ := done
      exact Function.update_of_ne (add p c g rem slack rfl).symm _ _
    | _ =>
      simp only [exec, execWait] at done
      repeat' split at done
      all_goals simp only [Option.some.injEq, Prod.mk.injEq] at done
      all_goals obtain ⟨rfl, -⟩ := done
      all_goals rfl
  | ep step =>
    cases step with
    | poll => contradiction
    | _ =>
      simp only [exec, execEp] at done
      repeat' split at done
      all_goals simp only [Option.some.injEq, Prod.mk.injEq, reduceCtorEq] at done
      all_goals obtain ⟨rfl, -⟩ := done
      all_goals rfl

/-- Operations do not start inside a wait queue. -/
theorem startTask_queue {op : TaskOp ι} {p : ι} (done : startTask s p op = some (s', code)) :
    s'.queue (.epoll e) = s.queue (.epoll e) := by
  cases op <;> simp only [startTask, withEpoll, cmgroupFromFd] at done
  all_goals repeat' split at done
  all_goals simp only [Option.some.injEq, Prod.mk.injEq, reduceCtorEq] at done
  all_goals obtain ⟨rfl, -⟩ := done
  all_goals rfl

/-- A call of `ep_poll` is the last thing in the code of its task. -/
theorem Expands.lastPoll (flow : Expands s actor step code) (rest : Code ι)
    (last : step.isPoll = true → rest = []) :
    Tails (fun later tail => later.isPoll = true → tail ++ rest = []) code := by
  induction flow
  all_goals simp only [tails_cons, tails_nil, Instr.isPoll, List.cons_append, List.nil_append,
    reduceCtorEq, false_implies, and_true, true_and, Bool.false_eq_true, forall_const] at last ⊢
  all_goals exact last

theorem Starts.lastPoll (flow : Starts s actor code) :
    Tails (fun later tail => later.isPoll = true → tail = []) code := by
  induction flow <;> simp [Instr.isPoll]

/-- `finish_wait` unlinks from the queue it finds. -/
theorem Expands.unlinks {lock : LockId} {p : ι} (flow : Expands s actor step code)
    (member : .lock (.unlink p lock) ∈ code) :
    ∃ q g, step = .wait (.finish q g) ∧ lock = s.wqOf g := by
  induction flow <;> simp at member
  case finish t g => exact ⟨t, g, rfl, member.2⟩

theorem Starts.unlinks {lock : LockId} {p : ι} (flow : Starts s actor code) :
    .lock (.unlink p lock) ∉ code := by
  induction flow <;> simp

end Queue

section State

variable {actor : Actor ι κ} {choice : Choice} {s s' : Shared ι κ} {step : Instr ι}
  {front code rest : Code ι} {t : ι} {e : EpollId} {pc after : EpPc} {locals locals' : EpLocals}
  {state other : TaskState} {later : TaskState → Prop}

/-- Whatever the state, nothing is asked of it. -/
theorem Poised.any (poised : Poised code state) (asleep : state ≠ .running) :
    Poised code other := by
  induction code generalizing state other with
  | nil => trivial
  | cons step rest ih =>
    cases step with
    | ep step =>
      cases step with
      | poll p f pc locals => exact ⟨fun runs => absurd (poised.1 runs) asleep, poised.2⟩
      | _ => exact ih poised asleep
    | lock step =>
      cases step with
      | epPut f => exact absurd poised.1 asleep
      | _ => exact ih poised asleep
    | sched step =>
      cases step with
      | setState | schedule | resume => exact poised
      | _ => exact ih poised asleep
    | wait => exact poised
    | _ => exact ih poised asleep

/-- A change of the state that keeps a running task running. -/
theorem Poised.kept (poised : Poised code state) (kept : state = .running → other = .running) :
    Poised code other := by
  by_cases runs : state = .running
  · rw [kept runs, ← runs]
    exact poised
  · exact poised.any runs

/-- The micro-step asks nothing of the state and leaves it unknown, or sets it. -/
def Instr.free : Instr ι → Bool
  | .ep (.poll _ _ _ _) | .lock (.epPut _) => false
  | _ => true

/-- Free code before code that asks nothing. -/
theorem Poised.free (free : code.all Instr.free = true) (any : ∀ state, Poised rest state)
    (state : TaskState) : Poised (code ++ rest) state := by
  induction code generalizing state with
  | nil => exact any state
  | cons step tail ih =>
    rw [List.all_cons, Bool.and_eq_true] at free
    have later := ih free.2
    cases step with
    | ep step =>
      cases step with
      | poll => simp [Instr.free] at free
      | _ => exact later state
    | lock step =>
      cases step with
      | epPut => simp [Instr.free] at free
      | _ => exact later state
    | sched step => cases step <;> exact later _
    | wait => exact later
    | _ => exact later state

/-- The micro-step does not set the state of its task. -/
def Instr.still : Instr ι → Bool
  | .sched (.setState _ _) | .sched (.schedule _) | .sched (.resume _) | .wait _
  | .ep (.poll _ _ _ _) => false
  | _ => true

/-- What the code of a task asks of its state is still asked after a step that does not set it. -/
theorem Expands.poised (flow : Expands s actor step code) (still : step.still = true)
    (poised : Poised (step :: rest) state) : Poised (code ++ rest) state := by
  have awake : Poised (step :: rest) .running := poised.kept fun _ => rfl
  induction flow
  all_goals first
    | contradiction
    | exact poised
    | exact poised.2
    | exact awake

/-- Operations start in a running task. -/
theorem Starts.poised (flow : Starts s actor code) : Poised code .running := by
  induction flow <;> simp [Instr.poised]

/-- `cmgroup_wait` and `io_getevents` are free. -/
theorem Expands.wait_free {w : WaitStep ι} (flow : Expands s actor (.wait w) code) :
    code.all Instr.free = true := by
  cases flow <;> rfl

/-- A running task keeps running when its state is not set by itself. -/
theorem exec_running (still : step.self = some t → step.still = true)
    (done : exec actor choice s step = some (s', code)) (runs : s.state t = .running) :
    s'.state t = .running := by
  cases exec_transit t done with
  | quiet state => exact state.trans runs
  | leave _ state => exact state.trans runs
  | enter _ state => exact state
  | woken asleep => simp [runs, TaskState.wakeable] at asleep
  | waking asleep => simp [runs, TaskState.wakeable] at asleep
  | own own =>
    have still := still own
    cases step with
    | acct step => rwa [execAcct_frame done]
    | obj step => rwa [execObj_frame done]
    | lock step =>
      cases step with
      | unlink p lock =>
        simp only [exec, execLock, Option.some.injEq, Prod.mk.injEq] at done
        obtain ⟨rfl, -⟩ := done
        exact runs
      | _ => simp [Instr.self] at own
    | sched step =>
      cases step with
      | offRq p =>
        simp only [exec, execSched, Option.some.injEq, Prod.mk.injEq] at done
        obtain ⟨rfl, -⟩ := done
        exact runs
      | setState | schedule | resume => contradiction
      | _ => simp [Instr.self] at own
    | ep step => cases step <;> contradiction
    | wait => contradiction
    | _ => simp [Instr.self] at own

/-- From one program point of `ep_poll` to the next the task is running where it should. -/
theorem Goes.poised (goes : Goes s choice t e locals pc s' front after locals')
    (runs : pc.running = true → s.state t = .running) (any : ∀ state, Poised rest state) :
    Poised (front ++ Instr.ep (.poll t e after locals') :: rest) (s'.state t) := by
  cases goes
  case zero joins | fetch joins | backOut joins | back joins =>
    cases joins <;> exact ⟨fun _ => runs rfl, any⟩
  all_goals first
    | exact ⟨fun _ => runs rfl, any⟩
    | exact ⟨fun _ => Function.update_self _ _ _, any⟩
    | exact ⟨fun never => absurd never Bool.false_ne_true, any⟩

/-- A step of the task leaves its state as the rest of its code asks. -/
theorem exec_poised (own : ∀ p, step.self = some p → p = t) (noted : Noted s step)
    (done : exec (.task t : Actor ι κ) choice s step = some (s', code))
    (poised : Poised (step :: rest) (s.state t)) : Poised (code ++ rest) (s'.state t) := by
  by_cases still : step.still = true
  · exact ((exec_expands done).poised still poised).kept (exec_running (fun _ => still) done)
  · cases step with
    | sched step =>
      cases step with
      | setState p value =>
        obtain rfl := own p rfl
        simp only [exec, execSched, Option.some.injEq, Prod.mk.injEq] at done
        obtain ⟨shared, rfl⟩ := done
        rw [← shared, List.nil_append]
        show Poised rest (update s.state p value p)
        rw [Function.update_self]
        exact poised
      | schedule p =>
        obtain rfl := own p rfl
        simp only [exec, execSched, cmgroupTaskDequeued] at done
        repeat' split at done
        all_goals simp only [Option.some.injEq, Prod.mk.injEq, reduceCtorEq] at done
        all_goals obtain ⟨shared, rfl⟩ := done
        all_goals rw [← shared]
        all_goals first
          | exact poised
          | exact Poised.kept poised fun _ => ‹_›
          | exact Poised.kept poised fun _ => Function.update_self _ _ _
      | resume p =>
        obtain rfl := own p rfl
        simp only [exec, execSched] at done
        split at done
        case isTrue back =>
          simp only [Option.some.injEq, Prod.mk.injEq] at done
          obtain ⟨shared, rfl⟩ := done
          rw [← shared, back.2]
          exact poised
        case isFalse => simp at done
      | _ => simp [Instr.still] at still
    | wait w => exact Poised.free (exec_expands done).wait_free poised _
    | ep step =>
      cases step with
      | poll p f pc locals =>
        obtain rfl := own p rfl
        obtain ⟨runs, any⟩ := poised
        rcases execPoll_goes done noted with
          ⟨front, next, locals', goes, rfl⟩ | ⟨value, returns, shared, rfl⟩
        · rw [List.append_assoc]
          exact goes.poised runs any
        · rw [shared]
          have running : pc.running = true := by cases returns <;> rfl
          exact ⟨runs running, any _⟩
      | _ => simp [Instr.still] at still
    | _ => simp [Instr.still] at still

end State

section Run

variable {y y' : Sys ι κ} {actor : Actor ι κ} {choice : Choice} {step : Instr ι}
  {gained rest : Code ι} {t : ι} {e : EpollId} {g : GroupId} [Fintype ι] [Fintype κ]

/-- `finish_wait` unlinks from no queue of an epoll. -/
theorem Reachable.unlink_local (reached : Reachable y) :
    ∀ actor p lock, .lock (.unlink p lock) ∈ y.todo actor → lock ≠ .epoll e := by
  induction reached with
  | start initial =>
    intro actor p lock member
    simp [initial.idle actor] at member
  | step reached _ taken ih =>
    obtain ⟨actor, spent, gained, effect, move⟩ := next_effect taken
    intro other p lock member
    rcases move.mem member with old | ⟨rfl, new⟩
    · exact ih other p lock old
    · cases effect with
      | exec done =>
        obtain ⟨q, g, rfl, rfl⟩ := (exec_expands done).unlinks new
        obtain ⟨rest, head, -⟩ := move
        exact Reachable.wait_local reached head rfl
      | task idle able done => exact absurd new (startTask_starts done).unlinks
      | cpu idle done => exact absurd new (startCpu_starts done).unlinks

/-- A task makes one call of `ep_poll` at a time. -/
theorem Reachable.lastPoll (reached : Reachable y) {front : Code ι} {e : EpollId} {pc : EpPc}
    {locals : EpLocals} (code : y.todo actor = front ++ .ep (.poll t e pc locals) :: rest) :
    rest = [] ∧ front.all (fun later => !later.isPoll) = true := by
  have tails := reached.tails Expands.lastPoll Starts.lastPoll actor
  rw [code] at tails
  clear code
  induction front with
  | nil => exact ⟨tails.1 rfl, rfl⟩
  | cons first later ih =>
    obtain ⟨last, others⟩ := ih tails.2
    refine ⟨last, ?_⟩
    rw [List.all_cons, others, Bool.and_true]
    cases isPoll : first.isPoll with
    | false => rfl
    | true => simpa using tails.1 isPoll

/-- A task has an entry in `ep->wq` for each call of `ep_poll` that is between entering and leaving
it, and no other. -/
theorem Reachable.entries (reached : Reachable y) (e : EpollId) (t : ι) :
    ((y.shared.queue (.epoll e)).count t : ℤ) = load (entryWeight e t) (y.todo (.task t)) := by
  induction reached with
  | start initial => simp [initial.queue, initial.idle]
  | @step _ before after reached _ taken ih =>
    obtain ⟨actor, spent, gained, effect, move⟩ := next_effect taken
    have same : load (entryWeight e t) gained = load (entryWeight e t) spent →
        (after.shared.queue (.epoll e)).count t = (before.shared.queue (.epoll e)).count t →
        ((after.shared.queue (.epoll e)).count t : ℤ) =
          load (entryWeight e t) (after.todo (.task t)) := by
      intro balanced count
      rw [count, ih, move.load_eq balanced]
    cases effect with
    | @exec _ choice step _ _ done =>
      obtain ⟨rest, head, now⟩ := id move
      rw [List.singleton_append] at head
      by_cases poll : step.isPoll = true
      · obtain ⟨p, f, pc, locals, rfl⟩ : ∃ p f pc locals, step = .ep (.poll p f pc locals) := by
          unfold Instr.isPoll at poll
          split at poll
          case h_1 p f pc locals => exact ⟨p, f, pc, locals, rfl⟩
          case h_2 => contradiction
        have noted := Reachable.noted reached actor (.ep (.poll p f pc locals)) (by simp [head])
        rcases execPoll_goes done noted with
          ⟨front, next, locals', goes, whole⟩ | ⟨value, returns, shared, whole⟩
        · have none : load (entryWeight e t) front = 0 :=
            load_entry_of_all (all_isPoll_of_polls goes.polls)
          have gains : load (entryWeight e t) gained =
              if p = t ∧ f = e then next.entered.toInt else 0 := by
            rw [whole, load_append, none]
            simp [entryWeight]
          have spends : load (entryWeight e t) [.ep (.poll p f pc locals)] =
              if p = t ∧ f = e then pc.entered.toInt else 0 := by
            simp [entryWeight]
          by_cases here : p = t ∧ f = e
          · obtain ⟨rfl, rfl⟩ := here
            have member : .ep (.poll p f pc locals) ∈ before.todo actor := by simp [head]
            obtain rfl : actor = .task p := Reachable.self reached member rfl
            have code : before.todo (.task p) = [] ++ .ep (.poll p f pc locals) :: rest := head
            obtain ⟨rfl, -⟩ := Reachable.lastPoll reached code
            rw [head, spends, if_pos ⟨rfl, rfl⟩] at ih
            rw [now, Function.update_self, List.append_nil, gains, if_pos ⟨rfl, rfl⟩]
            exact goes.entries ih
          · exact same (by rw [gains, spends, if_neg here, if_neg here]) (goes.other_entries here)
        · refine same ?_ (by rw [shared])
          rw [whole, load_entry_of_all (by rfl)]
          cases returns <;> simp [entryWeight, EpPc.entered]
      · have other : step.isPoll = false := by simpa using poll
        have queue : after.shared.queue (.epoll e) = before.shared.queue (.epoll e) := by
          refine exec_queue other ?_ ?_ done
          · rintro p c g rem slack rfl
            exact Reachable.wait_local reached head rfl
          · rintro p lock rfl
            exact Reachable.unlink_local reached actor p lock (by simp [head])
        refine same ?_ (by rw [queue])
        rw [load_entry_of_all ((exec_expands done).isPoll other),
          load_entry_of_all (by simp [other])]
    | task idle able done =>
      refine same ?_ (by rw [startTask_queue done])
      rcases startTask_polls done with others | ⟨f, timeout, rfl, rfl⟩
      · rw [load_entry_of_all (all_isPoll_of_polls others), load_nil]
      · cases timeout <;> simp [entryWeight, EpPc.entered, Timeout.entry]
    | cpu idle done =>
      refine same ?_ (by rw [startCpu_frame done])
      rw [load_entry_of_all (all_isPoll_of_polls (startCpu_polls done)), load_nil]

/-- In every run what the code of a task asks of its state holds. -/
theorem Reachable.poised (reached : Reachable y) (t : ι) :
    Poised (y.todo (.task t)) (y.shared.state t) := by
  induction reached with
  | start initial => simp [initial.idle]
  | @step _ before after reached _ taken ih =>
    obtain ⟨actor, spent, gained, effect, move⟩ := next_effect taken
    by_cases mine : actor = .task t
    · subst mine
      obtain ⟨rest, head, now⟩ := id move
      rw [now, Function.update_self]
      rw [head] at ih
      cases effect with
      | @exec _ choice step _ _ done =>
        rw [List.singleton_append] at head ih
        have own : ∀ p, step.self = some p → p = t := by
          intro p self
          have actor := Reachable.self reached (by simp [head] : step ∈ before.todo (.task t)) self
          exact (Actor.task.inj actor).symm
        have noted := Reachable.noted reached (.task t) step (by simp [head])
        exact exec_poised own noted done ih
      | task idle able done =>
        have runs : before.shared.state t = .running := by
          simp only [canStart, Bool.and_eq_true, decide_eq_true_eq] at able
          exact able.2
        have still : after.shared.state t = .running := by
          rcases startTask_transit t done with ⟨-, state, -⟩ | ⟨-, -, state, -⟩
          · exact state.trans runs
          · exact state
        obtain rfl : rest = [] := by simpa [idle] using head.symm
        rw [List.append_nil, still]
        exact (startTask_starts done).poised
    · rw [move.other (Ne.symm mine)]
      refine ih.kept fun runs => ?_
      cases effect with
      | exec done =>
        obtain ⟨rest, head, -⟩ := move
        refine exec_running (fun self => ?_) done runs
        exact absurd (Reachable.self reached (by simp [head]) self) mine
      | task idle able done =>
        rcases startTask_transit t done with ⟨-, state, -⟩ | ⟨-, -, state, -⟩
        · exact state.trans runs
        · exact state
      | cpu idle done => rw [(startCpu_transit t done).2.1, runs]

/-- A task with an entry is in its one call of `ep_poll`. -/
theorem Reachable.entry_load (reached : Reachable y) (e : EpollId) (t : ι) :
    (∃ front pc locals, y.todo (.task t) = front ++ [.ep (.poll t e pc locals)] ∧
      load (entryWeight e t) (y.todo (.task t)) = pc.entered.toInt) ∨
    (∀ pc locals, .ep (.poll t e pc locals) ∉ y.todo (.task t)) ∧
      load (entryWeight e t) (y.todo (.task t)) = 0 := by
  by_cases call : ∃ pc locals, .ep (.poll t e pc locals) ∈ y.todo (.task t)
  · obtain ⟨pc, locals, member⟩ := call
    obtain ⟨front, rest, code⟩ := List.append_of_mem member
    obtain ⟨rfl, others⟩ := reached.lastPoll code
    refine .inl ⟨front, pc, locals, code, ?_⟩
    rw [code, load_append, load_entry_of_all others]
    simp [entryWeight]
  · push Not at call
    refine .inr ⟨call, List.sum_eq_zero fun value present => ?_⟩
    obtain ⟨step, member, rfl⟩ := List.mem_map.1 present
    unfold entryWeight
    split
    case h_1 p f pc locals =>
      refine if_neg ?_
      rintro ⟨rfl, rfl⟩
      exact call pc locals member
    case h_2 => rfl

/-- A task has an entry exactly while its call is between entering the queue and leaving it. -/
theorem Reachable.mem_queue (reached : Reachable y) (e : EpollId) (t : ι) :
    t ∈ y.shared.queue (.epoll e) ↔
      ∃ pc locals, .ep (.poll t e pc locals) ∈ y.todo (.task t) ∧ pc.entered = true := by
  have entries := reached.entries e t
  rw [← List.count_pos_iff]
  rcases reached.entry_load e t with ⟨front, pc, locals, code, weight⟩ | ⟨none, weight⟩
  · rw [weight] at entries
    constructor
    · intro present
      refine ⟨pc, locals, by simp [code], ?_⟩
      by_contra out
      simp only [Bool.not_eq_true] at out
      rw [out] at entries
      simp only [Bool.toInt_false, Nat.cast_eq_zero] at entries
      omega
    · rintro ⟨pc', locals', member, inside⟩
      rw [code] at member
      have same : pc' = pc := by
        rcases List.mem_append.1 member with before | here
        · have others := (reached.lastPoll code).2
          simpa [Instr.isPoll] using List.all_eq_true.1 others _ before
        · simp only [List.mem_singleton, Instr.ep.injEq, EpStep.poll.injEq, true_and] at here
          exact here.1
      rw [← same, inside] at entries
      simp only [Bool.toInt_true, Nat.cast_eq_one] at entries
      omega
  · rw [weight] at entries
    constructor
    · intro present
      simp only [Nat.cast_eq_zero] at entries
      omega
    · rintro ⟨pc, locals, member, -⟩
      exact absurd member (none pc locals)

/-- No task has two entries. -/
theorem Reachable.queue_nodup (reached : Reachable y) (e : EpollId) :
    (y.shared.queue (.epoll e)).Nodup := by
  refine List.nodup_iff_count_le_one.2 fun t => ?_
  have entries := reached.entries e t
  rcases reached.entry_load e t with ⟨-, pc, -, -, weight⟩ | ⟨-, weight⟩
  · rw [weight] at entries
    cases inside : pc.entered <;> simp [inside] at entries <;> omega
  · rw [weight] at entries
    simp only [Nat.cast_eq_zero] at entries
    omega

/-- The wait queue of an epoll in any run: no task has two entries in `ep->wq`, and a task has one
exactly while its call of `ep_poll` on this epoll is between entering the queue and leaving it. So
it has none when the call is about to call `ep_send_events` or returns; and there, as at every
program point that is not next to a sleep, its state is `TASK_RUNNING`. -/
theorem poll_entries (reached : Reachable y) (e : EpollId) :
    (y.shared.queue (.epoll e)).Nodup ∧ ∀ t,
    (t ∈ y.shared.queue (.epoll e) ↔
      ∃ pc locals, .ep (.poll t e pc locals) ∈ y.todo (.task t) ∧ pc.entered = true) ∧
    (∀ pc locals rest, y.todo (.task t) = .ep (.poll t e pc locals) :: rest →
      (pc.entered = false → t ∉ y.shared.queue (.epoll e)) ∧
      (pc.running = true → y.shared.state t = .running)) ∧
    ∀ rest, y.todo (.task t) = .lock (.epPut e) :: rest →
      y.shared.state t = .running ∧
        ((∀ pc locals, .ep (.poll t e pc locals) ∉ rest) → t ∉ y.shared.queue (.epoll e)) := by
  refine ⟨reached.queue_nodup e, fun t => ⟨reached.mem_queue e t, ?_, ?_⟩⟩
  · intro pc locals rest code
    have asked := reached.poised t
    have whole : y.todo (.task t) = [] ++ .ep (.poll t e pc locals) :: rest := code
    obtain ⟨rfl, -⟩ := reached.lastPoll whole
    rw [code] at asked
    refine ⟨fun out present => ?_, asked.1⟩
    obtain ⟨pc', locals', member, inside⟩ := (reached.mem_queue e t).1 present
    rw [code, List.mem_singleton, Instr.ep.injEq, EpStep.poll.injEq] at member
    rw [member.2.2.1, out] at inside
    contradiction
  · intro rest code
    have asked := reached.poised t
    rw [code] at asked
    refine ⟨asked.1, fun none present => ?_⟩
    obtain ⟨pc, locals, member, -⟩ := (reached.mem_queue e t).1 present
    rw [code] at member
    simp only [List.mem_cons, reduceCtorEq, false_or] at member
    exact none pc locals member

end Run

/-- A task waits for events in an epoll that is bound to no cmgroup. -/
def sleepRun : List (Label Unit Unit) :=
  [Label.task () (.epollCreate 0), .run (.task ()) {}, .task () (.epollWait 0 .infinite)] ++
  List.replicate 9 (Label.run (.task ()) {})

/-- The task sleeps in `ep->wq` while its call is there. -/
theorem poll_entries_asleep : ∃ y : Sys Unit Unit, Reachable y ∧
    y.shared.state () = .interruptible ∧ y.shared.onRq () = false ∧
    (y.shared.queue (.epoll 0)).Nodup ∧
    ∃ pc locals, .ep (.poll () 0 pc locals) ∈ y.todo (.task ()) ∧ pc.entered = true := by
  have replayed : (Transition.run next sleepRun (boot fun _ => true)).map (fun y => decide
      (y.shared.state () = .interruptible ∧ y.shared.onRq () = false ∧
        () ∈ y.shared.queue (.epoll 0))) = some true := by decide +kernel
  obtain ⟨y, reached, passed⟩ :=
    Transition.exists_reach_of_run (boot_initial fun _ => true) replayed
  obtain ⟨state, onRq, present⟩ := of_decide_eq_true passed
  obtain ⟨once, entries⟩ := poll_entries reached 0
  exact ⟨y, reached, state, onRq, once, (entries ()).1.1 present⟩

end Cmgroups
