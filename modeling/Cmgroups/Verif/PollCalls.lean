import Cmgroups.Verif.Lifetime

/-!
# Calls of `ep_poll`

What holds at every program point of `ep_poll`, in any environment: the cmgroup it has noted is
the one the epoll is bound to, it never uses a null cmgroup pointer.
-/

set_option linter.unusedSectionVars false

namespace Cmgroups

open Function (update)
open Pool

variable {ι κ : Type} [DecidableEq ι] [DecidableEq κ]

/-- Program points of `ep_poll` that rely on a cmgroup. -/
def EpPc.gated : EpPc → Bool
  | .waitAdd | .waitAvail | .waitSet | .waitSleep | .waitWoken | .waitBack _ | .waitDone _ => true
  | _ => false

/-- The micro-step belongs to `ep_poll` itself. -/
def Instr.polls : Instr ι → Bool
  | .ep (.poll _ _ _ _) | .ep .oops => true
  | _ => false

/-- A call of `ep_poll` has noted no cmgroup but the one of its epoll, and one where it relies on it;
nothing is about to use a null pointer. -/
def Noted (s : Shared ι κ) : Instr ι → Prop
  | .ep (.poll _ e pc locals) => (∀ g, locals.cmgroup = some g → s.epCmgroup e = some g) ∧
      (pc.gated = true → locals.cmgroup ≠ none)
  | .ep .oops => False
  | _ => True

section Step

variable {actor : Actor ι κ} {choice : Choice} {s s' : Shared ι κ} {step : Instr ι}
  {code : Code ι} {t : ι} {e : EpollId} {pc : EpPc} {locals : EpLocals}

/-- What does not belong to `ep_poll` satisfies its rules. -/
theorem Noted.of_other (other : step.polls = false) : Noted s step := by
  cases step with
  | ep step =>
    cases step with
    | poll | oops => contradiction
    | _ => trivial
  | _ => trivial

theorem noted_of_all (others : code.all (fun later => !later.polls) = true) :
    ∀ later ∈ code, Noted s later := by
  intro later member
  refine Noted.of_other ?_
  simpa using List.all_eq_true.1 others later member

/-- Only `ep_poll` goes on with itself. -/
theorem Expands.polls (flow : Expands s actor step code) (other : step.polls = false) :
    code.all (fun later => !later.polls) = true := by
  induction flow <;> first | rfl | contradiction

/-- Where `ep_poll` starts. -/
def Timeout.entry : Timeout → EpPc
  | .zero => .zero
  | _ => .fetch

/-- The locals `ep_poll` starts with. -/
def Timeout.fresh (timeout : Timeout) : EpLocals :=
  { timeout := timeout, timedOut := decide (timeout = .zero) }

/-- Only `epoll_wait` calls `ep_poll`. -/
theorem startTask_polls {op : TaskOp ι} (done : startTask s t op = some (s', code)) :
    code.all (fun later => !later.polls) = true ∨ ∃ e timeout, op = .epollWait e timeout ∧
      code = [.lock (.lock (.epoll e)), .ep (.poll t e timeout.entry timeout.fresh)] := by
  cases op
  case epollWait e timeout =>
    simp only [startTask, withEpoll] at done
    split at done
    case isTrue =>
      simp only [Option.some.injEq, Prod.mk.injEq] at done
      obtain ⟨-, rfl⟩ := done
      refine .inr ⟨e, timeout, rfl, ?_⟩
      cases timeout <;> rfl
    case isFalse => simp at done
  all_goals
    left
    simp only [startTask, withEpoll, cmgroupFromFd, cmgroupDetach, lockoutTasklet,
      epScanReadyList] at done
    repeat' split at done
    all_goals simp only [Option.some.injEq, Prod.mk.injEq, reduceCtorEq] at done
    all_goals obtain ⟨-, rfl⟩ := done
    all_goals rfl

/-- CPUs call it not at all. -/
theorem startCpu_polls {todo : Actor ι κ → Code ι} {op : CpuOp ι}
    (done : startCpu s todo actor op = some (s', code)) :
    code.all (fun later => !later.polls) = true := by
  cases op <;> simp only [startCpu, withEpoll, cmgroupDetach, lockoutTasklet,
    cmgroupTaskDequeued_requeue] at done
  all_goals repeat' split at done
  all_goals simp only [Option.some.injEq, Prod.mk.injEq, reduceCtorEq] at done
  all_goals obtain ⟨-, rfl⟩ := done
  all_goals rfl

/-- The rules speak of what the epoll is bound to. -/
theorem Noted.other_state (noted : Noted s step)
    (bound : ∀ t e pc locals, step = .ep (.poll t e pc locals) →
      s'.epCmgroup e = s.epCmgroup e) : Noted s' step := by
  cases step with
  | ep step =>
    cases step with
    | poll t e pc locals =>
      exact ⟨fun g known => (bound t e pc locals rfl).trans (noted.1 g known), noted.2⟩
    | oops => exact noted
    | _ => trivial
  | _ => trivial

/-- A micro-step keeps the rules of other calls. -/
theorem Noted.exec (noted : Noted s step) {other : Instr ι}
    (done : exec actor choice s other = some (s', code)) : Noted s' step := by
  cases step with
  | ep step =>
    cases step with
    | poll t e pc locals =>
      exact ⟨fun g known => exec_epCmgroup done (noted.1 g known), noted.2⟩
    | oops => exact noted
    | _ => trivial
  | _ => trivial

end Step

/-- `cmgroup_associate` of the caller, unless it belongs to the cmgroup already. -/
inductive Joins (s : Shared ι κ) (t : ι) (g : GroupId) : Code ι → Prop where
  | member (member : s.cmgroup t = some g) : Joins s t g []
  | other (other : s.cmgroup t ≠ some g) : Joins s t g [.acct (.associate t g true true)]

/-- From one program point of `ep_poll` to the next: the new shared state, the code executed before
the next program point, and the locals there. -/
inductive Goes (s : Shared ι κ) (choice : Choice) (t : ι) (e : EpollId) (locals : EpLocals) :
    EpPc → Shared ι κ → Code ι → EpPc → EpLocals → Prop where
  -- entry
  | zeroFree (unbound : s.epCmgroup e = none) : Goes s choice t e locals .zero s [] .check locals
  | zero {g front} (bound : s.epCmgroup e = some g) (joins : Joins s t g front) :
      Goes s choice t e locals .zero s front .check { locals with cmgroup := some g }
  | fetchKnown (known : locals.cmgroup = s.epCmgroup e) :
      Goes s choice t e locals .fetch s [] .cmcheck { locals with gate := none }
  | fetch {g front} (bound : s.epCmgroup e = some g) (unnoted : locals.cmgroup = none)
      (joins : Joins s t g front) : Goes s choice t e locals .fetch s front .cmcheck
        { locals with cmgroup := some g, gate := none }
  | cmcheckFree (free : locals.cmgroup = none) :
      Goes s choice t e locals .cmcheck s [] .events locals
  | cmcheckOver {g} (known : locals.cmgroup = some g) (exceeded : s.available g < 0) :
      Goes s choice t e locals .cmcheck s [] .waitAdd locals
  | cmcheck {g} (known : locals.cmgroup = some g) (within : 0 ≤ s.available g) :
      Goes s choice t e locals .cmcheck s [] .events { locals with gate := some (s.available g) }
  -- the wait for an opening
  | waitAdd : Goes s choice t e locals .waitAdd
      { s with queue := update s.queue (.epoll e) (t :: s.queue (.epoll e)) } [] .waitAvail locals
  | waitAvail {g} (bound : s.epCmgroup e = some g) (within : 0 ≤ s.available g) :
      Goes s choice t e locals .waitAvail s [] (.waitDone false)
        { locals with gate := some (s.available g) }
  | waitAvailOver {g} (bound : s.epCmgroup e = some g) (exceeded : s.available g < 0) :
      Goes s choice t e locals .waitAvail s [] .waitSet locals
  | waitSetSignal (signal : s.sig t = true) : Goes s choice t e locals .waitSet
      { s with state := update s.state t .interruptible } [] (.waitDone false) locals
  | waitSet {g} (bound : s.epCmgroup e = some g) (none : s.sig t = false) :
      Goes s choice t e locals .waitSet
        { s with
          state := update s.state t .interruptible
          action := update s.action g .resetWakeOne }
        [.lock (.unlock (.epoll e))] .waitSleep locals
  | waitSleepOut (expired : choice.flag = true ∧ locals.timeout = .finite) :
      Goes s choice t e locals .waitSleep { s with state := update s.state t .running }
        [.lock (.lock (.epoll e))] (.waitBack true) locals
  | waitSleep (goes : ¬ (choice.flag = true ∧ locals.timeout = .finite)) :
      Goes s choice t e locals .waitSleep s [.sched (.schedule t)] .waitWoken locals
  | waitWoken : Goes s choice t e locals .waitWoken { s with state := update s.state t .running }
      [.lock (.lock (.epoll e))] (.waitBack (choice.flag && locals.timeout = .finite)) locals
  | waitBackOut {g} (bound : s.epCmgroup e = some g) :
      Goes s choice t e locals (.waitBack true) { s with action := update s.action g .neutral } []
        (.waitDone true) { locals with gate := none }
  | waitBack {g} (bound : s.epCmgroup e = some g) :
      Goes s choice t e locals (.waitBack false) { s with action := update s.action g .neutral } []
        .waitAvail { locals with gate := none }
  | waitDoneOut : Goes s choice t e locals (.waitDone true)
      { s with
        state := update s.state t .running
        queue := update s.queue (.epoll e) ((s.queue (.epoll e)).erase t) }
      [] .check { locals with timedOut := true }
  | waitDone : Goes s choice t e locals (.waitDone false)
      { s with
        state := update s.state t .running
        queue := update s.queue (.epoll e) ((s.queue (.epoll e)).erase t) }
      [] .events { locals with timedOut := false }
  -- the wait for events
  | eventsReady (ready : s.epEventsAvailable e = true) :
      Goes s choice t e locals .events s [] .check locals
  | events (none : s.epEventsAvailable e = false) : Goes s choice t e locals .events
      { s with queue := update s.queue (.epoll e) (t :: s.queue (.epoll e)) } []
      .loop { locals with slept := false }
  | loopOut (out : s.epEventsAvailable e = true ∨ locals.timedOut = true) :
      Goes s choice t e locals .loop { s with state := update s.state t .interruptible } []
        .leave locals
  | loopSignal (none : s.epEventsAvailable e = false) (untimed : locals.timedOut = false)
      (signal : s.sig t = true) :
      Goes s choice t e locals .loop { s with state := update s.state t .interruptible } []
        .leave { locals with res := eintr }
  | loop (empty : s.epEventsAvailable e = false) (untimed : locals.timedOut = false)
      (none : s.sig t = false) :
      Goes s choice t e locals .loop { s with state := update s.state t .interruptible }
        [.lock (.unlock (.epoll e))] .sleep locals
  | sleepOut (expired : choice.flag = true ∧ locals.timeout = .finite) :
      Goes s choice t e locals .sleep { s with state := update s.state t .running }
        [.lock (.lock (.epoll e))] .back { locals with timedOut := true }
  | sleep (goes : ¬ (choice.flag = true ∧ locals.timeout = .finite)) :
      Goes s choice t e locals .sleep s [.sched (.schedule t)] .woken locals
  | woken : Goes s choice t e locals .woken { s with state := update s.state t .running }
      [.lock (.lock (.epoll e))] .back
      { locals with timedOut := locals.timedOut || (choice.flag && locals.timeout = .finite) }
  | backKnown (known : locals.cmgroup = s.epCmgroup e) :
      Goes s choice t e locals .back s [] .loop { locals with slept := true, gate := none }
  | backOut {g front} (bound : s.epCmgroup e = some g) (unnoted : locals.cmgroup = none)
      (joins : Joins s t g front) (timed : locals.timedOut = true) :
      Goes s choice t e locals .back s front .loop
        { locals with slept := true, cmgroup := some g, gate := none }
  | back {g front} (bound : s.epCmgroup e = some g) (unnoted : locals.cmgroup = none)
      (joins : Joins s t g front) (untimed : locals.timedOut = false) :
      Goes s choice t e locals .back s front .rejoin
        { locals with slept := true, cmgroup := some g, gate := none }
  | rejoin : Goes s choice t e locals .rejoin
      { s with
        state := update s.state t .running
        queue := update s.queue (.epoll e) ((s.queue (.epoll e)).erase t) }
      [] .cmcheck locals
  | leave : Goes s choice t e locals .leave
      { s with
        state := update s.state t .running
        queue := update s.queue (.epoll e) ((s.queue (.epoll e)).erase t) }
      [] .slept locals
  | sleptFree (free : locals.cmgroup = none) : Goes s choice t e locals .slept s [] .check locals
  | sleptOut (out : locals.timedOut = true ∨ locals.slept = false) :
      Goes s choice t e locals .slept s [] .check locals
  | sleptOver {g} (known : locals.cmgroup = some g) (untimed : locals.timedOut = false)
      (slept : locals.slept = true) (exceeded : s.available g < 0) :
      Goes s choice t e locals .slept s [] .waitAdd locals
  | slept {g} (known : locals.cmgroup = some g) (untimed : locals.timedOut = false)
      (slept : locals.slept = true) (within : 0 ≤ s.available g) :
      Goes s choice t e locals .slept s [] .check { locals with gate := some (s.available g) }
  -- exit
  | check : Goes s choice t e locals .check s [.lock (.unlock (.epoll e))]
      (.after (s.epEventsAvailable e)) locals
  | after (none : locals.res = 0) :
      Goes s choice t e locals (.after true) s (epScanReadyList e) .sent locals
  | sent (none : choice.value = 0) (untimed : locals.timedOut = false) :
      Goes s choice t e locals .sent s [.lock (.lock (.epoll e))] .fetch locals

/-- How `ep_poll` returns: without events, or with what `ep_send_events` returned. -/
inductive PollReturns (choice : Choice) (locals : EpLocals) : EpPc → ℤ → Prop where
  | after {eavail} (none : ¬ (locals.res = 0 ∧ eavail = true)) :
      PollReturns choice locals (.after eavail) locals.res
  | sent (out : ¬ (choice.value = 0 ∧ locals.timedOut = false)) :
      PollReturns choice locals .sent choice.value

/-- `associateCurrent` does nothing or associates. -/
theorem associateCurrent_joins (s : Shared ι κ) (t : ι) (g : GroupId) :
    Joins s t g (associateCurrent s t (some g)) := by
  unfold associateCurrent
  split
  case isTrue member => exact .member member
  case isFalse other => exact .other other

/-- A step of `ep_poll` goes on to a program point or returns. -/
theorem execPoll_goes {choice : Choice} {s s' : Shared ι κ} {t : ι} {e : EpollId}
    {locals : EpLocals} {pc : EpPc} {code : Code ι}
    (done : execPoll choice s t e locals pc = some (s', code))
    (noted : Noted s (.ep (.poll t e pc locals))) :
    (∃ front after locals', Goes s choice t e locals pc s' front after locals' ∧
      code = front ++ [.ep (.poll t e after locals')]) ∨
    ∃ value, PollReturns choice locals pc value ∧ s' = s ∧
      code = [.lock (.epPut e), .obj (.ret value)] := by
  obtain ⟨bound, gated⟩ := noted
  have joins := associateCurrent_joins s t
  have unnoted : locals.cmgroup ≠ s.epCmgroup e → locals.cmgroup = none ∧
      ∃ g, s.epCmgroup e = some g := by
    intro stale
    cases known : locals.cmgroup with
    | some g => exact absurd (known.trans (bound g known).symm) stale
    | none => exact ⟨rfl, Option.ne_none_iff_exists'.1 (known ▸ stale).symm⟩
  have never : pc.gated = true → s.epCmgroup e ≠ none := by
    intro relies free
    obtain ⟨g, known⟩ := Option.ne_none_iff_exists'.1 (gated relies)
    rw [bound g known] at free
    contradiction
  cases pc
  case fetch | back =>
    simp only [execPoll] at done
    split at done
    case isTrue known =>
      simp only [Option.some.injEq, Prod.mk.injEq] at done
      obtain ⟨rfl, rfl⟩ := done
      first
        | exact .inl ⟨[], _, _, .fetchKnown known, rfl⟩
        | exact .inl ⟨[], _, _, .backKnown known, rfl⟩
    case isFalse stale =>
      obtain ⟨free, g, bound⟩ := unnoted stale
      simp only [bound, Option.some.injEq, Prod.mk.injEq] at done
      obtain ⟨rfl, rfl⟩ := done
      first
        | exact .inl ⟨_, _, _, .fetch bound free (joins g), rfl⟩
        | (by_cases timed : locals.timedOut = true
           · rw [if_pos timed]
             exact .inl ⟨_, _, _, .backOut bound free (joins g) timed, rfl⟩
           · rw [if_neg timed]
             exact .inl ⟨_, _, _, .back bound free (joins g) (by simpa using timed), rfl⟩)
  case zero =>
    simp only [execPoll] at done
    split at done
    all_goals simp only [Option.some.injEq, Prod.mk.injEq] at done
    all_goals obtain ⟨rfl, rfl⟩ := done
    case h_1 free => exact .inl ⟨[], _, _, .zeroFree free, rfl⟩
    case h_2 g bound => exact .inl ⟨_, _, _, .zero bound (joins g), rfl⟩
  case cmcheck =>
    simp only [execPoll] at done
    repeat' split at done
    all_goals simp only [Option.some.injEq, Prod.mk.injEq] at done
    all_goals obtain ⟨rfl, rfl⟩ := done
    case h_1 free => exact .inl ⟨[], _, _, .cmcheckFree free, rfl⟩
    case h_2.isTrue known exceeded =>
      exact .inl ⟨[], _, _, .cmcheckOver known exceeded, rfl⟩
    case h_2.isFalse known within =>
      exact .inl ⟨[], _, _, .cmcheck known (not_lt.1 within), rfl⟩
  case slept =>
    simp only [execPoll] at done
    repeat' split at done
    all_goals simp only [Option.some.injEq, Prod.mk.injEq] at done
    all_goals obtain ⟨rfl, rfl⟩ := done
    case h_1 free => exact .inl ⟨[], _, _, .sleptFree free, rfl⟩
    case h_2.isTrue out => exact .inl ⟨[], _, _, .sleptOut out, rfl⟩
    all_goals rename_i known out test
    all_goals simp only [not_or, Bool.not_eq_true, Bool.not_eq_false] at out
    case h_2.isFalse.isTrue => exact .inl ⟨[], _, _, .sleptOver known out.1 out.2 test, rfl⟩
    case h_2.isFalse.isFalse =>
      exact .inl ⟨[], _, _, .slept known out.1 out.2 (not_lt.1 test), rfl⟩
  case waitAvail | waitSet | waitBack =>
    simp only [execPoll] at done
    repeat' split at done
    all_goals simp only [Option.some.injEq, Prod.mk.injEq] at done
    all_goals obtain ⟨rfl, rfl⟩ := done
    case h_1 free => exact absurd free (never rfl)
    all_goals rename_i bound test
    all_goals first
      | exact .inl ⟨[], _, _, .waitAvail bound test, rfl⟩
      | exact .inl ⟨[], _, _, .waitAvailOver bound (not_le.1 test), rfl⟩
      | exact .inl ⟨[], _, _, .waitSetSignal test, rfl⟩
      | exact .inl ⟨[_], _, _, .waitSet bound (by simpa using test), rfl⟩
      | (subst test; exact .inl ⟨[], _, _, .waitBackOut bound, rfl⟩)
      | (obtain rfl : _ = false := by simpa using test
         exact .inl ⟨[], _, _, .waitBack bound, rfl⟩)
  all_goals simp only [execPoll] at done
  all_goals repeat' split at done
  all_goals simp only [Option.some.injEq, Prod.mk.injEq] at done
  all_goals obtain ⟨rfl, rfl⟩ := done
  case waitAdd => exact .inl ⟨[], _, _, .waitAdd, rfl⟩
  case waitWoken => exact .inl ⟨[_], _, _, .waitWoken, rfl⟩
  case woken => exact .inl ⟨[_], _, _, .woken, rfl⟩
  case rejoin => exact .inl ⟨[], _, _, .rejoin, rfl⟩
  case leave => exact .inl ⟨[], _, _, .leave, rfl⟩
  case check => exact .inl ⟨[_], _, _, .check, rfl⟩
  case waitDone.isTrue timed =>
    subst timed
    exact .inl ⟨[], _, _, .waitDoneOut, rfl⟩
  case waitDone.isFalse untimed =>
    obtain rfl : _ = false := by simpa using untimed
    exact .inl ⟨[], _, _, .waitDone, rfl⟩
  case waitSleep.isTrue expired => exact .inl ⟨[_], _, _, .waitSleepOut expired, rfl⟩
  case waitSleep.isFalse goes => exact .inl ⟨[_], _, _, .waitSleep goes, rfl⟩
  case events.isTrue ready => exact .inl ⟨[], _, _, .eventsReady ready, rfl⟩
  case events.isFalse none => exact .inl ⟨[], _, _, .events (by simpa using none), rfl⟩
  case loop.isTrue out => exact .inl ⟨[], _, _, .loopOut out, rfl⟩
  case loop.isFalse.isTrue goes signal =>
    simp only [not_or, Bool.not_eq_true] at goes
    exact .inl ⟨[], _, _, .loopSignal goes.1 goes.2 signal, rfl⟩
  case loop.isFalse.isFalse goes none =>
    simp only [not_or, Bool.not_eq_true] at goes none
    exact .inl ⟨[_], _, _, .loop goes.1 goes.2 none, rfl⟩
  case sleep.isTrue expired => exact .inl ⟨[_], _, _, .sleepOut expired, rfl⟩
  case sleep.isFalse goes => exact .inl ⟨[_], _, _, .sleep goes, rfl⟩
  case after.isTrue avail =>
    obtain ⟨none, rfl⟩ := avail
    exact .inl ⟨_, _, _, .after none, rfl⟩
  case after.isFalse none => exact .inr ⟨_, .after none, rfl, rfl⟩
  case sent.isTrue again => exact .inl ⟨[_], _, _, .sent again.1 again.2, rfl⟩
  case sent.isFalse out => exact .inr ⟨_, .sent out, rfl, rfl⟩

section Step

variable {choice : Choice} {s s' : Shared ι κ} {t : ι} {e : EpollId} {g : GroupId}
  {pc after : EpPc} {locals locals' : EpLocals} {front code : Code ι}

theorem Joins.polls (joins : Joins s t g front) :
    front.all (fun later => !later.polls) = true := by
  cases joins <;> rfl

/-- What comes before a program point is no call of `ep_poll`. -/
theorem Goes.polls (goes : Goes s choice t e locals pc s' front after locals') :
    front.all (fun later => !later.polls) = true := by
  cases goes
  case zero joins | fetch joins | backOut joins | back joins => exact joins.polls
  all_goals rfl

/-- The next program point has noted no cmgroup but the one of its epoll. -/
theorem Goes.bound (goes : Goes s choice t e locals pc s' front after locals')
    (bound : ∀ g, locals.cmgroup = some g → s.epCmgroup e = some g) :
    ∀ g, locals'.cmgroup = some g → s'.epCmgroup e = some g := by
  cases goes
  case zero now joins | fetch now unnoted joins | backOut now unnoted joins timed |
      back now unnoted joins untimed =>
    intro h known
    exact now.trans known
  all_goals exact bound

/-- It has noted one where it relies on it. -/
theorem Goes.gated (goes : Goes s choice t e locals pc s' front after locals')
    (gated : pc.gated = true → locals.cmgroup ≠ none) :
    after.gated = true → locals'.cmgroup ≠ none := by
  cases goes
  case cmcheckOver known _ => simp [known]
  case sleptOver known _ _ _ => simp [known]
  all_goals first
    | exact gated
    | exact fun _ => gated rfl
    | exact fun relies => absurd relies Bool.false_ne_true

/-- `ep_poll` follows its rules. -/
theorem execPoll_noted (done : execPoll choice s t e locals pc = some (s', code))
    (noted : Noted s (.ep (.poll t e pc locals))) : ∀ later ∈ code, Noted s' later := by
  rcases execPoll_goes done noted with
    ⟨front, after, locals', goes, rfl⟩ | ⟨value, -, rfl, rfl⟩
  · intro later member
    rcases List.mem_append.1 member with before | here
    · exact noted_of_all goes.polls later before
    · obtain rfl := List.mem_singleton.1 here
      exact ⟨goes.bound noted.1, goes.gated noted.2⟩
  · exact noted_of_all rfl

end Step

section Run

variable {y y' : Sys ι κ} {actor : Actor ι κ} {step : Instr ι} {rest : Code ι} [Fintype ι] [Fintype κ]

/-- A call of `ep_poll` keeps the epoll file open. -/
theorem Reachable.poll_open (reached : Reachable y) {t : ι} {e : EpollId} {pc : EpPc}
    {locals : EpLocals} (member : .ep (.poll t e pc locals) ∈ y.todo actor) :
    y.shared.epStage e = .published := by
  refine reached.epoll_open member ?_
  simp [epUsersNeed]

/-- In every run calls of `ep_poll` follow their rules. -/
theorem Reachable.noted (reached : Reachable y) :
    ∀ actor, ∀ step ∈ y.todo actor, Noted y.shared step := by
  induction reached with
  | start initial =>
    intro actor step member
    simp [initial.idle actor] at member
  | @step _ before after reached _ taken ih =>
    obtain ⟨actor, spent, gained, effect, move⟩ := next_effect taken
    intro other later member
    rcases move.mem member with old | ⟨rfl, new⟩
    · have noted := ih other later old
      cases effect with
      | exec done => exact noted.exec done
      | task idle able done =>
        refine noted.other_state fun t e pc locals call => ?_
        subst call
        exact startTask_epCmgroup done (by simp [Reachable.poll_open reached old])
      | cpu idle done =>
        have frame := startCpu_frame done
        refine noted.other_state fun t e pc locals call => ?_
        rw [frame]
    · cases effect with
      | @exec _ _ step _ _ done =>
        obtain ⟨rest, head, -⟩ := move
        have noted := ih other step (by simp [head])
        by_cases polls : step.polls = true
        · cases step with
          | ep step =>
            cases step with
            | poll t e pc locals => exact execPoll_noted done noted later new
            | oops => exact noted.elim
            | _ => contradiction
          | _ => contradiction
        · have others := (exec_expands done).polls (by simpa using polls)
          exact noted_of_all others later new
      | task idle able done =>
        rcases startTask_polls done with others | ⟨e, timeout, rfl, rfl⟩
        · exact noted_of_all others later new
        · simp only [List.mem_cons, List.not_mem_nil, or_false] at new
          rcases new with rfl | rfl
          · trivial
          · cases timeout <;> simp [Noted, Timeout.entry, Timeout.fresh, EpPc.gated]
      | cpu idle done => exact noted_of_all (startCpu_polls done) later new

end Run

end Cmgroups
