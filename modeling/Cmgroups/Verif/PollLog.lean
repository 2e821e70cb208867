import Cmgroups.Verif.PollCalls
import Cmgroups.Verif.Accounting

/-!
# What a call of `ep_poll` has done

A record of each call in progress: the group the caller belonged to when the call began, the
cmgroup of the epoll when the call last took `ep->lock`, the last value of `available` it read since
then, whether a wait has reported expiry, and how often `ep_send_events` was called since.
The record is kept by watching the run; no step depends on it. At every program point the
locals of the call agree with it.
-/

set_option linter.unusedSectionVars false

namespace Cmgroups

open Function (update)
open Pool

variable {ι κ : Type} [DecidableEq ι] [DecidableEq κ]

/-- The record of a call of `ep_poll`. -/
structure PollCall where
  /-- `current->cmgroup` when the call began. -/
  entered : Option GroupId
  /-- `ep->cmgroup` when the call last took `ep->lock`. -/
  noted : Option GroupId := none
  /-- The value of `available` the call read last since it took `ep->lock` or slept. -/
  reading : Option ℤ := none
  /-- A wait of the call has reported expiry. -/
  expired : Bool := false
  /-- Calls of `ep_send_events` since then. -/
  sends : ℕ := 0
  /-- Program points passed since the call last took `ep->lock`, until it releases it. -/
  points : ℕ := 0

/-- The cmgroup whose `available` is read at a program point of `ep_poll`. -/
def EpPc.reads (s : Shared ι κ) (e : EpollId) (locals : EpLocals) : EpPc → Option GroupId
  | .cmcheck => locals.cmgroup
  | .waitAvail => s.epCmgroup e
  | .slept => if locals.timedOut = true ∨ locals.slept = false then none else locals.cmgroup
  | _ => none

/-- The program point is next to a sleep on `ep->wq`. -/
def EpPc.sleeps : EpPc → Bool
  | .waitSleep | .waitWoken | .sleep | .woken => true
  | _ => false

/-- `ep_send_events` is called next. -/
def EpPc.sends (locals : EpLocals) : EpPc → Bool
  | .after eavail => locals.res = 0 && eavail
  | _ => false

/-- What a program point adds to the record. -/
def PollCall.poll (call : PollCall) (s : Shared ι κ) (choice : Choice) (e : EpollId) (pc : EpPc)
    (locals : EpLocals) : PollCall :=
  { call with
    reading := ((pc.reads s e locals).map s.available).or call.reading
    expired := call.expired || (pc.sleeps && choice.flag && locals.timeout = .finite)
    sends := call.sends + (call.expired && pc.sends locals).toNat
    points := call.points + pc.locked.toNat }

/-- What the caller's next micro-step adds to the record. -/
def PollCall.next (call : PollCall) (s : Shared ι κ) (choice : Choice) : Code ι → PollCall
  | .lock (.lock (.epoll e)) :: .ep (.poll _ _ _ _) :: _ =>
    { call with noted := s.epCmgroup e, reading := none, points := 0 }
  | .sched (.schedule _) :: _ => { call with reading := none }
  | .ep (.poll _ e pc locals) :: _ => call.poll s choice e pc locals
  | _ => call

/-- The records after a step. The record of a call stays until the task starts another
operation. -/
def pollCalls (label : Label ι κ) (y _ : Sys ι κ) (calls : ι → Option PollCall) :
    ι → Option PollCall :=
  match label with
  | .task t (.epollWait _ _) => update calls t (some { entered := y.shared.cmgroup t })
  | .task t _ => update calls t none
  | .run (.task t) choice =>
    update calls t ((calls t).map fun call => call.next y.shared choice (y.todo (.task t)))
  | _ => calls

/-- Runs with the records of calls of `ep_poll`. -/
abbrev PollWatched : Sys ι κ × (ι → Option PollCall) → Prop :=
  Transition.WatchedWith Initial Cmgroups.next (fun _ _ => True) pollCalls fun _ => none

/-- The call has just taken `ep->lock` here. -/
def EpPc.retakes : EpPc → Bool
  | .zero | .fetch | .back | .waitBack _ => true
  | _ => false

/-- What was read of `available` since then still counts here. -/
def EpPc.minds : EpPc → Bool
  | .cmcheck | .waitAdd | .waitAvail | .waitSet | .waitDone _ | .events | .loop | .rejoin | .leave
  | .slept | .check | .after _ => true
  | _ => false

/-- The cmgroup of the epoll is noted next. -/
def EpPc.notes : EpPc → Bool
  | .zero | .fetch | .back => true
  | _ => false

/-- The call is on its last way out. -/
def EpPc.leaving (locals : EpLocals) : EpPc → Bool
  | .waitBack timedOut | .waitDone timedOut => timedOut
  | .back | .loop | .leave | .slept | .check | .after _ | .sent => locals.timedOut
  | _ => false

/-- A bound on the program points that are left before the lock is released. -/
def EpPc.left (locals : EpLocals) : EpPc → ℕ
  | .zero => 2
  | .fetch | .rejoin => 11
  | .cmcheck => 10
  | .waitAdd | .waitBack _ => 9
  | .waitAvail => 8
  | .waitSet => 7
  | .waitDone _ => 6
  | .events => 5
  | .back => 13
  | .loop => if locals.slept then 12 else 4
  | .leave => if locals.slept then 11 else 3
  | .slept => if locals.slept then 10 else 2
  | .check => 1
  | .waitSleep | .waitWoken | .sleep | .woken | .after _ | .sent => 0

/-- Expiry was reported here. -/
def EpPc.timed (locals : EpLocals) : EpPc → Bool
  | .waitBack timedOut | .waitDone timedOut => timedOut || locals.timedOut
  | _ => locals.timedOut

/-- The micro-step writes the group of the task. -/
def Instr.joins : Instr ι → Bool
  | .acct (.associate _ _ _ _) | .acct (.dissociate _ _) | .acct (.storeCmgroup _ _)
  | .acct (.clearCmgroup _ _) => true
  | _ => false

/-- The call may go on because of what it read, of a signal, or of its timeout. -/
def PollCall.passes (call : PollCall) (s : Shared ι κ) (t : ι) (timedOut : Bool) : Prop :=
  (∃ value, call.reading = some value ∧ 0 ≤ value) ∨ timedOut = true ∨ s.sig t = true

/-- Where the call has passed the limit of its cmgroup. -/
def EpPc.passed (call : PollCall) (s : Shared ι κ) (t : ι) (locals : EpLocals) : EpPc → Prop
  | .zero => locals.timedOut = true
  | .waitDone timedOut => call.passes s t timedOut
  | .events | .check | .after _ => locals.cmgroup = none ∨ call.passes s t locals.timedOut
  | .loop | .leave | .slept => locals.slept = true ∨ locals.cmgroup = none ∨
      call.passes s t locals.timedOut
  | _ => True

/-- The micro-step belongs neither to `ep_poll` nor to `io_getevents`. -/
def Instr.inner : Instr ι → Bool
  | .ep (.poll _ _ _ _) | .ep .oops | .wait _ => false
  | _ => true

/-- The micro-step associates the caller or releases a lock: it neither sleeps nor takes a lock. -/
def Instr.awake : Instr ι → Bool
  | .acct _ | .obj _ | .lock (.unlock _) => true
  | _ => false

/-- The micro-step takes the lock of an epoll. -/
def Instr.takes : Instr ι → Bool
  | .lock (.lock (.epoll _)) => true
  | _ => false

/-- The group of the task after a micro-step, when everything it expands to is done. -/
def Instr.regroup : Instr ι → Option GroupId → Option GroupId
  | .acct (.associate _ g _ _), _ | .acct (.storeCmgroup _ g), _ => some g
  | .acct (.dissociate _ _), _ | .acct (.clearCmgroup _ _), _ => none
  | _, group => group

/-- The group of the task after its code. -/
def regrouped (code : Code ι) (group : Option GroupId) : Option GroupId :=
  code.foldl (fun group step => step.regroup group) group

@[simp] theorem regrouped_nil (group : Option GroupId) :
    regrouped ([] : Code ι) group = group := rfl

@[simp] theorem regrouped_cons (step : Instr ι) (rest : Code ι) (group : Option GroupId) :
    regrouped (step :: rest) group = regrouped rest (step.regroup group) := rfl

theorem regrouped_append (front rest : Code ι) (group : Option GroupId) :
    regrouped (front ++ rest) group = regrouped rest (regrouped front group) :=
  List.foldl_append

/-- The locals of a call at a program point agree with its record, where `front` is executed before
the program point is reached. -/
structure Agrees (s : Shared ι κ) (t : ι) (call : PollCall) (front : Code ι) (e : EpollId)
    (pc : EpPc) (locals : EpLocals) : Prop where
  /-- Before the program point no other call is made. -/
  inner : front.all Instr.inner = true
  /-- After taking the lock nothing was read yet. -/
  takes : pc.retakes = true → front = [.lock (.lock (.epoll e))] ∨ front = [] ∧ call.reading = none
  /-- The lock is not taken right before other program points. -/
  keeps : pc.retakes = false → front.getLast?.all (fun step => !step.takes) = true
  /-- While the lock is held, nobody sleeps and nobody binds the epoll. -/
  held : pc.locked = true → front = [.lock (.lock (.epoll e))] ∨
    front.all Instr.awake = true ∧ call.noted = s.epCmgroup e ∧
      call.points + pc.left locals ≤ 13
  /-- What was read since then still counts. -/
  minds : pc.minds = true → front.all Instr.awake = true
  /-- The cmgroup of the epoll is noted. -/
  noted : pc.notes = false → call.noted = locals.cmgroup
  /-- The caller belongs to the noted cmgroup. -/
  group : regrouped front (s.cmgroup t) = locals.cmgroup.or call.entered
  /-- Without one it is left alone. -/
  alone : locals.cmgroup = none → front.all (fun step => !step.joins) = true
  /-- The limit was respected. -/
  passed : pc.passed call s t locals
  /-- Expiry was reported before it was noted. -/
  timed : pc.timed locals = true → call.expired = true ∨ locals.timeout = .zero
  /-- Expiry was noted. -/
  expiry : call.expired = true → pc.leaving locals = true
  /-- After expiry `ep_send_events` is called once. -/
  sends : call.sends = 0 ∨ call.sends = 1 ∧ call.expired = true ∧ pc = .sent
  /-- The program points passed in one section of the lock are bounded. -/
  bounded : call.points ≤ 13

/-- The code of a call agrees with its record, until the call returns and after that. -/
inductive Logged (s : Shared ι κ) (t : ι) (call : PollCall) : Code ι → Prop where
  /-- The call is in progress. -/
  | running {front : Code ι} {e : EpollId} {pc : EpPc} {locals : EpLocals}
      (agrees : Agrees s t call front e pc locals) :
      Logged s t call (front ++ [Instr.ep (.poll t e pc locals)])
  /-- The call returns. -/
  | returning {code : Code ι} (tail : ∃ e value, code <:+ [.lock (.epPut e), .obj (.ret value)])
      (group : s.cmgroup t = call.noted.or call.entered) (once : call.sends ≤ 1)
      (bounded : call.points ≤ 13) : Logged s t call code

section Step

variable {actor : Actor ι κ} {choice : Choice} {s s' : Shared ι κ} {step : Instr ι}
  {code : Code ι} {t : ι} {e : EpollId} {pc : EpPc} {locals : EpLocals} {call : PollCall}

/-- Nothing else calls `ep_poll` or `io_getevents`. -/
theorem Expands.inner (flow : Expands s actor step code) (inner : step.inner = true) :
    code.all Instr.inner = true := by
  induction flow <;> first | rfl | contradiction

/-- Association neither sleeps nor takes a lock. -/
theorem Expands.awake (flow : Expands s actor step code) (awake : step.awake = true) :
    code.all Instr.awake = true := by
  induction flow <;> first | rfl | contradiction

/-- No code ends with taking the lock of an epoll. -/
theorem Expands.keeps (flow : Expands s actor step code) :
    code.getLast?.all (fun step => !step.takes) = true := by
  induction flow <;> rfl

/-- Only association associates. -/
theorem Expands.alone (flow : Expands s actor step code) (inner : step.inner = true)
    (alone : (!step.joins) = true) : code.all (fun step => !step.joins) = true := by
  induction flow <;> first | rfl | contradiction

/-- Apart from association, code keeps the group of the task. -/
theorem Expands.regrouped (flow : Expands s actor step code) (inner : step.inner = true)
    (other : step.accounts = false) (group : Option GroupId) : regrouped code group = group := by
  induction flow <;> first | rfl | contradiction

/-- A micro-step regroups the task as what it expands to will. -/
theorem exec_regrouped (own : ∀ p, step.self = some p → p = t) (inner : step.inner = true)
    (done : exec actor choice s step = some (s', code)) :
    regrouped code (s'.cmgroup t) = step.regroup (s.cmgroup t) := by
  by_cases other : step.accounts = false
  · rw [(exec_spared other done).2.2.1, (exec_expands done).regrouped inner other]
    cases step with
    | acct step => contradiction
    | _ => rfl
  · cases step with
    | acct step =>
      cases step <;> simp only [exec, execAcct] at done
      all_goals repeat' split at done
      all_goals simp only [Option.some.injEq, Prod.mk.injEq] at done
      all_goals obtain ⟨rfl, rfl⟩ := done
      all_goals simp only [Instr.self, Option.some.injEq, forall_eq', reduceCtorEq, false_implies,
        implies_true] at own
      all_goals try subst own
      all_goals simp_all [Instr.regroup]
    | _ => simp [Instr.accounts] at other

section Goes

variable {front : Code ι} {g : GroupId} {after : EpPc} {locals' : EpLocals}

/-- What comes before a program point makes no other call. -/
theorem Goes.inner (goes : Goes s choice t e locals pc s' front after locals') :
    front.all Instr.inner = true := by
  cases goes
  case zero joins | fetch joins | backOut joins | back joins => cases joins <;> rfl
  all_goals rfl

/-- The lock is taken right before where it counts as just taken. -/
theorem Goes.takes (goes : Goes s choice t e locals pc s' front after locals')
    (retakes : after.retakes = true) : front = [.lock (.lock (.epoll e))] := by
  cases goes <;> first | rfl | contradiction

/-- The lock is not taken right before other program points. -/
theorem Goes.keeps (goes : Goes s choice t e locals pc s' front after locals')
    (other : after.retakes = false) : front.getLast?.all (fun step => !step.takes) = true := by
  cases goes
  case zero joins | fetch joins | backOut joins | back joins => cases joins <;> rfl
  all_goals first | rfl | contradiction

/-- Nobody sleeps before a program point where what was read still counts. -/
theorem Goes.minds (goes : Goes s choice t e locals pc s' front after locals')
    (minds : after.minds = true) : front.all Instr.awake = true := by
  cases goes
  case zero joins | fetch joins | backOut joins | back joins => cases joins <;> rfl
  all_goals first | rfl | contradiction

/-- In a section of the lock the bound on what is left decreases. -/
theorem Goes.left (goes : Goes s choice t e locals pc s' front after locals')
    (locked : after.locked = true) : front = [.lock (.lock (.epoll e))] ∨
      pc.locked = true ∧ front.all Instr.awake = true ∧ after.left locals' < pc.left locals := by
  have less : ∀ {slept : Bool}, (if slept = true then 11 else 3) < (if slept = true then 12 else 4) ∧
      (if slept = true then 10 else 2) < (if slept = true then 11 else 3) ∧
      1 < (if slept = true then 10 else 2) := by
    intro slept
    cases slept <;> decide
  cases goes
  case zero joins | fetch joins | backOut joins | back joins =>
    right
    cases joins <;> exact ⟨rfl, rfl, by simp [EpPc.left]⟩
  case waitSleepOut | waitWoken | sleepOut | woken | sent => exact .inl rfl
  case loopOut | loopSignal => exact .inr ⟨rfl, rfl, less.1⟩
  case leave => exact .inr ⟨rfl, rfl, less.2.1⟩
  case sleptFree | sleptOut | slept => exact .inr ⟨rfl, rfl, less.2.2⟩
  case sleptOver slept exceeded =>
    refine .inr ⟨rfl, rfl, ?_⟩
    simp [EpPc.left, slept]
  all_goals first
    | contradiction
    | exact .inr ⟨rfl, rfl, by simp [EpPc.left]⟩

/-- `ep_poll` does not bind its epoll. -/
theorem Goes.epCmgroup (goes : Goes s choice t e locals pc s' front after locals') :
    s'.epCmgroup = s.epCmgroup := by
  cases goes <;> rfl

/-- `ep_poll` itself writes the group of no task. -/
theorem Goes.cmgroup (goes : Goes s choice t e locals pc s' front after locals') :
    s'.cmgroup = s.cmgroup := by
  cases goes <;> rfl

/-- `ep_poll` delivers no signal. -/
theorem Goes.sig (goes : Goes s choice t e locals pc s' front after locals') :
    s'.sig = s.sig := by
  cases goes <;> rfl

/-- The cmgroup of the epoll is noted. -/
theorem Goes.noted (goes : Goes s choice t e locals pc s' front after locals')
    (bound : ∀ g, locals.cmgroup = some g → s.epCmgroup e = some g) (notes : after.notes = false) :
    locals'.cmgroup = if pc.notes then s.epCmgroup e else locals.cmgroup := by
  cases goes
  case zeroFree unbound =>
    simp only [EpPc.notes, if_true, unbound]
    by_contra known
    obtain ⟨g, known⟩ := Option.ne_none_iff_exists'.1 known
    simp [bound g known] at unbound
  case zero bound _ | fetch bound _ _ | backOut bound _ _ _ | back bound _ _ _ =>
    simp [EpPc.notes, bound]
  case fetchKnown known | backKnown known => simp [EpPc.notes, known]
  all_goals rfl

theorem Joins.regrouped (joins : Joins s t g front) :
    Cmgroups.regrouped front (s.cmgroup t) = some g := by
  cases joins with
  | member member => exact member
  | other => rfl

/-- The caller joins the cmgroup that is noted. -/
theorem Goes.group (goes : Goes s choice t e locals pc s' front after locals') {entered : Option GroupId}
    (group : s.cmgroup t = locals.cmgroup.or entered) :
    regrouped front (s'.cmgroup t) = locals'.cmgroup.or entered := by
  cases goes
  case zero joins | fetch joins | backOut joins | back joins => exact joins.regrouped
  all_goals exact group

/-- Without a cmgroup nobody joins. -/
theorem Goes.alone (goes : Goes s choice t e locals pc s' front after locals')
    (free : locals'.cmgroup = none) : front.all (fun step => !step.joins) = true := by
  cases goes
  case zero | fetch | backOut | back => contradiction
  all_goals rfl

/-- The limit is respected on the way to the next program point. -/
theorem Goes.passed (goes : Goes s choice t e locals pc s' front after locals')
    (passed : pc.passed call s t locals) :
    after.passed (call.poll s choice e pc locals) s' t locals' := by
  cases goes
  case zero => exact .inr (.inr (.inl passed))
  case zeroFree => exact .inr (.inr (.inl passed))
  case cmcheckFree free | sleptFree free => exact .inl free
  case cmcheck g known within =>
    refine .inr (.inl ⟨s.available g, ?_, within⟩)
    simp [PollCall.poll, EpPc.reads, known]
  case waitAvail g bound within =>
    refine .inl ⟨s.available g, ?_, within⟩
    simp [PollCall.poll, EpPc.reads, bound]
  case slept g known untimed slept within =>
    refine .inr (.inl ⟨s.available g, ?_, within⟩)
    simp [PollCall.poll, EpPc.reads, known, untimed, slept]
  case waitSetSignal signal => exact .inr (.inr signal)
  case waitBackOut => exact .inr (.inl rfl)
  case waitDoneOut => exact .inr (.inr (.inl rfl))
  case backKnown | backOut => exact .inl rfl
  case sleptOut out =>
    rcases out with timed | unslept
    · exact .inr (.inr (.inl timed))
    · rcases passed with slept | passed
      · rw [unslept] at slept
        contradiction
      · simpa [EpPc.passed, PollCall.passes, PollCall.poll, EpPc.reads, unslept] using passed
  case waitDone => exact .inr passed
  case events => exact .inr passed
  case loopOut | loopSignal | leave | eventsReady | check => exact passed
  all_goals trivial

/-- Expiry is noted where it is reported. -/
theorem Goes.timed (goes : Goes s choice t e locals pc s' front after locals')
    (timed : pc.timed locals = true → call.expired = true ∨ locals.timeout = .zero)
    (now : after.timed locals' = true) :
    (call.poll s choice e pc locals).expired = true ∨ locals'.timeout = .zero := by
  cases goes
  case waitSleepOut expired | sleepOut expired =>
    left
    simp [PollCall.poll, EpPc.sleeps, expired]
  case waitWoken | woken =>
    simp only [EpPc.timed, Bool.or_eq_true] at now timed
    simp only [PollCall.poll, EpPc.sleeps, Bool.or_eq_true, Bool.true_and]
    tauto
  case waitDone => contradiction
  case waitDoneOut =>
    exact (timed rfl).imp_left fun expired => by simp [PollCall.poll, expired]
  all_goals exact (timed now).imp_left fun expired => by simp [PollCall.poll, expired]

/-- Expiry that was reported is noted. -/
theorem Goes.expiry (goes : Goes s choice t e locals pc s' front after locals')
    (expiry : call.expired = true → pc.leaving locals = true)
    (now : (call.poll s choice e pc locals).expired = true) : after.leaving locals' = true := by
  cases goes
  all_goals simp only [PollCall.poll, EpPc.sleeps, EpPc.leaving, Bool.false_and, Bool.true_and,
    Bool.or_false, Bool.or_eq_true] at now expiry ⊢
  all_goals grind

/-- After expiry `ep_send_events` is called once more. -/
theorem Goes.sends (goes : Goes s choice t e locals pc s' front after locals')
    (expiry : call.expired = true → pc.leaving locals = true)
    (sends : call.sends = 0 ∨ call.sends = 1 ∧ call.expired = true ∧ pc = .sent) :
    (call.poll s choice e pc locals).sends = 0 ∨ (call.poll s choice e pc locals).sends = 1 ∧
      (call.poll s choice e pc locals).expired = true ∧ after = .sent := by
  cases goes
  case after none =>
    obtain sends : call.sends = 0 := by simpa using sends
    cases expired : call.expired
    all_goals simp [PollCall.poll, EpPc.sends, EpPc.sleeps, sends, expired, none]
  case sent untimed =>
    left
    have unexpired : call.expired = false := by
      by_contra expired
      simp only [Bool.not_eq_false] at expired
      have leaving := expiry expired
      rw [EpPc.leaving, untimed] at leaving
      contradiction
    simpa [PollCall.poll, EpPc.sends, unexpired] using sends
  all_goals
    left
    simpa [PollCall.poll, EpPc.sends] using sends

end Goes

theorem EpPc.locked_of_notes (notes : pc.notes = true) : pc.locked = true := by
  cases pc <;> first | rfl | contradiction

theorem EpPc.left_le : pc.left locals ≤ 13 := by
  cases pc <;> simp [EpPc.left]
  all_goals split <;> simp

theorem EpPc.left_pos (locked : pc.locked = true) : 0 < pc.left locals := by
  cases pc <;> first | contradiction | simp [EpPc.left]
  all_goals split <;> simp

/-- `ep_poll` keeps its locals in agreement with its record. -/
theorem execPoll_logged (done : execPoll choice s t e locals pc = some (s', code))
    (follows : Noted s (.ep (.poll t e pc locals)))
    (agrees : Agrees s t call [] e pc locals) :
    Logged s' t (call.poll s choice e pc locals) code := by
  have held : pc.locked = true → call.noted = s.epCmgroup e ∧
      call.points + pc.left locals ≤ 13 := by
    intro locked
    simpa using agrees.held locked
  have points : (call.poll s choice e pc locals).points ≤ 13 := by
    show call.points + pc.locked.toNat ≤ 13
    cases locked : pc.locked with
    | false => exact agrees.bounded
    | true =>
      have left : 0 < pc.left locals := EpPc.left_pos locked
      have bounded := (held locked).2
      simp only [Bool.toNat_true]
      omega
  have group : s.cmgroup t = locals.cmgroup.or call.entered := agrees.group
  rcases execPoll_goes done follows with
    ⟨front, after, locals', goes, rfl⟩ | ⟨value, returns, rfl, rfl⟩
  · refine .running ⟨goes.inner, fun retakes => .inl (goes.takes retakes), goes.keeps, ?_, goes.minds,
      ?_, goes.group group, goes.alone, goes.passed agrees.passed, goes.timed agrees.timed,
      goes.expiry agrees.expiry, goes.sends agrees.expiry agrees.sends, points⟩
    · intro locked
      rcases goes.left locked with takes | ⟨before, awake, less⟩
      · exact .inl takes
      · obtain ⟨noted, bounded⟩ := held before
        refine .inr ⟨awake, noted.trans (congrFun goes.epCmgroup e).symm, ?_⟩
        simp only [PollCall.poll, before, Bool.toNat_true]
        omega
    · intro notes
      rw [goes.noted follows.1 notes]
      split
      case isTrue before => exact (held (EpPc.locked_of_notes before)).1
      case isFalse before => exact agrees.noted (by simpa using before)
  · have noted : call.noted = locals.cmgroup := agrees.noted (by cases returns <;> rfl)
    refine .returning ⟨e, value, List.suffix_refl _⟩ ?_ ?_ points
    · rw [group, ← noted]
      rfl
    · cases returns with
      | after none =>
        have sends : call.sends = 0 := by simpa using agrees.sends
        simp only [PollCall.poll, sends, Nat.zero_add]
        exact Bool.toNat_le _
      | sent =>
        have sends := agrees.sends
        simp only [PollCall.poll, EpPc.sends, Bool.and_false, Bool.toNat_false]
        omega

/-- Only an attachment binds an epoll. -/
theorem exec_epCmgroup_same (done : exec actor choice s step = some (s', code)) (e : EpollId) :
    s'.epCmgroup e = s.epCmgroup e ∨ ∃ g, step = .bind (.storeEpoll g e) := by
  cases step with
  | bind step =>
    cases step with
    | storeEpoll g f =>
      by_cases same : f = e
      · subst same
        exact .inr ⟨g, rfl⟩
      · left
        simp only [exec, execBind] at done
        split at done
        all_goals simp only [Option.some.injEq, Prod.mk.injEq] at done
        all_goals obtain ⟨rfl, -⟩ := done
        · exact Function.update_of_ne (Ne.symm same) _ _
        · rfl
    | _ =>
      left
      simp only [exec, execBind] at done
      repeat' split at done
      all_goals simp only [Option.some.injEq, Prod.mk.injEq] at done
      all_goals obtain ⟨rfl, -⟩ := done
      all_goals rfl
  | _ => exact .inl (congrFun (exec_sameBinding (by simp) done).epCmgroup e)

/-- No step of another actor takes a signal away. -/
theorem exec_sig (done : exec actor choice s step = some (s', code)) : s'.sig = s.sig := by
  cases step with
  | sched step => rw [execSched_frame done]
  | acct step => rw [execAcct_frame done]
  | obj step => rw [execObj_frame done]
  | lock step => rw [execLock_frame done]
  | bind step => rw [execBind_frame done]
  | tasklet step => rw [execTasklet_frame done]
  | wait step => rw [execWait_frame done]
  | ep step => rw [execEp_frame done]

theorem PollCall.passes_mono {timedOut : Bool} (sig : s.sig t = true → s'.sig t = true)
    (passes : call.passes s t timedOut) : call.passes s' t timedOut :=
  passes.imp_right (Or.imp_right sig)

/-- Where a call has passed, it has passed for good. -/
theorem EpPc.passed_mono (sig : s.sig t = true → s'.sig t = true)
    (passed : pc.passed call s t locals) : pc.passed call s' t locals := by
  have mono : ∀ timedOut, call.passes s t timedOut → call.passes s' t timedOut :=
    fun _ => PollCall.passes_mono sig
  cases pc
  all_goals first
    | exact passed
    | exact mono _ passed
    | exact passed.imp_right (mono _)
    | exact passed.imp_right (Or.imp_right (mono _))

/-- What others do keeps a call in agreement with its record. -/
theorem Agrees.other {front : Code ι} (agrees : Agrees s t call front e pc locals)
    (group : s'.cmgroup t = s.cmgroup t) (sig : s.sig t = true → s'.sig t = true)
    (locked : pc.locked = true → front.all Instr.awake = true → s'.epCmgroup e = s.epCmgroup e) :
    Agrees s' t call front e pc locals where
  inner := agrees.inner
  takes := agrees.takes
  keeps := agrees.keeps
  held := by
    intro inside
    rcases agrees.held inside with takes | ⟨awake, noted, bounded⟩
    · exact .inl takes
    · exact .inr ⟨awake, noted.trans (locked inside awake).symm, bounded⟩
  minds := agrees.minds
  noted := agrees.noted
  group := by rw [group]; exact agrees.group
  alone := agrees.alone
  passed := EpPc.passed_mono sig agrees.passed
  timed := agrees.timed
  expiry := agrees.expiry
  sends := agrees.sends
  bounded := agrees.bounded

/-- Only program points of `ep_poll` tell expiry and calls of `ep_send_events`. -/
theorem PollCall.next_inner (call : PollCall) (s : Shared ι κ) (choice : Choice) (rest : Code ι)
    (inner : step.inner = true) :
    (call.next s choice (step :: rest)).expired = call.expired ∧
      (call.next s choice (step :: rest)).sends = call.sends ∧
      (call.next s choice (step :: rest)).entered = call.entered ∧
      (call.next s choice (step :: rest)).points ≤ call.points := by
  unfold PollCall.next
  split
  case h_1 => exact ⟨rfl, rfl, rfl, Nat.zero_le _⟩
  case h_3 stepping =>
    obtain ⟨rfl, -⟩ := List.cons.inj stepping
    contradiction
  all_goals exact ⟨rfl, rfl, rfl, le_rfl⟩

/-- Association tells nothing. -/
theorem PollCall.next_awake {rest : Code ι} (awake : step.awake = true) :
    call.next s choice (step :: rest) = call := by
  unfold PollCall.next
  split
  all_goals first
    | rfl
    | (rename_i stepping; obtain ⟨rfl, -⟩ := List.cons.inj stepping; contradiction)

/-- Other program points do not mind what was read. -/
theorem EpPc.passed_of_not_minds {after : PollCall} (unminded : pc.minds = false)
    (passed : pc.passed call s t locals) : pc.passed after s' t locals := by
  cases pc <;> first | contradiction | exact passed

/-- The cmgroup of the epoll is recorded when its lock is taken right before a program point. -/
theorem PollCall.next_noted {front : Code ι} {instr : Instr ι} (inner : front.all Instr.inner = true)
    (untaken : front = [] → step.takes = false) :
    (call.next s choice (step :: (front ++ [instr]))).noted = call.noted := by
  unfold PollCall.next
  split
  case h_1 stepping =>
    cases front with
    | nil =>
      obtain ⟨rfl, -⟩ := List.cons.inj stepping
      simp [Instr.takes] at untaken
    | cons first later =>
      obtain ⟨-, stepping⟩ := List.cons.inj stepping
      obtain ⟨rfl, -⟩ := List.cons.inj stepping
      simp [Instr.inner] at inner
  all_goals rfl

/-- The caller's micro-steps between program points keep the call in agreement with its record. -/
theorem Agrees.exec {front : Code ι} (agrees : Agrees s t call (step :: front) e pc locals)
    (follows : Noted s (.ep (.poll t e pc locals))) (own : ∀ p, step.self = some p → p = t)
    (done : exec actor choice s step = some (s', code)) :
    Agrees s' t (call.next s choice (step :: (front ++ [Instr.ep (.poll t e pc locals)])))
      (code ++ front) e pc locals := by
  have flow := exec_expands done
  have whole := agrees.inner
  rw [List.all_cons, Bool.and_eq_true] at whole
  obtain ⟨inner, later⟩ := whole
  obtain ⟨expired, sends, entered, points⟩ :=
    call.next_inner s choice (front ++ [Instr.ep (.poll t e pc locals)]) inner
  have untaken : pc.retakes = false → front = [] → step.takes = false := by
    rintro other rfl
    simpa using agrees.keeps other
  constructor
  case inner =>
    rw [List.all_append, flow.inner inner, later, Bool.and_self]
  case takes =>
    intro retakes
    rcases agrees.takes retakes with takes | ⟨here, -⟩
    · obtain ⟨rfl, rfl⟩ := List.cons.inj takes
      simp only [exec, execLock] at done
      split at done
      all_goals simp only [Option.some.injEq, Prod.mk.injEq, reduceCtorEq] at done
      obtain ⟨rfl, rfl⟩ := done
      exact .inr ⟨rfl, rfl⟩
    · simp at here
  case keeps =>
    intro other
    cases front with
    | nil => simpa using flow.keeps
    | cons first rest =>
      have keeps := agrees.keeps other
      rw [List.getLast?_cons_cons] at keeps
      rw [List.getLast?_append, List.getLast?_cons, Option.some_or]
      rwa [List.getLast?_cons] at keeps
  case held =>
    intro locked
    rcases agrees.held locked with takes | ⟨awake, noted, bounded⟩
    · obtain ⟨rfl, rfl⟩ := List.cons.inj takes
      simp only [exec, execLock] at done
      split at done
      all_goals simp only [Option.some.injEq, Prod.mk.injEq, reduceCtorEq] at done
      obtain ⟨rfl, rfl⟩ := done
      exact .inr ⟨rfl, rfl, by simpa [PollCall.next] using EpPc.left_le⟩
    · rw [List.all_cons, Bool.and_eq_true] at awake
      rw [PollCall.next_awake awake.1]
      refine .inr ⟨?_, noted.trans ?_, bounded⟩
      · rw [List.all_append, flow.awake awake.1, awake.2, Bool.and_self]
      · rcases exec_epCmgroup_same done e with same | ⟨g, rfl⟩
        · exact same.symm
        · simp [Instr.awake] at awake
  case minds =>
    intro minds
    have awake := agrees.minds minds
    rw [List.all_cons, Bool.and_eq_true] at awake
    rw [List.all_append, flow.awake awake.1, awake.2, Bool.and_self]
  case noted =>
    intro noted
    by_cases retakes : pc.retakes = true
    · rcases agrees.takes retakes with takes | ⟨here, -⟩
      · obtain ⟨rfl, rfl⟩ := List.cons.inj takes
        have gated : pc.gated = true := by
          cases pc <;> first | rfl | contradiction
        obtain ⟨g, known⟩ := Option.ne_none_iff_exists'.1 (follows.2 gated)
        exact (follows.1 g known).trans known.symm
      · simp at here
    · rw [PollCall.next_noted later (untaken (by simpa using retakes))]
      exact agrees.noted noted
  case group =>
    rw [regrouped_append, exec_regrouped own inner done, entered]
    exact agrees.group
  case passed =>
    by_cases minds : pc.minds = true
    · have awake := agrees.minds minds
      rw [List.all_cons, Bool.and_eq_true] at awake
      rw [PollCall.next_awake awake.1]
      exact EpPc.passed_mono (by rw [exec_sig done]; exact id) agrees.passed
    · exact EpPc.passed_of_not_minds (by simpa using minds) agrees.passed
  case alone =>
    intro free
    have alone := agrees.alone free
    rw [List.all_cons, Bool.and_eq_true] at alone
    rw [List.all_append, flow.alone inner alone.1, alone.2, Bool.and_self]
  case timed =>
    rw [expired]
    exact agrees.timed
  case expiry =>
    rw [expired]
    exact agrees.expiry
  case sends =>
    rw [expired, sends]
    exact agrees.sends
  case bounded => exact points.trans agrees.bounded

end Step

section Run

variable {y y' : Sys ι κ} {actor rival : Actor ι κ} {choice : Choice} {step : Instr ι}
  {code gained rest : Code ι} {t : ι} {e : EpollId} {pc : EpPc} {locals : EpLocals}
  {call : PollCall} {s s' : Shared ι κ} [Fintype ι] [Fintype κ]

omit [Fintype ι] [Fintype κ] in
/-- Code that neither sleeps nor takes a lock acquires none. -/
theorem Instr.hold_nonneg {ptr : GroupId → LockId} {lock : LockId} (awake : step.awake = true) :
    0 ≤ holdWeight ptr lock step := by
  unfold holdWeight lockWeight
  split
  all_goals try split
  all_goals first
    | contradiction
    | (split_ifs <;> decide)
    | decide

/-- A call that is inside a section of `ep->lock`, or reaches it without a sleep or another lock,
owns the lock. -/
theorem Reachable.section_owns (reached : Reachable y) {front : Code ι}
    (code : y.todo actor = front ++ .ep (.poll t e pc locals) :: rest)
    (awake : front.all Instr.awake = true) (locked : pc.locked = true) :
    y.shared.owner (.epoll e) = some actor := by
  have secured := reached.hold_secured y.shared.lockOf (.epoll e) actor
  rw [code] at secured
  have later := (secured.rest.2).nonneg fun _ => le_rfl
  have before : 0 ≤ load (holdWeight y.shared.lockOf (.epoll e)) front :=
    List.sum_nonneg (by
      simp only [List.mem_map, forall_exists_index, and_imp, forall_apply_eq_imp_iff₂]
      exact fun step member => Instr.hold_nonneg (List.all_eq_true.1 awake step member))
  refine reached.locking.held (.epoll e) actor ?_
  have here : holdWeight y.shared.lockOf (.epoll e) (.ep (.poll t e pc locals)) = 1 := by
    simp [holdWeight, lockWeight, locked]
  rw [code, load_append, load_cons, here]
  linarith

/-- While a call of `ep_poll` holds the lock of its epoll, nobody else binds the epoll. -/
theorem Reachable.epoll_locked (reached : Reachable y)
    (owns : y.shared.owner (.epoll e) = some actor) (different : rival ≠ actor)
    (next : y.todo rival = step :: code)
    (done : exec rival choice y.shared step = some (s', gained)) :
    s'.epCmgroup e = y.shared.epCmgroup e := by
  rcases exec_epCmgroup_same done e with same | ⟨g, rfl⟩
  · exact same
  · have secured := reached.hold_secured y.shared.lockOf (.epoll e) rival
    rw [next] at secured
    have later := secured.2.nonneg fun _ => le_rfl
    have theirs := reached.locking.held (.epoll e) rival (by
      rw [next, load_cons]
      simp only [holdWeight, lockWeight, if_true]
      linarith)
    exact absurd (Option.some.inj (theirs.symm.trans owns)) different

/-- The first micro-step of a call comes with the rest of it. -/
theorem Logged.exec (logged : Logged y.shared t call (y.todo (.task t))) (reached : Reachable y)
    (head : y.todo (.task t) = step :: rest)
    (done : exec (.task t) choice y.shared step = some (s', gained)) :
    Logged s' t (call.next y.shared choice (step :: rest)) (gained ++ rest) := by
  have own : ∀ p, step.self = some p → p = t := by
    intro p self
    have actor := reached.self (by simp [head] : step ∈ y.todo (.task t)) self
    exact (Actor.task.inj actor).symm
  generalize was : y.todo (.task t) = before at logged
  cases logged with
  | @running front e pc locals agrees =>
    have follows := reached.noted (.task t) (.ep (.poll t e pc locals)) (by simp [was])
    rw [head] at was
    cases front with
    | nil =>
      obtain ⟨rfl, rfl⟩ := List.cons.inj was
      rw [List.append_nil]
      exact execPoll_logged done follows agrees
    | cons first front =>
      rw [List.cons_append] at was
      obtain ⟨rfl, rfl⟩ := List.cons.inj was
      rw [← List.append_assoc]
      exact .running (agrees.exec follows own done)
  | returning tail group once bounded =>
    obtain ⟨e, value, tail⟩ := tail
    rw [head] at was
    subst was
    simp only [List.suffix_cons_iff, List.suffix_nil, List.cons.injEq, reduceCtorEq, or_false]
      at tail
    rcases tail with ⟨rfl, rfl⟩ | ⟨rfl, rfl⟩
    all_goals simp only [exec, execLock, execObj, Option.some.injEq, Prod.mk.injEq] at done
    all_goals obtain ⟨rfl, rfl⟩ := done
    · exact .returning ⟨e, value, List.suffix_cons _ _⟩ group once bounded
    · exact .returning ⟨e, value, List.nil_suffix⟩ group once bounded

/-- What others do keeps it as well. -/
theorem Logged.other (logged : Logged y.shared t call (y.todo (.task t)))
    (group : s'.cmgroup t = y.shared.cmgroup t) (sig : y.shared.sig t = true → s'.sig t = true)
    (locked : ∀ front e pc locals, y.todo (.task t) = front ++ [.ep (.poll t e pc locals)] →
      front.all Instr.awake = true → pc.locked = true → s'.epCmgroup e = y.shared.epCmgroup e) :
    Logged s' t call (y.todo (.task t)) := by
  generalize was : y.todo (.task t) = before at logged locked
  cases logged with
  | @running front e pc locals agrees =>
    exact .running (agrees.other group sig fun inside awake =>
      locked front e pc locals rfl awake inside)
  | returning tail same once bounded => exact .returning tail (group.trans same) once bounded

omit [Fintype ι] [Fintype κ] in
/-- Signals are delivered to the task itself. -/
theorem startTask_sig {op : TaskOp ι} {p : ι} (done : startTask s p op = some (s', code))
    (different : t ≠ p) : s'.sig t = s.sig t := by
  cases op <;> simp only [startTask, withEpoll, cmgroupFromFd] at done
  all_goals repeat' split at done
  all_goals simp only [Option.some.injEq, Prod.mk.injEq, reduceCtorEq] at done
  all_goals obtain ⟨rfl, -⟩ := done
  all_goals first
    | rfl
    | exact Function.update_of_ne different _ _

omit [Fintype ι] [Fintype κ] in
/-- CPUs send signals. -/
theorem startCpu_sig {todo : Actor ι κ → Code ι} {op : CpuOp ι}
    (done : startCpu s todo actor op = some (s', code)) (pending : s.sig t = true) :
    s'.sig t = true := by
  cases op <;> simp only [startCpu, withEpoll] at done
  all_goals repeat' split at done
  all_goals simp only [Option.some.injEq, Prod.mk.injEq, reduceCtorEq] at done
  all_goals obtain ⟨rfl, -⟩ := done
  all_goals first
    | exact pending
    | (simp only [Function.update_apply]; split_ifs <;> first | rfl | exact pending)

/-- A call of `ep_poll` starts with its record. -/
theorem Logged.start {timeout : Timeout}
    (done : startTask s t (.epollWait e timeout) = some (s', code)) :
    Logged s' t { entered := s.cmgroup t } code := by
  simp only [startTask, withEpoll] at done
  split at done
  case isFalse => simp at done
  case isTrue =>
    simp only [Option.some.injEq, Prod.mk.injEq] at done
    obtain ⟨rfl, rfl⟩ := done
    cases timeout
    all_goals
      refine @Logged.running _ _ _ _ _ [.lock (.lock (.epoll e))] e _ _ ⟨rfl, fun _ => .inl rfl, ?_,
        fun _ => .inl rfl, ?_, ?_, rfl, fun _ => rfl, ?_, ?_, ?_, .inl rfl, Nat.zero_le _⟩
      all_goals simp [EpPc.retakes, EpPc.minds, EpPc.notes, EpPc.passed, EpPc.timed]

/-- In every run each call of `ep_poll` agrees with its record. -/
theorem PollWatched.logged {calls : ι → Option PollCall} (watched : PollWatched (y, calls)) :
    ∀ t call, calls t = some call →
      y.shared.taskLife t ≠ .unborn ∧ Logged y.shared t call (y.todo (.task t)) := by
  refine @Transition.WatchedWith.invariant _ _ _ _ _ _ _ _ 
    (fun (y : Sys ι κ) (calls : ι → Option PollCall) => ∀ t call, calls t = some call →
      y.shared.taskLife t ≠ .unborn ∧ Logged y.shared t call (y.todo (.task t))) ?_ ?_ _ _ watched
  · intro y initial t call recorded
    simp at recorded
  · intro label before calls after reached logged _ taken t call recorded
    have reached : Reachable before := reached.reach
    obtain ⟨actor, spent, gained, effect, move⟩ := next_effect taken
    cases effect with
    | @exec _ choice step _ _ done =>
      obtain ⟨rest, head, now⟩ := move
      by_cases self : actor = .task t
      · subst self
        simp only [pollCalls, Function.update_self, Option.map_eq_some_iff] at recorded
        obtain ⟨earlier, recorded, rfl⟩ := recorded
        obtain ⟨born, logged⟩ := logged t earlier recorded
        rw [now, Function.update_self]
        refine ⟨by rw [exec_taskLife done]; exact born, ?_⟩
        rw [List.singleton_append] at head
        rw [head]
        exact logged.exec reached head done
      · have recorded : calls t = some call := by
          cases actor with
          | task p =>
            have different : t ≠ p := fun same => self (by rw [same])
            simpa [pollCalls, different] using recorded
          | cpu c => exact recorded
        obtain ⟨born, logged⟩ := logged t call recorded
        have kept : after.todo (.task t) = before.todo (.task t) := by
          rw [now, Function.update_of_ne (Ne.symm self)]
        rw [kept]
        refine ⟨by rw [exec_taskLife done]; exact born, logged.other ?_ ?_ ?_⟩
        · rcases exec_fields t done with ⟨same, -⟩ | ⟨own, -⟩ | ⟨g, -, same, -⟩
          · exact same
          · exact absurd (reached.self (by simp [head] : step ∈ before.todo actor) own) self
          · exact same
        · rw [exec_sig done]
          exact id
        · intro front e pc locals code awake locked
          exact reached.epoll_locked (reached.section_owns code awake locked) self head done
    | @task p op _ _ idle able done =>
      by_cases self : t = p
      · subst self
        have live : before.shared.taskLife t = .live := by
          simp only [canStart, Bool.and_eq_true, decide_eq_true_eq] at able
          exact able.1.1
        obtain ⟨rest, empty, now⟩ := move
        obtain rfl : rest = [] := by simpa [idle] using empty.symm
        rw [now, Function.update_self, List.append_nil]
        have born : after.shared.taskLife t ≠ .unborn := by
          intro unborn
          simp [(startTask_member t done).2 unborn] at live
        cases op with
        | epollWait e timeout =>
          simp only [pollCalls, Function.update_self, Option.some.injEq] at recorded
          subst recorded
          exact ⟨born, .start done⟩
        | _ => simp [pollCalls] at recorded
      · have recorded : calls t = some call := by
          cases op with
          | _ => simpa [pollCalls, self] using recorded
        obtain ⟨born, logged⟩ := logged t call recorded
        have kept : after.todo (.task t) = before.todo (.task t) := move.other (by simpa using self)
        obtain ⟨member, unborn⟩ := startTask_member t done
        rw [kept]
        refine ⟨fun fresh => born (unborn fresh), logged.other ?_ ?_ ?_⟩
        · rcases member with ⟨same, -⟩ | ⟨fresh, -⟩
          · exact same
          · exact absurd fresh born
        · rw [startTask_sig done self]
          exact id
        · intro front e pc locals code _ _
          have call : .ep (.poll t e pc locals) ∈ before.todo (.task t) := by simp [code]
          exact startTask_epCmgroup done (by simp [reached.poll_open call])
    | cpu idle done =>
      obtain ⟨born, logged⟩ := logged t call recorded
      have frame := startCpu_frame done
      have kept : after.todo (.task t) = before.todo (.task t) := move.other (by simp)
      rw [kept]
      refine ⟨by rw [frame]; exact born, logged.other (by rw [frame]) (startCpu_sig done) ?_⟩
      intros
      rw [frame]

end Run

end Cmgroups
