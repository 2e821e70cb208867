import Cmgroups.Verif.PollLog

/-!
# Rules of the calls that fetch events

What the records of `ep_poll` say: the association law, the soundness of the gate (together with the
exits of `cmgroup_wait`) and the discipline of the control flow.
-/

set_option linter.unusedSectionVars false

namespace Cmgroups

open Function (update)
open Pool

variable {ι κ : Type} [DecidableEq ι] [DecidableEq κ]

section Run

variable {y y' : Sys ι κ} {actor : Actor ι κ} {choice : Choice} {step : Instr ι}
  {code gained rest : Code ι} {t : ι} {e : EpollId} {pc : EpPc} {locals : EpLocals}
  {call : PollCall} {s s' : Shared ι κ} [Fintype ι] [Fintype κ]

omit [Fintype ι] [Fintype κ] in
/-- At a program point the code of the call is the program point. -/
theorem Logged.agrees (logged : Logged s t call code)
    (member : .ep (.poll t e pc locals) ∈ code) :
    ∃ front, code = front ++ [Instr.ep (.poll t e pc locals)] ∧
      Agrees s t call front e pc locals := by
  cases logged with
  | @running front e' pc' locals' agrees =>
    have here : Instr.ep (.poll t e pc locals) = .ep (.poll t e' pc' locals') := by
      rcases List.mem_append.1 member with before | here
      · have inner := List.all_eq_true.1 agrees.inner _ before
        simp [Instr.inner] at inner
      · simpa using here
    simp only [Instr.ep.injEq, EpStep.poll.injEq, true_and] at here
    obtain ⟨rfl, rfl, rfl⟩ := here
    exact ⟨front, rfl, agrees⟩
  | returning tail =>
    obtain ⟨e', value, tail⟩ := tail
    have member := tail.subset member
    simp at member

omit [Fintype ι] [Fintype κ] in
/-- Where nothing is left to be noted the caller belongs to what was noted. -/
theorem Logged.group (logged : Logged s t call code)
    (past : (∃ e pc locals rest, code = .ep (.poll t e pc locals) :: rest ∧ pc.notes = false) ∨
      ∀ step ∈ code, step.polls = false) : s.cmgroup t = call.noted.or call.entered := by
  rcases past with ⟨e, pc, locals, rest, rfl, notes⟩ | none
  · obtain ⟨front, whole, agrees⟩ := logged.agrees List.mem_cons_self
    obtain rfl : front = [] := by
      cases front with
      | nil => rfl
      | cons first later =>
        obtain ⟨rfl, -⟩ := List.cons.inj whole
        have inner := agrees.inner
        simp [Instr.inner] at inner
    rw [agrees.noted notes]
    exact agrees.group
  · cases logged with
    | @running front e pc locals agrees =>
      have polls := none (.ep (.poll t e pc locals)) (by simp)
      contradiction
    | returning _ group => exact group

omit [Fintype ι] [Fintype κ] in
/-- While no cmgroup is noted, no association or dissociation is about to be made. -/
theorem Logged.alone (logged : Logged s t call code)
    (follows : ∀ step ∈ code, Noted s step) (free : call.noted = none) :
    ∀ step ∈ code, step.joins = false := by
  cases logged with
  | @running front e pc locals agrees =>
    intro step member
    rcases List.mem_append.1 member with before | here
    · have alone : front.all (fun step => !step.joins) = true := by
        cases known : locals.cmgroup with
        | none => exact agrees.alone known
        | some g =>
          by_cases notes : pc.notes = true
          · have rules := follows (.ep (.poll t e pc locals)) (by simp)
            have bound := rules.1 g known
            rcases agrees.held (EpPc.locked_of_notes notes) with takes | ⟨-, noted, -⟩
            · rw [takes]
              rfl
            · rw [free, bound] at noted
              contradiction
          · have noted := agrees.noted (by simpa using notes)
            rw [free, known] at noted
            contradiction
      simpa using List.all_eq_true.1 alone step before
    · obtain rfl := List.mem_singleton.1 here
      rfl
  | returning tail =>
    obtain ⟨e, value, tail⟩ := tail
    intro step member
    have member := tail.subset member
    simp only [List.mem_cons, List.not_mem_nil, or_false] at member
    rcases member with rfl | rfl <;> rfl

omit [Fintype ι] [Fintype κ] in
/-- After expiry `ep_send_events` is called at most once. -/
theorem Logged.once (logged : Logged s t call code) : call.sends ≤ 1 := by
  cases logged with
  | running agrees =>
    have sends := agrees.sends
    omega
  | returning _ _ once => exact once

omit [Fintype ι] [Fintype κ] in
/-- The program points passed in one section of the lock are bounded. -/
theorem Logged.bounded (logged : Logged s t call code) : call.points ≤ 13 := by
  cases logged with
  | running agrees => exact agrees.bounded
  | returning _ _ _ bounded => exact bounded

/-- Between the operations on its fields a task that belongs to a group is charged. -/
theorem Reachable.settled (reached : Reachable y)
    (past : (∃ e pc locals rest, y.todo (.task t) = .ep (.poll t e pc locals) :: rest) ∨
      ∃ e value, y.todo (.task t) <:+ [.lock (.epPut e), .obj (.ret value)]) :
    y.shared.cmgroup t ≠ none → y.shared.charged t = true := by
  have accounts := reached.charged.own t
  rcases past with ⟨e, pc, locals, rest, code⟩ | ⟨e, value, tail⟩
  · rw [code] at accounts
    exact accounts.1
  · simp only [List.suffix_cons_iff, List.suffix_nil] at tail
    rcases tail with code | code | code
    all_goals rw [code] at accounts
    · exact accounts.1
    · exact accounts.1
    · exact accounts

omit [Fintype ι] [Fintype κ] in
/-- A replay with records whose last state passes a test exhibits a watched run. -/
theorem exists_pollWatched {labels : List (Label ι κ)} {forked : ι → Bool}
    {test : Sys ι κ × (ι → Option PollCall) → Bool}
    (passes : (Transition.run (Transition.watch Cmgroups.next pollCalls) labels
      (boot forked, fun _ => none)).map test = some true) :
    ∃ y calls, PollWatched (y, calls) ∧ test (y, calls) = true := by
  have blank : Transition.Blank Initial (fun _ => none) ((boot forked : Sys ι κ),
      (fun _ => none : ι → Option PollCall)) := ⟨boot_initial forked, rfl⟩
  obtain ⟨⟨y, calls⟩, watched, passed⟩ := Transition.exists_reach_of_run blank passes
  exact ⟨y, calls, watched, passed⟩

/-- The association law of `ep_poll`. Take any run and any call of it, in progress or returned, with
its record. At every program point past the note of the cmgroup, and from the decision to return on, the
caller belongs to what `ep->cmgroup` was when the call last took `ep->lock`, and is charged; if that
was null it belongs to what it belonged to when the call began. While the call holds the lock, that
is what `ep->cmgroup` is. As long as it is null, the call associates nobody and dissociates nobody.
Never is a null cmgroup used. -/
theorem association_law {calls : ι → Option PollCall} (watched : PollWatched (y, calls))
    (recorded : calls t = some call) :
    ((∃ e pc locals rest, y.todo (.task t) = .ep (.poll t e pc locals) :: rest ∧ pc.notes = false) ∨
      (∀ step ∈ y.todo (.task t), step.polls = false) →
      y.shared.cmgroup t = call.noted.or call.entered ∧
        (y.shared.cmgroup t ≠ none → y.shared.charged t = true)) ∧
    (∀ front e pc locals, y.todo (.task t) = front ++ [.ep (.poll t e pc locals)] →
      front.all Instr.awake = true → pc.locked = true → call.noted = y.shared.epCmgroup e) ∧
    (call.noted = none → ∀ step ∈ y.todo (.task t), step.joins = false) ∧
    .ep .oops ∉ y.todo (.task t) := by
  have reached : Reachable y := watched.reach
  have logged := (watched.logged t call recorded).2
  have follows := reached.noted (.task t)
  refine ⟨fun past => ⟨logged.group past, reached.settled ?_⟩, ?_, logged.alone follows,
    fun oops => follows _ oops⟩
  · rcases past with ⟨e, pc, locals, rest, code, -⟩ | none
    · exact .inl ⟨e, pc, locals, rest, code⟩
    · generalize y.todo (.task t) = code at logged none
      cases logged with
      | @running front e pc locals =>
        have polls := none (.ep (.poll t e pc locals)) (by simp)
        contradiction
      | returning tail => exact .inr tail
  · intro front e pc locals code awake locked
    obtain ⟨front', whole, agrees⟩ :=
      logged.agrees (by rw [code]; simp : .ep (.poll t e pc locals) ∈ y.todo (.task t))
    obtain rfl : front = front' := List.append_cancel_right (code.symm.trans whole)
    rcases agrees.held locked with takes | ⟨-, noted, -⟩
    · rw [takes] at awake
      contradiction
    · exact noted

/-- A task sleeps in `ep_poll` while another one binds the epoll to a cmgroup; then it wakes up, with
the records of the calls. -/
def attachAsleepRun : List (Label Bool Unit) :=
  [Label.task true (.newgroup 0 1 0 1)] ++ List.replicate 3 (Label.run (.task true) {}) ++
  [Label.task true (.epollCreate 0), .run (.task true) {}, .task false (.epollWait 0 .finite)] ++
  List.replicate 9 (Label.run (.task false) {}) ++ [Label.task true (.epollSetCmgroup 0 (.cm 0))] ++
  List.replicate 23 (Label.run (.task true) {}) ++ List.replicate 10 (Label.run (.task false) {})

/-- A task that slept while the epoll was bound belongs to the cmgroup before it looks for events
again. -/
theorem association_law_asleep : ∃ (y : Sys Bool Unit) (calls : Bool → Option PollCall)
    (call : PollCall), PollWatched (y, calls) ∧ calls false = some call ∧
      call.entered = none ∧ call.noted = some 0 ∧ y.shared.cmgroup false = some 0 ∧
      y.shared.charged false = true := by
  have replayed : (Transition.run (Transition.watch Cmgroups.next pollCalls) attachAsleepRun
      (boot fun _ => true, fun _ => none)).map (fun y => decide
        (y.1.todo (.task false) = [.ep (.poll false 0 .rejoin
          { timeout := .finite, cmgroup := some 0, slept := true })] ∧
        (y.2 false).map PollCall.entered = some none ∧
        (y.2 false).map PollCall.noted = some (some 0))) = some true := by decide +kernel
  obtain ⟨y, calls, watched, passed⟩ := exists_pollWatched replayed
  dsimp only at passed
  obtain ⟨code, entered, noted⟩ := of_decide_eq_true passed
  obtain ⟨call, recorded, entered⟩ := Option.map_eq_some_iff.1 entered
  simp only [recorded, Option.map_some, Option.some.injEq] at noted
  obtain ⟨group, charged⟩ :=
    (association_law watched recorded).1 (.inl ⟨0, .rejoin, _, [], code, rfl⟩)
  rw [noted, entered] at group
  exact ⟨y, calls, call, watched, recorded, entered, noted, group, charged (by simp [group])⟩

/-- Why a wait may be left, at that moment. -/
def WaitExit.sound (s : Shared ι κ) (t : ι) (slack : ℤ) : WaitExit → Prop
  | .available value => 0 ≤ value
  | .signal => s.sig t = true
  | .expired left => left ≤ slack

/-- The micro-step leaves `cmgroup_wait` for a reason that holds. -/
def Instr.excused (s : Shared ι κ) : Instr ι → Prop
  | .wait (.done t _ slack exit) => exit.sound s t slack
  | _ => True

/-- The micro-step leaves `cmgroup_wait`. -/
def Instr.leavesWait : Instr ι → Bool
  | .wait (.done _ _ _ _) => true
  | _ => false

omit [DecidableEq κ] [Fintype ι] [Fintype κ] in
theorem Instr.excused_of_stays (stays : code.all (fun later => !later.leavesWait) = true) :
    ∀ later ∈ code, later.excused s := by
  intro later member
  have inside := List.all_eq_true.1 stays later member
  cases later with
  | wait step =>
    cases step with
    | done => contradiction
    | _ => trivial
  | _ => trivial

omit [DecidableEq κ] [Fintype ι] [Fintype κ] in
/-- Only a signal that is delivered takes an excuse away. -/
theorem Instr.excused.mono (excused : step.excused s)
    (sig : ∀ t g slack exit, step = .wait (.done t g slack exit) → s.sig t = true → s'.sig t = true) :
    step.excused s' := by
  cases step with
  | wait step =>
    cases step with
    | done t g slack exit =>
      cases exit with
      | signal => exact sig t g slack .signal rfl excused
      | _ => exact excused
    | _ => trivial
  | _ => trivial

omit [Fintype ι] [Fintype κ] in
/-- Only `cmgroup_wait` leaves `cmgroup_wait`. -/
theorem Expands.excused (flow : Expands s actor step code) (other : ∀ w, step ≠ .wait w) :
    ∀ later ∈ code, later.excused s' := by
  refine Instr.excused_of_stays ?_
  induction flow
  all_goals first
    | rfl
    | exact absurd rfl (other _)

omit [Fintype ι] [Fintype κ] in
theorem execWait_excused {w : WaitStep ι} (done : execWait choice s w = some (s', code)) :
    ∀ later ∈ code, later.excused s' := by
  cases w <;> simp only [execWait] at done
  all_goals repeat' split at done
  all_goals simp only [Option.some.injEq, Prod.mk.injEq] at done
  all_goals obtain ⟨rfl, rfl⟩ := done
  all_goals first
    | exact Instr.excused_of_stays rfl
    | simp_all [Instr.excused, WaitExit.sound]

omit [Fintype ι] [Fintype κ] in
theorem Starts.excused (flow : Starts s actor code) : ∀ later ∈ code, later.excused s' := by
  refine Instr.excused_of_stays ?_
  induction flow <;> rfl

/-- In every run waits are left for reasons that hold. -/
theorem Reachable.excused (reached : Reachable y) :
    ∀ actor, ∀ step ∈ y.todo actor, step.excused y.shared := by
  induction reached with
  | start initial =>
    intro actor step member
    simp [initial.idle actor] at member
  | @step _ before after reached _ taken ih =>
    obtain ⟨actor, spent, gained, effect, move⟩ := next_effect taken
    intro other later member
    rcases move.mem member with old | ⟨rfl, new⟩
    · have excused := ih other later old
      refine excused.mono ?_
      rintro t g slack exit rfl
      cases effect with
      | exec done => exact fun pending => (congrFun (exec_sig done) t).trans pending
      | @task p op _ _ idle able done =>
        by_cases same : t = p
        · subst same
          have own : other = .task t := Reachable.self reached old rfl
          rw [own, idle] at old
          simp at old
        · exact fun pending => (startTask_sig done same).trans pending
      | cpu idle done => exact startCpu_sig done
    · cases effect with
      | @exec _ _ step _ _ done =>
        cases step with
        | wait w => exact execWait_excused done later new
        | _ => exact (exec_expands done).excused (by simp) later new
      | task idle able done => exact (startTask_starts done).excused later new
      | cpu idle done => exact (startCpu_starts done).excused later new

/-- Soundness of the gate. When `ep_poll` is about to call `ep_send_events` in any run, the epoll was
bound to no cmgroup when the call last took `ep->lock`, or since then, and since its last sleep, the
call has read a value of `available` that was not negative, or a wait has reported expiry or the
timeout was zero, or a signal is pending. And `cmgroup_wait` is left in any run only after a read of
`available` that was not negative, with a signal pending, or with at most `slack_ns` left. -/
theorem gate_sound {calls : ι → Option PollCall} (watched : PollWatched (y, calls)) :
    (∀ t call e pc locals rest, calls t = some call →
      y.todo (.task t) = .ep (.poll t e pc locals) :: rest → pc.sends locals = true →
      call.noted = none ∨ (∃ value, call.reading = some value ∧ 0 ≤ value) ∨
        call.expired = true ∨ locals.timeout = .zero ∨ y.shared.sig t = true) ∧
    ∀ actor t g slack exit, .wait (.done t g slack exit) ∈ y.todo actor →
      exit.sound y.shared t slack := by
  have reached : Reachable y := watched.reach
  constructor
  · intro t call e pc locals rest recorded code sends
    have logged := (watched.logged t call recorded).2
    obtain ⟨front, -, agrees⟩ :=
      logged.agrees (by rw [code]; simp : .ep (.poll t e pc locals) ∈ y.todo (.task t))
    obtain ⟨eavail, rfl⟩ : ∃ eavail, pc = .after eavail := by
      cases pc with
      | after eavail => exact ⟨eavail, rfl⟩
      | _ => contradiction
    rcases agrees.passed with free | read | timed | signal
    · exact .inl ((agrees.noted rfl).trans free)
    · exact .inr (.inl read)
    · rcases agrees.timed timed with expired | zero
      · exact .inr (.inr (.inl expired))
      · exact .inr (.inr (.inr (.inl zero)))
    · exact .inr (.inr (.inr (.inr signal)))
  · intro actor t g slack exit member
    exact reached.excused actor _ member

/-- A task binds an epoll to its new cmgroup. -/
def bindRun : List (Label Unit Unit) :=
  [Label.task () (.newgroup 0 1 0 1)] ++ List.replicate 3 (Label.run (.task ()) {}) ++
  [Label.task () (.epollCreate 0), .run (.task ()) {}, .task () (.epollSetCmgroup 0 (.cm 0))] ++
  List.replicate 19 (Label.run (.task ()) {})

/-- The task then fetches an event that is there already. -/
def fetchRun : List (Label Unit Unit) :=
  bindRun ++ [Label.cpu () (.callback 0)] ++ List.replicate 5 (Label.run (.cpu ()) {}) ++
  [Label.task () (.epollWait 0 .infinite)] ++ List.replicate 12 (Label.run (.task ()) {})

/-- A task that has read an `available` of zero, itself counted, is about to fetch an event. -/
theorem gate_sound_read : ∃ (y : Sys Unit Unit) (calls : Unit → Option PollCall)
    (call : PollCall), PollWatched (y, calls) ∧ calls () = some call ∧
      call.noted = some 0 ∧ call.expired = false ∧ y.shared.sig () = false ∧
      ∃ value, call.reading = some value ∧ 0 ≤ value := by
  have replayed : (Transition.run (Transition.watch Cmgroups.next pollCalls) fetchRun
      (boot fun _ => true, fun _ => none)).map (fun y => decide
        (y.1.todo (.task ()) = [.ep (.poll () 0 (.after true)
          { timeout := .infinite, cmgroup := some 0, gate := some 0 })] ∧
        y.1.shared.sig () = false ∧ (y.2 ()).map PollCall.noted = some (some 0) ∧
        (y.2 ()).map PollCall.expired = some false)) = some true := by decide +kernel
  obtain ⟨y, calls, watched, passed⟩ := exists_pollWatched replayed
  dsimp only at passed
  obtain ⟨code, quiet, noted, unexpired⟩ := of_decide_eq_true passed
  obtain ⟨call, recorded, noted⟩ := Option.map_eq_some_iff.1 noted
  simp only [recorded, Option.map_some, Option.some.injEq] at unexpired quiet
  refine ⟨y, calls, call, watched, recorded, noted, unexpired, quiet, ?_⟩
  simpa [noted, unexpired, quiet] using
    (gate_sound watched).1 () call 0 _ _ [] recorded code rfl

/-- Discipline of `ep_poll`. In any run a call of which a wait has reported expiry is never about to
sleep on `ep->wq` again, has called `ep_send_events` at most once since then, and no call passes
more than thirteen program points between taking `ep->lock` and releasing it: it cannot cycle among its labels
without releasing the lock. -/
theorem poll_discipline {calls : ι → Option PollCall} (watched : PollWatched (y, calls))
    (recorded : calls t = some call) :
    (call.expired = true → ∀ e pc locals, .ep (.poll t e pc locals) ∈ y.todo (.task t) →
      pc.sleeps = false) ∧
    call.sends ≤ 1 ∧ call.points ≤ 13 := by
  have logged := (watched.logged t call recorded).2
  refine ⟨fun expired e pc locals member => ?_, logged.once, logged.bounded⟩
  obtain ⟨front, -, agrees⟩ := logged.agrees member
  have leaving := agrees.expiry expired
  cases pc <;> first | rfl | contradiction

/-- The task waits for events until its timer expires. -/
def expireRun : List (Label Unit Unit) :=
  bindRun ++ [Label.task () (.epollWait 0 .finite)] ++
  List.replicate 12 (Label.run (.task ()) {}) ++ [Label.run (.task ()) { flag := true }] ++
  List.replicate 4 (Label.run (.task ()) {})

/-- A call whose wait has expired is past its last sleep. -/
theorem poll_discipline_expired : ∃ (y : Sys Unit Unit) (calls : Unit → Option PollCall)
    (call : PollCall), PollWatched (y, calls) ∧ calls () = some call ∧ call.expired = true ∧
      call.points = 3 ∧ ∀ e pc locals, .ep (.poll () e pc locals) ∈ y.todo (.task ()) →
        pc.sleeps = false := by
  have replayed : (Transition.run (Transition.watch Cmgroups.next pollCalls) expireRun
      (boot fun _ => true, fun _ => none)).map (fun y => decide
        ((y.2 ()).map PollCall.expired = some true ∧ (y.2 ()).map PollCall.points = some 3)) =
      some true := by decide +kernel
  obtain ⟨y, calls, watched, passed⟩ := exists_pollWatched replayed
  dsimp only at passed
  obtain ⟨expired, points⟩ := of_decide_eq_true passed
  obtain ⟨call, recorded, expired⟩ := Option.map_eq_some_iff.1 expired
  simp only [recorded, Option.map_some, Option.some.injEq] at points
  exact ⟨y, calls, call, watched, recorded, expired, points,
    (poll_discipline watched recorded).1 expired⟩

end Run

end Cmgroups
