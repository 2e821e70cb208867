import Cmgroups.Verif.Lifetime

/-!
# Event sources in use

Calls and callbacks use an eventpoll or an AIO context only before its teardown begins. The tasklet
and `cmgroup_detach` reach an eventpoll through the pointers of a cmgroup that is attached to it, and
those are reset before the eventpoll is returned to the allocator.
-/

set_option linter.unusedSectionVars false

namespace Cmgroups

open Function (update)
open Pool

variable {ι κ : Type} [DecidableEq ι] [DecidableEq κ]

/-- What is done with an eventpoll only while its file is in use. -/
def epTouchNeed (e : EpollId) : Instr ι → ℤ
  | .lock (.lock spin) | .lock (.unlock spin) | .lock (.unlink _ spin) =>
    if spin = .epoll e then 1 else 0
  | .lock (.epMtxLock f) | .lock (.epMtxUnlock f) | .lock (.epPut f) => if f = e then 1 else 0
  | step => epUsersNeed e step

/-- What is done with an AIO context only with a reference to it. -/
def ctxTouchNeed (c : CtxId) : Instr ι → ℤ
  | .lock (.ctxPut d) | .bind (.setupDone d) | .bind (.beginAio _ d) => if d = c then 1 else 0
  | step => usersNeed c step

/-- What is done with an event source while a call has a reference to it. -/
def touchNeed : Source → Instr ι → ℤ
  | .epoll e => epTouchNeed e
  | .aio c => ctxTouchNeed c

/-- The micro-step wakes tasks that wait in the queue. -/
def Instr.wakes (lock : LockId) : Instr ι → Prop
  | .lock (.wakeOne spin) | .lock (.wakeAll spin) => spin = lock
  | _ => False

/-- The micro-step uses the lock or the queue that the cmgroup points to. -/
def Instr.follows (g : GroupId) : Instr ι → Prop
  | .lock (.unlockVia h _) | .tasklet (.reset h _) | .tasklet (.wakeAll h _) | .tasklet (.wake h _)
  | .wait (.add _ _ h _ _) | .bind (.detachDrain h) => h = g
  | _ => False

/-- The micro-step reads or writes the memory of the event source, or returns it to the allocator.
`kill_ioctx` is not listed: it finds its AIO context in the context table. -/
def Instr.uses (s : Shared ι κ) (step : Instr ι) : Source → Prop
  | .epoll e => epTouchNeed e step = 1 ∨ step.wakes (.epoll e) ∨
      (∃ g via, step = .lock (.spinVia g (.epoll e) via)) ∨
      (∃ g, step.follows g ∧ s.wqPtr g = some e) ∨ step = .bind (.epKfree e)
  | .aio c => ctxTouchNeed c step = 1 ∨ step = .bind (.addTable c) ∨ step = .bind (.ctxKfree c)

/-- The micro-step wakes tasks, or puts a woken task on its run queue. -/
def Instr.waking : Instr ι → Bool
  | .lock (.wakeOne _) | .lock (.wakeAll _) | .sched (.activate _ _) | .sched (.enterRq _)
  | .acct (.charge _ _) | .acct (.decAvailable _ _) => true
  | _ => false

/-- The micro-step wakes tasks. -/
def Instr.wakesAny : Instr ι → Bool
  | .lock (.wakeOne _) | .lock (.wakeAll _) => true
  | _ => false

/-- The micro-step is part of `io_getevents` or `cmgroup_wait`. -/
def Instr.isWait : Instr ι → Bool
  | .wait _ => true
  | _ => false

/-- Tasks are woken before anything else is done. -/
def Waking : Instr ι → Code ι → Prop :=
  Before (fun later => later.wakesAny = true) fun step => step.waking = true

section Flow

variable {s s' : Shared ι κ} {actor : Actor ι κ} {choice : Choice} {step : Instr ι}
  {code : Code ι} {g : GroupId}

theorem epTouchNeed_nonneg (e : EpollId) (step : Instr ι) : 0 ≤ epTouchNeed e step := by
  unfold epTouchNeed
  split
  case h_7 => exact epUsersNeed_nonneg e step
  all_goals split_ifs <;> decide

theorem ctxTouchNeed_nonneg (c : CtxId) (step : Instr ι) : 0 ≤ ctxTouchNeed c step := by
  unfold ctxTouchNeed
  split
  case h_4 => exact usersNeed_nonneg c step
  all_goals split_ifs <;> decide

theorem touchNeed_nonneg (source : Source) (step : Instr ι) : 0 ≤ touchNeed source step := by
  cases source with
  | epoll e => exact epTouchNeed_nonneg e step
  | aio c => exact ctxTouchNeed_nonneg c step

/-- Code that wakes tasks expands to such code. -/
theorem Expands.waking (flow : Expands s actor step code) (waking : step.waking = true) :
    ∀ later ∈ code, later.waking = true := by
  induction flow <;> simp [Instr.waking] at waking <;> simp [Instr.waking]

/-- It takes and releases no lock and no reference. -/
theorem waking_weight (waking : step.waking = true) (e : EpollId) :
    viaWeight Via.all g step = 0 ∧ epUsersWeight e step = 0 := by
  unfold Instr.waking at waking
  split at waking
  case h_7 => exact absurd waking (by simp)
  all_goals exact ⟨rfl, rfl⟩

theorem Expands.waking_load (flow : Expands s actor step code) (waking : step.waking = true)
    {weight : Instr ι → ℤ} (zero : ∀ step, step.waking = true → weight step = 0) :
    load weight code = load weight [step] := by
  have empty : load weight code = 0 := by
    refine List.sum_eq_zero fun value present => ?_
    obtain ⟨later, member, rfl⟩ := List.mem_map.1 present
    exact zero later (flow.waking waking later member)
  rw [empty, load_cons, load_nil, zero step waking, add_zero]

theorem Expands.wakingFirst (flow : Expands s actor step code) (rest : Code ι)
    (first : Waking step rest) : Tails (fun later tail => Waking later (tail ++ rest)) code := by
  refine Tails.before (tails_before_of_ordered ?_) fun waiting => flow.waking (first waiting)
  induction flow <;> rfl

theorem Starts.wakingFirst (flow : Starts s actor code) : Tails Waking code :=
  tails_before_of_ordered (by induction flow <;> rfl)

theorem Instr.wakes.any {lock : LockId} (wakes : step.wakes lock) : step.wakesAny = true := by
  unfold Instr.wakes at wakes
  split at wakes
  case h_3 => exact wakes.elim
  all_goals rfl

theorem Instr.wakes.waking {lock : LockId} (wakes : step.wakes lock) : step.waking = true := by
  unfold Instr.wakes at wakes
  split at wakes
  case h_3 => exact wakes.elim
  all_goals rfl

theorem Instr.wakes.absent {lock : LockId} {later : Instr ι} (member : later ∈ code)
    (others : code.all (fun i => !i.waking) = true) : ¬ later.wakes lock :=
  absent_of_all (Instr.wakes lock) Instr.waking (fun _ => Instr.wakes.waking) member others

/-- The queue of an eventpoll is woken by a user of the eventpoll, or by the holder of the lock of a
cmgroup that points to it. -/
theorem Expands.wakes {e : EpollId} (flow : Expands s actor step code) {later : Instr ι}
    (member : later ∈ code) (wakes : later.wakes (.epoll e)) :
    step.wakes (.epoll e) ∨ epUsersNeed e step = 1 ∧ epUsersWeight e step = 0 ∨
      ∃ g, s.wqPtr g = some e ∧ ¬ step.rewrites g ∧ load (viaWeight Via.all g) code = 1 := by
  have queue : ∀ h, s.wqOf h = .epoll e → s.wqPtr h = some e := by
    intro h same
    unfold Shared.wqOf at same
    cases pointer : s.wqPtr h <;> simp [pointer] at same ⊢
    exact same
  induction flow
  case reset h pass _ _ =>
    simp only [List.mem_cons, List.not_mem_nil, or_false] at member
    rcases member with rfl | rfl | rfl | rfl
    · exact .inr (.inr ⟨h, queue h wakes, id, by simp [viaWeight, Via.all]⟩)
    all_goals exact wakes.elim
  case detachDrain t h =>
    simp only [List.mem_cons, List.not_mem_nil, or_false] at member
    rcases member with rfl | rfl | rfl | rfl | rfl | rfl
    · exact .inr (.inr ⟨h, queue h wakes, id, by simp [viaWeight, Via.all]⟩)
    all_goals exact wakes.elim
  case detachDrainRetry c h =>
    simp only [List.mem_cons, List.not_mem_nil, or_false] at member
    rcases member with rfl | rfl | rfl | rfl
    · exact .inr (.inr ⟨h, queue h wakes, id, by simp [viaWeight, Via.all]⟩)
    all_goals exact wakes.elim
  case storeEpoll h f _ =>
    simp only [List.mem_cons, List.not_mem_nil, or_false] at member
    rcases member with rfl | rfl | rfl | rfl | rfl
    · exact .inr (.inl ⟨by simp [epUsersNeed, LockId.epoll.inj wakes], rfl⟩)
    all_goals exact wakes.elim
  case wakeWqPlain f | wakeWqAvail f _ =>
    obtain rfl := List.mem_singleton.1 member
    exact .inr (.inl ⟨by simp [epUsersNeed, LockId.epoll.inj wakes], rfl⟩)
  case wakeAllMore lock =>
    obtain rfl := List.mem_singleton.1 member
    exact .inl wakes
  case wakeAll lock p =>
    simp only [List.mem_cons, List.not_mem_nil, or_false] at member
    rcases member with rfl | rfl
    · exact wakes.elim
    · exact .inl wakes
  all_goals first
    | exact absurd wakes (Instr.wakes.absent member rfl)
    | exact absurd wakes
        ((by simp [Instr.wakes] : ∀ later ∈ _, ¬ later.wakes (.epoll e)) later member)

/-- A call of `io_getevents` has no reference to an eventpoll. -/
theorem Expands.noEpoll {e : EpollId} (flow : Expands s actor step code) (rest : Code ι)
    (none : step.isWait = true → load (epUsersWeight e) rest = 0) :
    Tails (fun later tail => later.isWait = true → load (epUsersWeight e) (tail ++ rest) = 0)
      code := by
  induction flow <;> simp only [tails_cons, tails_nil, List.cons_append, List.nil_append, load_cons,
    and_true] <;> dsimp only [Instr.isWait, epUsersWeight] at none ⊢
  all_goals first
    | exact trivial
    | exact none
    | (simp at none ⊢; done)
    | simpa using none

theorem Starts.noEpoll {e : EpollId} (flow : Starts s actor code) :
    Tails (fun later tail => later.isWait = true → load (epUsersWeight e) tail = 0) code := by
  induction flow <;> simp [Instr.isWait]

theorem Starts.wakes {lock : LockId} (flow : Starts s actor code) :
    ∀ later ∈ code, ¬ later.wakes lock := by
  induction flow
  all_goals first
    | exact fun later member => Instr.wakes.absent member rfl
    | simp [Instr.wakes]

end Flow

section Run

variable {y y' : Sys ι κ} {actor other : Actor ι κ} {choice : Choice} {step : Instr ι}
  {gained rest : Code ι} {g : GroupId} {e : EpollId} {c : CtxId} [Fintype ι] [Fintype κ]

/-- `cmgroup_wait` finds the own queue of the cmgroup. -/
theorem Reachable.wait_local (reached : Reachable y) {w : WaitStep ι}
    (head : y.todo actor = .wait w :: rest) (relies : (Instr.wait w).relies g) :
    y.shared.wqOf g ≠ .epoll e := by
  have binding := reached.binding
  have backed := reached.tails_backed g actor
  rw [head] at backed
  obtain ⟨source, bound, used⟩ := backed.1 relies
  have noEpoll : y.shared.attachedEpoll g = none := by
    cases source with
    | epoll f =>
      have none : Tails (fun later tail => later.isWait = true → load (epUsersWeight f) tail = 0)
          (y.todo actor) := reached.tails Expands.noEpoll Starts.noEpoll actor
      rw [head] at none
      have zero := none.1 rfl
      have weight : epUsersWeight f (.wait w : Instr ι) = 0 := rfl
      rw [load_cons, useWeight, zero, weight] at used
      omega
    | aio c =>
      rcases bound with attached | ⟨other, pending⟩
      · exact (binding.single g).resolve_right (by simp [attached])
      · exact (binding.attaching other g _ pending rfl).1
  simp [Shared.wqOf, (binding.pointers g).2, noEpoll]

/-- Whoever wakes the queue of an eventpoll uses its file, or holds the lock of a cmgroup that points
to it. -/
def Aimed (y : Sys ι κ) (e : EpollId) : Prop :=
  ∀ actor, ∀ step ∈ y.todo actor, step.wakes (.epoll e) →
    1 ≤ load (epUsersWeight e) (y.todo actor) ∨
      ∃ g, y.shared.wqPtr g = some e ∧ 1 ≤ load (viaWeight Via.all g) (y.todo actor)

/-- The pointer stays while the lock is held. -/
theorem Reachable.wqPtr_kept (reached : Reachable y) (head : y.todo actor = step :: rest)
    {s' : Shared ι κ} (done : exec actor choice y.shared step = some (s', gained))
    (held : 1 ≤ load (viaWeight Via.all g) (y.todo other)) :
    s'.wqPtr g = y.shared.wqPtr g := by
  by_contra written
  have quiet := (reached.locking.quiet reached head (exec_rewrites done (.inr written))).1 other
  omega

/-- Whoever wakes a queue goes on to use it. -/
theorem Aimed.exec (aimed : Aimed y e) (reached : Reachable y)
    (head : y.todo actor = step :: rest)
    (done : exec actor choice y.shared step = some (y'.shared, gained))
    (move : Move y.todo y'.todo actor [step] gained) : Aimed y' e := by
  have flow := exec_expands done
  obtain ⟨tail, before, after⟩ := id move
  obtain rfl : tail = rest := by
    rw [head] at before
    simpa using before.symm
  intro other later member wakes
  -- what was aimed before and is still in the same code
  have kept : ∀ earlier ∈ y.todo other, earlier.wakes (.epoll e) →
      (∀ h, load (viaWeight Via.all h) (y'.todo other) = load (viaWeight Via.all h) (y.todo other)) →
      load (epUsersWeight e) (y'.todo other) = load (epUsersWeight e) (y.todo other) →
      1 ≤ load (epUsersWeight e) (y'.todo other) ∨
        ∃ g, y'.shared.wqPtr g = some e ∧ 1 ≤ load (viaWeight Via.all g) (y'.todo other) := by
    intro earlier present wakes via users
    rcases aimed other earlier present wakes with used | ⟨g, pointer, held⟩
    · exact .inl (by omega)
    · exact .inr ⟨g, (reached.wqPtr_kept head done held).trans pointer, by rw [via]; exact held⟩
  by_cases self : other = actor
  · subst self
    have balanced : step.waking = true →
        (∀ h, load (viaWeight Via.all h) (y'.todo other) =
          load (viaWeight Via.all h) (y.todo other)) ∧
        load (epUsersWeight e) (y'.todo other) = load (epUsersWeight e) (y.todo other) :=
      fun waking => ⟨fun h => move.load_eq (flow.waking_load waking fun step waking =>
          (waking_weight waking e).1) other,
        move.load_eq (flow.waking_load waking fun step waking =>
          (waking_weight (g := 0) waking e).2) other⟩
    rw [after, Function.update_self] at member
    rcases List.mem_append.1 member with new | old
    · rcases flow.wakes new wakes with earlier | ⟨needs, weight⟩ | ⟨g, pointer, still, held⟩
      · have waking : step.waking = true := earlier.waking
        obtain ⟨via, users⟩ := balanced waking
        exact kept step (by simp [head]) earlier via users
      · left
        have used : 1 ≤ load (useWeight (.epoll e)) (step :: _) := reached.use_head head needs
        have nonneg := load_nonneg (epUsersWeight_nonneg e) gained
        simp only [useWeight] at used
        rw [load_cons, weight] at used
        rw [after, Function.update_self, load_append]
        omega
      · right
        have via := reached.via_secured Via.all_nonneg g other
        rw [head] at via
        have kept : y'.shared.wqPtr g = y.shared.wqPtr g := by
          by_contra written
          exact still (exec_rewrites done (.inr written))
        refine ⟨g, kept.trans pointer, ?_⟩
        rw [after, Function.update_self, load_append, held]
        linarith [via.2.nonneg fun _ => le_rfl]
    · have first : Tails Waking (y.todo other) :=
        reached.tails Expands.wakingFirst Starts.wakingFirst other
      rw [head] at first
      obtain ⟨via, users⟩ := balanced (first.1 ⟨later, old, wakes.any⟩)
      exact kept later (by simp [head, old]) wakes via users
  · have same := move.other self
    rw [same] at member
    exact kept later member wakes (fun h => by rw [same]) (by rw [same])

theorem Reachable.aimed (reached : Reachable y) (e : EpollId) : Aimed y e := by
  induction reached with
  | start initial =>
    intro actor step member
    simp [initial.idle actor] at member
  | @step label before after reached _ taken ih =>
    obtain ⟨actor, spent, gained, effect, move⟩ := next_effect taken
    have start : ∀ {gained : Code ι}, Starts before.shared actor gained →
        after.shared.wqPtr = before.shared.wqPtr →
        Move before.todo after.todo actor [] gained → before.todo actor = [] → Aimed after e := by
      intro gained flow wqPtr move idle other step member wakes
      rcases move.mem member with old | ⟨rfl, new⟩
      · have busy : other ≠ actor := by
          rintro rfl
          simp [idle] at old
        rw [move.other busy, wqPtr]
        exact ih other step old wakes
      · exact absurd wakes (flow.wakes step new)
    cases effect with
    | exec done =>
      obtain ⟨rest, head, -⟩ := id move
      exact ih.exec reached head done move
    | task idle able done =>
      exact start (startTask_starts done)
        (by rw [startTask_frame (Reachable.unknown reached) done]) move idle
    | cpu idle done =>
      exact start (startCpu_starts done) (by rw [startCpu_frame done]) move idle

/-- The micro-step returns the event source to the allocator. -/
def Instr.frees (step : Instr ι) : Source → Prop
  | .epoll e => step = .bind (.epKfree e)
  | .aio c => step = .bind (.ctxKfree c)

end Run

end Cmgroups
