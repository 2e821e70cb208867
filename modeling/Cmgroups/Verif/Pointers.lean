import Cmgroups.Verif.Locking

/-!
# Queue and lock pointers

The queue and lock of a cmgroup are those of the epoll it is attached to, and its own
otherwise; then its action is at rest. They are not written while anybody uses the lock
through the cmgroup, so every release acts on the lock that was acquired. An epoll that was
detached is out of reach for ever.
-/

set_option linter.unusedSectionVars false

namespace Cmgroups

open Function (update)
open Pool

variable {ι κ : Type} [DecidableEq ι] [DecidableEq κ]

/-- What keeps the action of a cmgroup without epoll at rest. -/
structure Resting (y : Sys ι κ) : Prop where
  /-- Without epoll, the action is to wake all. -/
  action : ∀ g, y.shared.attachedEpoll g = none → y.shared.action g = .wakeAll
  /-- The tasklet resets only the action of a cmgroup with an epoll. -/
  reset : ∀ actor g pass, .tasklet (.reset g pass) ∈ y.todo actor →
    y.shared.attachedEpoll g ≠ none
  /-- `ep_wake_wq` tests and asks for the cmgroup of its epoll. -/
  request : ∀ actor e g, .ep (.wakeWqAvail e g) ∈ y.todo actor ∨
    .ep (.wakeWqRequest e g) ∈ y.todo actor → y.shared.epCmgroup e = some g

section Step

variable {s s' : Shared ι κ} {actor : Actor ι κ} {choice : Choice} {step : Instr ι}
  {code : Code ι} {g : GroupId}

/-- Who writes the action of a cmgroup. -/
theorem exec_action (done : exec actor choice s step = some (s', code)) :
    s'.action g = s.action g ∨
      (∃ t e pc locals, step = .ep (.poll t e pc locals) ∧ s.epCmgroup e = some g) ∨
      (∃ e, step = .ep (.wakeWqRequest e g)) ∨ (∃ pass, step = .tasklet (.reset g pass)) ∨
      (∃ source, step = .bind (.detachStore g source)) ∧ s'.action g = .wakeAll := by
  cases step with
  | sched step => rw [execSched_frame done]; exact .inl rfl
  | acct step => rw [execAcct_frame done]; exact .inl rfl
  | obj step => rw [execObj_frame done]; exact .inl rfl
  | lock step => rw [execLock_frame done]; exact .inl rfl
  | wait step => rw [execWait_frame done]; exact .inl rfl
  | bind step =>
    cases step with
    | detachStore h source =>
      simp only [exec, execBind, Option.some.injEq, Prod.mk.injEq] at done
      obtain ⟨rfl, -⟩ := done
      by_cases same : g = h
      · subst same
        exact .inr (.inr (.inr (.inr ⟨⟨source, rfl⟩, Function.update_self _ _ _⟩)))
      · exact .inl (Function.update_of_ne same _ _)
    | _ =>
      simp only [exec, execBind] at done
      repeat' split at done
      all_goals simp only [Option.some.injEq, Prod.mk.injEq] at done
      all_goals obtain ⟨rfl, -⟩ := done
      all_goals exact .inl rfl
  | tasklet step =>
    cases step with
    | wake h pass => rw [wake_frame done]; exact .inl rfl
    | reset h pass =>
      simp only [exec, execTasklet] at done
      split at done
      all_goals simp only [Option.some.injEq, Prod.mk.injEq] at done
      all_goals obtain ⟨rfl, -⟩ := done
      · by_cases same : g = h
        · subst same
          exact .inr (.inr (.inr (.inl ⟨pass, rfl⟩)))
        · exact .inl (Function.update_of_ne same _ _)
      · exact .inl rfl
    | _ =>
      simp only [exec, execTasklet] at done
      repeat' split at done
      all_goals simp only [Option.some.injEq, Prod.mk.injEq, reduceCtorEq] at done
      all_goals obtain ⟨rfl, -⟩ := done
      all_goals exact .inl rfl
  | ep step =>
    cases step with
    | poll t e pc locals =>
      by_cases bound : s.epCmgroup e = some g
      · exact .inr (.inl ⟨t, e, pc, locals, rfl, bound⟩)
      · left
        cases pc <;> simp only [exec, execEp, execPoll] at done
        all_goals repeat' split at done
        all_goals simp only [Option.some.injEq, Prod.mk.injEq] at done
        all_goals obtain ⟨rfl, -⟩ := done
        all_goals first
          | rfl
          | (refine Function.update_of_ne ?_ _ _; rintro rfl; contradiction)
    | wakeWqRequest e h =>
      simp only [exec, execEp, Option.some.injEq, Prod.mk.injEq] at done
      obtain ⟨rfl, -⟩ := done
      by_cases same : g = h
      · subst same
        exact .inr (.inr (.inl ⟨e, rfl⟩))
      · exact .inl (Function.update_of_ne same _ _)
    | _ =>
      simp only [exec, execEp] at done
      repeat' split at done
      all_goals simp only [Option.some.injEq, Prod.mk.injEq, reduceCtorEq] at done
      all_goals obtain ⟨rfl, -⟩ := done
      all_goals exact .inl rfl

/-- Only a detachment takes an epoll away. -/
theorem exec_attachedEpoll (done : exec actor choice s step = some (s', code))
    (without : s'.attachedEpoll g = none) :
    s.attachedEpoll g = none ∨ ∃ source, step = .bind (.detachStore g source) := by
  cases step with
  | bind step =>
    cases step with
    | detachStore h source =>
      simp only [exec, execBind, Option.some.injEq, Prod.mk.injEq] at done
      obtain ⟨rfl, -⟩ := done
      by_cases same : g = h
      · subst same
        exact .inr ⟨source, rfl⟩
      · exact .inl (by simpa [same] using without)
    | storeEpoll h e =>
      simp only [exec, execBind] at done
      split at done
      all_goals simp only [Option.some.injEq, Prod.mk.injEq] at done
      all_goals obtain ⟨rfl, -⟩ := done
      · left
        simp only [Function.update_apply] at without
        split_ifs at without
        exact without
      · exact .inl without
    | _ =>
      simp only [exec, execBind] at done
      repeat' split at done
      all_goals simp only [Option.some.injEq, Prod.mk.injEq] at done
      all_goals obtain ⟨rfl, -⟩ := done
      all_goals exact .inl without
  | _ => exact .inl ((exec_sameBinding (by simp) done).attachedEpoll ▸ without)

/-- Only attachments and detachments write the pointers. -/
theorem exec_rewrites (done : exec actor choice s step = some (s', code))
    (written : s'.lockPtr g ≠ s.lockPtr g ∨ s'.wqPtr g ≠ s.wqPtr g) : step.rewrites g := by
  cases step with
  | bind step =>
    cases step with
    | detachStore h source =>
      simp only [exec, execBind, Option.some.injEq, Prod.mk.injEq] at done
      obtain ⟨rfl, -⟩ := done
      by_contra different
      have other : g ≠ h := fun same => different same.symm
      simp [other] at written
    | storeEpoll h e =>
      simp only [exec, execBind] at done
      split at done
      all_goals simp only [Option.some.injEq, Prod.mk.injEq] at done
      all_goals obtain ⟨rfl, -⟩ := done
      · by_contra different
        have other : g ≠ h := fun same => different same.symm
        simp [other] at written
      · simp at written
    | _ =>
      simp only [exec, execBind] at done
      repeat' split at done
      all_goals simp only [Option.some.injEq, Prod.mk.injEq] at done
      all_goals obtain ⟨rfl, -⟩ := done
      all_goals simp at written
  | _ =>
    have same := exec_sameBinding (by simp) done
    simp [same.lockPtr, same.wqPtr] at written

/-- An epoll that is bound stays bound to the same cmgroup. -/
theorem exec_epCmgroup {e : EpollId} (done : exec actor choice s step = some (s', code))
    (bound : s.epCmgroup e = some g) : s'.epCmgroup e = some g := by
  cases step with
  | bind step =>
    cases step with
    | storeEpoll h f =>
      simp only [exec, execBind] at done
      split at done
      all_goals simp only [Option.some.injEq, Prod.mk.injEq] at done
      all_goals obtain ⟨rfl, -⟩ := done
      · have different : e ≠ f := by
          rintro rfl
          simp_all
        simpa [different] using bound
      · exact bound
    | _ =>
      simp only [exec, execBind] at done
      repeat' split at done
      all_goals simp only [Option.some.injEq, Prod.mk.injEq] at done
      all_goals obtain ⟨rfl, -⟩ := done
      all_goals exact bound
  | _ => exact (exec_sameBinding (by simp) done).epCmgroup ▸ bound

/-- An epoll that exists stays bound to the same cmgroup when an operation starts. -/
theorem startTask_epCmgroup {t : ι} {op : TaskOp ι} {e : EpollId}
    (done : startTask s t op = some (s', code)) (born : s.epStage e ≠ .unborn) :
    s'.epCmgroup e = s.epCmgroup e := by
  cases op <;> simp only [startTask, withEpoll, cmgroupFromFd] at done
  all_goals repeat' split at done
  all_goals simp only [Option.some.injEq, Prod.mk.injEq, reduceCtorEq] at done
  all_goals obtain ⟨rfl, -⟩ := done
  all_goals first
    | rfl
    | (refine Function.update_of_ne ?_ _ _; rintro rfl; contradiction)

/-- The tasklet comes to reset an action that asks for it. -/
theorem Expands.reset_asked {pass : ℕ} (flow : Expands s actor step code)
    (member : .tasklet (.reset g pass) ∈ code) : s.action g = .resetWakeOne := by
  induction flow <;> simp at member
  obtain ⟨rfl, rfl⟩ := member
  assumption

/-- `ep_wake_wq` looks at the cmgroup of its epoll. -/
theorem Expands.request_bound {e : EpollId} (flow : Expands s actor step code)
    (member : .ep (.wakeWqAvail e g) ∈ code ∨ .ep (.wakeWqRequest e g) ∈ code) :
    s.epCmgroup e = some g ∨ step = .ep (.wakeWqAvail e g) := by
  induction flow <;> simp at member
  · obtain ⟨rfl, rfl⟩ := member
    exact .inl ‹_›
  · obtain ⟨rfl, rfl⟩ := member
    exact .inr rfl

/-- Operations start with none of these. -/
theorem Starts.resting (flow : Starts s actor code) (e : EpollId) (pass : ℕ) :
    .tasklet (.reset g pass) ∉ code ∧ .ep (.wakeWqAvail e g) ∉ code ∧
      .ep (.wakeWqRequest e g) ∉ code := by
  induction flow <;> simp

end Step

section Reached

variable [Fintype ι] [Fintype κ] {y : Sys ι κ} {actor : Actor ι κ} {g : GroupId}

/-- A tasklet about to reset the action holds the lock. -/
theorem Reachable.reset_holds (reached : Reachable y) {pass : ℕ}
    (present : .tasklet (.reset g pass) ∈ y.todo actor) :
    1 ≤ load (viaWeight Via.all g) (y.todo actor) := by
  have front := reached.front (fun step => ∃ g pass, step = .tasklet (.reset g pass))
    (fun flow later member => by induction flow <;> simp at member <;> grind)
    (fun flow later member => by induction flow <;> simp at member <;> grind) actor
  have secured := reached.via_secured Via.all_nonneg g actor
  cases code : y.todo actor with
  | nil => simp [code] at present
  | cons first tail =>
    rw [code] at present front secured
    rcases List.mem_cons.1 present with rfl | later
    · have rest := secured.2.nonneg fun _ => le_rfl
      simp [viaWeight, Via.all]
      omega
    · exact absurd ⟨g, pass, rfl⟩ (front _ later)

/-- Starting an operation keeps actions at rest. -/
theorem Resting.start {gained : Code ι} {s' : Shared ι κ} {todo : Actor ι κ → Code ι}
    (resting : Resting y) (reached : Reachable y) (flow : Starts y.shared actor gained)
    (move : Move y.todo todo actor [] gained) (action : s'.action = y.shared.action)
    (attached : s'.attachedEpoll = y.shared.attachedEpoll)
    (bound : ∀ e, y.shared.epStage e ≠ .unborn → s'.epCmgroup e = y.shared.epCmgroup e) :
    Resting ⟨s', todo⟩ := by
  constructor
  case action =>
    intro g without
    dsimp only at without ⊢
    rw [action]
    exact resting.action g (attached ▸ without)
  case reset =>
    intro other g pass present
    dsimp only at present ⊢
    rw [attached]
    refine resting.reset other g pass ((move.mem present).resolve_right fun new => ?_)
    exact (flow.resting 0 pass).1 new.2
  case request =>
    intro other e g present
    dsimp only at present ⊢
    have old : .ep (.wakeWqAvail e g) ∈ y.todo other ∨ .ep (.wakeWqRequest e g) ∈ y.todo other :=
      present.imp
        (fun avail => (move.mem avail).resolve_right fun new => (flow.resting e 0).2.1 new.2)
        (fun ask => (move.mem ask).resolve_right fun new => (flow.resting e 0).2.2 new.2)
    have opened : y.shared.epStage e = .published := by
      rcases old with avail | ask
      · exact reached.epoll_open avail (by simp [epUsersNeed])
      · exact reached.epoll_open ask (by simp [epUsersNeed])
    rw [bound e (by simp [opened])]
    exact resting.request other e g old

/-- In every run the action of a cmgroup without epoll is at rest. -/
theorem Reachable.resting (reached : Reachable y) : Resting y := by
  induction reached with
  | start initial =>
    constructor
    case action => exact fun g _ => initial.action g
    all_goals simp [initial.idle]
  | @step _ y y' reached _ taken ih =>
    have binding := Reachable.binding reached
    obtain ⟨actor, spent, gained, effect, move⟩ := next_effect taken
    cases effect with
    | @exec _ _ step _ _ done =>
      have flow := exec_expands done
      obtain ⟨rest, head, -⟩ := id move
      have member : step ∈ y.todo actor := by simp [head]
      constructor
      case action =>
        intro g without
        rcases exec_attachedEpoll done without with none | ⟨source, rfl⟩
        · rcases exec_action (g := g) done with same | ⟨t, e, pc, locals, rfl, bound⟩ |
            ⟨e, rfl⟩ | ⟨pass, rfl⟩ | ⟨-, rest⟩
          · rw [same]
            exact ih.action g none
          · have opened := Reachable.epoll_open reached member (e := e) (by simp [epUsersNeed])
            have attached := binding.epoll e g bound (by simp [opened]) (by simp [opened])
            simp [none] at attached
          · have opened := Reachable.epoll_open reached member (e := e) (by simp [epUsersNeed])
            have bound := ih.request actor e g (.inr member)
            have attached := binding.epoll e g bound (by simp [opened]) (by simp [opened])
            simp [none] at attached
          · exact absurd none (ih.reset actor g pass member)
          · exact rest
        · simp only [exec, execBind, Option.some.injEq, Prod.mk.injEq] at done
          rw [← done.1]
          exact Function.update_self _ _ _
      case reset =>
        intro other g pass present
        rcases move.mem present with old | ⟨rfl, new⟩
        · intro without
          rcases exec_attachedEpoll done without with none | ⟨source, rfl⟩
          · exact ih.reset other g pass old none
          · have quiet := (Reachable.locking reached).quiet reached head (g := g) rfl
            have holds := Reachable.reset_holds reached old
            rw [quiet.1 other] at holds
            omega
        · intro without
          rcases exec_attachedEpoll done without with none | ⟨source, rfl⟩
          · have rest := ih.action g none
            rw [flow.reset_asked new] at rest
            simp at rest
          · cases flow
            simp at new
      case request =>
        intro other e g present
        refine exec_epCmgroup done ?_
        have later : (.ep (.wakeWqAvail e g) ∈ y.todo other ∨
            .ep (.wakeWqRequest e g) ∈ y.todo other) ∨ other = actor ∧
            (.ep (.wakeWqAvail e g) ∈ gained ∨ .ep (.wakeWqRequest e g) ∈ gained) := by
          rcases present with avail | ask
          · exact (move.mem avail).imp .inl (And.imp_right .inl)
          · exact (move.mem ask).imp .inr (And.imp_right .inr)
        rcases later with old | ⟨rfl, new⟩
        · exact ih.request other e g old
        · rcases flow.request_bound new with bound | rfl
          · exact bound
          · exact ih.request other e g (.inl member)
    | task idle able done =>
      have frame := startTask_frame (Reachable.unknown reached) done
      exact ih.start reached (startTask_starts done) move (by rw [frame]) (by rw [frame])
        fun e => startTask_epCmgroup done
    | cpu idle done =>
      have frame := startCpu_frame done
      exact ih.start reached (startCpu_starts done) move (by rw [frame]) (by rw [frame])
        fun e _ => by rw [frame]

end Reached

/-- The actor has acquired the lock of the cmgroup through `cmgroup->lock` and not released it. -/
def HoldsThrough (y : Sys ι κ) (actor : Actor ι κ) (g : GroupId) : Prop :=
  0 < load (viaWeight Via.all g) (y.todo actor)

/-- `ep_free` has nothing left to do for the eventpoll but to free it: `cmgroup_detach`, if it was
called, has returned. -/
def DetachReturned (y : Sys ι κ) (e : EpollId) : Prop :=
  y.shared.epStage e = .freed ∨ ∃ actor rest, y.todo actor = .bind (.epKfree e) :: rest

section Stable

variable [Fintype ι] [Fintype κ] {y y' : Sys ι κ}

/-- Code moves an eventpoll to no other stage than the last. -/
theorem exec_epStage {actor : Actor ι κ} {choice : Choice} {s s' : Shared ι κ} {step : Instr ι}
    {code : Code ι} {e : EpollId} (done : exec actor choice s step = some (s', code)) :
    s'.epStage e = s.epStage e ∨ s'.epStage e = .freed := by
  cases step with
  | bind step =>
    cases step with
    | epKfree f =>
      simp only [exec, execBind, Option.some.injEq, Prod.mk.injEq] at done
      obtain ⟨rfl, -⟩ := done
      by_cases same : e = f
      · subst same
        exact .inr (Function.update_self _ _ _)
      · exact .inl (Function.update_of_ne same _ _)
    | _ =>
      simp only [exec, execBind] at done
      repeat' split at done
      all_goals simp only [Option.some.injEq, Prod.mk.injEq] at done
      all_goals obtain ⟨rfl, -⟩ := done
      all_goals exact .inl rfl
  | _ => exact .inl (by rw [(exec_sameBinding (by simp) done).epStage])

/-- An eventpoll that was freed stays so when an operation starts. -/
theorem startTask_freed {s s' : Shared ι κ} {code : Code ι} {t : ι} {op : TaskOp ι}
    {e : EpollId} (done : startTask s t op = some (s', code)) (freed : s.epStage e = .freed) :
    s'.epStage e = .freed := by
  cases op <;> simp only [startTask, withEpoll, cmgroupFromFd] at done
  all_goals repeat' split at done
  all_goals simp only [Option.some.injEq, Prod.mk.injEq, reduceCtorEq] at done
  all_goals obtain ⟨rfl, -⟩ := done
  all_goals first
    | exact freed
    | (rw [← freed]; refine Function.update_of_ne ?_ _ _; rintro rfl; simp_all)

/-- An eventpoll that was freed stays so. -/
theorem next_freed {label : Label ι κ} {e : EpollId} (taken : next label y = some y')
    (freed : y.shared.epStage e = .freed) : y'.shared.epStage e = .freed := by
  obtain ⟨actor, spent, gained, effect, -⟩ := next_effect taken
  cases effect with
  | exec done =>
    rcases exec_epStage (e := e) done with same | gone
    · rw [same, freed]
    · exact gone
  | task idle able done => exact startTask_freed done freed
  | cpu idle done =>
    rw [startCpu_frame done]
    exact freed

/-- A detachment that has returned stays so. -/
theorem DetachReturned.next {label : Label ι κ} {e : EpollId} (returned : DetachReturned y e)
    (taken : next label y = some y') : DetachReturned y' e := by
  rcases returned with freed | ⟨owner, rest, head⟩
  · exact .inl (next_freed taken freed)
  · obtain ⟨actor, spent, gained, effect, tail, before, after⟩ := next_effect taken
    by_cases same : owner = actor
    · subst same
      cases effect with
      | exec done =>
        rw [head] at before
        obtain ⟨rfl, rfl⟩ : _ ∧ _ := by simpa using before
        simp only [exec, execBind, Option.some.injEq, Prod.mk.injEq] at done
        left
        rw [← done.1]
        exact Function.update_self _ _ _
      | task idle able done => simp [head] at idle
      | cpu idle done => simp [head] at idle
    · exact .inr ⟨owner, rest, by rw [after, Function.update_of_ne same, head]⟩

/-- A detachment that has returned stays so along a run. -/
theorem DetachReturned.run {labels : List (Label ι κ)} {e : EpollId}
    (returned : DetachReturned y e) (replayed : Transition.run Cmgroups.next labels y = some y') :
    DetachReturned y' e := by
  induction labels generalizing y with
  | nil =>
    obtain rfl : y = y' := by simpa [Transition.run] using replayed
    exact returned
  | cons label rest ih =>
    simp only [Transition.run, Option.bind_eq_some_iff] at replayed
    obtain ⟨middle, taken, later⟩ := replayed
    exact ih (returned.next taken) later

/-- No cmgroup points to an eventpoll after its detachment. -/
theorem DetachReturned.unreachable {e : EpollId} (returned : DetachReturned y e)
    (reached : Reachable y) (g : GroupId) : y.shared.lockOf g ≠ .epoll e := by
  intro points
  have binding := reached.binding
  have attached : y.shared.attachedEpoll g = some e := by
    rw [← (binding.pointers g).1]
    unfold Shared.lockOf at points
    split at points
    · simp at points
    · simp_all
  rcases returned with freed | ⟨owner, rest, head⟩
  · rcases (binding.attached e g attached).2 with opened | ⟨actor, present⟩
    · simp [freed] at opened
    · have freeing := (binding.detachingEpoll actor g e present).2
      simp [freed] at freeing
  · have freeing : y.shared.epStage e = .freeing := by
      have kfree := reached.epoll e .kfree
      have member : .bind (.epKfree e) ∈ y.todo owner := by simp [head]
      have lower := weight_le_total (kfreeWeight_nonneg (.epoll e)) member
      have weighs : kfreeWeight (.epoll e) (.bind (.epKfree e) : Instr ι) = 1 := by
        simp [kfreeWeight]
      dsimp only [EpEntry.weight, EpEntry.stock] at kfree
      by_contra other
      rw [if_neg other] at kfree
      omega
    rcases (binding.attached e g attached).2 with opened | ⟨actor, present⟩
    · simp [freeing] at opened
    · exact reached.kfree_detached head (by simp [kfreeWeight]) (by simp) present

/-- The pointers are written only by a store that nobody's use of the lock overlaps. -/
theorem Reachable.pointers_written {label : Label ι κ} (reached : Reachable y)
    (taken : next label y = some y') {g : GroupId}
    (written : y'.shared.lockPtr g ≠ y.shared.lockPtr g ∨ y'.shared.wqPtr g ≠ y.shared.wqPtr g) :
    (∀ actor, load (viaWeight Via.all g) (y.todo actor) = 0) ∧
      ∀ actor lock via, .lock (.spinVia g lock via) ∉ y.todo actor := by
  obtain ⟨actor, spent, gained, effect, rest, head, -⟩ := next_effect taken
  cases effect with
  | @exec _ _ step _ _ done =>
    exact reached.locking.quiet reached head (exec_rewrites done written)
  | task idle able done =>
    rw [startTask_frame reached.unknown done] at written
    simp at written
  | cpu idle done =>
    rw [startCpu_frame done] at written
    simp at written

/-- Queue and lock pointers are consistent and stable: they are those of the attached epoll, or
local with the action at rest; they are not written while the lock is used through the
cmgroup, so that a release acts on the lock that was acquired, and `cmgroup_wait` finds them
local; and an epoll that was detached from the cmgroup is never locked through it again. -/
theorem pointers_consistent (reached : Reachable y) (g : GroupId) :
    ((∀ e, y.shared.attachedEpoll g = some e →
        y.shared.wqPtr g = some e ∧ y.shared.lockPtr g = some e) ∧
      (y.shared.attachedEpoll g = none →
        y.shared.wqPtr g = none ∧ y.shared.lockPtr g = none ∧ y.shared.action g = .wakeAll)) ∧
    ((∀ label y', next label y = some y' →
        y'.shared.lockPtr g ≠ y.shared.lockPtr g ∨ y'.shared.wqPtr g ≠ y.shared.wqPtr g →
        ∀ actor, ¬ HoldsThrough y actor g ∧
          ∀ lock via, .lock (.spinVia g lock via) ∉ y.todo actor) ∧
      (∀ actor, HoldsThrough y actor g → y.shared.owner (y.shared.lockOf g) = some actor) ∧
      (∀ actor via rest, y.todo actor = .lock (.unlockVia g via) :: rest →
        y.shared.owner (y.shared.lockOf g) = some actor) ∧
      (∀ actor t c ret timeout rem slack,
        .wait (.enter t c g ret timeout rem slack) ∈ y.todo actor →
        y.shared.wqPtr g = none ∧ y.shared.lockPtr g = none)) ∧
    ∀ e labels y', DetachReturned y e → Transition.run next labels y = some y' →
      ∀ actor, ¬ (HoldsThrough y' actor g ∧ y'.shared.lockOf g = .epoll e) ∧
        ∀ via, .lock (.spinVia g (.epoll e) via) ∉ y'.todo actor := by
  have binding := reached.binding
  have pointers := binding.pointers g
  have owns : ∀ actor, HoldsThrough y actor g →
      y.shared.owner (y.shared.lockOf g) = some actor := by
    intro actor holds
    have cover := (reached.cover_secured Via.all_nonneg Via.all_le_one y.shared.lockOf g
      actor).nonneg fun _ => le_rfl
    rw [load_sub] at cover
    refine reached.locking.held _ actor ?_
    unfold HoldsThrough at holds
    omega
  refine ⟨⟨?_, ?_⟩, ⟨?_, owns, ?_, ?_⟩, ?_⟩
  · intro e attached
    rw [pointers.1, pointers.2]
    exact ⟨attached, attached⟩
  · intro none
    rw [pointers.1, pointers.2]
    exact ⟨none, none, reached.resting.action g none⟩
  · intro label y' taken written actor
    obtain ⟨unused, unloaded⟩ := reached.pointers_written taken written
    refine ⟨?_, unloaded actor⟩
    unfold HoldsThrough
    rw [unused actor]
    exact lt_irrefl 0
  · intro actor via rest head
    refine owns actor ?_
    have secured := reached.via_secured Via.all_nonneg g actor
    unfold HoldsThrough
    rw [head] at secured ⊢
    have tail := secured.2.nonneg fun _ => le_rfl
    simp only [load_cons, viaWeight, Via.all, if_true]
    omega
  · intro actor t c ret timeout rem slack present
    rw [pointers.1, pointers.2]
    have without : y.shared.attachedEpoll g = none := by
      rcases binding.waiting actor c g _ present ⟨rfl, rfl⟩ with attached | ⟨other, next⟩
      · exact (binding.single g).resolve_right (by simp [attached])
      · exact (binding.attaching other g _ next rfl).1
    exact ⟨without, without⟩
  · intro e labels y' returned replayed actor
    have reached' : Reachable y' := Transition.Reach.run reached replayed
    have away := (returned.run replayed).unreachable reached' g
    refine ⟨fun holds => away holds.2, fun via present => ?_⟩
    exact away (reached'.locking.spin actor g _ via present).symm

end Stable

/-- A task creates a cmgroup and an eventpoll and attaches them to each other. -/
def attachRun : List (Label (Fin 1) (Fin 1)) :=
  [Label.task 0 (.newgroup 0 1 0 1), .run (.task 0) {}, .run (.task 0) {}, .run (.task 0) {},
    .task 0 (.epollCreate 0), .run (.task 0) {}, .task 0 (.epollSetCmgroup 0 (.cm 0))] ++
  List.replicate 10 (Label.run (.task 0) {})

/-- Right after its stores, an attachment has set both pointers. -/
theorem pointers_consistent_attached : ∃ y : Sys (Fin 1) (Fin 1), Reachable y ∧
    y.shared.attachedEpoll 0 = some 0 ∧ y.shared.wqPtr 0 = some 0 ∧ y.shared.lockPtr 0 = some 0 := by
  have replayed : (Transition.run next attachRun (boot fun _ => true)).map
      (fun y => decide (y.shared.attachedEpoll 0 = some 0)) = some true := by decide +kernel
  obtain ⟨y, reached, attached⟩ :=
    Transition.exists_reach_of_run (boot_initial fun _ => true) replayed
  have attached : y.shared.attachedEpoll 0 = some 0 := of_decide_eq_true attached
  exact ⟨y, reached, attached, (pointers_consistent reached 0).1.1 0 attached⟩

end Cmgroups
