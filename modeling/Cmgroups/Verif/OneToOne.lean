import Cmgroups.Verif.Pointers

/-!
# One-to-one bindings

An epoll and its cmgroup point to each other until the epoll is destroyed. An AIO context and
its cmgroup do so as long as no `io_set_cmgroup` stores in a context that `ioctx_alloc` has
published and not yet cleared: `ctx->cmgroup = NULL` comes after `ioctx_add_table`, and
overwrites what another thread has stored in between. The destruction of an event source
detaches its cmgroup exactly once.
-/

set_option linter.unusedSectionVars false

namespace Cmgroups

open Function (update)
open Pool

variable {ι κ : Type} [DecidableEq ι] [DecidableEq κ]

/-- The object is being destroyed or was. -/
def Stage.destroyed : Stage → Bool
  | .freeing | .freed => true
  | _ => false

/-- The stage of the event source. -/
def Source.stage (s : Shared ι κ) : Source → Stage
  | .epoll e => s.epStage e
  | .aio c => s.ctxStage c

/-- The `cmgroup` field of the event source. -/
def Source.cmgroup (s : Shared ι κ) : Source → Option GroupId
  | .epoll e => s.epCmgroup e
  | .aio c => s.ctxCmgroup c

/-- No `io_set_cmgroup` stores in a context that `ioctx_alloc` is yet to clear. -/
def NoEarlyStore : Label ι κ → Sys ι κ → Prop
  | .run actor _, y => ∀ g c rest, y.todo actor = .bind (.storeAio g c) :: rest →
    ∀ other, .bind (.clearCtx c) ∉ y.todo other
  | _, _ => True

/-- An AIO context and its cmgroup point to each other. -/
structure AioLinked (y : Sys ι κ) : Prop where
  /-- An attached AIO context is bound to the cmgroup. -/
  attached : ∀ g c, y.shared.attachedAio g = some c → y.shared.ctxCmgroup c = some g
  /-- So is one that is about to be attached. -/
  attaching : ∀ actor g c, .bind (.doAttachAio g c) ∈ y.todo actor →
    y.shared.ctxCmgroup c = some g
  /-- A context that `ioctx_alloc` is yet to clear is not bound. -/
  clearing : ∀ actor c, .bind (.clearCtx c) ∈ y.todo actor → y.shared.ctxCmgroup c = none

section Step

variable {s s' : Shared ι κ} {actor : Actor ι κ} {choice : Choice} {step : Instr ι}
  {code : Code ι} {g : GroupId} {c : CtxId}

/-- Who writes the field of an AIO context. -/
theorem exec_ctxCmgroup (done : exec actor choice s step = some (s', code)) :
    s'.ctxCmgroup c = s.ctxCmgroup c ∨
      (∃ g, step = .bind (.storeAio g c) ∧ s.ctxCmgroup c = none ∧ s'.ctxCmgroup c = some g ∧
        code = [.bind (.doAttachAio g c)]) ∨
      step = .bind (.clearCtx c) ∧ s'.ctxCmgroup c = none := by
  cases step with
  | bind step =>
    cases step with
    | storeAio g d =>
      simp only [exec, execBind] at done
      split at done
      all_goals simp only [Option.some.injEq, Prod.mk.injEq] at done
      all_goals obtain ⟨rfl, rfl⟩ := done
      · by_cases same : c = d
        · subst same
          exact .inr (.inl ⟨g, rfl, ‹_›, Function.update_self _ _ _, rfl⟩)
        · exact .inl (Function.update_of_ne same _ _)
      · exact .inl rfl
    | clearCtx d =>
      simp only [exec, execBind, Option.some.injEq, Prod.mk.injEq] at done
      obtain ⟨rfl, -⟩ := done
      by_cases same : c = d
      · subst same
        exact .inr (.inr ⟨rfl, Function.update_self _ _ _⟩)
      · exact .inl (Function.update_of_ne same _ _)
    | _ =>
      simp only [exec, execBind] at done
      repeat' split at done
      all_goals simp only [Option.some.injEq, Prod.mk.injEq] at done
      all_goals obtain ⟨rfl, -⟩ := done
      all_goals exact .inl rfl
  | _ => exact .inl (by rw [(exec_sameBinding (by simp) done).ctxCmgroup])

/-- Who writes `attached_aio`. -/
theorem exec_attachedAio (done : exec actor choice s step = some (s', code)) :
    s'.attachedAio g = s.attachedAio g ∨ s'.attachedAio g = none ∨
      ∃ c, step = .bind (.doAttachAio g c) ∧ s'.attachedAio g = some c := by
  cases step with
  | bind step =>
    cases step with
    | doAttachAio h c =>
      simp only [exec, execBind, Option.some.injEq, Prod.mk.injEq] at done
      obtain ⟨rfl, -⟩ := done
      by_cases same : g = h
      · subst same
        exact .inr (.inr ⟨c, rfl, Function.update_self _ _ _⟩)
      · exact .inl (Function.update_of_ne same _ _)
    | detachStore h source =>
      simp only [exec, execBind, Option.some.injEq, Prod.mk.injEq] at done
      obtain ⟨rfl, -⟩ := done
      by_cases same : g = h
      · subst same
        exact .inr (.inl (Function.update_self _ _ _))
      · exact .inl (Function.update_of_ne same _ _)
    | _ =>
      simp only [exec, execBind] at done
      repeat' split at done
      all_goals simp only [Option.some.injEq, Prod.mk.injEq] at done
      all_goals obtain ⟨rfl, -⟩ := done
      all_goals exact .inl rfl
  | _ => exact .inl (by rw [(exec_sameBinding (by simp) done).attachedAio])

/-- Who moves an AIO context to another stage. -/
theorem exec_ctxStage (done : exec actor choice s step = some (s', code)) :
    s'.ctxStage c = s.ctxStage c ∨
      step = .bind (.addTable c) ∧ (s'.ctxStage c = .published ∨ s'.ctxStage c = .freed) ∨
      s.ctxStage c = .published ∧ s'.ctxStage c = .killed ∨
      step = .bind (.ctxKfree c) ∧ s'.ctxStage c = .freed := by
  cases step with
  | bind step =>
    cases step <;> simp only [exec, execBind] at done
    all_goals repeat' split at done
    all_goals simp only [Option.some.injEq, Prod.mk.injEq] at done
    all_goals obtain ⟨rfl, -⟩ := done
    all_goals try simp only [Function.update_apply]
    all_goals grind
  | _ => exact .inl (by rw [(exec_sameBinding (by simp) done).ctxStage])

/-- Starting a task's operation touches an AIO context only when it creates it. -/
theorem startTask_ctxFields {t : ι} {op : TaskOp ι} (done : startTask s t op = some (s', code)) :
    s'.ctxStage c = s.ctxStage c ∧ s'.ctxCmgroup c = s.ctxCmgroup c ∨
      s.ctxStage c = .unborn ∧ s'.ctxStage c = .building ∧ s'.ctxCmgroup c = none := by
  cases op with
  | ioSetup d =>
    simp only [startTask] at done
    split at done
    all_goals simp only [Option.some.injEq, Prod.mk.injEq, reduceCtorEq] at done
    obtain ⟨rfl, -⟩ := done
    by_cases same : c = d
    · subst same
      exact .inr ⟨‹_›, Function.update_self _ _ _, Function.update_self _ _ _⟩
    · exact .inl ⟨Function.update_of_ne same _ _, Function.update_of_ne same _ _⟩
  | _ =>
    simp only [startTask, withEpoll, cmgroupFromFd] at done
    repeat' split at done
    all_goals simp only [Option.some.injEq, Prod.mk.injEq, reduceCtorEq] at done
    all_goals obtain ⟨rfl, -⟩ := done
    all_goals exact .inl ⟨rfl, rfl⟩

/-- Starting a CPU's operation moves an AIO context to its destruction only. -/
theorem startCpu_ctxStage {todo : Actor ι κ → Code ι} {op : CpuOp ι}
    (done : startCpu s todo actor op = some (s', code)) :
    s'.ctxStage c = s.ctxStage c ∨ s.ctxStage c = .killed ∧ s'.ctxStage c = .freeing := by
  cases op <;> simp only [startCpu, withEpoll] at done
  all_goals repeat' split at done
  all_goals simp only [Option.some.injEq, Prod.mk.injEq, reduceCtorEq] at done
  all_goals obtain ⟨rfl, -⟩ := done
  all_goals try simp only [Function.update_apply]
  all_goals grind

/-- `ioctx_alloc` clears the field of a context it has just published. -/
theorem Expands.clears (flow : Expands s actor step code)
    (member : .bind (.clearCtx c) ∈ code) : step = .bind (.addTable c) := by
  induction flow <;> simp_all

/-- Operations start with neither store of an AIO context's field. -/
theorem Starts.unlinked (flow : Starts s actor code) :
    .bind (.clearCtx c) ∉ code ∧ .bind (.doAttachAio g c) ∉ code := by
  induction flow <;> simp

end Step

section Reached

variable [Fintype ι] [Fintype κ] {y : Sys ι κ} {actor : Actor ι κ} {c : CtxId}

/-- An AIO context is entered in the context table while it is being built. -/
theorem Reachable.building (reached : Reachable y) (member : .bind (.addTable c) ∈ y.todo actor) :
    y.shared.ctxStage c = .building := by
  have add := reached.ctx c .add
  have lower := weight_le_total (addWeight_nonneg c) member
  have weighs : addWeight c (.bind (.addTable c) : Instr ι) = 1 := by simp [addWeight]
  dsimp only [CtxEntry.weight, CtxEntry.stock] at add
  by_contra other
  rw [if_neg other] at add
  omega

/-- An event source is returned to the allocator while it is being destroyed. -/
theorem Reachable.freeing (reached : Reachable y) (member : .bind (.ctxKfree c) ∈ y.todo actor) :
    y.shared.ctxStage c = .freeing := by
  have kfree := reached.ctx c .kfree
  have lower := weight_le_total (kfreeWeight_nonneg (.aio c)) member
  have weighs : kfreeWeight (.aio c) (.bind (.ctxKfree c) : Instr ι) = 1 := by
    simp [kfreeWeight]
  dsimp only [CtxEntry.weight, CtxEntry.stock] at kfree
  by_contra other
  rw [if_neg other] at kfree
  omega

/-- An eventpoll is returned to the allocator while it is being destroyed. -/
theorem Reachable.epFreeing {e : EpollId} (reached : Reachable y)
    (member : .bind (.epKfree e) ∈ y.todo actor) : y.shared.epStage e = .freeing := by
  have kfree := reached.epoll e .kfree
  have lower := weight_le_total (kfreeWeight_nonneg (.epoll e)) member
  have weighs : kfreeWeight (.epoll e) (.bind (.epKfree e) : Instr ι) = 1 := by
    simp [kfreeWeight]
  dsimp only [EpEntry.weight, EpEntry.stock] at kfree
  by_contra other
  rw [if_neg other] at kfree
  omega

/-- An AIO context is not bound before it is published. -/
theorem Reachable.unpublished (reached : Reachable y) (c : CtxId) :
    y.shared.ctxStage c = .unborn ∨ y.shared.ctxStage c = .building →
      y.shared.ctxCmgroup c = none := by
  induction reached with
  | start initial => exact fun _ => initial.ctxCmgroup c
  | @step _ y y' reached _ taken ih =>
    intro young
    obtain ⟨actor, spent, gained, effect, move⟩ := next_effect taken
    cases effect with
    | @exec _ _ step _ _ done =>
      have member : step ∈ y.todo actor := by
        obtain ⟨rest, before, -⟩ := move
        simp [before]
      have before : y.shared.ctxStage c = .unborn ∨ y.shared.ctxStage c = .building := by
        rcases exec_ctxStage (c := c) done with same | ⟨-, later⟩ | ⟨-, later⟩ | ⟨-, later⟩
        · rwa [same] at young
        all_goals grind
      rcases exec_ctxCmgroup (c := c) done with same | ⟨g, rfl, -⟩ | ⟨-, cleared⟩
      · rw [same]
        exact ih before
      · have used := Reachable.ctx_used reached member (c := c) (by simp [usersNeed])
        grind
      · exact cleared
    | task idle able done =>
      rcases startTask_ctxFields (c := c) done with ⟨stage, same⟩ | ⟨-, -, cleared⟩
      · rw [same]
        exact ih (stage ▸ young)
      · exact cleared
    | cpu idle done =>
      rw [startCpu_frame done]
      refine ih ?_
      rcases startCpu_ctxStage (c := c) done with same | ⟨-, later⟩
      · rwa [same] at young
      · simp [later] at young

/-- Attachment and destruction of an event source exclude each other, so the cmgroup of one that
is destroyed does not change. -/
def owed (source : Source) (g : GroupId) (s : Shared ι κ) : ℤ :=
  if (source.stage s).destroyed = true ∧ source.cmgroup s = some g then 1 else 0

/-- The cmgroup of a destroyed event source does not change. -/
theorem Reachable.exec_owed {choice : Choice} {step : Instr ι} {s' : Shared ι κ} {code rest : Code ι}
    (reached : Reachable y) (head : y.todo actor = step :: rest)
    (done : exec actor choice y.shared step = some (s', code)) (source : Source) (g : GroupId) :
    owed source g s' = owed source g y.shared := by
  have member : step ∈ y.todo actor := by simp [head]
  cases step with
  | bind step =>
    cases step with
    | storeEpoll h e =>
      have opened := reached.epoll_open (e := e) member (by simp [epUsersNeed])
      simp only [exec, execBind] at done
      split at done
      all_goals simp only [Option.some.injEq, Prod.mk.injEq] at done
      all_goals obtain ⟨rfl, -⟩ := done
      · cases source <;>
          simp only [owed, Source.stage, Source.cmgroup, Function.update_apply] <;>
          grind [Stage.destroyed]
      · rfl
    | storeAio h d =>
      have used := reached.ctx_used (c := d) member (by simp [usersNeed])
      simp only [exec, execBind] at done
      split at done
      all_goals simp only [Option.some.injEq, Prod.mk.injEq] at done
      all_goals obtain ⟨rfl, -⟩ := done
      · cases source <;>
          simp only [owed, Source.stage, Source.cmgroup, Function.update_apply] <;>
          grind [Stage.destroyed]
      · rfl
    | clearCtx d =>
      have used := reached.ctx_used (c := d) member (by simp [usersNeed])
      simp only [exec, execBind, Option.some.injEq, Prod.mk.injEq] at done
      obtain ⟨rfl, -⟩ := done
      cases source <;>
        simp only [owed, Source.stage, Source.cmgroup, Function.update_apply] <;>
          grind [Stage.destroyed]
    | epKfree e =>
      have freeing := reached.epFreeing member
      simp only [exec, execBind, Option.some.injEq, Prod.mk.injEq] at done
      obtain ⟨rfl, -⟩ := done
      cases source <;>
        simp only [owed, Source.stage, Source.cmgroup, Function.update_apply] <;>
          grind [Stage.destroyed]
    | ctxKfree d =>
      have freeing := reached.freeing member
      simp only [exec, execBind, Option.some.injEq, Prod.mk.injEq] at done
      obtain ⟨rfl, -⟩ := done
      cases source <;>
        simp only [owed, Source.stage, Source.cmgroup, Function.update_apply] <;>
          grind [Stage.destroyed]
    | addTable d =>
      have building := reached.building member
      have unbound := reached.unpublished d (.inr building)
      simp only [exec, execBind] at done
      split at done
      all_goals simp only [Option.some.injEq, Prod.mk.injEq] at done
      all_goals obtain ⟨rfl, -⟩ := done
      all_goals cases source <;>
        simp only [owed, Source.stage, Source.cmgroup, Function.update_apply] <;>
          grind [Stage.destroyed]
    | kill d =>
      simp only [exec, execBind] at done
      split at done
      all_goals simp only [Option.some.injEq, Prod.mk.injEq] at done
      all_goals obtain ⟨rfl, -⟩ := done
      · cases source <;>
          simp only [owed, Source.stage, Source.cmgroup, Function.update_apply] <;>
          grind [Stage.destroyed]
      · rfl
    | _ =>
      simp only [exec, execBind] at done
      repeat' split at done
      all_goals simp only [Option.some.injEq, Prod.mk.injEq] at done
      all_goals obtain ⟨rfl, -⟩ := done
      all_goals rfl
  | _ =>
    have same := exec_sameBinding (by simp) done
    have stage : source.stage s' = source.stage y.shared := by
      cases source <;> simp [Source.stage, same.epStage, same.ctxStage]
    have field : source.cmgroup s' = source.cmgroup y.shared := by
      cases source <;> simp [Source.cmgroup, same.epCmgroup, same.ctxCmgroup]
    simp only [owed, stage, field]

/-- Starting a task's operation that destroys an event source owes the detachment of its
cmgroup. -/
theorem startTask_owed {t : ι} {op : TaskOp ι} {s s' : Shared ι κ} {code : Code ι}
    (done : startTask s t op = some (s', code)) (source : Source) (g : GroupId) :
    load (detachWeight source g) code = owed source g s' - owed source g s := by
  cases op <;> simp only [startTask, withEpoll, cmgroupFromFd, cmgroupDetach, lockoutTasklet,
    epScanReadyList] at done
  all_goals repeat' split at done
  all_goals simp only [Option.some.injEq, Prod.mk.injEq, reduceCtorEq] at done
  all_goals obtain ⟨rfl, rfl⟩ := done
  all_goals cases source <;> simp only [List.cons_append, List.nil_append, load_cons, load_nil]
  all_goals dsimp only [detachWeight, owed, Source.stage, Source.cmgroup, cmgroupAlloc]
  all_goals try simp only [Function.update_apply]
  all_goals first
    | exact (sub_self (_ : ℤ)).symm
    | grind [Stage.destroyed]

/-- Starting a CPU's operation that destroys an event source owes the detachment of its
cmgroup. -/
theorem startCpu_owed {todo : Actor ι κ → Code ι} {op : CpuOp ι} {s s' : Shared ι κ}
    {code : Code ι} (done : startCpu s todo actor op = some (s', code)) (source : Source)
    (g : GroupId) : load (detachWeight source g) code = owed source g s' - owed source g s := by
  cases op <;> simp only [startCpu, withEpoll, cmgroupDetach, lockoutTasklet,
    cmgroupTaskDequeued_requeue] at done
  all_goals repeat' split at done
  all_goals simp only [Option.some.injEq, Prod.mk.injEq, reduceCtorEq] at done
  all_goals obtain ⟨rfl, rfl⟩ := done
  all_goals cases source <;> simp only [List.cons_append, List.nil_append, load_cons, load_nil]
  all_goals dsimp only [detachWeight, owed, Source.stage, Source.cmgroup]
  all_goals try simp only [Function.update_apply]
  all_goals first
    | exact (sub_self (_ : ℤ)).symm
    | grind [Stage.destroyed]

/-- The cmgroup that the micro-step detaches from the event source. -/
def Instr.detached (source : Source) : Instr ι → List GroupId
  | .bind (.detachStore g origin) => if origin = source then [g] else []
  | _ => []

/-- Every detachment from an event source is recorded. -/
def detachments (label : Label ι κ) (y _ : Sys ι κ) (seen : Source → List GroupId) :
    Source → List GroupId :=
  fun source => ((executed label y).elim [] (Instr.detached source)) ++ seen source

/-- Runs with the record of all detachments. -/
abbrev DetachWatched (ok : Label ι κ → Sys ι κ → Prop) :
    Sys ι κ × (Source → List GroupId) → Prop :=
  Transition.WatchedWith Initial next ok detachments fun _ => []

omit [Fintype ι] [Fintype κ] in
/-- Recorded detachments are counted by their weight. -/
theorem detached_count (source : Source) (g : GroupId) (step : Instr ι) :
    ((step.detached source).count g : ℤ) = detachWeight source g step := by
  unfold Instr.detached
  split
  next h origin =>
    by_cases here : origin = source <;> by_cases equal : h = g <;>
      simp [detachWeight, here, equal]
  next other =>
    unfold detachWeight
    split
    · exact (other _ _ rfl).elim
    · rfl

/-- In every run, the detachments made and to be made for an event source are one for the cmgroup
it was bound to when its destruction began, and none else. -/
theorem DetachWatched.ledger {ok : Label ι κ → Sys ι κ → Prop} {seen : Source → List GroupId}
    (watched : DetachWatched ok (y, seen)) (source : Source) (g : GroupId) :
    ((seen source).count g : ℤ) + total (detachWeight source g) y.todo =
      owed source g y.shared := by
  refine @Transition.WatchedWith.invariant _ _ _ _ _ _ _ _ (fun y seen =>
    ((seen source).count g : ℤ) + total (detachWeight source g) y.todo =
      owed source g y.shared) ?_ ?_ _ _ watched
  · intro y initial
    have unbound : source.cmgroup y.shared = none := by
      cases source <;> simp [Source.cmgroup, initial.epCmgroup, initial.ctxCmgroup]
    simp [owed, unbound, total_idle _ initial.idle]
  · intro label y seen y' reached balance admitted taken
    obtain ⟨actor, spent, gained, effect, move⟩ := next_effect taken
    have moved := move.total (detachWeight source g)
    cases effect with
    | @exec _ choice step _ _ done =>
      obtain ⟨rest, head, -⟩ := move
      have none : load (detachWeight source g) gained = 0 := by
        cases exec_expands done <;> simp [detachWeight]
      have executes : executed (.run actor choice) y = some step := by simp [executed, head]
      have owes := Reachable.exec_owed reached.reach head done source g
      have counted := detached_count source g step
      rw [moved, owes]
      simp only [detachments, executes, Option.elim, List.count_append, Nat.cast_add, load_cons,
        load_nil, none]
      linarith
    | task idle able done =>
      have owes := startTask_owed done source g
      rw [moved]
      simp only [detachments, executed, Option.elim, List.nil_append, load_nil]
      linarith
    | cpu idle done =>
      have owes := startCpu_owed done source g
      rw [moved]
      simp only [detachments, executed, Option.elim, List.nil_append, load_nil]
      linarith

/-- Starting an operation keeps AIO contexts and their cmgroups linked. -/
theorem AioLinked.start {gained : Code ι} {s' : Shared ι κ} {todo : Actor ι κ → Code ι}
    (linked : AioLinked y) (flow : Starts y.shared actor gained)
    (move : Move y.todo todo actor [] gained) (attached : s'.attachedAio = y.shared.attachedAio)
    (bound : ∀ c, s'.ctxCmgroup c = y.shared.ctxCmgroup c) : AioLinked ⟨s', todo⟩ := by
  constructor <;> simp only [attached, bound]
  case attached => exact linked.attached
  case attaching =>
    intro other g c present
    refine linked.attaching other g c ((move.mem present).resolve_right fun new => ?_)
    exact flow.unlinked.2 new.2
  case clearing =>
    intro other c present
    refine linked.clearing other c ((move.mem present).resolve_right fun new => ?_)
    exact (flow.unlinked (g := 0)).1 new.2

/-- Starting an operation writes no field of an AIO context another value than it had. -/
theorem Reachable.startTask_ctxCmgroup {t : ι} {op : TaskOp ι} {s' : Shared ι κ} {code : Code ι}
    (reached : Reachable y) (done : startTask y.shared t op = some (s', code)) (c : CtxId) :
    s'.ctxCmgroup c = y.shared.ctxCmgroup c := by
  rcases startTask_ctxFields (c := c) done with ⟨-, same⟩ | ⟨unborn, -, cleared⟩
  · exact same
  · rw [cleared, reached.unpublished c (.inl unborn)]

/-- A field that is set is not written: the stores of linked contexts find it empty. -/
theorem AioLinked.exec_kept {choice : Choice} {step : Instr ι} {s' : Shared ι κ} {code : Code ι}
    {g : GroupId} (linked : AioLinked y) (member : step ∈ y.todo actor)
    (done : exec actor choice y.shared step = some (s', code))
    (bound : y.shared.ctxCmgroup c = some g) : s'.ctxCmgroup c = some g := by
  rcases exec_ctxCmgroup (c := c) done with same | ⟨h, -, free, -⟩ | ⟨rfl, -⟩
  · rw [same, bound]
  · simp [bound] at free
  · have unset := linked.clearing actor c member
    simp [bound] at unset

/-- In every run without early stores, AIO contexts and their cmgroups point to each other. -/
theorem aioLinked (reached : Transition.ReachWith Initial next NoEarlyStore y) : AioLinked y := by
  induction reached with
  | start initial =>
    constructor
    all_goals simp [initial.attachedAio, initial.idle]
  | @step label y y' run admitted taken ih =>
    have reached : Reachable y := run.reach
    obtain ⟨actor, spent, gained, effect, move⟩ := next_effect taken
    cases effect with
    | @exec _ _ step _ _ done =>
      obtain ⟨rest, head, -⟩ := id move
      have member : step ∈ y.todo actor := by simp [head]
      have flow := exec_expands done
      have kept : ∀ {g c}, y.shared.ctxCmgroup c = some g → y'.shared.ctxCmgroup c = some g :=
        fun bound => ih.exec_kept member done bound
      constructor
      case attached =>
        intro g c attached
        rcases exec_attachedAio (g := g) done with same | gone | ⟨d, rfl, now⟩
        · exact kept (ih.attached g c (same ▸ attached))
        · simp [gone] at attached
        · obtain rfl : d = c := by simpa [now] using attached
          exact kept (ih.attaching actor g d member)
      case attaching =>
        intro other g c present
        rcases move.mem present with old | ⟨rfl, new⟩
        · exact kept (ih.attaching other g c old)
        · obtain rfl := flow.after_storeAio new
          simp only [exec, execBind] at done
          split at done
          all_goals simp only [Option.some.injEq, Prod.mk.injEq] at done
          all_goals obtain ⟨shared, rfl⟩ := done
          · rw [← shared]
            exact Function.update_self _ _ _
          · simp [endAttachAio] at new
      case clearing =>
        intro other c present
        have unset : y.shared.ctxCmgroup c = none := by
          rcases move.mem present with old | ⟨rfl, new⟩
          · exact ih.clearing other c old
          · obtain rfl := flow.clears new
            exact Reachable.unpublished reached c (.inr (Reachable.building reached member))
        rcases exec_ctxCmgroup (c := c) done with same | ⟨g, rfl, -, -, code⟩ | ⟨-, cleared⟩
        · rw [same, unset]
        · have old : .bind (.clearCtx c) ∈ y.todo other := by
            refine (move.mem present).resolve_right fun new => ?_
            rw [code] at new
            simp at new
          exact absurd old (admitted g c rest head other)
        · exact cleared
    | task idle able done =>
      have frame := startTask_frame (Reachable.unknown reached) done
      exact ih.start (startTask_starts done) move (by rw [frame])
        (Reachable.startTask_ctxCmgroup reached done)
    | cpu idle done =>
      have frame := startCpu_frame done
      exact ih.start (startCpu_starts done) move (by rw [frame]) fun c => by rw [frame]

/-- The field of an event source keeps its value once it is set. -/
theorem cmgroup_kept (run : Transition.ReachWith Initial next NoEarlyStore y)
    {label : Label ι κ} {y' : Sys ι κ} (taken : next label y = some y') {source : Source}
    {g : GroupId} (bound : source.cmgroup y.shared = some g) :
    source.cmgroup y'.shared = some g := by
  have reached : Reachable y := run.reach
  obtain ⟨actor, spent, gained, effect, move⟩ := next_effect taken
  cases source with
  | epoll e =>
    cases effect with
    | exec done => exact exec_epCmgroup done bound
    | task idle able done =>
      refine (startTask_epCmgroup done fun unborn => ?_).trans bound
      have binding := Reachable.binding reached
      have attached := binding.epoll e g bound (by simp [unborn]) (by simp [unborn])
      rcases (binding.attached e g attached).2 with opened | ⟨other, detaching⟩
      · simp [unborn] at opened
      · have freeing := (binding.detachingEpoll other g e detaching).2
        simp [unborn] at freeing
    | cpu idle done =>
      rw [startCpu_frame done]
      exact bound
  | aio c =>
    cases effect with
    | @exec _ _ step _ _ done =>
      have member : step ∈ y.todo actor := by
        obtain ⟨rest, head, -⟩ := move
        simp [head]
      exact (aioLinked run).exec_kept member done bound
    | task idle able done => exact (Reachable.startTask_ctxCmgroup reached done c).trans bound
    | cpu idle done =>
      rw [startCpu_frame done]
      exact bound

/-- At most the detachment that is owed is recorded, and it is once the event source is freed. -/
theorem DetachWatched.once {ok : Label ι κ → Sys ι κ → Prop} {seen : Source → List GroupId}
    (watched : DetachWatched ok (y, seen)) (source : Source) :
    (seen source = [] ∨ (source.stage y.shared).destroyed = true ∧
      ∃ g, source.cmgroup y.shared = some g ∧ seen source = [g]) ∧
    (source.stage y.shared = .freed → seen source = (source.cmgroup y.shared).toList) := by
  have reached : Reachable y := watched.reach.reach
  have nonneg : ∀ g, 0 ≤ total (detachWeight source g) y.todo := fun g =>
    Finset.sum_nonneg fun actor _ => load_nonneg (detachWeight_nonneg source g) (y.todo actor)
  have bound : ∀ g ∈ seen source, (source.stage y.shared).destroyed = true ∧
      source.cmgroup y.shared = some g := by
    intro g member
    have ledger := watched.ledger source g
    have positive : 0 < (seen source).count g := List.count_pos_iff.2 member
    by_contra other
    rw [owed, if_neg other] at ledger
    have := nonneg g
    omega
  have single : ∀ g, (seen source).count g ≤ 1 := by
    intro g
    have ledger := watched.ledger source g
    have upper : owed source g y.shared ≤ 1 := by
      unfold owed
      split_ifs <;> decide
    have := nonneg g
    omega
  have shape : seen source = [] ∨ (source.stage y.shared).destroyed = true ∧
      ∃ g, source.cmgroup y.shared = some g ∧ seen source = [g] := by
    cases entries : seen source with
    | nil => exact .inl rfl
    | cons g later =>
      rw [entries] at bound single
      obtain ⟨destroyed, field⟩ := bound g (by simp)
      refine .inr ⟨destroyed, g, field, ?_⟩
      cases later with
      | nil => rfl
      | cons h rest =>
        have same : h = g := by
          have other := (bound h (by simp)).2
          rw [field] at other
          exact (Option.some.inj other).symm
        have twice := single g
        simp [same] at twice
  refine ⟨shape, fun freed => ?_⟩
  have settled : ∀ g, total (detachWeight source g) y.todo = 0 := by
    intro g
    have upper := total_le_total (fun _ => le_rfl) (reached.kfree_secured source g)
    have none : total (kfreeWeight source) y.todo = 0 := by
      cases source with
      | epoll e =>
        have kfree := reached.epoll e .kfree
        have freed : y.shared.epStage e = .freed := freed
        simpa [EpEntry.weight, EpEntry.stock, freed] using kfree
      | aio c =>
        have kfree := reached.ctx c .kfree
        have freed : y.shared.ctxStage c = .freed := freed
        simpa [CtxEntry.weight, CtxEntry.stock, freed] using kfree
    have := nonneg g
    omega
  cases field : source.cmgroup y.shared with
  | none =>
    rcases shape with empty | ⟨-, g, bound, -⟩
    · exact empty
    · simp [field] at bound
  | some g =>
    have ledger := watched.ledger source g
    rw [settled g, owed, if_pos ⟨by simp [freed, Stage.destroyed], field⟩] at ledger
    rcases shape with empty | ⟨-, h, bound, entries⟩
    · simp [empty] at ledger
    · obtain rfl : h = g := by simpa [field] using bound.symm
      exact entries

/-- In every run without early stores, cmgroups and event sources are bound one to one: until an
event source is destroyed, it and its cmgroup point to each other outside the locked section of
an attachment; no cmgroup has two event sources; a field that is set keeps its value; and
`cmgroup_detach` is run once for the cmgroup of an event source that is destroyed. -/
theorem one_to_one {seen : Source → List GroupId} (watched : DetachWatched NoEarlyStore (y, seen)) :
    (∀ g e, (y.shared.epStage e).destroyed = false →
      (y.shared.attachedEpoll g = some e ↔ y.shared.epCmgroup e = some g)) ∧
    (∀ g c, (y.shared.ctxStage c).destroyed = false →
      (∀ actor, .bind (.doAttachAio g c) ∉ y.todo actor) →
      (y.shared.attachedAio g = some c ↔ y.shared.ctxCmgroup c = some g)) ∧
    (∀ g, y.shared.attachedEpoll g = none ∨ y.shared.attachedAio g = none) ∧
    (∀ label y', next label y = some y' → ∀ (source : Source) (g : GroupId),
      source.cmgroup y.shared = some g → source.cmgroup y'.shared = some g) ∧
    ∀ source : Source,
      (seen source = [] ∨ (source.stage y.shared).destroyed = true ∧
        ∃ g, source.cmgroup y.shared = some g ∧ seen source = [g]) ∧
      (source.stage y.shared = .freed → seen source = (source.cmgroup y.shared).toList) := by
  have run := watched.reach
  have binding := Reachable.binding run.reach
  have alive : ∀ {stage : Stage}, stage.destroyed = false → stage ≠ .freeing ∧ stage ≠ .freed := by
    intro stage
    cases stage <;> simp [Stage.destroyed]
  refine ⟨?_, ?_, binding.single, fun label y' taken source g => cmgroup_kept run taken,
    watched.once⟩
  · intro g e used
    refine ⟨fun attached => (binding.attached e g attached).1, fun bound => ?_⟩
    exact binding.epoll e g bound (alive used).1 (alive used).2
  · intro g c used outside
    refine ⟨(aioLinked run).attached g c, fun bound => ?_⟩
    refine (binding.aio c g bound (alive used).1 (alive used).2).resolve_right ?_
    rintro ⟨actor, present⟩
    exact outside actor present

end Reached

/-- A test for the absence of early stores. -/
def noEarlyStore [Fintype ι] [Fintype κ] : Label ι κ → Sys ι κ → Bool
  | .run actor _, y =>
    match y.todo actor with
    | .bind (.storeAio _ c) :: _ => decide (∀ other, .bind (.clearCtx c) ∉ y.todo other)
    | _ => true
  | _, _ => true

/-- The test is sound. -/
theorem noEarlyStore_sound [Fintype ι] [Fintype κ] (label : Label ι κ) (y : Sys ι κ)
    (passed : noEarlyStore label y = true) : NoEarlyStore label y := by
  cases label with
  | run actor choice =>
    intro g c rest head
    simpa [noEarlyStore, head] using passed
  | task t op => trivial
  | cpu c op => trivial

/-- A task creates a cmgroup and an AIO context and attaches them to each other. -/
def attachAioRun : List (Label Unit Unit) :=
  [Label.task () (.newgroup 0 1 0 1), .run (.task ()) {}, .run (.task ()) {}, .run (.task ()) {},
    .task () (.ioSetup 0)] ++ List.replicate 5 (Label.run (.task ()) {}) ++
  [Label.task () (.ioSetCmgroup 0 (.cm 0))] ++ List.replicate 10 (Label.run (.task ()) {})

/-- After its second store, `io_set_cmgroup` has bound both sides. -/
theorem one_to_one_attached : ∃ (y : Sys Unit Unit) (seen : Source → List GroupId),
    DetachWatched NoEarlyStore (y, seen) ∧ y.shared.attachedAio 0 = some 0 ∧
      (y.shared.attachedAio 0 = some 0 ↔ y.shared.ctxCmgroup 0 = some 0) := by
  have replayed : (Transition.runWith next noEarlyStore attachAioRun (boot fun _ => true)).map
      (fun y => decide (y.shared.attachedAio 0 = some 0 ∧ y.shared.ctxStage 0 = .published ∧
        ∀ actor, .bind (.doAttachAio 0 0) ∉ y.todo actor)) = some true := by decide +kernel
  obtain ⟨y, reached, passed⟩ := Transition.exists_reachWith_of_run noEarlyStore_sound
    (boot_initial fun _ => true) replayed
  obtain ⟨attached, stage, outside⟩ := of_decide_eq_true passed
  obtain ⟨seen, watched⟩ : ∃ seen, DetachWatched NoEarlyStore (y, seen) := reached.watched
  exact ⟨y, seen, watched, attached,
    (one_to_one watched).2.1 0 0 (by simp [stage, Stage.destroyed]) outside⟩

/-- A thread attaches a cmgroup to an AIO context that another thread's `io_setup` has published
and not yet cleared. -/
def earlyStoreRun : List (Label Bool Unit) :=
  [Label.task false (.newgroup 0 1 0 1), .run (.task false) {}, .run (.task false) {},
    .run (.task false) {}, .task false (.ioSetup 0), .run (.task false) {},
    .task true (.ioSetCmgroup 0 (.cm 0))] ++ List.replicate 17 (Label.run (.task true) {}) ++
  List.replicate 4 (Label.run (.task false) {})

/-- After both calls have returned, the cmgroup is attached to the AIO context and the AIO context
has no cmgroup. -/
theorem one_to_one_early_store : ∃ y : Sys Bool Unit, Reachable y ∧ (∀ actor, y.todo actor = []) ∧
    (y.shared.ctxStage 0).destroyed = false ∧ y.shared.attachedAio 0 = some 0 ∧
      y.shared.ctxCmgroup 0 = none := by
  have replayed : (Transition.run next earlyStoreRun (boot fun _ => true)).map
      (fun y => decide ((∀ actor, y.todo actor = []) ∧
        (y.shared.ctxStage 0).destroyed = false ∧ y.shared.attachedAio 0 = some 0 ∧
        y.shared.ctxCmgroup 0 = none)) = some true := by decide +kernel
  obtain ⟨y, reached, passed⟩ :=
    Transition.exists_reach_of_run (boot_initial fun _ => true) replayed
  exact ⟨y, reached, of_decide_eq_true passed⟩

end Cmgroups
