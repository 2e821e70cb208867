import Cmgroups.Verif.Fresh
import Cmgroups.Verif.Resources

/-!
# Ledgers

What the shared state records about a resource agrees with what the actors' remaining code
holds of it: `tasklet_active` with its owners, `attached_mtx` with its holder, the `RUN` bit with
the running tasklet, the reference counts of event sources with the calls in progress.
-/

set_option linter.unusedSectionVars false

namespace Cmgroups

open Function (update)
open Pool

variable {ι κ : Type} [DecidableEq ι] [DecidableEq κ]

/-- What is recorded about an AIO context. -/
inductive CtxEntry where
  /-- It is being built by one call. -/
  | add
  /-- It is being freed by one work item. -/
  | kfree
  /-- It is referenced by calls, and by the context table while it is in it. -/
  | users
  /-- While it is being built it has its two first references. -/
  | setup
  deriving DecidableEq

/-- The weight of an entry. -/
def CtxEntry.weight (c : CtxId) : CtxEntry → Instr ι → ℤ
  | .add => addWeight c
  | .kfree => kfreeWeight (.aio c)
  | .users => usersWeight c
  | .setup => fun _ => 0

/-- The stock of an entry. -/
def CtxEntry.stock (c : CtxId) (s : Shared ι κ) : CtxEntry → ℤ
  | .add => if s.ctxStage c = .building then 1 else 0
  | .kfree => if s.ctxStage c = .freeing then 1 else 0
  | .users => match s.ctxStage c with
    | .published => s.users c - 1
    | .killed => s.users c
    | _ => 0
  | .setup => if s.ctxStage c = .building then s.users c - 2 else 0

/-- What is recorded about an eventpoll. -/
inductive EpEntry where
  /-- It is being freed by one call. -/
  | kfree
  /-- Its file is used by calls. -/
  | users
  /-- Its file is used only while it is open. -/
  | closed
  deriving DecidableEq

/-- The weight of an entry. -/
def EpEntry.weight (e : EpollId) : EpEntry → Instr ι → ℤ
  | .kfree => kfreeWeight (.epoll e)
  | .users => epUsersWeight e
  | .closed => fun _ => 0

/-- The stock of an entry. -/
def EpEntry.stock (e : EpollId) (s : Shared ι κ) : EpEntry → ℤ
  | .kfree => if s.epStage e = .freeing then 1 else 0
  | .users => s.epUsers e
  | .closed => if s.epStage e = .published then 0 else s.epUsers e

section Step

variable {actor : Actor ι κ} {choice : Choice} {s s' : Shared ι κ} {step : Instr ι}
  {code : Code ι} {g : GroupId}

/-- Only objects, bindings and the tasklet deal with `tasklet_active`. -/
theorem Expands.own_load (flow : Expands s actor step code) (obj : ∀ i, step ≠ .obj i)
    (bind : ∀ i, step ≠ .bind i) (tasklet : ∀ i, step = .tasklet i → ∃ h pass, i = .wake h pass) :
    load (ownWeight g) code = ownWeight g step := by
  induction flow
  all_goals first
    | rfl
    | exact absurd rfl (obj _)
    | exact absurd rfl (bind _)
    | (simp [ownWeight]; done)
    | exact absurd (tasklet _ rfl) (by simp)

/-- Only locks deal with `attached_mtx`. -/
theorem Expands.mtx_load (flow : Expands s actor step code)
    (lock : ∀ i, step = .lock i → (∃ l, i = .wakeOne l) ∨ ∃ l, i = .wakeAll l) :
    load (mtxWeight g) code = mtxWeight g step := by
  induction flow
  all_goals first
    | rfl
    | exact absurd (lock _ rfl) (by simp)
    | (simp [mtxWeight]; done)
    | (simp only [load_cons, load_nil, mtxWeight]; split_ifs <;> rfl)

/-- Only locks and bindings deal with the references to an AIO context. -/
theorem Expands.ctx_load {c : CtxId} (flow : Expands s actor step code)
    (bind : ∀ i, step ≠ .bind i)
    (lock : ∀ i, step = .lock i → (∃ l, i = .wakeOne l) ∨ ∃ l, i = .wakeAll l)
    (entry : CtxEntry) : load (entry.weight c) code = entry.weight c step := by
  cases entry <;> induction flow
  all_goals first
    | rfl
    | exact absurd rfl (bind _)
    | exact absurd (lock _ rfl) (by simp)
    | simp [CtxEntry.weight, usersWeight]

/-- Only locks and bindings deal with the references to an eventpoll. -/
theorem Expands.epoll_load {e : EpollId} (flow : Expands s actor step code)
    (bind : ∀ i, step ≠ .bind i)
    (lock : ∀ i, step = .lock i → (∃ l, i = .wakeOne l) ∨ ∃ l, i = .wakeAll l)
    (entry : EpEntry) : load (entry.weight e) code = entry.weight e step := by
  cases entry <;> induction flow
  all_goals first
    | rfl
    | exact absurd rfl (bind _)
    | exact absurd (lock _ rfl) (by simp)
    | simp [EpEntry.weight, epUsersWeight]

/-- A micro-step changes `tasklet_active` and the `SCHED` bit as it changes the ownership. -/
theorem exec_own (owned : 1 ≤ ownWeight g step → s.taskletActive g = true ∧ s.sched g = false)
    (done : exec actor choice s step = some (s', code)) :
    load (ownWeight g) code + (s'.sched g).toInt - (s'.taskletActive g).toInt =
      ownWeight g step + (s.sched g).toInt - (s.taskletActive g).toInt := by
  cases step with
  | obj step =>
    cases step <;> simp only [exec, execObj] at done
    all_goals repeat' split at done
    all_goals simp only [Option.some.injEq, Prod.mk.injEq] at done
    all_goals obtain ⟨rfl, rfl⟩ := done
    all_goals simp only [load_cons, load_nil, Function.update_apply]
    all_goals dsimp only [ownWeight] at owned ⊢
    all_goals first
      | rfl
      | grind
  | bind step =>
    cases step <;>
      simp only [exec, execBind, napThen, lockoutTasklet, endAttachEpoll, endAttachAio] at done
    all_goals repeat' split at done
    all_goals simp only [Option.some.injEq, Prod.mk.injEq] at done
    all_goals obtain ⟨rfl, rfl⟩ := done
    all_goals simp only [List.cons_append, List.nil_append, load_cons, load_nil,
      Function.update_apply]
    all_goals dsimp only [ownWeight] at owned ⊢
    all_goals first
      | rfl
      | grind
  | tasklet step =>
    cases step with
    | wake h pass =>
      rw [wake_frame done, (exec_expands done).own_load (by simp) (by simp) (by simp)]
    | _ =>
      simp only [exec, execTasklet] at done
      repeat' split at done
      all_goals simp only [Option.some.injEq, Prod.mk.injEq, reduceCtorEq] at done
      all_goals obtain ⟨rfl, rfl⟩ := done
      all_goals simp only [outTasklet, load_append, load_cons, load_nil, Function.update_apply]
      all_goals dsimp only [ownWeight] at owned ⊢
      all_goals first
        | rfl
        | grind
  | sched step =>
    rw [execSched_frame done, (exec_expands done).own_load (by simp) (by simp) (by simp)]
  | acct step =>
    rw [execAcct_frame done, (exec_expands done).own_load (by simp) (by simp) (by simp)]
  | lock step =>
    rw [execLock_frame done, (exec_expands done).own_load (by simp) (by simp) (by simp)]
  | wait step =>
    rw [execWait_frame done, (exec_expands done).own_load (by simp) (by simp) (by simp)]
  | ep step =>
    rw [execEp_frame done, (exec_expands done).own_load (by simp) (by simp) (by simp)]

/-- A micro-step changes the state of `attached_mtx` as it changes who holds it. -/
theorem exec_mtx (held : 1 ≤ mtxWeight g step → (s.attachedMtx g).isSome = true)
    (done : exec actor choice s step = some (s', code)) :
    load (mtxWeight g) code - mtxWeight g step =
      (s'.attachedMtx g).isSome.toInt - (s.attachedMtx g).isSome.toInt := by
  cases step with
  | lock step =>
    cases step with
    | wakeOne lock =>
      rw [wakeUpLocked_frame done, (exec_expands done).mtx_load (by simp), sub_self, sub_self]
    | wakeAll lock =>
      rw [wakeAll_frame actor done, (exec_expands done).mtx_load (by simp), sub_self, sub_self]
    | _ =>
      simp only [exec, execLock, napThen] at done
      repeat' split at done
      all_goals simp only [Option.some.injEq, Prod.mk.injEq, reduceCtorEq] at done
      all_goals obtain ⟨rfl, rfl⟩ := done
      all_goals simp only [load_cons, load_nil]
      all_goals dsimp only [mtxWeight] at held ⊢
      all_goals first
        | exact (sub_self (_ : ℤ)).symm
        | grind
  | obj step =>
    rw [execObj_frame done, (exec_expands done).mtx_load (by simp), sub_self, sub_self]
  | bind step =>
    rw [execBind_frame done, (exec_expands done).mtx_load (by simp), sub_self, sub_self]
  | tasklet step =>
    rw [execTasklet_frame done, (exec_expands done).mtx_load (by simp), sub_self, sub_self]
  | sched step =>
    rw [execSched_frame done, (exec_expands done).mtx_load (by simp), sub_self, sub_self]
  | acct step =>
    rw [execAcct_frame done, (exec_expands done).mtx_load (by simp), sub_self, sub_self]
  | wait step =>
    rw [execWait_frame done, (exec_expands done).mtx_load (by simp), sub_self, sub_self]
  | ep step =>
    rw [execEp_frame done, (exec_expands done).mtx_load (by simp), sub_self, sub_self]

/-- A micro-step changes the stage and the users of an AIO context as it changes who holds it. -/
theorem exec_ctx {c : CtxId} (add : 1 ≤ addWeight c step → s.ctxStage c = .building)
    (kfree : 1 ≤ kfreeWeight (.aio c) step → s.ctxStage c = .freeing)
    (users : 1 ≤ usersWeight c step → s.ctxStage c = .published ∨ s.ctxStage c = .killed)
    (setup : s.ctxStage c = .building → s.users c = 2)
    (done : exec actor choice s step = some (s', code)) (entry : CtxEntry) :
    load (entry.weight c) code - entry.weight c step = CtxEntry.stock c s' entry - CtxEntry.stock c s entry := by
  cases step with
  | lock step =>
    cases step with
    | wakeOne lock =>
      rw [wakeUpLocked_frame done, (exec_expands done).ctx_load (by simp) (by simp), sub_self]
      exact (sub_self _).symm
    | wakeAll lock =>
      rw [wakeAll_frame actor done, (exec_expands done).ctx_load (by simp) (by simp), sub_self]
      exact (sub_self _).symm
    | _ =>
      simp only [exec, execLock, napThen] at done
      repeat' split at done
      all_goals simp only [Option.some.injEq, Prod.mk.injEq, reduceCtorEq] at done
      all_goals obtain ⟨rfl, rfl⟩ := done
      all_goals cases entry <;> simp only [load_cons, load_nil]
      all_goals dsimp only [CtxEntry.weight, addWeight, kfreeWeight, usersWeight,
        CtxEntry.stock] at add kfree users ⊢
      all_goals try simp only [Function.update_apply]
      all_goals first
        | exact (sub_self (_ : ℤ)).symm
        | grind
  | bind step =>
    cases step <;>
      simp only [exec, execBind, napThen, lockoutTasklet, endAttachEpoll, endAttachAio] at done
    all_goals repeat' split at done
    all_goals simp only [Option.some.injEq, Prod.mk.injEq] at done
    all_goals obtain ⟨rfl, rfl⟩ := done
    all_goals cases entry <;> simp only [List.cons_append, List.nil_append, load_cons, load_nil]
    all_goals dsimp only [CtxEntry.weight, addWeight, kfreeWeight, usersWeight,
      CtxEntry.stock] at add kfree users ⊢
    all_goals try simp only [Function.update_apply]
    all_goals first
      | exact (sub_self (_ : ℤ)).symm
      | grind
  | obj step =>
    rw [execObj_frame done, (exec_expands done).ctx_load (by simp) (by simp), sub_self]
    exact (sub_self _).symm
  | tasklet step =>
    rw [execTasklet_frame done, (exec_expands done).ctx_load (by simp) (by simp), sub_self]
    exact (sub_self _).symm
  | sched step =>
    rw [execSched_frame done, (exec_expands done).ctx_load (by simp) (by simp), sub_self]
    exact (sub_self _).symm
  | acct step =>
    rw [execAcct_frame done, (exec_expands done).ctx_load (by simp) (by simp), sub_self]
    exact (sub_self _).symm
  | wait step =>
    rw [execWait_frame done, (exec_expands done).ctx_load (by simp) (by simp), sub_self]
    exact (sub_self _).symm
  | ep step =>
    rw [execEp_frame done, (exec_expands done).ctx_load (by simp) (by simp), sub_self]
    exact (sub_self _).symm

/-- A micro-step changes the stage and the users of an eventpoll as it changes who holds it. -/
theorem exec_epoll {e : EpollId}
    (kfree : 1 ≤ kfreeWeight (.epoll e) step → s.epStage e = .freeing)
    (users : 1 ≤ epUsersWeight e step → s.epStage e = .published)
    (done : exec actor choice s step = some (s', code)) (entry : EpEntry) :
    load (entry.weight e) code - entry.weight e step =
      EpEntry.stock e s' entry - EpEntry.stock e s entry := by
  cases step with
  | lock step =>
    cases step with
    | wakeOne lock =>
      rw [wakeUpLocked_frame done, (exec_expands done).epoll_load (by simp) (by simp), sub_self]
      exact (sub_self _).symm
    | wakeAll lock =>
      rw [wakeAll_frame actor done, (exec_expands done).epoll_load (by simp) (by simp), sub_self]
      exact (sub_self _).symm
    | _ =>
      simp only [exec, execLock, napThen] at done
      repeat' split at done
      all_goals simp only [Option.some.injEq, Prod.mk.injEq, reduceCtorEq] at done
      all_goals obtain ⟨rfl, rfl⟩ := done
      all_goals cases entry <;> simp only [load_cons, load_nil]
      all_goals dsimp only [EpEntry.weight, kfreeWeight, epUsersWeight,
        EpEntry.stock] at kfree users ⊢
      all_goals try simp only [Function.update_apply]
      all_goals first
        | exact (sub_self (_ : ℤ)).symm
        | grind
  | bind step =>
    cases step <;>
      simp only [exec, execBind, napThen, lockoutTasklet, endAttachEpoll, endAttachAio] at done
    all_goals repeat' split at done
    all_goals simp only [Option.some.injEq, Prod.mk.injEq] at done
    all_goals obtain ⟨rfl, rfl⟩ := done
    all_goals cases entry <;> simp only [List.cons_append, List.nil_append, load_cons, load_nil]
    all_goals dsimp only [EpEntry.weight, kfreeWeight, epUsersWeight,
      EpEntry.stock] at kfree users ⊢
    all_goals try simp only [Function.update_apply]
    all_goals first
      | exact (sub_self (_ : ℤ)).symm
      | grind
  | ep step =>
    rw [execEp_frame done, (exec_expands done).epoll_load (by simp) (by simp), sub_self]
    exact (sub_self _).symm
  | obj step =>
    rw [execObj_frame done, (exec_expands done).epoll_load (by simp) (by simp), sub_self]
    exact (sub_self _).symm
  | tasklet step =>
    rw [execTasklet_frame done, (exec_expands done).epoll_load (by simp) (by simp), sub_self]
    exact (sub_self _).symm
  | sched step =>
    rw [execSched_frame done, (exec_expands done).epoll_load (by simp) (by simp), sub_self]
    exact (sub_self _).symm
  | acct step =>
    rw [execAcct_frame done, (exec_expands done).epoll_load (by simp) (by simp), sub_self]
    exact (sub_self _).symm
  | wait step =>
    rw [execWait_frame done, (exec_expands done).epoll_load (by simp) (by simp), sub_self]
    exact (sub_self _).symm

/-- Starting a task's operation keeps the record of an AIO context. -/
theorem startTask_ctx {c : CtxId} {t : ι} {op : TaskOp ι}
    (done : startTask s t op = some (s', code)) (entry : CtxEntry) :
    load (entry.weight c) code = CtxEntry.stock c s' entry - CtxEntry.stock c s entry := by
  cases op <;> simp only [startTask, withEpoll, cmgroupFromFd, cmgroupDetach, lockoutTasklet,
    epScanReadyList] at done
  all_goals repeat' split at done
  all_goals simp only [Option.some.injEq, Prod.mk.injEq, reduceCtorEq] at done
  all_goals obtain ⟨rfl, rfl⟩ := done
  all_goals cases entry <;> simp only [List.cons_append, List.nil_append, load_cons, load_nil]
  all_goals dsimp only [CtxEntry.weight, addWeight, kfreeWeight, usersWeight, CtxEntry.stock,
    cmgroupAlloc]
  all_goals try simp only [Function.update_apply]
  all_goals first
    | exact (sub_self (_ : ℤ)).symm
    | grind

/-- Starting a CPU's operation keeps the record of an AIO context. -/
theorem startCpu_ctx {c : CtxId} {todo : Actor ι κ → Code ι} {op : CpuOp ι}
    (done : startCpu s todo actor op = some (s', code)) (entry : CtxEntry) :
    load (entry.weight c) code = CtxEntry.stock c s' entry - CtxEntry.stock c s entry := by
  cases op <;> simp only [startCpu, withEpoll, cmgroupDetach, lockoutTasklet,
    cmgroupTaskDequeued_requeue] at done
  all_goals repeat' split at done
  all_goals simp only [Option.some.injEq, Prod.mk.injEq, reduceCtorEq] at done
  all_goals obtain ⟨rfl, rfl⟩ := done
  all_goals cases entry <;> simp only [List.cons_append, List.nil_append, load_cons, load_nil]
  all_goals dsimp only [CtxEntry.weight, addWeight, kfreeWeight, usersWeight, CtxEntry.stock]
  all_goals try simp only [Function.update_apply]
  all_goals first
    | exact (sub_self (_ : ℤ)).symm
    | grind

/-- Starting a task's operation keeps the record of an eventpoll. -/
theorem startTask_epoll {e : EpollId} {t : ι} {op : TaskOp ι}
    (closed : s.epStage e ≠ .published → s.epUsers e = 0)
    (done : startTask s t op = some (s', code)) (entry : EpEntry) :
    load (entry.weight e) code = EpEntry.stock e s' entry - EpEntry.stock e s entry := by
  cases op <;> simp only [startTask, withEpoll, cmgroupFromFd, cmgroupDetach, lockoutTasklet,
    epScanReadyList] at done
  all_goals repeat' split at done
  all_goals simp only [Option.some.injEq, Prod.mk.injEq, reduceCtorEq] at done
  all_goals obtain ⟨rfl, rfl⟩ := done
  all_goals cases entry <;> simp only [List.cons_append, List.nil_append, load_cons, load_nil]
  all_goals dsimp only [EpEntry.weight, kfreeWeight, epUsersWeight, EpEntry.stock, cmgroupAlloc]
  all_goals try simp only [Function.update_apply]
  all_goals first
    | exact (sub_self (_ : ℤ)).symm
    | grind

/-- Starting a CPU's operation keeps the record of an eventpoll. -/
theorem startCpu_epoll {e : EpollId} {todo : Actor ι κ → Code ι} {op : CpuOp ι}
    (done : startCpu s todo actor op = some (s', code)) (entry : EpEntry) :
    load (entry.weight e) code = EpEntry.stock e s' entry - EpEntry.stock e s entry := by
  cases op <;> simp only [startCpu, withEpoll, cmgroupDetach, lockoutTasklet,
    cmgroupTaskDequeued_requeue] at done
  all_goals repeat' split at done
  all_goals simp only [Option.some.injEq, Prod.mk.injEq, reduceCtorEq] at done
  all_goals obtain ⟨rfl, rfl⟩ := done
  all_goals cases entry <;> simp only [List.cons_append, List.nil_append, load_cons, load_nil]
  all_goals dsimp only [EpEntry.weight, kfreeWeight, epUsersWeight, EpEntry.stock]
  all_goals try simp only [Function.update_apply]
  all_goals first
    | exact (sub_self (_ : ℤ)).symm
    | grind

/-- Starting an operation owns no `tasklet_active`. -/
theorem Starts.own_load (flow : Starts s actor code) : load (ownWeight g) code = 0 := by
  induction flow <;> simp only [load_cons, load_nil] <;> dsimp only [ownWeight]
  all_goals first
    | decide
    | (split_ifs <;> decide)

/-- Starting an operation holds no `attached_mtx`. -/
theorem Starts.mtx_load (flow : Starts s actor code) : load (mtxWeight g) code = 0 := by
  induction flow <;> simp only [load_cons, load_nil] <;> dsimp only [mtxWeight]
  all_goals first
    | decide
    | (split_ifs <;> decide)

end Step

section Reached

variable [Fintype ι] [Fintype κ] {y : Sys ι κ}

/-- The rule of ledgers: what the shared state records and what remaining code holds change
together. Several ledgers may rely on each other. -/
theorem Reachable.ledgers {ρ : Type} {weight : ρ → Instr ι → ℤ} (stock : ρ → Shared ι κ → ℤ)
    (base : ∀ {y : Sys ι κ}, Initial y → ∀ entry, stock entry y.shared = 0)
    (kept : ∀ {y : Sys ι κ} {label actor spent s gained rest}, Reachable y →
      (∀ entry, total (weight entry) y.todo = stock entry y.shared) →
      y.todo actor = spent ++ rest → Effect y label actor spent s gained → ∀ entry,
      load (weight entry) gained - load (weight entry) spent =
        stock entry s - stock entry y.shared)
    (reached : Reachable y) : ∀ entry, total (weight entry) y.todo = stock entry y.shared := by
  induction reached with
  | start initial =>
    intro entry
    rw [total_idle (weight entry) initial.idle, base initial]
  | step reached _ taken ih =>
    intro entry
    obtain ⟨actor, spent, gained, effect, move⟩ := next_effect taken
    have moved := move.total (weight entry)
    obtain ⟨rest, before, -⟩ := move
    have change := kept reached ih before effect entry
    linarith [ih entry]

/-- The rule of a single ledger. -/
theorem Reachable.ledger {weight : Instr ι → ℤ} (stock : Shared ι κ → ℤ)
    (base : ∀ {y : Sys ι κ}, Initial y → stock y.shared = 0)
    (kept : ∀ {y : Sys ι κ} {label actor spent s gained rest}, Reachable y →
      total weight y.todo = stock y.shared → y.todo actor = spent ++ rest →
      Effect y label actor spent s gained →
      load weight gained - load weight spent = stock s - stock y.shared)
    (reached : Reachable y) : total weight y.todo = stock y.shared :=
  reached.ledgers (fun (_ : Unit) => stock) (fun initial _ => base initial)
    (fun reached balance before effect _ => kept reached (balance ()) before effect) ()

/-- Every tail of remaining code has no negative ownership. -/
theorem Reachable.own_nonneg (reached : Reachable y) (g : GroupId) (actor : Actor ι κ) :
    Secured (ownWeight g) (fun step => ownNeed g step + sealNeed g step) 0 (y.todo actor) := by
  have sum := (reached.own_secured g actor).add (reached.seal_secured g actor)
  simpa using sum

/-- `tasklet_active` is set exactly while it has an owner, which is unique: remaining code that
owns it, or a tasklet that is scheduled and not started. -/
theorem Reachable.own (reached : Reachable y) (g : GroupId) :
    total (ownWeight g) y.todo =
      (y.shared.taskletActive g).toInt - (y.shared.sched g).toInt := by
  refine reached.ledger (fun s => (s.taskletActive g).toInt - (s.sched g).toInt) ?_ ?_
  · intro y initial
    simp [initial.taskletActive, initial.sched]
  · intro y label actor spent s gained rest reached balance before effect
    cases effect with
    | exec done =>
      have owned := exec_own (g := g) (fun owns => ?_) done
      · rw [load_cons, load_nil]
        omega
      · have upper := head_le_total
          (fun step => add_nonneg (ownNeed_nonneg g step) (sealNeed_nonneg g step))
          (reached.own_nonneg g) before
        revert balance
        cases y.shared.taskletActive g <;> cases y.shared.sched g <;> simp <;> omega
    | task idle able done =>
      rw [(startTask_starts done).own_load, load_nil, startTask_frame reached.unknown done]
      simp
    | cpu idle done =>
      rw [(startCpu_starts done).own_load, load_nil, startCpu_frame done]
      simp

/-- `attached_mtx` is held exactly while remaining code has to release it, by one actor. -/
theorem Reachable.mtx (reached : Reachable y) (g : GroupId) :
    total (mtxWeight g) y.todo = (y.shared.attachedMtx g).isSome.toInt := by
  refine reached.ledger (fun s => (s.attachedMtx g).isSome.toInt) ?_ ?_
  · intro y initial
    simp [initial.attachedMtx]
  · intro y label actor spent s gained rest reached balance before effect
    cases effect with
    | exec done =>
      rw [load_cons, load_nil, add_zero]
      refine exec_mtx (fun holds => ?_) done
      have upper := head_le_total (mtxNeed_nonneg g) (reached.mtx_secured g) before
      revert balance
      cases (y.shared.attachedMtx g).isSome
      · simp
        omega
      · simp
    | task idle able done =>
      rw [(startTask_starts done).mtx_load, load_nil, startTask_frame reached.unknown done]
      simp
    | cpu idle done =>
      rw [(startCpu_starts done).mtx_load, load_nil, startCpu_frame done]
      simp

/-- The record of an AIO context agrees with the code that builds, uses and frees it. -/
theorem Reachable.ctx (reached : Reachable y) (c : CtxId) (entry : CtxEntry) :
    total (entry.weight c) y.todo = CtxEntry.stock c y.shared entry := by
  refine reached.ledgers (fun entry s => CtxEntry.stock c s entry) ?_ ?_ entry
  · intro y initial entry
    cases entry <;> simp [CtxEntry.stock, initial.ctxStage]
  · intro y label actor spent s gained rest reached balance before effect entry
    have add := balance .add
    have kfree := balance .kfree
    have users := balance .users
    have setup := balance .setup
    dsimp only [CtxEntry.weight, CtxEntry.stock] at add kfree users setup
    cases effect with
    | @exec _ _ step _ _ done =>
      rw [load_cons, load_nil, add_zero]
      have member : step ∈ y.todo actor := by simp [before]
      refine exec_ctx (fun adds => ?_) (fun frees => ?_) (fun uses => ?_) (fun building => ?_)
        done entry
      · have upper := weight_le_total (addWeight_nonneg c) member
        by_contra other
        rw [if_neg other] at add
        omega
      · have upper := weight_le_total (kfreeWeight_nonneg (.aio c)) member
        by_contra other
        rw [if_neg other] at kfree
        omega
      · have upper := head_le_total (usersNeed_nonneg c) (reached.users_secured c) before
        split at users
        · exact .inl ‹_›
        · exact .inr ‹_›
        · omega
      · rw [if_pos building] at setup
        have none : total (fun _ : Instr ι => 0) y.todo = 0 := by simp [total, load]
        omega
    | task idle able done =>
      rw [load_nil, sub_zero]
      exact startTask_ctx done entry
    | cpu idle done =>
      rw [load_nil, sub_zero]
      exact startCpu_ctx done entry

/-- The record of an eventpoll agrees with the code that uses and frees it. -/
theorem Reachable.epoll (reached : Reachable y) (e : EpollId) (entry : EpEntry) :
    total (entry.weight e) y.todo = EpEntry.stock e y.shared entry := by
  refine reached.ledgers (fun entry s => EpEntry.stock e s entry) ?_ ?_ entry
  · intro y initial entry
    cases entry <;> simp [EpEntry.stock, initial.epStage, initial.epUsers]
  · intro y label actor spent s gained rest reached balance before effect entry
    have kfree := balance .kfree
    have users := balance .users
    have closed := balance .closed
    dsimp only [EpEntry.weight, EpEntry.stock] at kfree users closed
    have none : total (fun _ : Instr ι => 0) y.todo = 0 := by simp [total, load]
    cases effect with
    | @exec _ _ step _ _ done =>
      rw [load_cons, load_nil, add_zero]
      have member : step ∈ y.todo actor := by simp [before]
      refine exec_epoll (fun frees => ?_) (fun uses => ?_) done entry
      · have upper := weight_le_total (kfreeWeight_nonneg (.epoll e)) member
        by_contra other
        rw [if_neg other] at kfree
        omega
      · have upper := weight_le_total (epUsersWeight_nonneg e) member
        by_contra other
        rw [if_neg other] at closed
        omega
    | task idle able done =>
      rw [load_nil, sub_zero]
      refine startTask_epoll (fun other => ?_) done entry
      rw [if_neg other] at closed
      omega
    | cpu idle done =>
      rw [load_nil, sub_zero]
      exact startCpu_epoll done entry

end Reached

end Cmgroups
