import Cmgroups.Verif.Expansion

/-!
# What remaining code holds

For each resource that a call acquires and releases, the weight of a micro-step is the number
of units it will release without acquiring them itself, negative for an acquisition. The load
of an actor's remaining code is then what the actor holds. The needs say which micro-steps
are executed only while the resource is held.
-/

set_option linter.unusedSectionVars false

namespace Cmgroups

open Pool

variable {ι κ : Type} [DecidableEq ι] [DecidableEq κ]

/-- One for the tasklet's use of the lock. -/
def Via.tasklets : Via → ℤ
  | .tasklet => 1
  | _ => 0

/-- One for the lock and unlock pair of `cmgroup_lockout_tasklet`. -/
def Via.lockouts : Via → ℤ
  | .lockout => 1
  | _ => 0

/-- One for every use of the lock under `attached_mtx`. -/
def Via.mutexes : Via → ℤ
  | .mutex | .lockout => 1
  | _ => 0

/-- One for every call of `fire_tasklet` under `attached_mtx`. -/
def Fire.mutexes : Fire ι → ℤ
  | .setConcurrencyValue | .unlockout => 1
  | .lessRunnable _ => 0

/-- One for every use of the lock by waiters with a reference to the AIO context. -/
def Via.waiters (c : CtxId) : Via → ℤ
  | .waiter d => if d = c then 1 else 0
  | _ => 0

/-- One for every use of the lock. -/
def Via.all : Via → ℤ := fun _ => 1

/-- Ownership of `tasklet_active`: by a successful `fire_tasklet` before it scheduled the
tasklet, by a running tasklet that has not cleared it, and by a lock-out. -/
def ownWeight (g : GroupId) : Instr ι → ℤ
  | .obj (.taskletSchedule h) | .tasklet (.again h _) | .tasklet (.act h _)
  | .tasklet (.reset h _) | .tasklet (.wakeAll h _) | .tasklet (.avail h _)
  | .tasklet (.wake h _) | .tasklet (.clear h) | .tasklet (.recheckClear h _)
  | .bind (.storeEpoll h _) | .bind (.storeAio h _) | .bind (.doAttachAio h _)
  | .bind (.unlockoutClear h) => if h = g then 1 else 0
  | .bind (.lockoutCas h) => if h = g then -1 else 0
  | _ => 0

/-- A lock-out that has passed its lock and unlock pair. -/
def sealWeight (g : GroupId) : Instr ι → ℤ
  | .bind (.storeEpoll h _) | .bind (.storeAio h _) | .bind (.doAttachAio h _)
  | .bind (.unlockoutClear h) => if h = g then 1 else 0
  | .lock (.lockVia h via) | .lock (.spinVia h _ via) => if h = g then -via.lockouts else 0
  | _ => 0

/-- A detachment is made only after the lock-out has passed its lock and unlock pair. -/
def sealNeed (g : GroupId) : Instr ι → ℤ
  | .bind (.detachStore h _) => if h = g then 1 else 0
  | _ => 0

/-- The tasklet takes the lock only while it owns `tasklet_active`. -/
def ownNeed (g : GroupId) : Instr ι → ℤ
  | .lock (.lockVia h via) | .lock (.spinVia h _ via) => if h = g then via.tasklets else 0
  | _ => 0

/-- Holding the spinlock `cmgroup->lock` points to, acquired through the cmgroup. -/
def viaWeight (kind : Via → ℤ) (g : GroupId) : Instr ι → ℤ
  | .lock (.lockVia h via) | .lock (.spinVia h _ via) => if h = g then -kind via else 0
  | .lock (.unlockVia h via) => if h = g then kind via else 0
  | .tasklet (.act h _) | .tasklet (.reset h _) | .tasklet (.wakeAll h _)
  | .tasklet (.avail h _) | .tasklet (.wake h _) | .tasklet (.recheckClear h _) =>
    if h = g then kind .tasklet else 0
  | .bind (.detachDrain h) => if h = g then kind .mutex else 0
  | .wait (.check _ c h _ _) | .wait (.add _ c h _ _) => if h = g then kind (.waiter c) else 0
  | _ => 0

/-- Exits of the tasklet that are about to clear `tasklet_active` with the lock held. -/
def clearWeight (g : GroupId) : Instr ι → ℤ
  | .tasklet (.clear h) => if h = g then 1 else 0
  | _ => 0

/-- Holding a spinlock that was acquired directly. -/
def lockWeight (lock : LockId) : Instr ι → ℤ
  | .lock (.lock l) => if l = lock then -1 else 0
  | .lock (.unlock l) => if l = lock then 1 else 0
  | .bind (.storeEpoll _ e) => if .epoll e = lock then 1 else 0
  | .ep (.poll _ e pc _) => if .epoll e = lock then (if pc.locked then 1 else 0) else 0
  | _ => 0

/-- Holding a spinlock, where the lock of a cmgroup is the one `ptr` gives. -/
def holdWeight (ptr : GroupId → LockId) (lock : LockId) : Instr ι → ℤ
  | .lock (.lockVia h _) | .lock (.spinVia h _ _) => if ptr h = lock then -1 else 0
  | .lock (.unlockVia h _) | .tasklet (.act h _) | .tasklet (.reset h _)
  | .tasklet (.wakeAll h _) | .tasklet (.avail h _) | .tasklet (.wake h _)
  | .tasklet (.recheckClear h _) | .bind (.detachDrain h) | .wait (.check _ _ h _ _)
  | .wait (.add _ _ h _ _) => if ptr h = lock then 1 else 0
  | step => lockWeight lock step

/-- Holding any spinlock. -/
def depthWeight : Instr ι → ℤ
  | .lock (.lockVia _ _) | .lock (.spinVia _ _ _) | .lock (.lock _) => -1
  | .lock (.unlockVia _ _) | .lock (.unlock _) | .bind (.storeEpoll _ _)
  | .tasklet (.act _ _) | .tasklet (.reset _ _) | .tasklet (.wakeAll _ _)
  | .tasklet (.avail _ _) | .tasklet (.wake _ _) | .tasklet (.recheckClear _ _)
  | .bind (.detachDrain _) | .wait (.check _ _ _ _ _) | .wait (.add _ _ _ _ _) => 1
  | .ep (.poll _ _ pc _) => if pc.locked then 1 else 0
  | _ => 0

/-- At most one spinlock is held; micro-steps that take one, sleep, or are outside every
critical section need that none is. -/
def depthNeed : Instr ι → ℤ
  | .lock (.lockVia _ _) | .lock (.spinVia _ _ _) | .lock (.lock _)
  | .lock (.mtxLock _) | .lock (.mtxUnlock _) | .lock (.epMtxLock _) | .lock (.epMtxUnlock _)
  | .lock (.epPut _) | .lock (.ctxPut _)
  | .bind (.attachEpoll _ _) | .bind (.beginEpoll _ _) | .bind (.lockoutCas _)
  | .bind (.unlockoutClear _) | .bind (.setAio _ _) | .bind (.lookupAio _ _)
  | .bind (.beginAio _ _) | .bind (.storeAio _ _) | .bind (.doAttachAio _ _)
  | .bind (.detachQueue _) | .bind (.detachStore _ _) | .bind (.addTable _)
  | .bind (.clearCtx _) | .bind (.setupDone _) | .bind (.kill _)
  | .bind (.epKfree _) | .bind (.ctxKfree _)
  | .tasklet (.trylock _) | .tasklet (.clearSched _) | .tasklet (.again _ _)
  | .tasklet (.recheck _ _) | .tasklet (.reassert _ _) | .tasklet (.unlock _)
  | .wait (.read _ _ _ _) | .wait (.gate _ _ _ _ _ _) | .wait (.enter _ _ _ _ _ _ _)
  | .wait (.loop _ _ _ _ _) | .wait (.fast _ _ _ _ _) | .wait (.begin _ _ _ _ _)
  | .wait (.signal _ _ _ _ _) | .wait (.woken _ _ _ _ _) | .wait (.finish _ _)
  | .wait (.done _ _ _ _) | .ep (.scanProc _) | .sched (.setState _ _) | .sched (.schedule _)
  | .sched (.resume _) => 0
  | .ep (.poll _ _ pc _) => if pc.locked then -1 else 0
  | _ => -1

/-- Holding `attached_mtx`. -/
def mtxWeight (g : GroupId) : Instr ι → ℤ
  | .lock (.mtxLock h) => if h = g then -1 else 0
  | .lock (.mtxUnlock h) | .bind (.beginEpoll h _) | .bind (.storeEpoll h _)
  | .bind (.beginAio h _) | .bind (.storeAio h _) | .bind (.doAttachAio h _) =>
    if h = g then 1 else 0
  | _ => 0

/-- Stores of an attachment that are still to be made. -/
def attachWeight (g : GroupId) : Instr ι → ℤ
  | .bind (.storeEpoll h _) | .bind (.storeAio h _) | .bind (.doAttachAio h _) =>
    if h = g then 1 else 0
  | _ => 0

/-- Detachments from an event source that are still to be made. -/
def detachWeight (source : Source) (g : GroupId) : Instr ι → ℤ
  | .bind (.detachStore h origin) => if h = g ∧ origin = source then 1 else 0
  | _ => 0

/-- Event sources that are still to be returned to the allocator. -/
def kfreeWeight (source : Source) : Instr ι → ℤ
  | .bind (.epKfree e) => if .epoll e = source then 1 else 0
  | .bind (.ctxKfree c) => if .aio c = source then 1 else 0
  | _ => 0

/-- What is done only under `attached_mtx`. -/
def mtxNeed (g : GroupId) : Instr ι → ℤ
  | .lock (.lockVia h via) | .lock (.spinVia h _ via) | .lock (.unlockVia h via) =>
    if h = g then via.mutexes else 0
  | .bind (.beginEpoll h _) | .bind (.storeEpoll h _) | .bind (.beginAio h _)
  | .bind (.storeAio h _) | .bind (.doAttachAio h _) | .bind (.detachQueue h)
  | .bind (.detachDrain h) | .bind (.detachStore h _) | .bind (.lockoutCas h)
  | .bind (.unlockoutClear h) | .acct (.setcvStore h _) | .acct (.setcvAdd h _) =>
    if h = g then 1 else 0
  | .obj (.fire h site) | .obj (.ref h (some site)) => if h = g then site.mutexes else 0
  | _ => 0

/-- `cmgroup_detach` takes the lock under `attached_mtx` when it looks at the queue. -/
def drainNeed (g : GroupId) : Instr ι → ℤ
  | .bind (.detachQueue h) => if h = g then 1 else 0
  | _ => 0

/-- References to an AIO context held by calls. -/
def usersWeight (c : CtxId) : Instr ι → ℤ
  | .lock (.ctxPut d) | .wait (.read _ d _ _) | .wait (.gate _ d _ _ _ _)
  | .bind (.beginAio _ d) | .bind (.storeAio _ d) | .bind (.doAttachAio _ d) =>
    if d = c then 1 else 0
  | _ => 0

/-- AIO contexts that are still to be entered in the context table. -/
def addWeight (c : CtxId) : Instr ι → ℤ
  | .bind (.addTable d) => if d = c then 1 else 0
  | _ => 0

/-- What is done only with a reference to the AIO context. -/
def usersNeed (c : CtxId) : Instr ι → ℤ
  | .lock (.lockVia _ via) | .lock (.spinVia _ _ via) | .lock (.unlockVia _ via) =>
    via.waiters c
  | .wait (.read _ d _ _) | .wait (.gate _ d _ _ _ _) | .wait (.enter _ d _ _ _ _ _)
  | .wait (.loop _ d _ _ _) | .wait (.fast _ d _ _ _) | .wait (.begin _ d _ _ _)
  | .wait (.check _ d _ _ _) | .wait (.add _ d _ _ _) | .wait (.signal _ d _ _ _)
  | .wait (.woken _ d _ _ _) | .bind (.clearCtx d) | .bind (.storeAio _ d)
  | .bind (.doAttachAio _ d) => if d = c then 1 else 0
  | _ => 0

/-- Uses of an epoll file by calls and callbacks. -/
def epUsersWeight (e : EpollId) : Instr ι → ℤ
  | .lock (.epPut f) | .ep (.poll _ f _ _) => if f = e then 1 else 0
  | _ => 0

/-- What is done only while the epoll file is in use. -/
def epUsersNeed (e : EpollId) : Instr ι → ℤ
  | .ep (.poll _ f _ _) | .ep (.scanBegin f) | .ep (.scanProc f) | .ep (.scanEnd f)
  | .ep (.wakeWq f) | .ep (.wakeWqAvail f _) | .ep (.wakeWqRequest f _) | .ep (.callback f)
  | .ep (.insert f) | .ep (.remove f) | .bind (.attachEpoll f _) | .bind (.beginEpoll _ f)
  | .bind (.storeEpoll _ f) => if f = e then 1 else 0
  | _ => 0

section Nonneg

theorem addWeight_nonneg (c : CtxId) (step : Instr ι) : 0 ≤ addWeight c step := by
  unfold addWeight
  split
  · split_ifs <;> decide
  · exact le_rfl

theorem kfreeWeight_nonneg (source : Source) (step : Instr ι) : 0 ≤ kfreeWeight source step := by
  unfold kfreeWeight
  split
  · split_ifs <;> decide
  · split_ifs <;> decide
  · exact le_rfl

theorem usersWeight_nonneg (c : CtxId) (step : Instr ι) : 0 ≤ usersWeight c step := by
  unfold usersWeight
  split
  all_goals first
    | exact le_rfl
    | split_ifs <;> decide

theorem epUsersWeight_nonneg (e : EpollId) (step : Instr ι) : 0 ≤ epUsersWeight e step := by
  unfold epUsersWeight
  split
  all_goals first
    | exact le_rfl
    | split_ifs <;> decide

theorem attachWeight_nonneg (g : GroupId) (step : Instr ι) : 0 ≤ attachWeight g step := by
  unfold attachWeight
  split
  all_goals first
    | exact le_rfl
    | split_ifs <;> decide

theorem detachWeight_nonneg (source : Source) (g : GroupId) (step : Instr ι) :
    0 ≤ detachWeight source g step := by
  unfold detachWeight
  split
  · split_ifs <;> decide
  · exact le_rfl

end Nonneg

section Flow

variable {s : Shared ι κ} {actor : Actor ι κ} {step : Instr ι} {code : Code ι}

theorem ownNeed_nonneg (g : GroupId) (step : Instr ι) : 0 ≤ ownNeed g step := by
  unfold ownNeed
  split
  case h_1 via | h_2 via => cases via <;> dsimp only [Via.tasklets] <;> split_ifs <;> decide
  case h_3 => exact le_rfl

theorem mtxNeed_nonneg (g : GroupId) (step : Instr ι) : 0 ≤ mtxNeed g step := by
  unfold mtxNeed
  split
  case h_1 via | h_2 via | h_3 via =>
    cases via <;> dsimp only [Via.mutexes] <;> split_ifs <;> decide
  case h_16 site | h_17 site => cases site <;> dsimp only [Fire.mutexes] <;> split_ifs <;> decide
  all_goals first
    | exact le_rfl
    | split_ifs <;> decide

theorem sealNeed_nonneg (g : GroupId) (step : Instr ι) : 0 ≤ sealNeed g step := by
  unfold sealNeed
  split
  · split_ifs <;> decide
  · exact le_rfl

theorem drainNeed_nonneg (g : GroupId) (step : Instr ι) : 0 ≤ drainNeed g step := by
  unfold drainNeed
  split
  · split_ifs <;> decide
  · exact le_rfl

theorem usersNeed_nonneg (c : CtxId) (step : Instr ι) : 0 ≤ usersNeed c step := by
  unfold usersNeed
  split
  case h_1 via | h_2 via | h_3 via =>
    cases via <;> dsimp only [Via.waiters] <;> first
      | exact le_rfl
      | split_ifs <;> decide
  all_goals first
    | exact le_rfl
    | split_ifs <;> decide

theorem epUsersNeed_nonneg (e : EpollId) (step : Instr ι) : 0 ≤ epUsersNeed e step := by
  unfold epUsersNeed
  split
  all_goals first
    | exact le_rfl
    | split_ifs <;> decide

theorem Expands.seal_secured (g : GroupId) (flow : Expands s actor step code) :
    Secured (sealWeight g) (sealNeed g)
      (min (-0) (sealWeight g step - sealNeed g step)) code := by
  induction flow <;> simp only [secured_cons, secured_nil, load_cons, load_nil, and_true] <;>
    dsimp only [sealWeight, sealNeed, Via.lockouts]
  all_goals first
    | decide
    | (split_ifs <;> omega)

theorem Starts.seal_secured (g : GroupId) (flow : Starts s actor code) :
    Secured (sealWeight g) (sealNeed g) 0 code := by
  induction flow <;> simp only [secured_cons, secured_nil, load_cons, load_nil, and_true] <;>
    dsimp only [sealWeight, sealNeed, Via.lockouts]
  all_goals first
    | decide
    | (split_ifs <;> omega)

theorem Expands.own_secured (g : GroupId) (flow : Expands s actor step code) :
    Secured (fun i => ownWeight g i - sealWeight g i) (ownNeed g)
      (min (-0) (ownWeight g step - sealWeight g step - ownNeed g step)) code := by
  induction flow <;> simp only [secured_cons, secured_nil, load_cons, load_nil, and_true] <;>
    dsimp only [ownWeight, sealWeight, ownNeed, Via.lockouts, Via.tasklets]
  all_goals first
    | decide
    | (split_ifs <;> omega)

theorem Starts.own_secured (g : GroupId) (flow : Starts s actor code) :
    Secured (fun i => ownWeight g i - sealWeight g i) (ownNeed g) 0 code := by
  induction flow <;> simp only [secured_cons, secured_nil, load_cons, load_nil, and_true] <;>
    dsimp only [ownWeight, sealWeight, ownNeed, Via.lockouts, Via.tasklets]
  all_goals first
    | decide
    | (split_ifs <;> omega)

theorem Expands.clearing_secured (g : GroupId) (flow : Expands s actor step code) :
    Secured (fun i => viaWeight Via.tasklets g i - clearWeight g i) (fun _ => 0)
      (min (-0) (viaWeight Via.tasklets g step - clearWeight g step - 0)) code := by
  induction flow <;> simp only [secured_cons, secured_nil, load_cons, load_nil, and_true] <;>
    dsimp only [viaWeight, clearWeight, Via.tasklets]
  all_goals first
    | decide
    | (split_ifs <;> omega)

theorem Starts.clearing_secured (g : GroupId) (flow : Starts s actor code) :
    Secured (fun i => viaWeight Via.tasklets g i - clearWeight g i) (fun _ => 0) 0 code := by
  induction flow <;> simp only [secured_cons, secured_nil, load_cons, load_nil, and_true] <;>
    dsimp only [viaWeight, clearWeight, Via.tasklets]
  all_goals first
    | decide
    | (split_ifs <;> omega)

theorem Expands.mtx_secured (g : GroupId) (flow : Expands s actor step code) :
    Secured (mtxWeight g) (mtxNeed g)
      (min (-0) (mtxWeight g step - mtxNeed g step)) code := by
  induction flow <;> simp only [secured_cons, secured_nil, load_cons, load_nil, and_true] <;>
    dsimp only [mtxWeight, mtxNeed, Via.mutexes, Fire.mutexes]
  all_goals first
    | decide
    | (split_ifs <;> omega)

theorem Starts.mtx_secured (g : GroupId) (flow : Starts s actor code) :
    Secured (mtxWeight g) (mtxNeed g) 0 code := by
  induction flow <;> simp only [secured_cons, secured_nil, load_cons, load_nil, and_true] <;>
    dsimp only [mtxWeight, mtxNeed, Via.mutexes, Fire.mutexes]
  all_goals first
    | decide
    | (split_ifs <;> omega)

theorem Expands.users_secured (c : CtxId) (flow : Expands s actor step code) :
    Secured (usersWeight c) (usersNeed c)
      (min (-0) (usersWeight c step - usersNeed c step)) code := by
  induction flow <;> simp only [secured_cons, secured_nil, load_cons, load_nil, and_true] <;>
    dsimp only [usersWeight, usersNeed]
  all_goals first
    | decide
    | omega
    | (dsimp only [Via.waiters]; decide)
    | (dsimp only [Via.waiters]; split_ifs <;> omega)

theorem Starts.users_secured (c : CtxId) (flow : Starts s actor code) :
    Secured (usersWeight c) (usersNeed c) 0 code := by
  induction flow <;> simp only [secured_cons, secured_nil, load_cons, load_nil, and_true] <;>
    dsimp only [usersWeight, usersNeed]
  all_goals first
    | decide
    | omega
    | (dsimp only [Via.waiters]; decide)

theorem Expands.epUsers_secured (e : EpollId) (flow : Expands s actor step code) :
    Secured (epUsersWeight e) (epUsersNeed e)
      (min (-0) (epUsersWeight e step - epUsersNeed e step)) code := by
  induction flow <;> simp only [secured_cons, secured_nil, load_cons, load_nil, and_true] <;>
    dsimp only [epUsersWeight, epUsersNeed]
  all_goals first
    | decide
    | (split_ifs <;> omega)

theorem Starts.epUsers_secured (e : EpollId) (flow : Starts s actor code) :
    Secured (epUsersWeight e) (epUsersNeed e) 0 code := by
  induction flow <;> simp only [secured_cons, secured_nil, load_cons, load_nil, and_true] <;>
    dsimp only [epUsersWeight, epUsersNeed]
  all_goals first
    | decide
    | (split_ifs <;> omega)

theorem Expands.via_secured {kind : Via → ℤ} (nonneg : ∀ via, 0 ≤ kind via) (g : GroupId)
    (flow : Expands s actor step code) :
    Secured (viaWeight kind g) (fun _ => 0) (min (-0) (viaWeight kind g step - 0)) code := by
  have tasklet := nonneg .tasklet
  have mutex := nonneg .mutex
  have lockout := nonneg .lockout
  induction flow <;> simp only [secured_cons, secured_nil, load_cons, load_nil, and_true] <;>
    dsimp only [viaWeight]
  case begin c _ _ _ =>
    have waiter := nonneg (.waiter c)
    split_ifs <;> omega
  all_goals first
    | decide
    | split_ifs <;> omega

theorem Starts.via_secured {kind : Via → ℤ} (nonneg : ∀ via, 0 ≤ kind via) (g : GroupId)
    (flow : Starts s actor code) : Secured (viaWeight kind g) (fun _ => 0) 0 code := by
  have mutex := nonneg .mutex
  have lockout := nonneg .lockout
  induction flow <;> simp only [secured_cons, secured_nil, load_cons, load_nil, and_true] <;>
    dsimp only [viaWeight]
  all_goals first
    | decide
    | split_ifs <;> omega

theorem Expands.depth_secured (flow : Expands s actor step code) :
    Secured depthWeight (fun _ => 0) (min (-0) (depthWeight step - 0)) code := by
  induction flow <;> simp only [secured_cons, secured_nil, load_cons, load_nil, and_true] <;>
    dsimp only [depthWeight]
  all_goals first
    | decide
    | simp_all

theorem Starts.depth_secured (flow : Starts s actor code) :
    Secured depthWeight (fun _ => 0) 0 code := by
  induction flow <;> simp only [secured_cons, secured_nil, load_cons, load_nil, and_true] <;>
    dsimp only [depthWeight]
  all_goals first
    | decide
    | simp_all

theorem depthNeed_low (step : Instr ι) : -1 ≤ depthNeed step := by
  unfold depthNeed
  split
  all_goals first
    | decide
    | split_ifs <;> decide

theorem Expands.shallow_secured (flow : Expands s actor step code) :
    Secured (fun i => -depthWeight i) depthNeed
      (min (- -1) (-depthWeight step - depthNeed step)) code := by
  induction flow <;> simp only [secured_cons, secured_nil, load_cons, load_nil, and_true] <;>
    dsimp only [depthWeight, depthNeed]
  all_goals first
    | decide
    | simp_all

theorem Starts.shallow_secured (flow : Starts s actor code) :
    Secured (fun i => -depthWeight i) depthNeed 0 code := by
  induction flow <;> simp only [secured_cons, secured_nil, load_cons, load_nil, and_true] <;>
    dsimp only [depthWeight, depthNeed]
  all_goals first
    | decide
    | simp_all

theorem Expands.hold_secured (ptr : GroupId → LockId) (lock : LockId)
    (flow : Expands s actor step code) :
    Secured (holdWeight ptr lock) (fun _ => 0) (min (-0) (holdWeight ptr lock step - 0)) code := by
  induction flow <;> simp only [secured_cons, secured_nil, load_cons, load_nil, and_true] <;>
    dsimp only [holdWeight, lockWeight]
  all_goals first
    | decide
    | (split_ifs <;> omega)

theorem Starts.hold_secured (ptr : GroupId → LockId) (lock : LockId)
    (flow : Starts s actor code) :
    Secured (holdWeight ptr lock) (fun _ => 0) 0 code := by
  induction flow <;> simp only [secured_cons, secured_nil, load_cons, load_nil, and_true] <;>
    dsimp only [holdWeight, lockWeight]
  all_goals first
    | decide
    | (split_ifs <;> omega)

theorem Expands.single_secured (ptr : GroupId → LockId) (lock : LockId)
    (flow : Expands s actor step code) :
    Secured (fun i => depthWeight i - holdWeight ptr lock i) (fun _ => 0)
      (min (-0) (depthWeight step - holdWeight ptr lock step - 0)) code := by
  induction flow <;> simp only [secured_cons, secured_nil, load_cons, load_nil, and_true] <;>
    dsimp only [depthWeight, holdWeight, lockWeight]
  all_goals first
    | decide
    | (split_ifs <;> omega)

theorem Starts.single_secured (ptr : GroupId → LockId) (lock : LockId)
    (flow : Starts s actor code) :
    Secured (fun i => depthWeight i - holdWeight ptr lock i) (fun _ => 0) 0 code := by
  induction flow <;> simp only [secured_cons, secured_nil, load_cons, load_nil, and_true] <;>
    dsimp only [depthWeight, holdWeight, lockWeight]
  all_goals first
    | decide
    | (split_ifs <;> omega)

theorem Expands.cover_secured {kind : Via → ℤ} (nonneg : ∀ via, 0 ≤ kind via)
    (bounded : ∀ via, kind via ≤ 1) (ptr : GroupId → LockId) (g : GroupId)
    (flow : Expands s actor step code) :
    Secured (fun i => holdWeight ptr (ptr g) i - viaWeight kind g i) (fun _ => 0)
      (min (-0) (holdWeight ptr (ptr g) step - viaWeight kind g step - 0)) code := by
  have tasklet := nonneg .tasklet
  have mutex := nonneg .mutex
  have lockout := nonneg .lockout
  have tasklet' := bounded .tasklet
  have mutex' := bounded .mutex
  have lockout' := bounded .lockout
  induction flow <;> simp only [secured_cons, secured_nil, load_cons, load_nil, and_true] <;>
    dsimp only [holdWeight, lockWeight, viaWeight]
  case begin c _ _ _ =>
    have waiter := nonneg (.waiter c)
    have waiter' := bounded (.waiter c)
    split_ifs <;> first | omega | simp_all
  all_goals first
    | decide
    | (split_ifs <;> first | omega | simp_all)

theorem Starts.cover_secured {kind : Via → ℤ} (nonneg : ∀ via, 0 ≤ kind via)
    (bounded : ∀ via, kind via ≤ 1) (ptr : GroupId → LockId) (g : GroupId)
    (flow : Starts s actor code) :
    Secured (fun i => holdWeight ptr (ptr g) i - viaWeight kind g i) (fun _ => 0) 0 code := by
  have mutex := nonneg .mutex
  have lockout := nonneg .lockout
  have mutex' := bounded .mutex
  have lockout' := bounded .lockout
  induction flow <;> simp only [secured_cons, secured_nil, load_cons, load_nil, and_true] <;>
    dsimp only [holdWeight, lockWeight, viaWeight]
  all_goals first
    | decide
    | (split_ifs <;> first | omega | simp_all)

theorem Expands.attach_secured (g : GroupId) (flow : Expands s actor step code) :
    Secured (fun i => mtxWeight g i - attachWeight g i) (fun _ => 0)
      (min (-0) (mtxWeight g step - attachWeight g step - 0)) code := by
  induction flow <;> simp only [secured_cons, secured_nil, load_cons, load_nil, and_true] <;>
    dsimp only [mtxWeight, attachWeight]
  all_goals first
    | decide
    | (split_ifs <;> omega)

theorem Starts.attach_secured (g : GroupId) (flow : Starts s actor code) :
    Secured (fun i => mtxWeight g i - attachWeight g i) (fun _ => 0) 0 code := by
  induction flow <;> simp only [secured_cons, secured_nil, load_cons, load_nil, and_true] <;>
    dsimp only [mtxWeight, attachWeight]
  all_goals first
    | decide
    | (split_ifs <;> omega)

theorem Expands.mutex_secured (g : GroupId) (flow : Expands s actor step code) :
    Secured (fun i => mtxWeight g i - viaWeight Via.mutexes g i) (drainNeed g)
      (min (-0) (mtxWeight g step - viaWeight Via.mutexes g step - drainNeed g step)) code := by
  induction flow <;> simp only [secured_cons, secured_nil, load_cons, load_nil, and_true] <;>
    dsimp only [mtxWeight, viaWeight, drainNeed, Via.mutexes]
  all_goals first
    | decide
    | (split_ifs <;> omega)

theorem Starts.mutex_secured (g : GroupId) (flow : Starts s actor code) :
    Secured (fun i => mtxWeight g i - viaWeight Via.mutexes g i) (drainNeed g) 0 code := by
  induction flow <;> simp only [secured_cons, secured_nil, load_cons, load_nil, and_true] <;>
    dsimp only [mtxWeight, viaWeight, drainNeed, Via.mutexes]
  all_goals first
    | decide
    | (split_ifs <;> omega)

theorem Expands.kfree_secured (source : Source) (g : GroupId)
    (flow : Expands s actor step code) :
    Secured (fun i => kfreeWeight source i - detachWeight source g i) (fun _ => 0)
      (min (-0) (kfreeWeight source step - detachWeight source g step - 0)) code := by
  induction flow <;> simp only [secured_cons, secured_nil, load_cons, load_nil, and_true] <;>
    dsimp only [kfreeWeight, detachWeight]
  all_goals decide

theorem Starts.kfree_secured (source : Source) (g : GroupId) (flow : Starts s actor code) :
    Secured (fun i => kfreeWeight source i - detachWeight source g i) (fun _ => 0) 0 code := by
  induction flow <;> simp only [secured_cons, secured_nil, load_cons, load_nil, and_true] <;>
    dsimp only [kfreeWeight, detachWeight]
  all_goals first
    | decide
    | (split_ifs <;> simp_all)

end Flow

section Reached

variable {y : Sys ι κ}

/-- A lock-out counts as sealed at most until its unlock-out. -/
theorem Reachable.seal_secured (reached : Reachable y) (g : GroupId) (actor : Actor ι κ) :
    Secured (sealWeight g) (sealNeed g) 0 (y.todo actor) :=
  reached.secured (sealNeed_nonneg g) le_rfl (Expands.seal_secured g) (Starts.seal_secured g) actor

/-- Whoever has sealed the tasklet out owns `tasklet_active`, and so does a tasklet that takes
the lock. -/
theorem Reachable.own_secured (reached : Reachable y) (g : GroupId) (actor : Actor ι κ) :
    Secured (fun i => ownWeight g i - sealWeight g i) (ownNeed g) 0 (y.todo actor) :=
  reached.secured (ownNeed_nonneg g) le_rfl (Expands.own_secured g) (Starts.own_secured g) actor

/-- A tasklet that is about to clear `tasklet_active` on an exit holds the lock. -/
theorem Reachable.clearing_secured (reached : Reachable y) (g : GroupId) (actor : Actor ι κ) :
    Secured (fun i => viaWeight Via.tasklets g i - clearWeight g i) (fun _ => 0) 0 (y.todo actor) :=
  reached.secured (fun _ => le_rfl) le_rfl (Expands.clearing_secured g) (Starts.clearing_secured g) actor

/-- What needs `attached_mtx` is done before it is released. -/
theorem Reachable.mtx_secured (reached : Reachable y) (g : GroupId) (actor : Actor ι κ) :
    Secured (mtxWeight g) (mtxNeed g) 0 (y.todo actor) :=
  reached.secured (mtxNeed_nonneg g) le_rfl (Expands.mtx_secured g) (Starts.mtx_secured g) actor

/-- What needs a reference to an AIO context is done before the reference is dropped. -/
theorem Reachable.users_secured (reached : Reachable y) (c : CtxId) (actor : Actor ι κ) :
    Secured (usersWeight c) (usersNeed c) 0 (y.todo actor) :=
  reached.secured (usersNeed_nonneg c) le_rfl (Expands.users_secured c) (Starts.users_secured c) actor

/-- What needs the epoll file is done before the file is given up. -/
theorem Reachable.epUsers_secured (reached : Reachable y) (e : EpollId) (actor : Actor ι κ) :
    Secured (epUsersWeight e) (epUsersNeed e) 0 (y.todo actor) :=
  reached.secured (epUsersNeed_nonneg e) le_rfl (Expands.epUsers_secured e) (Starts.epUsers_secured e) actor

/-- The lock taken through a cmgroup is released after it is taken. -/
theorem Reachable.via_secured (reached : Reachable y) {kind : Via → ℤ}
    (nonneg : ∀ via, 0 ≤ kind via) (g : GroupId) (actor : Actor ι κ) :
    Secured (viaWeight kind g) (fun _ => 0) 0 (y.todo actor) :=
  reached.secured (fun _ => le_rfl) le_rfl (Expands.via_secured nonneg g)
    (Starts.via_secured nonneg g) actor

/-- No spinlock is released that is not held. -/
theorem Reachable.depth_secured (reached : Reachable y) (actor : Actor ι κ) :
    Secured depthWeight (fun _ => 0) 0 (y.todo actor) :=
  reached.secured (fun _ => le_rfl) le_rfl Expands.depth_secured Starts.depth_secured actor

/-- At most one spinlock is held at a time, and none by code that may sleep. -/
theorem Reachable.shallow_secured (reached : Reachable y) (actor : Actor ι κ) :
    Secured (fun i => -depthWeight i) depthNeed 0 (y.todo actor) :=
  reached.secured depthNeed_low (by decide) Expands.shallow_secured Starts.shallow_secured actor

/-- No lock is released that is not held. -/
theorem Reachable.hold_secured (reached : Reachable y) (ptr : GroupId → LockId) (lock : LockId)
    (actor : Actor ι κ) : Secured (holdWeight ptr lock) (fun _ => 0) 0 (y.todo actor) :=
  reached.secured (fun _ => le_rfl) le_rfl (Expands.hold_secured ptr lock)
    (Starts.hold_secured ptr lock) actor

/-- A lock that is held counts among the locks that are held. -/
theorem Reachable.single_secured (reached : Reachable y) (ptr : GroupId → LockId) (lock : LockId)
    (actor : Actor ι κ) :
    Secured (fun i => depthWeight i - holdWeight ptr lock i) (fun _ => 0) 0 (y.todo actor) :=
  reached.secured (fun _ => le_rfl) le_rfl (Expands.single_secured ptr lock)
    (Starts.single_secured ptr lock) actor

/-- Whoever holds the lock through a cmgroup holds the lock the cmgroup points to. -/
theorem Reachable.cover_secured (reached : Reachable y) {kind : Via → ℤ}
    (nonneg : ∀ via, 0 ≤ kind via) (bounded : ∀ via, kind via ≤ 1) (ptr : GroupId → LockId)
    (g : GroupId) (actor : Actor ι κ) :
    Secured (fun i => holdWeight ptr (ptr g) i - viaWeight kind g i) (fun _ => 0) 0
      (y.todo actor) :=
  reached.secured (fun _ => le_rfl) le_rfl (Expands.cover_secured nonneg bounded ptr g)
    (Starts.cover_secured nonneg bounded ptr g) actor

/-- The stores of an attachment are made under `attached_mtx`. -/
theorem Reachable.attach_secured (reached : Reachable y) (g : GroupId) (actor : Actor ι κ) :
    Secured (fun i => mtxWeight g i - attachWeight g i) (fun _ => 0) 0 (y.todo actor) :=
  reached.secured (fun _ => le_rfl) le_rfl (Expands.attach_secured g) (Starts.attach_secured g)
    actor

/-- Users of the lock by the rule of `attached_mtx` hold the mutex. -/
theorem Reachable.mutex_secured (reached : Reachable y) (g : GroupId) (actor : Actor ι κ) :
    Secured (fun i => mtxWeight g i - viaWeight Via.mutexes g i) (drainNeed g) 0 (y.todo actor) :=
  reached.secured (drainNeed_nonneg g) le_rfl (Expands.mutex_secured g) (Starts.mutex_secured g)
    actor

/-- An event source is freed after its cmgroup was detached. -/
theorem Reachable.kfree_secured (reached : Reachable y) (source : Source) (g : GroupId)
    (actor : Actor ι κ) :
    Secured (fun i => kfreeWeight source i - detachWeight source g i) (fun _ => 0) 0
      (y.todo actor) :=
  reached.secured (fun _ => le_rfl) le_rfl (Expands.kfree_secured source g)
    (Starts.kfree_secured source g) actor

end Reached

end Cmgroups
