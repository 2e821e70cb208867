import Cmgroups.Verif.Binding

/-!
# Locks taken through a cmgroup

`cmgroup->lock` can point to the cmgroup's own lock or to that of an epoll, and it is read
again when the lock is released. `Locking` says that this is safe: whoever holds a lock, directly
or through a cmgroup, owns it; a lock that was loaded from a cmgroup and is not acquired yet
is still the one the cmgroup points to; and no tasklet holds the lock while an attachment or
detachment has it locked out.
-/

set_option linter.unusedSectionVars false

namespace Cmgroups

open Function (update)
open Pool

variable {ι κ : Type} [DecidableEq ι] [DecidableEq κ]

/-- One for every use of the lock in `__cmgroup_wait`. -/
def Via.waiting : Via → ℤ
  | .waiter _ => 1
  | _ => 0

theorem Via.all_nonneg (via : Via) : 0 ≤ via.all := by simp [Via.all]

theorem Via.all_le_one (via : Via) : via.all ≤ 1 := by simp [Via.all]

theorem Via.tasklets_nonneg (via : Via) : 0 ≤ via.tasklets := by
  cases via <;> simp [Via.tasklets]

theorem Via.tasklets_le_one (via : Via) : via.tasklets ≤ 1 := by
  cases via <;> simp [Via.tasklets]

/-- The micro-step acquires or releases a spinlock. -/
def Instr.locks : Instr ι → Prop
  | .lock (.spinVia _ _ _) | .lock (.unlockVia _ _) | .lock (.lock _) | .lock (.unlock _) => True
  | _ => False

/-- The micro-step is about to acquire a lock loaded from a cmgroup. -/
def Instr.spins : Instr ι → Prop
  | .lock (.spinVia _ _ _) => True
  | _ => False

/-- Locks and their users fit together. -/
structure Locking (y : Sys ι κ) : Prop where
  /-- Who has to release a lock owns it. -/
  held : ∀ lock actor, 1 ≤ load (holdWeight y.shared.lockOf lock) (y.todo actor) →
    y.shared.owner lock = some actor
  /-- A lock loaded from a cmgroup is still the one the cmgroup points to. -/
  spin : ∀ actor g lock via, .lock (.spinVia g lock via) ∈ y.todo actor →
    lock = y.shared.lockOf g
  /-- A lock-out that has passed its lock and unlock pair keeps the tasklet from the lock. -/
  locked : ∀ g actor, 1 ≤ load (sealWeight g) (y.todo actor) →
    ∀ other, load (viaWeight Via.tasklets g) (y.todo other) ≤ 0

section Weights

variable {s s' : Shared ι κ} {actor : Actor ι κ} {choice : Choice} {step : Instr ι}
  {code : Code ι} {g : GroupId}

/-- Every use of the lock is by one of the rules. -/
theorem viaWeight_all (step : Instr ι) :
    viaWeight Via.all g step = viaWeight Via.tasklets g step + viaWeight Via.mutexes g step +
      viaWeight Via.waiting g step := by
  unfold viaWeight
  split
  case h_1 via | h_2 via | h_3 via =>
    cases via <;> simp [Via.all, Via.tasklets, Via.mutexes, Via.waiting]
  all_goals simp [Via.all, Via.tasklets, Via.mutexes, Via.waiting]

/-- Users of the lock by all rules together. -/
theorem load_via_all (code : Code ι) :
    load (viaWeight Via.all g) code = load (viaWeight Via.tasklets g) code +
      load (viaWeight Via.mutexes g) code + load (viaWeight Via.waiting g) code := by
  rw [← load_add, ← load_add]
  congr 1
  funext step
  exact viaWeight_all step

/-- Pointing a cmgroup to another lock moves its users there. -/
theorem load_hold_update (ptr : GroupId → LockId) (new lock : LockId) (code : Code ι) :
    load (holdWeight (update ptr g new) lock) code = load (holdWeight ptr lock) code +
      ((if new = lock then 1 else 0) - if ptr g = lock then 1 else 0) *
        load (viaWeight Via.all g) code := by
  induction code with
  | nil => simp
  | cons head rest ih =>
    have weight : holdWeight (update ptr g new) lock head = holdWeight ptr lock head +
        ((if new = lock then 1 else 0) - if ptr g = lock then 1 else 0) *
          viaWeight Via.all g head := by
      unfold holdWeight viaWeight
      split
      all_goals try simp only [Function.update_apply, Via.all]
      all_goals grind
    rw [load_cons, load_cons, load_cons, ih, weight]
    ring

/-- Only acquiring and releasing changes which locks are held. -/
theorem Expands.hold_load (ptr : GroupId → LockId) (lock : LockId) (quiet : ¬ step.locks)
    (flow : Expands s actor step code) :
    load (holdWeight ptr lock) code = holdWeight ptr lock step := by
  induction flow <;> simp only [load_cons, load_nil] <;>
    dsimp only [holdWeight, lockWeight, Instr.locks] at quiet ⊢
  case pollSend =>
    dsimp only [EpPc.locked]
    split_ifs <;> rfl
  all_goals first
    | rfl
    | exact absurd trivial quiet
    | grind

/-- Only acquiring and releasing changes who holds the lock through a cmgroup. -/
theorem Expands.via_load (kind : Via → ℤ) (quiet : ¬ step.locks)
    (flow : Expands s actor step code) :
    load (viaWeight kind g) code = viaWeight kind g step := by
  induction flow <;> simp only [load_cons, load_nil] <;>
    dsimp only [viaWeight, Instr.locks] at quiet ⊢
  all_goals first
    | rfl
    | exact absurd trivial quiet
    | grind

/-- Only acquiring the lock completes a lock-out. -/
theorem Expands.seal_load (quiet : ¬ step.spins) (flow : Expands s actor step code) :
    load (sealWeight g) code ≤ sealWeight g step := by
  induction flow <;> simp only [load_cons, load_nil] <;>
    dsimp only [sealWeight, Via.lockouts, Instr.spins] at quiet ⊢
  all_goals first
    | exact le_rfl
    | exact absurd trivial quiet
    | (split_ifs <;> omega)

/-- Only acquiring and releasing changes owners. -/
theorem exec_owner (quiet : ¬ step.locks) (done : exec actor choice s step = some (s', code)) :
    s'.owner = s.owner := by
  cases step with
  | lock step =>
    cases step with
    | wakeOne lock => rw [wakeUpLocked_frame done]
    | wakeAll lock => rw [wakeAll_frame actor done]
    | spinVia _ _ _ | unlockVia _ _ | lock _ | unlock _ => exact absurd trivial quiet
    | _ =>
      simp only [exec, execLock] at done
      repeat' split at done
      all_goals simp only [Option.some.injEq, Prod.mk.injEq, reduceCtorEq] at done
      all_goals obtain ⟨rfl, -⟩ := done
      all_goals rfl
  | sched step => rw [execSched_frame done]
  | acct step => rw [execAcct_frame done]
  | obj step => rw [execObj_frame done]
  | bind step => rw [execBind_frame done]
  | tasklet step => rw [execTasklet_frame done]
  | wait step => rw [execWait_frame done]
  | ep step => rw [execEp_frame done]

/-- A lock is loaded from a cmgroup right before it is acquired. -/
theorem Expands.spin (flow : Expands s actor step code) {lock : LockId} {via : Via}
    (member : .lock (.spinVia g lock via) ∈ code) : lock = s.lockOf g := by
  induction flow <;> simp at member
  obtain ⟨rfl, rfl, -⟩ := member
  rfl

end Weights

/-- The micro-step writes the lock and queue pointers of the cmgroup, unless it fails. -/
def Instr.rewrites (g : GroupId) : Instr ι → Prop
  | .bind (.storeEpoll h _) | .bind (.detachStore h _) => h = g
  | _ => False

section Quiet

variable [Fintype ι] [Fintype κ] {y : Sys ι κ} {actor other : Actor ι κ} {step : Instr ι}
  {rest : Code ι} {g : GroupId}

/-- `tasklet_active` has at most one owner. -/
theorem Reachable.own_le_one (reached : Reachable y) (g : GroupId) :
    total (ownWeight g) y.todo ≤ 1 := by
  have bound : ∀ active scheduled : Bool, active.toInt - scheduled.toInt ≤ 1 := by decide
  linarith [reached.own g, bound (y.shared.taskletActive g) (y.shared.sched g)]

/-- No actor owns a negative share of `tasklet_active`. -/
theorem Reachable.own_load_nonneg (reached : Reachable y) (g : GroupId) (actor : Actor ι κ) :
    0 ≤ load (ownWeight g) (y.todo actor) :=
  (reached.own_nonneg g actor).nonneg
    fun step => add_nonneg (ownNeed_nonneg g step) (sealNeed_nonneg g step)

/-- A lock-out owns `tasklet_active`. -/
theorem Reachable.seal_le_own (reached : Reachable y) (g : GroupId) (actor : Actor ι κ) :
    load (sealWeight g) (y.todo actor) ≤ load (ownWeight g) (y.todo actor) := by
  have bound := (reached.own_secured g actor).nonneg (ownNeed_nonneg g)
  rw [load_sub] at bound
  linarith

/-- So it is as a check. -/
def Instr.spinsVia : Instr ι → Bool
  | .lock (.spinVia _ _ _) => true
  | _ => false

theorem Instr.spins.lock (step : Instr ι) (spins : step.spins) : step.spinsVia = true := by
  unfold Instr.spins at spins
  split at spins
  · rfl
  · exact spins.elim

/-- A lock loaded from a cmgroup is acquired next. -/
theorem Reachable.spin_front (reached : Reachable y) {lock : LockId} {via : Via}
    (present : .lock (.spinVia g lock via) ∈ y.todo actor) :
    ∃ tail, y.todo actor = .lock (.spinVia g lock via) :: tail := by
  have front := reached.front Instr.spins
    (fun flow _ member => absent_of_all _ _ Instr.spins.lock member (by induction flow <;> rfl))
    (fun flow _ member => absent_of_all _ _ Instr.spins.lock member (by induction flow <;> rfl)) actor
  cases code : y.todo actor with
  | nil => simp [code] at present
  | cons first tail =>
    rw [code] at present front
    rcases List.mem_cons.1 present with rfl | later
    · exact ⟨tail, rfl⟩
    · exact absurd trivial (front _ later)

/-- No tasklet is about to take the lock while it is locked out. -/
theorem Reachable.seal_blocks (reached : Reachable y) {lock : LockId}
    (locked : 1 ≤ load (sealWeight g) (y.todo actor))
    (head : y.todo other = .lock (.spinVia g lock .tasklet) :: rest) : False := by
  have single := reached.own_le_one g
  have mine := reached.seal_le_own g actor
  have secured := reached.own_secured g other
  rw [head] at secured
  have need := secured.head
  rw [load_sub, ← head] at need
  have weighs : ownNeed g (.lock (.spinVia g lock .tasklet) : Instr ι) = 1 := by
    simp [ownNeed, Via.tasklets]
  by_cases same : other = actor
  · subst same
    linarith [load_le_total (reached.own_load_nonneg g) other]
  · have others := (reached.seal_secured g other).nonneg (sealNeed_nonneg g)
    linarith [load_add_load_le_total (reached.own_load_nonneg g) same]

/-- `attached_mtx` has at most one holder. -/
theorem Reachable.mtx_unique (reached : Reachable y)
    (first : 1 ≤ load (mtxWeight g) (y.todo actor))
    (second : 1 ≤ load (mtxWeight g) (y.todo other)) : other = actor := by
  by_contra different
  have bound : ∀ b : Bool, b.toInt ≤ 1 := by decide
  linarith [reached.mtx g, bound (y.shared.attachedMtx g).isSome,
    load_add_load_le_total
      (fun actor => (reached.mtx_secured g actor).nonneg (mtxNeed_nonneg g)) different]

/-- The pointers are written after the lock-out has passed its lock and unlock pair. -/
theorem Reachable.rewrites_seal (reached : Reachable y) (head : y.todo actor = step :: rest)
    (writes : step.rewrites g) : 1 ≤ load (sealWeight g) (y.todo actor) := by
  have all := reached.seal_secured g actor
  rw [head] at all ⊢
  have tail := all.2.nonneg (sealNeed_nonneg g)
  have need := all.head
  unfold Instr.rewrites at writes
  split at writes
  · subst writes
    simp [sealWeight]
    omega
  · subst writes
    simp [sealNeed] at need
    simpa using need
  · exact absurd writes id

/-- The pointers are written under `attached_mtx`. -/
theorem Reachable.rewrites_mtx (reached : Reachable y) (head : y.todo actor = step :: rest)
    (writes : step.rewrites g) : 1 ≤ load (mtxWeight g) (y.todo actor) := by
  have all := reached.mtx_secured g actor
  rw [head] at all ⊢
  have need := all.head
  have weighs : mtxNeed g step = 1 := by
    unfold Instr.rewrites at writes
    split at writes
    all_goals first
      | exact absurd writes id
      | simp [mtxNeed, writes]
  linarith

/-- No waiter uses a cmgroup whose pointers are about to be written. -/
theorem Reachable.rewrites_waits (reached : Reachable y) (head : y.todo actor = step :: rest)
    (writes : step.rewrites g) {c : CtxId} {later : Instr ι} (present : later ∈ y.todo other) :
    ¬ later.waits c g := by
  intro waits
  have binding := reached.binding
  have member : step ∈ y.todo actor := by simp [head]
  have used := reached.ctx_used present (waits_users waits).ge
  have attached := binding.waiting other c g later present waits
  unfold Instr.rewrites at writes
  split at writes
  case h_1 h e =>
    subst writes
    obtain ⟨-, noAio⟩ := binding.attaching actor h _ member rfl
    rcases attached with here | ⟨third, next⟩
    · simp [noAio] at here
    · have both := weight_add_weight_le_total (attachWeight_nonneg h) member next (by simp)
      have single := reached.attach_le_one h
      simp [attachWeight] at both
      omega
  case h_2 h source =>
    subst writes
    rcases attached with here | ⟨third, next⟩
    · cases source with
      | epoll e =>
        have detaching := binding.detachingEpoll actor h e member
        have single := binding.single h
        grind
      | aio d =>
        have detaching := binding.detachingAio actor h d member
        grind
    · have free := binding.attaching third h _ next rfl
      cases source with
      | epoll e =>
        have detaching := binding.detachingEpoll actor h e member
        grind
      | aio d =>
        have detaching := binding.detachingAio actor h d member
        grind
  case h_3 => exact writes

/-- Whoever writes the pointers does not hold the lock through the cmgroup. -/
theorem Reachable.rewrites_self (reached : Reachable y) (head : y.todo actor = step :: rest)
    (writes : step.rewrites g) : load (viaWeight Via.all g) (y.todo actor) ≤ 0 := by
  have cover := reached.cover_secured Via.all_nonneg Via.all_le_one y.shared.lockOf g actor
  have single := reached.single_secured y.shared.lockOf (y.shared.lockOf g) actor
  have shallow := reached.shallow_secured actor
  rw [head] at cover single shallow ⊢
  have zero : viaWeight Via.all g step = 0 := by
    unfold Instr.rewrites at writes
    split at writes
    all_goals first
      | exact absurd writes id
      | simp [viaWeight]
  have covered := cover.2.nonneg fun _ => le_rfl
  have one := single.2.nonneg fun _ => le_rfl
  rw [load_sub] at covered one
  have depth : load depthWeight rest ≤ 0 := by
    have whole := shallow.head
    rw [load_neg, load_cons] at whole
    unfold Instr.rewrites at writes
    split at writes
    · simp [depthWeight, depthNeed] at whole
      linarith
    · simp [depthWeight, depthNeed] at whole
      linarith
    · exact absurd writes id
  rw [load_cons, zero]
  linarith

/-- A weight of waiters is that of a micro-step of `cmgroup_wait`. -/
theorem waits_of_weight (weighs : 0 < viaWeight Via.waiting g step) : ∃ c, step.waits c g := by
  unfold viaWeight at weighs
  split at weighs
  case h_1 h via | h_2 h _ via | h_3 h via =>
    split_ifs at weighs with same
    · cases via with
      | waiter c => exact ⟨c, rfl, same⟩
      | _ => simp [Via.waiting] at weighs
    · simp at weighs
  case h_11 | h_12 =>
    split_ifs at weighs with same
    · exact ⟨_, rfl, same⟩
    · simp at weighs
  all_goals
    first
    | (split_ifs at weighs <;> simp [Via.waiting] at weighs)
    | simp at weighs

/-- Nobody uses the lock through a cmgroup while its pointers are written. -/
theorem Locking.quiet (locking : Locking y) (reached : Reachable y)
    (head : y.todo actor = step :: rest) (writes : step.rewrites g) :
    (∀ other, load (viaWeight Via.all g) (y.todo other) = 0) ∧
      ∀ other lock via, .lock (.spinVia g lock via) ∉ y.todo other := by
  have locked := reached.rewrites_seal head writes
  have mine := reached.rewrites_mtx head writes
  constructor
  · intro other
    have nonneg := (reached.via_secured Via.all_nonneg g other).nonneg fun _ => le_rfl
    by_cases same : other = actor
    · subst same
      exact le_antisymm (reached.rewrites_self head writes) nonneg
    · have tasklets := locking.locked g actor locked other
      have mutexes : load (viaWeight Via.mutexes g) (y.todo other) ≤ 0 := by
        have bound := (reached.mutex_secured g other).nonneg (drainNeed_nonneg g)
        rw [load_sub] at bound
        have free : load (mtxWeight g) (y.todo other) ≤ 0 := by
          by_contra holds
          exact same (reached.mtx_unique mine (by omega))
        omega
      have waiting : load (viaWeight Via.waiting g) (y.todo other) ≤ 0 := by
        by_contra holds
        obtain ⟨later, present, weighs⟩ := exists_weight_pos (not_le.1 holds)
        obtain ⟨c, waits⟩ := waits_of_weight weighs
        exact reached.rewrites_waits head writes present waits
      rw [load_via_all] at nonneg ⊢
      omega
  · intro other lock via present
    obtain ⟨tail, front⟩ : ∃ tail, y.todo other = .lock (.spinVia g lock via) :: tail :=
      reached.spin_front present
    have different : other ≠ actor := by
      rintro rfl
      rw [head, List.cons.injEq] at front
      rw [front.1] at writes
      exact writes
    cases via with
    | tasklet => exact reached.seal_blocks locked front
    | waiter c => exact reached.rewrites_waits head writes present ⟨rfl, rfl⟩
    | mutex | lockout =>
      have need := reached.mtx_secured g other
      rw [front] at need
      have holds := need.head
      rw [← front] at holds
      refine different (reached.mtx_unique mine (le_trans ?_ holds))
      simp [mtxNeed, Via.mutexes]

end Quiet

section Kept

variable [Fintype ι] [Fintype κ] {y : Sys ι κ} {actor other : Actor ι κ} {step : Instr ι}
  {rest gained : Code ι} {g : GroupId} {choice : Choice} {s s' : Shared ι κ}
  {todo : Actor ι κ → Code ι}

/-- At most one spinlock is held: none is left after its release. -/
theorem Reachable.released (reached : Reachable y) (head : y.todo actor = step :: rest)
    (releases : depthWeight step = 1) (ptr : GroupId → LockId) (lock : LockId) :
    load (holdWeight ptr lock) rest ≤ 0 := by
  have single := reached.single_secured ptr lock actor
  have shallow := reached.shallow_secured actor
  rw [head] at single shallow
  have one := single.2.nonneg fun _ => le_rfl
  have depth := shallow.least depthNeed_low (by decide)
  rw [load_sub] at one
  rw [load_neg, load_cons] at depth
  omega

/-- Acquiring a free lock makes the actor its owner. -/
theorem Locking.acquire (locking : Locking y) (head : y.todo actor = step :: rest) {taken : LockId}
    (weight : ∀ lock, lock ≠ taken → holdWeight y.shared.lockOf lock step = 0)
    (free : y.shared.owner taken = none) (lock : LockId)
    (holds : 1 ≤ load (holdWeight y.shared.lockOf lock) (update y.todo actor rest other)) :
    update y.shared.owner taken (some actor) lock = some other := by
  by_cases same : lock = taken
  · subst same
    rw [Function.update_self]
    by_cases self : other = actor
    · rw [self]
    · rw [Function.update_of_ne self] at holds
      have owner := locking.held lock other holds
      simp [free] at owner
  · rw [Function.update_of_ne same]
    refine locking.held lock other ?_
    by_cases self : other = actor
    · subst self
      rw [Function.update_self] at holds
      rw [head, load_cons, weight lock same]
      omega
    · rwa [Function.update_of_ne self] at holds

/-- Releasing a lock leaves it without owner and without holder. -/
theorem Locking.release (locking : Locking y) (reached : Reachable y)
    (head : y.todo actor = step :: rest) {left : LockId} (depth : depthWeight step = 1)
    (one : holdWeight y.shared.lockOf left step = 1)
    (weight : ∀ lock, lock ≠ left → holdWeight y.shared.lockOf lock step = 0) (lock : LockId)
    (holds : 1 ≤ load (holdWeight y.shared.lockOf lock) (update y.todo actor rest other)) :
    update y.shared.owner left none lock = some other := by
  have all := reached.hold_secured y.shared.lockOf left actor
  rw [head] at all
  have mine : y.shared.owner left = some actor := by
    refine locking.held left actor ?_
    rw [head, load_cons, one]
    linarith [all.2.nonneg fun _ => le_rfl]
  by_cases same : lock = left
  · subst same
    by_cases self : other = actor
    · subst self
      rw [Function.update_self] at holds
      linarith [reached.released head depth y.shared.lockOf lock]
    · rw [Function.update_of_ne self] at holds
      have owner := locking.held lock other holds
      rw [mine, Option.some.injEq] at owner
      exact absurd owner.symm self
  · rw [Function.update_of_ne same]
    refine locking.held lock other ?_
    by_cases self : other = actor
    · subst self
      rw [Function.update_self] at holds
      rw [head, load_cons, weight lock same]
      omega
    · rwa [Function.update_of_ne self] at holds

/-- The pointers change only when they are written. -/
theorem exec_lockOf (done : exec actor choice s step = some (s', gained)) :
    s'.lockOf = s.lockOf ∨ ∃ g new, step.rewrites g ∧ s'.lockOf = update s.lockOf g new := by
  have same : s'.lockPtr = s.lockPtr → s'.lockOf = s.lockOf := by
    intro equal
    funext g
    simp [Shared.lockOf, equal]
  have moved : ∀ g pointer, s'.lockPtr = update s.lockPtr g pointer →
      ∃ new, s'.lockOf = update s.lockOf g new := by
    intro g pointer equal
    refine ⟨s'.lockOf g, ?_⟩
    funext h
    rw [Function.update_apply]
    split_ifs with here
    · rw [here]
    · simp [Shared.lockOf, equal, here]
  cases step with
  | bind b =>
    cases b with
    | storeEpoll g e =>
      simp only [exec, execBind] at done
      split at done
      all_goals simp only [Option.some.injEq, Prod.mk.injEq] at done
      all_goals obtain ⟨rfl, -⟩ := done
      · obtain ⟨new, equal⟩ := moved g (some e) rfl
        exact .inr ⟨g, new, rfl, equal⟩
      · exact .inl rfl
    | detachStore g source =>
      simp only [exec, execBind, Option.some.injEq, Prod.mk.injEq] at done
      obtain ⟨rfl, -⟩ := done
      obtain ⟨new, equal⟩ := moved g none rfl
      exact .inr ⟨g, new, rfl, equal⟩
    | _ =>
      simp only [exec, execBind] at done
      repeat' split at done
      all_goals simp only [Option.some.injEq, Prod.mk.injEq] at done
      all_goals obtain ⟨rfl, -⟩ := done
      all_goals exact .inl rfl
  | _ => exact .inl (same (exec_sameBinding (by simp) done).lockPtr)

/-- Code that does not acquire or release a lock keeps who holds what. -/
theorem Locking.held_quiet (locking : Locking y) (reached : Reachable y)
    (head : y.todo actor = step :: rest) (quiet : ¬ step.locks)
    (done : exec actor choice y.shared step = some (s', gained))
    (move : Move y.todo todo actor [step] gained) (lock : LockId)
    (holds : 1 ≤ load (holdWeight s'.lockOf lock) (todo other)) :
    s'.owner lock = some other := by
  have flow := exec_expands done
  rw [exec_owner quiet done]
  refine locking.held lock other ?_
  have kept : load (holdWeight y.shared.lockOf lock) (todo other) =
      load (holdWeight y.shared.lockOf lock) (y.todo other) :=
    move.load_eq (by rw [flow.hold_load _ _ quiet, load_cons, load_nil, add_zero]) other
  rcases exec_lockOf done with same | ⟨g, new, writes, moved⟩
  · rwa [same, kept] at holds
  · have via : load (viaWeight Via.all g) (todo other) = 0 := by
      rw [move.load_eq (by rw [flow.via_load _ quiet, load_cons, load_nil, add_zero]) other]
      exact (locking.quiet reached head writes).1 other
    rw [moved, load_hold_update, via, mul_zero, add_zero, kept] at holds
    exact holds

/-- A micro-step keeps who holds what. -/
theorem Locking.held_exec (locking : Locking y) (reached : Reachable y)
    (head : y.todo actor = step :: rest)
    (done : exec actor choice y.shared step = some (s', gained))
    (move : Move y.todo todo actor [step] gained) (lock : LockId)
    (holds : 1 ≤ load (holdWeight s'.lockOf lock) (todo other)) :
    s'.owner lock = some other := by
  by_cases quiet : step.locks
  case neg => exact locking.held_quiet reached head quiet done move lock holds
  obtain ⟨tail, before, rfl⟩ := move
  obtain rfl : tail = rest := by
    rw [head] at before
    simpa using before.symm
  unfold Instr.locks at quiet
  split at quiet
  case h_1 g taken via =>
    have pointer := locking.spin actor g taken via (by simp [head])
    simp only [exec, execLock] at done
    split at done
    all_goals simp only [Option.some.injEq, Prod.mk.injEq, reduceCtorEq] at done
    obtain ⟨rfl, rfl⟩ := done
    rename_i free
    refine locking.acquire head ?_ (not_not.1 free) lock holds
    intro other different
    simp only [holdWeight, ← pointer]
    exact if_neg different.symm
  case h_2 g via =>
    simp only [exec, execLock, Option.some.injEq, Prod.mk.injEq] at done
    obtain ⟨rfl, rfl⟩ := done
    refine locking.release reached head rfl (by simp [holdWeight]) ?_ lock holds
    intro other different
    exact if_neg different.symm
  case h_3 taken =>
    simp only [exec, execLock] at done
    split at done
    all_goals simp only [Option.some.injEq, Prod.mk.injEq, reduceCtorEq] at done
    obtain ⟨rfl, rfl⟩ := done
    rename_i free
    refine locking.acquire head ?_ (not_not.1 free) lock holds
    intro other different
    exact if_neg different.symm
  case h_4 left =>
    simp only [exec, execLock, Option.some.injEq, Prod.mk.injEq] at done
    obtain ⟨rfl, rfl⟩ := done
    refine locking.release reached head rfl (by simp [holdWeight, lockWeight]) ?_ lock holds
    intro other different
    exact if_neg different.symm
  case h_5 => exact absurd quiet id

/-- Writing the pointers loads no lock. -/
theorem Expands.no_spin (writes : step.rewrites g) (flow : Expands s actor step gained)
    {h : GroupId} {lock : LockId} {via : Via} : .lock (.spinVia h lock via) ∉ gained := by
  induction flow <;> first
    | exact absurd writes id
    | simp

/-- A micro-step keeps loaded locks valid. -/
theorem Locking.spin_exec (locking : Locking y) (reached : Reachable y)
    (head : y.todo actor = step :: rest)
    (done : exec actor choice y.shared step = some (s', gained))
    (move : Move y.todo todo actor [step] gained) {lock : LockId} {via : Via}
    (present : .lock (.spinVia g lock via) ∈ todo other) : lock = s'.lockOf g := by
  have flow := exec_expands done
  rcases exec_lockOf done with same | ⟨h, new, writes, moved⟩
  · rw [same]
    rcases move.mem present with old | ⟨rfl, added⟩
    · exact locking.spin other g lock via old
    · exact flow.spin added
  · have old := (move.mem present).resolve_right fun added => flow.no_spin writes added.2
    rw [moved, Function.update_of_ne]
    · exact locking.spin other g lock via old
    · rintro rfl
      exact (locking.quiet reached head writes).2 other lock via old

/-- Only the tasklet's acquisition of the lock increases what tasklets hold. -/
theorem Locking.tasklets_exec (done : exec actor choice y.shared step = some (s', gained))
    (move : Move y.todo todo actor [step] gained)
    (apart : ∀ lock, step ≠ .lock (.spinVia g lock .tasklet)) :
    load (viaWeight Via.tasklets g) (todo other) ≤ load (viaWeight Via.tasklets g) (y.todo other) := by
  have flow := exec_expands done
  have less : load (viaWeight Via.tasklets g) gained ≤ viaWeight Via.tasklets g step := by
    by_cases quiet : step.locks
    case neg => exact (flow.via_load _ quiet).le
    unfold Instr.locks at quiet
    split at quiet
    case h_5 => exact absurd quiet id
    all_goals cases flow
    all_goals simp only [load_nil]
    all_goals dsimp only [viaWeight]
    case h_1.spinVia h lock via =>
      cases via with
      | tasklet =>
        rw [if_neg]
        rintro rfl
        exact apart lock rfl
      | _ => simp [Via.tasklets]
    case h_2.unlockVia h via =>
      have nonneg := via.tasklets_nonneg
      split_ifs <;> omega
    all_goals exact le_rfl
  obtain ⟨rest, before, rfl⟩ := move
  by_cases same : other = actor
  · subst same
    rw [Function.update_self, before, load_append, load_append, load_cons, load_nil]
    linarith
  · rw [Function.update_of_ne same]

/-- A micro-step keeps the tasklet from a lock it is locked out of. -/
theorem Locking.locked_exec (locking : Locking y) (reached : Reachable y)
    (head : y.todo actor = step :: rest)
    (done : exec actor choice y.shared step = some (s', gained))
    (move : Move y.todo todo actor [step] gained) {holder : Actor ι κ}
    (locked : 1 ≤ load (sealWeight g) (todo holder)) :
    load (viaWeight Via.tasklets g) (todo other) ≤ 0 := by
  have flow := exec_expands done
  by_cases before : 1 ≤ load (sealWeight g) (y.todo holder)
  · refine (Locking.tasklets_exec done move fun lock same => ?_).trans
      (locking.locked g holder before other)
    rw [same] at head
    exact reached.seal_blocks before head
  · -- the lock-out has just acquired the lock, so nobody holds it
    have spins : step.spins := by
      by_contra quiet
      have less := flow.seal_load (g := g) quiet
      obtain ⟨tail, code, rfl⟩ := move
      by_cases same : holder = actor
      · subst same
        rw [Function.update_self, load_append] at locked
        rw [code, load_append, load_cons, load_nil] at before
        omega
      · rw [Function.update_of_ne same] at locked
        exact before locked
    unfold Instr.spins at spins
    split at spins
    case h_2 => exact absurd spins id
    case h_1 h lock via =>
      cases flow
      have lockout : h = g ∧ via = .lockout ∧ holder = actor := by
        obtain ⟨tail, code, rfl⟩ := move
        by_cases same : holder = actor
        · subst same
          rw [Function.update_self, List.nil_append] at locked
          rw [code, load_append, load_cons, load_nil] at before
          dsimp only [sealWeight] at before
          refine ⟨?_, ?_, rfl⟩
          · by_contra different
            rw [if_neg different] at before
            omega
          · cases via with
            | lockout => rfl
            | _ =>
              simp only [Via.lockouts] at before
              split_ifs at before <;> omega
        · rw [Function.update_of_ne same] at locked
          exact absurd locked before
      obtain ⟨rfl, rfl, rfl⟩ := lockout
      refine (Locking.tasklets_exec done move (by simp)).trans ?_
      have pointer := locking.spin holder h lock .lockout (by simp [head])
      simp only [exec, execLock] at done
      split at done
      all_goals simp only [Option.some.injEq, Prod.mk.injEq, reduceCtorEq] at done
      rename_i free
      by_contra holds
      have cover := (reached.cover_secured Via.tasklets_nonneg Via.tasklets_le_one
        y.shared.lockOf h other).nonneg fun _ => le_rfl
      rw [load_sub] at cover
      have owner := locking.held (y.shared.lockOf h) other (by omega)
      rw [← pointer, not_not.1 free] at owner
      simp at owner

/-- Operations start without locks. -/
theorem Starts.unlocked (flow : Starts s actor gained) (ptr : GroupId → LockId) (lock : LockId) :
    load (holdWeight ptr lock) gained = 0 ∧ load (viaWeight Via.tasklets g) gained = 0 ∧
      load (sealWeight g) gained = 0 ∧ ∀ h lock via, .lock (.spinVia h lock via) ∉ gained := by
  induction flow
  all_goals refine ⟨?_, ?_, ?_, by simp⟩
  all_goals simp only [load_cons, load_nil]
  all_goals try dsimp only [holdWeight, lockWeight, viaWeight, sealWeight, Via.tasklets,
    Via.lockouts]
  all_goals first
    | rfl
    | (split_ifs <;> rfl)

/-- Starting an operation keeps locks. -/
theorem Locking.start (locking : Locking y) (flow : Starts y.shared actor gained)
    (owner : s'.owner = y.shared.owner) (lockPtr : s'.lockPtr = y.shared.lockPtr)
    (move : Move y.todo todo actor [] gained) : Locking ⟨s', todo⟩ := by
  have lockOf : s'.lockOf = y.shared.lockOf := by
    funext g
    simp [Shared.lockOf, lockPtr]
  constructor
  case held =>
    intro lock other holds
    dsimp only at holds ⊢
    rw [lockOf, move.load_eq (flow.unlocked (g := 0) _ lock).1] at holds
    rw [owner]
    exact locking.held lock other holds
  case spin =>
    intro other g lock via present
    dsimp only at present ⊢
    rw [lockOf]
    refine locking.spin other g lock via ?_
    exact (move.mem present).resolve_right fun added =>
      (flow.unlocked (g := 0) y.shared.lockOf lock).2.2.2 g lock via added.2
  case locked =>
    intro g holder locked other
    dsimp only at locked ⊢
    have quiet := flow.unlocked (g := g) y.shared.lockOf (.own g)
    rw [move.load_eq quiet.2.2.1] at locked
    rw [move.load_eq quiet.2.1]
    exact locking.locked g holder locked other

/-- In every run locks and their users fit together. -/
theorem Reachable.locking (reached : Reachable y) : Locking y := by
  induction reached with
  | start initial =>
    constructor
    all_goals simp [initial.idle]
  | step reached _ taken ih =>
    obtain ⟨actor, spent, gained, effect, move⟩ := next_effect taken
    cases effect with
    | exec done =>
      obtain ⟨rest, head, -⟩ := id move
      constructor
      case held => exact fun lock other holds => ih.held_exec reached head done move lock holds
      case spin => exact fun other g lock via present => ih.spin_exec reached head done move present
      case locked => exact fun g holder locked other => ih.locked_exec reached head done move locked
    | task idle able done =>
      have frame := startTask_frame (Reachable.unknown reached) done
      exact ih.start (startTask_starts done) (by rw [frame]) (by rw [frame]) move
    | cpu idle done =>
      have frame := startCpu_frame done
      exact ih.start (startCpu_starts done) (by rw [frame]) (by rw [frame]) move

end Kept

end Cmgroups
