import Cmgroups.Verif.Ledgers

/-!
# Bindings

The two sides of an attachment, `attached_epoll` and `attached_aio` of a cmgroup and the
`cmgroup` field of an event source, are written under different locks. `Binding` says how
they fit together in every state of a run: by the stage of the event source and by the code
that is about to write one of the sides.
-/

set_option linter.unusedSectionVars false

namespace Cmgroups

open Function (update)
open Pool

variable {ι κ : Type} [DecidableEq ι] [DecidableEq κ]

/-- The micro-step is a store of an attachment of the cmgroup that is still to be made. -/
def Instr.attaches (g : GroupId) : Instr ι → Prop
  | .bind (.storeEpoll h _) | .bind (.storeAio h _) | .bind (.doAttachAio h _) => h = g
  | _ => False

/-- The micro-step is one of `cmgroup_wait`, called for the AIO context and its cmgroup. -/
def Instr.waits (c : CtxId) (g : GroupId) : Instr ι → Prop
  | .wait (.enter _ d h _ _ _ _) | .wait (.loop _ d h _ _) | .wait (.fast _ d h _ _)
  | .wait (.begin _ d h _ _) | .wait (.check _ d h _ _) | .wait (.add _ d h _ _)
  | .wait (.signal _ d h _ _) | .wait (.woken _ d h _ _) => d = c ∧ h = g
  | .lock (.lockVia h via) | .lock (.spinVia h _ via) | .lock (.unlockVia h via) =>
    via = .waiter c ∧ h = g
  | _ => False

/-- How the two sides of attachments fit together. -/
structure Binding (y : Sys ι κ) : Prop where
  /-- Lock and queue of a cmgroup are those of its epoll, or its own. -/
  pointers : ∀ g, y.shared.lockPtr g = y.shared.attachedEpoll g ∧
    y.shared.wqPtr g = y.shared.attachedEpoll g
  /-- No cmgroup has both attachments. -/
  single : ∀ g, y.shared.attachedEpoll g = none ∨ y.shared.attachedAio g = none
  /-- An epoll in use is bound to a cmgroup that is attached to it. -/
  epoll : ∀ e g, y.shared.epCmgroup e = some g → y.shared.epStage e ≠ .freeing →
    y.shared.epStage e ≠ .freed → y.shared.attachedEpoll g = some e
  /-- An attached epoll is bound to the cmgroup, and exists until the cmgroup is detached. -/
  attached : ∀ e g, y.shared.attachedEpoll g = some e → y.shared.epCmgroup e = some g ∧
    (y.shared.epStage e = .published ∨
      ∃ actor, .bind (.detachStore g (.epoll e)) ∈ y.todo actor)
  /-- An AIO context in use is bound to a cmgroup that is attached to it, or about to be. -/
  aio : ∀ c g, y.shared.ctxCmgroup c = some g → y.shared.ctxStage c ≠ .freeing →
    y.shared.ctxStage c ≠ .freed → y.shared.attachedAio g = some c ∨
      ∃ actor, .bind (.doAttachAio g c) ∈ y.todo actor
  /-- A cmgroup that is about to be attached is not attached. -/
  attaching : ∀ actor g, ∀ step ∈ y.todo actor, step.attaches g →
    y.shared.attachedEpoll g = none ∧ y.shared.attachedAio g = none
  /-- A cmgroup that is about to be detached from an epoll is attached to it. -/
  detachingEpoll : ∀ actor g e, .bind (.detachStore g (.epoll e)) ∈ y.todo actor →
    y.shared.attachedEpoll g = some e ∧ y.shared.epStage e = .freeing
  /-- A cmgroup that is about to be detached from an AIO context is attached to it. -/
  detachingAio : ∀ actor g c, .bind (.detachStore g (.aio c)) ∈ y.todo actor →
    y.shared.attachedAio g = some c ∧ y.shared.ctxStage c = .freeing
  /-- `cmgroup_wait` is called for a cmgroup that is attached to the AIO context, or about to
  be. -/
  waiting : ∀ actor c g, ∀ step ∈ y.todo actor, step.waits c g →
    y.shared.attachedAio g = some c ∨ ∃ other, .bind (.doAttachAio g c) ∈ y.todo other

section Flow

variable {s : Shared ι κ} {actor : Actor ι κ} {step : Instr ι} {code : Code ι} {g : GroupId}

/-- An attachment goes on, or begins while the cmgroup is not attached. -/
theorem Expands.attaches (flow : Expands s actor step code) :
    ∀ later ∈ code, later.attaches g →
      step.attaches g ∨ s.attachedEpoll g = none ∧ s.attachedAio g = none := by
  induction flow <;>
    simp only [List.mem_cons, List.not_mem_nil, or_false, forall_eq_or_imp, forall_eq,
      IsEmpty.forall_iff, implies_true] <;>
    dsimp only [Instr.attaches]
  all_goals first
    | exact False.elim
    | (simp only [false_implies, and_self]; done)
    | grind

/-- `cmgroup_wait` goes on, or is called for the cmgroup of an AIO context in use. -/
theorem Expands.waits {c : CtxId} (flow : Expands s actor step code) :
    ∀ later ∈ code, later.waits c g →
      step.waits c g ∨ s.ctxCmgroup c = some g ∧ usersNeed c step = 1 := by
  induction flow <;>
    simp only [List.mem_cons, List.not_mem_nil, or_false, forall_eq_or_imp, forall_eq,
      IsEmpty.forall_iff, implies_true] <;>
    dsimp only [Instr.waits, usersNeed]
  all_goals first
    | exact False.elim
    | (simp only [false_implies, and_self]; done)
    | grind

/-- A detachment is not started by other code. -/
theorem Expands.no_detach {source : Source} (flow : Expands s actor step code) :
    .bind (.detachStore g source) ∉ code := by
  induction flow <;> simp

/-- The second store of an attachment to an AIO context follows the first. -/
theorem Expands.after_storeAio {c : CtxId} (flow : Expands s actor step code)
    (member : .bind (.doAttachAio g c) ∈ code) : step = .bind (.storeAio g c) := by
  induction flow <;> simp_all

/-- Operations do not start in the middle of an attachment or of `cmgroup_wait`. -/
theorem Starts.quiet {c : CtxId} (flow : Starts s actor code) :
    ∀ later ∈ code, ¬ later.attaches g ∧ ¬ later.waits c g := by
  induction flow <;>
    simp only [List.mem_cons, List.not_mem_nil, or_false, forall_eq_or_imp, forall_eq,
      IsEmpty.forall_iff, implies_true] <;>
    dsimp only [Instr.attaches, Instr.waits]
  all_goals grind

/-- A detachment starts when the event source is no longer used. -/
theorem Starts.detach {source : Source} (flow : Starts s actor code)
    (member : .bind (.detachStore g source) ∈ code) :
    (∃ e, source = .epoll e ∧ s.epCmgroup e = some g ∧ s.epStage e = .published) ∨
      ∃ c, source = .aio c ∧ s.ctxCmgroup c = some g ∧ s.ctxStage c = .killed ∧
        s.users c = 0 := by
  induction flow
  case epollCloseBound bound usable =>
    obtain ⟨rfl, rfl⟩ : g = _ ∧ source = _ := by simpa using member
    exact .inl ⟨_, rfl, bound, usable.1⟩
  case freeIoctxBound bound unused =>
    obtain ⟨rfl, rfl⟩ : g = _ ∧ source = _ := by simpa using member
    exact .inr ⟨_, rfl, bound, unused⟩
  all_goals simp at member

end Flow

/-- `cmgroup_wait` runs with a reference to the AIO context. -/
theorem waits_users {c : CtxId} {g : GroupId} {step : Instr ι} (waits : step.waits c g) :
    usersNeed c step = 1 := by
  unfold Instr.waits at waits
  split at waits
  all_goals first
    | exact absurd waits id
    | (obtain ⟨rfl, -⟩ := waits; simp [usersNeed, Via.waiters])

section Counting

variable [Fintype ι] [Fintype κ] {y : Sys ι κ} {actor : Actor ι κ} {step : Instr ι}

/-- Code that uses an epoll file runs while the file is open. -/
theorem Reachable.epoll_open (reached : Reachable y) {e : EpollId} (member : step ∈ y.todo actor)
    (uses : 1 ≤ epUsersNeed e step) : y.shared.epStage e = .published := by
  have load := (reached.epUsers_secured e actor).need_le_load (epUsersWeight_nonneg e) member
  have total := load_le_total (fun other => load_nonneg (epUsersWeight_nonneg e) (y.todo other))
    actor
  have users := reached.epoll e .users
  have closed := reached.epoll e .closed
  dsimp only [EpEntry.weight, EpEntry.stock] at users closed
  by_contra other
  rw [if_neg other] at closed
  have none : Pool.total (fun _ : Instr ι => 0) y.todo = 0 := by simp [Pool.total, Pool.load]
  omega

/-- Code that uses an AIO context runs while the context is not being freed. -/
theorem Reachable.ctx_used (reached : Reachable y) {c : CtxId} (member : step ∈ y.todo actor)
    (uses : 1 ≤ usersNeed c step) :
    y.shared.ctxStage c = .published ∨ y.shared.ctxStage c = .killed := by
  have load := (reached.users_secured c actor).need_le_load (usersWeight_nonneg c) member
  have total := load_le_total (fun other => load_nonneg (usersWeight_nonneg c) (y.todo other))
    actor
  have users := reached.ctx c .users
  dsimp only [CtxEntry.weight, CtxEntry.stock] at users
  split at users
  · exact .inl ‹_›
  · exact .inr ‹_›
  · omega

/-- At most one attachment of a cmgroup is in progress. -/
theorem Reachable.attach_le_one (reached : Reachable y) (g : GroupId) :
    total (attachWeight g) y.todo ≤ 1 := by
  have covered := total_le_total (fun _ => le_rfl) (reached.attach_secured g)
  have mtx := reached.mtx g
  have bound : ∀ b : Bool, b.toInt ≤ 1 := by decide
  linarith [bound (y.shared.attachedMtx g).isSome]

/-- At most one actor frees an event source. -/
theorem Reachable.kfree_le_one (reached : Reachable y) (source : Source) :
    total (kfreeWeight source) y.todo ≤ 1 := by
  cases source with
  | epoll e =>
    have kfree := reached.epoll e .kfree
    dsimp only [EpEntry.weight, EpEntry.stock] at kfree
    split at kfree <;> omega
  | aio c =>
    have kfree := reached.ctx c .kfree
    dsimp only [CtxEntry.weight, CtxEntry.stock] at kfree
    split at kfree <;> omega

/-- At most one detachment of a cmgroup from an event source is in progress. -/
theorem Reachable.detach_le_one (reached : Reachable y) (source : Source) (g : GroupId) :
    total (detachWeight source g) y.todo ≤ 1 :=
  (total_le_total (fun _ => le_rfl) (reached.kfree_secured source g)).trans
    (reached.kfree_le_one source)

/-- An event source is not freed while a cmgroup is still to be detached from it. -/
theorem Reachable.kfree_detached (reached : Reachable y) {source : Source} {g : GroupId}
    {rest : Code ι} {other : Actor ι κ} (head : y.todo actor = step :: rest)
    (frees : kfreeWeight source step = 1) (keeps : ∀ g, step ≠ .bind (.detachStore g source)) :
    .bind (.detachStore g source) ∉ y.todo other := by
  intro member
  have single := reached.kfree_le_one source
  have weighs : detachWeight source g (.bind (.detachStore g source) : Instr ι) = 1 := by
    simp [detachWeight]
  by_cases same : other = actor
  · subst same
    rw [head] at member
    have later : .bind (.detachStore g source) ∈ rest :=
      (List.mem_cons.1 member).resolve_left fun equal => keeps g equal.symm
    have tail : Secured (fun i => kfreeWeight source i - detachWeight source g i) (fun _ => 0) 0
        rest := by
      have all := reached.kfree_secured source g other
      rw [head] at all
      exact all.2
    have bound := tail.nonneg fun _ => le_rfl
    rw [load_sub] at bound
    have lower := weight_le_load (detachWeight_nonneg source g) later
    have upper := load_le_total
      (fun actor => load_nonneg (kfreeWeight_nonneg source) (y.todo actor)) other
    rw [head, load_cons] at upper
    omega
  · have bound := (reached.kfree_secured source g other).nonneg fun _ => le_rfl
    rw [load_sub] at bound
    have lower := weight_le_load (detachWeight_nonneg source g) member
    have upper := load_add_load_le_total
      (fun actor => load_nonneg (kfreeWeight_nonneg source) (y.todo actor)) same
    have here : step ∈ y.todo actor := by simp [head]
    have mine := weight_le_load (kfreeWeight_nonneg source) here
    omega

end Counting

/-- The fields of attachments are the same. -/
structure SameBinding (s s' : Shared ι κ) : Prop where
  lockPtr : s'.lockPtr = s.lockPtr
  wqPtr : s'.wqPtr = s.wqPtr
  attachedEpoll : s'.attachedEpoll = s.attachedEpoll
  attachedAio : s'.attachedAio = s.attachedAio
  epStage : s'.epStage = s.epStage
  epCmgroup : s'.epCmgroup = s.epCmgroup
  ctxStage : s'.ctxStage = s.ctxStage
  ctxCmgroup : s'.ctxCmgroup = s.ctxCmgroup

/-- Micro-steps outside the binding code keep the fields of attachments. -/
theorem exec_sameBinding {actor : Actor ι κ} {choice : Choice} {step : Instr ι}
    {s s' : Shared ι κ} {code : Code ι} (other : ∀ b, step ≠ .bind b)
    (done : exec actor choice s step = some (s', code)) : SameBinding s s' := by
  cases step with
  | bind b => exact absurd rfl (other b)
  | sched step => rw [execSched_frame done]; constructor <;> rfl
  | acct step => rw [execAcct_frame done]; constructor <;> rfl
  | obj step => rw [execObj_frame done]; constructor <;> rfl
  | lock step => rw [execLock_frame done]; constructor <;> rfl
  | tasklet step => rw [execTasklet_frame done]; constructor <;> rfl
  | wait step => rw [execWait_frame done]; constructor <;> rfl
  | ep step => rw [execEp_frame done]; constructor <;> rfl

section Kept

variable [Fintype ι] [Fintype κ] {y : Sys ι κ} {actor : Actor ι κ} {step : Instr ι}
  {gained rest : Code ι} {todo : Actor ι κ → Code ι} {s s' : Shared ι κ}

/-- Bindings depend on the fields of attachments only. -/
theorem Binding.congr (same : SameBinding s s') (binding : Binding ⟨s, todo⟩) :
    Binding ⟨s', todo⟩ := by
  obtain ⟨lockPtr, wqPtr, attachedEpoll, attachedAio, epStage, epCmgroup, ctxStage, ctxCmgroup⟩ :=
    same
  constructor <;>
    simp only [lockPtr, wqPtr, attachedEpoll, attachedAio, epStage, epCmgroup, ctxStage,
      ctxCmgroup]
  case pointers => exact binding.pointers
  case single => exact binding.single
  case epoll => exact binding.epoll
  case attached => exact binding.attached
  case aio => exact binding.aio
  case attaching => exact binding.attaching
  case detachingEpoll => exact binding.detachingEpoll
  case detachingAio => exact binding.detachingAio
  case waiting => exact binding.waiting

/-- Going on in the code keeps bindings, but for the last stores of an attachment or of a
detachment. -/
theorem Binding.proceed (reached : Reachable y) (binding : Binding y)
    (flow : Expands y.shared actor step gained) (move : Move y.todo todo actor [step] gained)
    (noAttach : ∀ g c, step ≠ .bind (.doAttachAio g c))
    (noDetach : ∀ g source, step ≠ .bind (.detachStore g source)) :
    Binding ⟨y.shared, todo⟩ := by
  have member : step ∈ y.todo actor := by
    obtain ⟨rest, before, -⟩ := move
    simp [before]
  have pending : ∀ {g c}, (∃ other, .bind (.doAttachAio g c) ∈ y.todo other) →
      ∃ other, .bind (.doAttachAio g c) ∈ todo other := by
    rintro g c ⟨other, present⟩
    exact ⟨other, move.keep present (by simpa using (noAttach g c).symm)⟩
  constructor
  case pointers => exact binding.pointers
  case single => exact binding.single
  case epoll => exact binding.epoll
  case attached =>
    intro e g attached
    refine (binding.attached e g attached).imp_right (Or.imp_right ?_)
    rintro ⟨other, present⟩
    exact ⟨other, move.keep present (by simpa using (noDetach g (.epoll e)).symm)⟩
  case aio =>
    intro c g bound alive present
    exact (binding.aio c g bound alive present).imp_right pending
  case attaching =>
    intro other g later present attaches
    rcases move.mem present with old | ⟨rfl, new⟩
    · exact binding.attaching other g later old attaches
    · rcases flow.attaches later new attaches with before | free
      · exact binding.attaching other g step member before
      · exact free
  case detachingEpoll =>
    intro other g e present
    rcases move.mem present with old | ⟨rfl, new⟩
    · exact binding.detachingEpoll other g e old
    · exact absurd new flow.no_detach
  case detachingAio =>
    intro other g c present
    rcases move.mem present with old | ⟨rfl, new⟩
    · exact binding.detachingAio other g c old
    · exact absurd new flow.no_detach
  case waiting =>
    intro other c g later present waits
    rcases move.mem present with old | ⟨rfl, new⟩
    · exact (binding.waiting other c g later old waits).imp_right pending
    · rcases flow.waits later new waits with before | ⟨bound, uses⟩
      · exact (binding.waiting other c g step member before).imp_right pending
      · have used := reached.ctx_used member uses.ge
        refine (binding.aio c g bound ?_ ?_).imp_right pending
        · rcases used with stage | stage <;> simp [stage]
        · rcases used with stage | stage <;> simp [stage]

/-- No attachment of the cmgroup is in progress once the one in progress has made its last
store. -/
theorem Reachable.attach_done (reached : Reachable y) {g : GroupId}
    (move : Move y.todo todo actor [step] gained) (attaches : attachWeight g step = 1)
    (ends : load (attachWeight g) gained = 0) {other : Actor ι κ} {later : Instr ι}
    (present : later ∈ todo other) : ¬ later.attaches g := by
  intro again
  have single := reached.attach_le_one g
  have moved := move.total (attachWeight g)
  rw [load_cons, load_nil, attaches, ends] at moved
  have weighs : attachWeight g later = 1 := by
    unfold Instr.attaches at again
    split at again
    all_goals first
      | exact absurd again id
      | simp [attachWeight, again]
  have lower := weight_le_total (attachWeight_nonneg g) present
  omega

/-- The `ep->lock` section of a successful `ep_attach_cmgroup` binds both sides. -/
theorem Binding.storeEpoll {g : GroupId} {e : EpollId} (binding : Binding ⟨s, todo⟩)
    (unbound : s.epCmgroup e = none) (opened : s.epStage e = .published)
    (noEpoll : s.attachedEpoll g = none) (noAio : s.attachedAio g = none)
    (done : ∀ actor, ∀ step ∈ todo actor, ¬ step.attaches g) :
    Binding ⟨{ s with
      epCmgroup := update s.epCmgroup e (some g)
      attachedEpoll := update s.attachedEpoll g (some e)
      lockPtr := update s.lockPtr g (some e)
      wqPtr := update s.wqPtr g (some e) }, todo⟩ := by
  refine { binding with
    pointers := ?_, single := ?_, epoll := ?_, attached := ?_, attaching := ?_,
    detachingEpoll := ?_ }
  all_goals dsimp only
  all_goals simp only [Function.update_apply]
  · intro h
    have old := binding.pointers h
    grind
  · intro h
    have old := binding.single h
    grind
  · intro f h bound alive present
    have old := binding.epoll f h
    grind
  · intro f h attached
    have old := binding.attached f h
    grind
  · intro other h later present attaches
    have old := binding.attaching other h later present attaches
    have different : h ≠ g := by
      rintro rfl
      exact done other later present attaches
    simpa [different] using old
  · intro other h f present
    have old := binding.detachingEpoll other h f present
    grind

/-- The first store of `io_set_cmgroup` is followed by the second. -/
theorem Binding.storeAio {g : GroupId} {c : CtxId} (binding : Binding ⟨s, todo⟩)
    (next : .bind (.doAttachAio g c) ∈ todo actor) :
    Binding ⟨{ s with ctxCmgroup := update s.ctxCmgroup c (some g) }, todo⟩ := by
  refine { binding with aio := fun d h bound alive present => ?_ }
  dsimp only at bound alive present ⊢
  rw [Function.update_apply] at bound
  split_ifs at bound with same
  · obtain rfl : g = h := by simpa using bound
    exact .inr ⟨actor, same ▸ next⟩
  · exact binding.aio d h bound alive present

/-- Clearing the field of an AIO context keeps what else is known. -/
theorem Binding.clearCtx {c : CtxId} (binding : Binding ⟨s, todo⟩) :
    Binding ⟨{ s with ctxCmgroup := update s.ctxCmgroup c none }, todo⟩ := by
  refine { binding with aio := fun d h bound alive present => ?_ }
  dsimp only at bound alive present ⊢
  rw [Function.update_apply] at bound
  split_ifs at bound
  exact binding.aio d h bound alive present

/-- Freeing an eventpoll keeps bindings once its cmgroup is detached. -/
theorem Binding.epKfree {e : EpollId} (binding : Binding ⟨s, todo⟩)
    (freeing : s.epStage e = .freeing)
    (detached : ∀ actor g, .bind (.detachStore g (.epoll e)) ∉ todo actor) :
    Binding ⟨{ s with epStage := update s.epStage e .freed }, todo⟩ := by
  refine { binding with epoll := ?_, attached := ?_, detachingEpoll := ?_ }
  all_goals dsimp only
  all_goals simp only [Function.update_apply]
  · intro f h bound alive present
    have old := binding.epoll f h bound
    grind
  · intro f h attached
    have old := binding.attached f h attached
    grind
  · intro other h f present
    have old := binding.detachingEpoll other h f present
    grind

/-- Moving an AIO context to another stage keeps bindings while it is not being freed, and when
it is freed at last. -/
theorem Binding.ctxStage {c : CtxId} {stage : Stage} (binding : Binding ⟨s, todo⟩)
    (detached : ∀ actor g, .bind (.detachStore g (.aio c)) ∉ todo actor)
    (forward : stage ≠ .freed → s.ctxStage c ≠ .freeing ∧ s.ctxStage c ≠ .freed) :
    Binding ⟨{ s with ctxStage := update s.ctxStage c stage }, todo⟩ := by
  refine { binding with aio := ?_, detachingAio := ?_ }
  all_goals dsimp only
  all_goals simp only [Function.update_apply]
  · intro d h bound alive present
    have old := binding.aio d h bound
    grind
  · intro other h d present
    have old := binding.detachingAio other h d present
    grind

/-- The second store of `io_set_cmgroup` ends the attachment. -/
theorem Binding.doAttachAio {g : GroupId} {c : CtxId} (reached : Reachable y)
    (binding : Binding y)
    (move : Move y.todo todo actor [.bind (.doAttachAio g c)] (endAttachAio g c 0)) :
    Binding ⟨{ y.shared with attachedAio := update y.shared.attachedAio g (some c) }, todo⟩ := by
  have member : .bind (.doAttachAio g c) ∈ y.todo actor := by
    obtain ⟨rest, before, -⟩ := move
    simp [before]
  obtain ⟨noEpoll, noAio⟩ := binding.attaching actor g _ member rfl
  have done : ∀ other, ∀ later ∈ todo other, ¬ later.attaches g := fun other later present =>
    reached.attach_done move (by simp [attachWeight]) (by simp [endAttachAio, attachWeight])
      present
  have old : ∀ {other later}, later ∈ todo other → later ∈ y.todo other ∨
      (∀ h, ¬ later.attaches h) ∧ (∀ d h, ¬ later.waits d h) ∧
        ∀ h source, later ≠ .bind (.detachStore h source) := by
    intro other later present
    rcases move.mem present with before | ⟨-, new⟩
    · exact .inl before
    · simp only [endAttachAio, ↓reduceIte, List.append_nil, List.cons_append, List.nil_append,
        List.mem_cons, List.not_mem_nil, or_false] at new
      rcases new with rfl | rfl | rfl | rfl <;> simp [Instr.attaches, Instr.waits]
  have pending : ∀ {h d}, (∃ other, .bind (.doAttachAio h d) ∈ y.todo other) →
      (h = g ∧ d = c) ∨ h ≠ g ∧ ∃ other, .bind (.doAttachAio h d) ∈ todo other := by
    rintro h d ⟨other, present⟩
    by_cases same : (.bind (.doAttachAio h d) : Instr ι) = .bind (.doAttachAio g c)
    · simp only [Instr.bind.injEq, BindStep.doAttachAio.injEq] at same
      exact .inl same
    · have kept := move.keep present (by simpa using same)
      refine .inr ⟨?_, other, kept⟩
      rintro rfl
      exact done other _ kept rfl
  refine { binding with
    single := ?_, aio := ?_, attached := ?_, attaching := ?_, detachingEpoll := ?_,
    detachingAio := ?_, waiting := ?_ }
  all_goals dsimp only
  · intro h
    rw [Function.update_apply]
    split_ifs with same
    · exact .inl (same ▸ noEpoll)
    · exact binding.single h
  · intro e h attached
    refine (binding.attached e h attached).imp_right (Or.imp_right ?_)
    rintro ⟨other, present⟩
    exact ⟨other, move.keep present (by simp)⟩
  · intro d h bound alive present
    rw [Function.update_apply]
    rcases binding.aio d h bound alive present with attached | later
    · rw [if_neg (by rintro rfl; simp [noAio] at attached)]
      exact .inl attached
    · rcases pending later with ⟨rfl, rfl⟩ | ⟨different, later⟩
      · simp
      · exact .inr later
  · intro other h later present attaches
    have different : h ≠ g := by
      rintro rfl
      exact done other later present attaches
    rw [Function.update_of_ne different]
    rcases old present with before | ⟨quiet, -⟩
    · exact binding.attaching other h later before attaches
    · exact absurd attaches (quiet h)
  · intro other h e present
    rcases old present with before | ⟨-, -, quiet⟩
    · exact binding.detachingEpoll other h e before
    · exact absurd rfl (quiet h _)
  · intro other h d present
    rcases old present with before | ⟨-, -, quiet⟩
    · have detaching := binding.detachingAio other h d before
      rw [Function.update_of_ne (by rintro rfl; simp [noAio] at detaching)]
      exact detaching
    · exact absurd rfl (quiet h _)
  · intro other d h later present waits
    rw [Function.update_apply]
    rcases old present with before | ⟨-, quiet, -⟩
    · rcases binding.waiting other d h later before waits with attached | next
      · rw [if_neg (by rintro rfl; simp [noAio] at attached)]
        exact .inl attached
      · rcases pending next with ⟨rfl, rfl⟩ | ⟨different, next⟩
        · simp
        · exact .inr next
    · exact absurd waits (quiet d h)

/-- The stores of `cmgroup_detach` end the attachment to the event source that is freed. -/
theorem Binding.detachStore {g : GroupId} {source : Source} (reached : Reachable y)
    (binding : Binding y) (move : Move y.todo todo actor [.bind (.detachStore g source)] []) :
    Binding ⟨{ y.shared with
      attachedEpoll := update y.shared.attachedEpoll g none
      attachedAio := update y.shared.attachedAio g none
      lockPtr := update y.shared.lockPtr g none
      wqPtr := update y.shared.wqPtr g none
      action := update y.shared.action g .wakeAll }, todo⟩ := by
  have member : .bind (.detachStore g source) ∈ y.todo actor := by
    obtain ⟨rest, before, -⟩ := move
    simp [before]
  have old : ∀ {other later}, later ∈ todo other → later ∈ y.todo other := by
    intro other later present
    simpa using move.mem present
  have epoll : ∀ e, y.shared.attachedEpoll g = some e → y.shared.epStage e = .freeing := by
    intro e attached
    cases source with
    | epoll f =>
      have detaching := binding.detachingEpoll actor g f member
      grind
    | aio c =>
      have detaching := binding.detachingAio actor g c member
      have single := binding.single g
      grind
  have aio : ∀ c, y.shared.attachedAio g = some c → y.shared.ctxStage c = .freeing := by
    intro c attached
    cases source with
    | epoll f =>
      have detaching := binding.detachingEpoll actor g f member
      have single := binding.single g
      grind
    | aio d =>
      have detaching := binding.detachingAio actor g d member
      grind
  have none : ∀ origin other, .bind (.detachStore g origin) ∉ todo other := by
    intro origin other present
    have same : origin = source := by
      have single := binding.single g
      cases source with
      | epoll e =>
        have here := binding.detachingEpoll actor g e member
        cases origin with
        | epoll f =>
          have there := binding.detachingEpoll other g f (old present)
          grind
        | aio d =>
          have there := binding.detachingAio other g d (old present)
          grind
      | aio c =>
        have here := binding.detachingAio actor g c member
        cases origin with
        | epoll f =>
          have there := binding.detachingEpoll other g f (old present)
          grind
        | aio d =>
          have there := binding.detachingAio other g d (old present)
          grind
    subst same
    have moved := move.total (detachWeight origin g)
    have lower := weight_le_total (detachWeight_nonneg origin g) present
    have bound := reached.detach_le_one origin g
    simp [detachWeight] at moved lower
    omega
  have pending : ∀ {h d}, (∃ other, .bind (.doAttachAio h d) ∈ y.todo other) →
      ∃ other, .bind (.doAttachAio h d) ∈ todo other := by
    rintro h d ⟨other, present⟩
    exact ⟨other, move.keep present (by simp)⟩
  constructor
  all_goals dsimp only
  case pointers =>
    intro h
    have before := binding.pointers h
    simp only [Function.update_apply]
    grind
  case single =>
    intro h
    have before := binding.single h
    simp only [Function.update_apply]
    grind
  case epoll =>
    intro e h bound alive present
    have attached := binding.epoll e h bound alive present
    rw [Function.update_of_ne (by rintro rfl; exact alive (epoll e attached))]
    exact attached
  case attached =>
    intro e h attached
    rw [Function.update_apply] at attached
    split_ifs at attached with same
    refine (binding.attached e h attached).imp_right (Or.imp_right ?_)
    rintro ⟨other, present⟩
    exact ⟨other, move.keep present (by simpa using fun equal _ => same equal)⟩
  case aio =>
    intro c h bound alive present
    refine (binding.aio c h bound alive present).imp (fun attached => ?_) pending
    rw [Function.update_of_ne (by rintro rfl; exact alive (aio c attached))]
    exact attached
  case attaching =>
    intro other h later present attaches
    have before := binding.attaching other h later (old present) attaches
    simp only [Function.update_apply]
    grind
  case detachingEpoll =>
    intro other h e present
    have different : h ≠ g := by
      rintro rfl
      exact none _ other present
    rw [Function.update_of_ne different]
    exact binding.detachingEpoll other h e (old present)
  case detachingAio =>
    intro other h c present
    have different : h ≠ g := by
      rintro rfl
      exact none _ other present
    rw [Function.update_of_ne different]
    exact binding.detachingAio other h c (old present)
  case waiting =>
    intro other c h later present waits
    refine (binding.waiting other c h later (old present) waits).imp (fun attached => ?_) pending
    rw [Function.update_of_ne]
    · exact attached
    · rintro rfl
      have used := reached.ctx_used (old present) (waits_users waits).ge
      rw [aio c attached] at used
      simp at used

/-- The binding code keeps bindings. -/
theorem Binding.exec_bind {choice : Choice} {b : BindStep} (reached : Reachable y)
    (binding : Binding y) (before : y.todo actor = .bind b :: rest)
    (done : exec actor choice y.shared (.bind b) = some (s', gained))
    (move : Move y.todo todo actor [.bind b] gained) : Binding ⟨s', todo⟩ := by
  have flow := exec_expands done
  have member : .bind b ∈ y.todo actor := by simp [before]
  have proceed := binding.proceed reached flow move
  cases b with
  | doAttachAio g c =>
    simp only [exec, execBind, Option.some.injEq, Prod.mk.injEq] at done
    obtain ⟨rfl, rfl⟩ := done
    exact binding.doAttachAio reached move
  | detachStore g source =>
    simp only [exec, execBind, Option.some.injEq, Prod.mk.injEq] at done
    obtain ⟨rfl, rfl⟩ := done
    exact binding.detachStore reached move
  | storeEpoll g e =>
    simp only [exec, execBind] at done
    split at done
    all_goals simp only [Option.some.injEq, Prod.mk.injEq] at done
    all_goals obtain ⟨rfl, rfl⟩ := done
    · obtain ⟨noEpoll, noAio⟩ := binding.attaching actor g _ member rfl
      refine (proceed (by simp) (by simp)).storeEpoll ‹_›
        (reached.epoll_open member (by simp [epUsersNeed])) noEpoll noAio ?_
      intro other later present
      refine reached.attach_done move (by simp [attachWeight]) ?_ present
      split_ifs <;> simp [endAttachEpoll, attachWeight]
    · exact proceed (by simp) (by simp)
  | storeAio g c =>
    simp only [exec, execBind] at done
    split at done
    all_goals simp only [Option.some.injEq, Prod.mk.injEq] at done
    all_goals obtain ⟨rfl, rfl⟩ := done
    · exact (proceed (by simp) (by simp)).storeAio (move.gain (by simp))
    · exact proceed (by simp) (by simp)
  | clearCtx c =>
    simp only [exec, execBind, Option.some.injEq, Prod.mk.injEq] at done
    obtain ⟨rfl, rfl⟩ := done
    exact (proceed (by simp) (by simp)).clearCtx
  | epKfree e =>
    have kfree := reached.epoll e .kfree
    simp only [exec, execBind, Option.some.injEq, Prod.mk.injEq] at done
    obtain ⟨rfl, rfl⟩ := done
    have weighs : kfreeWeight (.epoll e) (.bind (.epKfree e) : Instr ι) = 1 := by
      simp [kfreeWeight]
    refine (proceed (by simp) (by simp)).epKfree ?_ ?_
    · have lower := weight_le_total (kfreeWeight_nonneg (.epoll e)) member
      dsimp only [EpEntry.weight, EpEntry.stock] at kfree
      by_contra other
      rw [if_neg other] at kfree
      omega
    · intro other g present
      have old := (move.mem present).resolve_right (by simp)
      exact reached.kfree_detached before weighs (by simp) old
  | ctxKfree c =>
    simp only [exec, execBind, Option.some.injEq, Prod.mk.injEq] at done
    obtain ⟨rfl, rfl⟩ := done
    have weighs : kfreeWeight (.aio c) (.bind (.ctxKfree c) : Instr ι) = 1 := by
      simp [kfreeWeight]
    refine (proceed (by simp) (by simp)).ctxStage ?_ (by simp)
    intro other g present
    have old := (move.mem present).resolve_right (by simp)
    exact reached.kfree_detached before weighs (by simp) old
  | addTable c =>
    have add := reached.ctx c .add
    have building : y.shared.ctxStage c = .building := by
      have weighs : addWeight c (.bind (.addTable c) : Instr ι) = 1 := by simp [addWeight]
      have lower := weight_le_total (addWeight_nonneg c) member
      dsimp only [CtxEntry.weight, CtxEntry.stock] at add
      by_contra other
      rw [if_neg other] at add
      omega
    have kept := proceed (by simp) (by simp)
    have idle : ∀ other g, .bind (.detachStore g (.aio c)) ∉ todo other := by
      intro other g present
      have detaching := kept.detachingAio other g c present
      simp [building] at detaching
    simp only [exec, execBind] at done
    split at done
    all_goals simp only [Option.some.injEq, Prod.mk.injEq] at done
    all_goals obtain ⟨rfl, rfl⟩ := done
    all_goals exact kept.ctxStage idle (by simp [building])
  | kill c =>
    simp only [exec, execBind] at done
    split at done
    all_goals simp only [Option.some.injEq, Prod.mk.injEq] at done
    all_goals obtain ⟨rfl, rfl⟩ := done
    · rename_i published
      have kept := proceed (by simp) (by simp)
      have idle : ∀ other g, .bind (.detachStore g (.aio c)) ∉ todo other := by
        intro other g present
        have detaching := kept.detachingAio other g c present
        simp [published] at detaching
      have killed : Binding ⟨{ y.shared with
          ctxStage := update y.shared.ctxStage c .killed }, todo⟩ :=
        kept.ctxStage idle (by simp [published])
      exact killed.congr (by constructor <;> rfl)
    · exact proceed (by simp) (by simp)
  | _ =>
    have kept := proceed (by simp) (by simp)
    simp only [exec, execBind] at done
    repeat' split at done
    all_goals simp only [Option.some.injEq, Prod.mk.injEq] at done
    all_goals obtain ⟨rfl, -⟩ := done
    all_goals exact kept.congr (by constructor <;> rfl)

/-- Starting an operation that detaches nothing keeps bindings. -/
theorem Binding.grow (binding : Binding y) (flow : Starts y.shared actor gained)
    (move : Move y.todo todo actor [] gained)
    (noDetach : ∀ g source, .bind (.detachStore g source) ∉ gained) :
    Binding ⟨y.shared, todo⟩ := by
  have pending : ∀ {g c}, (∃ other, .bind (.doAttachAio g c) ∈ y.todo other) →
      ∃ other, .bind (.doAttachAio g c) ∈ todo other := by
    rintro g c ⟨other, present⟩
    exact ⟨other, move.keep present (by simp)⟩
  refine { binding with
    attached := ?_, aio := ?_, attaching := ?_, detachingEpoll := ?_, detachingAio := ?_,
    waiting := ?_ }
  · intro e g attached
    refine (binding.attached e g attached).imp_right (Or.imp_right ?_)
    rintro ⟨other, present⟩
    exact ⟨other, move.keep present (by simp)⟩
  · intro c g bound alive present
    exact (binding.aio c g bound alive present).imp_right pending
  · intro other g later present attaches
    rcases move.mem present with old | ⟨rfl, new⟩
    · exact binding.attaching other g later old attaches
    · exact absurd attaches (flow.quiet (c := 0) later new).1
  · intro other g e present
    rcases move.mem present with old | ⟨rfl, new⟩
    · exact binding.detachingEpoll other g e old
    · exact absurd new (noDetach g _)
  · intro other g c present
    rcases move.mem present with old | ⟨rfl, new⟩
    · exact binding.detachingAio other g c old
    · exact absurd new (noDetach g _)
  · intro other c g later present waits
    rcases move.mem present with old | ⟨rfl, new⟩
    · exact (binding.waiting other c g later old waits).imp_right pending
    · exact absurd waits (flow.quiet (g := g) later new).2

/-- A new eventpoll is not bound. -/
theorem Binding.epollCreate {e : EpollId} (binding : Binding ⟨s, todo⟩)
    (unborn : s.epStage e = .unborn) :
    Binding ⟨{ s with
      epStage := update s.epStage e .published
      epCmgroup := update s.epCmgroup e none }, todo⟩ := by
  refine { binding with epoll := ?_, attached := ?_, detachingEpoll := ?_ }
  all_goals dsimp only
  all_goals simp only [Function.update_apply]
  · intro f h bound alive present
    have old := binding.epoll f h
    grind
  · intro f h attached
    have old := binding.attached f h attached
    have detaching := binding.detachingEpoll
    grind
  · intro other h f present
    have old := binding.detachingEpoll other h f present
    grind

/-- Starting to free an eventpoll that is not bound keeps bindings. -/
theorem Binding.epollClose {e : EpollId} (binding : Binding ⟨s, todo⟩)
    (unbound : s.epCmgroup e = none) :
    Binding ⟨{ s with epStage := update s.epStage e .freeing }, todo⟩ := by
  refine { binding with epoll := ?_, attached := ?_, detachingEpoll := ?_ }
  all_goals dsimp only
  all_goals simp only [Function.update_apply]
  · intro f h bound alive present
    have old := binding.epoll f h bound
    grind
  · intro f h attached
    have old := binding.attached f h attached
    grind
  · intro other h f present
    have old := binding.detachingEpoll other h f present
    grind

/-- Starting to free an eventpoll starts to detach its cmgroup. -/
theorem Binding.epollCloseBound {e : EpollId} {g : GroupId} (binding : Binding y)
    (flow : Starts y.shared actor gained) (move : Move y.todo todo actor [] gained)
    (opened : y.shared.epStage e = .published) (bound : y.shared.epCmgroup e = some g)
    (detaches : ∀ h source, .bind (.detachStore h source) ∈ gained ↔ h = g ∧ source = .epoll e) :
    Binding ⟨{ y.shared with epStage := update y.shared.epStage e .freeing }, todo⟩ := by
  have pending : ∀ {step}, (∃ other, step ∈ y.todo other) → ∃ other, step ∈ todo other := by
    rintro step ⟨other, present⟩
    exact ⟨other, move.keep present (by simp)⟩
  have attached := binding.epoll e g bound (by simp [opened]) (by simp [opened])
  refine { binding with
    epoll := ?_, attached := ?_, aio := ?_, attaching := ?_, detachingEpoll := ?_,
    detachingAio := ?_, waiting := ?_ }
  all_goals dsimp only
  · intro f h bound alive present
    rw [Function.update_apply] at alive present
    have old := binding.epoll f h bound
    grind
  · intro f h here
    obtain ⟨target, stage⟩ := binding.attached f h here
    refine ⟨target, ?_⟩
    rw [Function.update_apply]
    split_ifs with same
    · subst same
      obtain rfl : g = h := by simpa [bound] using target
      exact .inr ⟨actor, move.gain ((detaches g _).2 ⟨rfl, rfl⟩)⟩
    · exact stage.imp_right pending
  · intro c h linked alive present
    exact (binding.aio c h linked alive present).imp_right pending
  · intro other h later present attaches
    rcases move.mem present with old | ⟨rfl, new⟩
    · exact binding.attaching other h later old attaches
    · exact absurd attaches (flow.quiet (c := 0) later new).1
  · intro other h f present
    rw [Function.update_apply]
    rcases move.mem present with old | ⟨rfl, new⟩
    · have detaching := binding.detachingEpoll other h f old
      grind
    · obtain ⟨rfl, same⟩ := (detaches h _).1 new
      obtain rfl : f = e := by simpa using same
      simp [attached]
  · intro other h c present
    rcases move.mem present with old | ⟨rfl, new⟩
    · exact binding.detachingAio other h c old
    · simpa using ((detaches h _).1 new).2
  · intro other c h later present waits
    rcases move.mem present with old | ⟨rfl, new⟩
    · exact (binding.waiting other c h later old waits).imp_right pending
    · exact absurd waits (flow.quiet (g := h) later new).2

/-- A new AIO context is not bound. -/
theorem Binding.ioSetup {c : CtxId} (binding : Binding ⟨s, todo⟩)
    (unborn : s.ctxStage c = .unborn) :
    Binding ⟨{ s with
      ctxStage := update s.ctxStage c .building
      ctxCmgroup := update s.ctxCmgroup c none }, todo⟩ := by
  refine { binding with aio := ?_, detachingAio := ?_ }
  all_goals dsimp only
  all_goals simp only [Function.update_apply]
  · intro d h bound alive present
    have old := binding.aio d h
    grind
  · intro other h d present
    have old := binding.detachingAio other h d present
    grind

/-- Starting to free an AIO context that is not bound keeps bindings. -/
theorem Binding.freeIoctx {c : CtxId} (binding : Binding ⟨s, todo⟩) :
    Binding ⟨{ s with ctxStage := update s.ctxStage c .freeing }, todo⟩ := by
  refine { binding with aio := ?_, detachingAio := ?_ }
  all_goals dsimp only
  all_goals simp only [Function.update_apply]
  · intro d h bound alive present
    have old := binding.aio d h bound
    grind
  · intro other h d present
    have old := binding.detachingAio other h d present
    grind

/-- Starting to free an AIO context starts to detach its cmgroup. -/
theorem Binding.freeIoctxBound {c : CtxId} {g : GroupId} (reached : Reachable y)
    (binding : Binding y) (flow : Starts y.shared actor gained)
    (move : Move y.todo todo actor [] gained)
    (killed : y.shared.ctxStage c = .killed) (unused : y.shared.users c = 0)
    (bound : y.shared.ctxCmgroup c = some g)
    (detaches : ∀ h source, .bind (.detachStore h source) ∈ gained ↔ h = g ∧ source = .aio c) :
    Binding ⟨{ y.shared with ctxStage := update y.shared.ctxStage c .freeing }, todo⟩ := by
  have pending : ∀ {step}, (∃ other, step ∈ y.todo other) → ∃ other, step ∈ todo other := by
    rintro step ⟨other, present⟩
    exact ⟨other, move.keep present (by simp)⟩
  have attached : y.shared.attachedAio g = some c := by
    rcases binding.aio c g bound (by simp [killed]) (by simp [killed]) with here | ⟨other, next⟩
    · exact here
    · have lower := weight_le_total (usersWeight_nonneg c) next
      have users := reached.ctx c .users
      simp only [CtxEntry.weight, CtxEntry.stock, killed, unused] at users
      simp [usersWeight] at lower
      omega
  refine { binding with
    attached := ?_, aio := ?_, attaching := ?_, detachingEpoll := ?_, detachingAio := ?_,
    waiting := ?_ }
  all_goals dsimp only
  · intro e h here
    exact (binding.attached e h here).imp_right (Or.imp_right pending)
  · intro d h linked alive present
    rw [Function.update_apply] at alive present
    have old := binding.aio d h linked
    refine (old ?_ ?_).imp_right pending <;> grind
  · intro other h later present attaches
    rcases move.mem present with old | ⟨rfl, new⟩
    · exact binding.attaching other h later old attaches
    · exact absurd attaches (flow.quiet (c := 0) later new).1
  · intro other h e present
    rcases move.mem present with old | ⟨rfl, new⟩
    · exact binding.detachingEpoll other h e old
    · simpa using ((detaches h _).1 new).2
  · intro other h d present
    rw [Function.update_apply]
    rcases move.mem present with old | ⟨rfl, new⟩
    · have detaching := binding.detachingAio other h d old
      grind
    · obtain ⟨rfl, same⟩ := (detaches h _).1 new
      obtain rfl : d = c := by simpa using same
      simp [attached]
  · intro other d h later present waits
    rcases move.mem present with old | ⟨rfl, new⟩
    · exact (binding.waiting other d h later old waits).imp_right pending
    · exact absurd waits (flow.quiet (g := h) later new).2

/-- Starting a task's operation keeps bindings. -/
theorem Binding.task {t : ι} {op : TaskOp ι} (reached : Reachable y) (binding : Binding y)
    (done : startTask y.shared t op = some (s', gained))
    (move : Move y.todo todo (.task t) [] gained) : Binding ⟨s', todo⟩ := by
  have flow := startTask_starts done
  have grow := binding.grow flow move
  cases op with
  | epollClose e =>
    simp only [startTask] at done
    split at done
    case isFalse => simp at done
    case isTrue usable =>
      simp only [Option.some.injEq, Prod.mk.injEq] at done
      obtain ⟨rfl, code⟩ := done
      cases bound : y.shared.epCmgroup e with
      | none =>
        simp only [bound] at code
        exact (grow (by simp [← code])).epollClose bound
      | some g =>
        simp only [bound] at code
        refine binding.epollCloseBound flow move usable.1 bound fun h source => ?_
        simp [← code, cmgroupDetach, lockoutTasklet]
  | epollCreate e =>
    simp only [startTask] at done
    split at done
    all_goals simp only [Option.some.injEq, Prod.mk.injEq, reduceCtorEq] at done
    obtain ⟨rfl, rfl⟩ := done
    exact (grow (by simp)).epollCreate ‹_›
  | ioSetup c =>
    simp only [startTask] at done
    split at done
    all_goals simp only [Option.some.injEq, Prod.mk.injEq, reduceCtorEq] at done
    obtain ⟨rfl, rfl⟩ := done
    exact ((grow (by simp)).ioSetup ‹_›).congr (by constructor <;> rfl)
  | newgroup g nthreads flags cpus =>
    simp only [startTask] at done
    repeat' split at done
    all_goals simp only [Option.some.injEq, Prod.mk.injEq, reduceCtorEq] at done
    all_goals obtain ⟨rfl, rfl⟩ := done
    · exact grow (by simp)
    · exact grow (by simp)
    · rw [cmgroupAlloc_frame (reached.unknown ‹_›)]
      exact (grow (by simp)).congr (by constructor <;> rfl)
  | _ =>
    simp only [startTask, withEpoll, cmgroupFromFd, epScanReadyList] at done
    repeat' split at done
    all_goals simp only [Option.some.injEq, Prod.mk.injEq, reduceCtorEq] at done
    all_goals obtain ⟨rfl, rfl⟩ := done
    all_goals exact (grow (by simp)).congr (by constructor <;> rfl)

/-- Starting a CPU's operation keeps bindings. -/
theorem Binding.cpu {k : κ} {op : CpuOp ι} (reached : Reachable y) (binding : Binding y)
    (done : startCpu y.shared y.todo (.cpu k) op = some (s', gained))
    (move : Move y.todo todo (.cpu k) [] gained) : Binding ⟨s', todo⟩ := by
  have flow := startCpu_starts done
  have grow := binding.grow flow move
  cases op with
  | freeIoctx c =>
    simp only [startCpu] at done
    split at done
    case isFalse => simp at done
    case isTrue unused =>
      simp only [Option.some.injEq, Prod.mk.injEq] at done
      obtain ⟨rfl, code⟩ := done
      cases bound : y.shared.ctxCmgroup c with
      | none =>
        simp only [bound] at code
        exact (grow (by simp [← code])).freeIoctx
      | some g =>
        simp only [bound] at code
        refine binding.freeIoctxBound reached flow move unused.1 unused.2 bound fun h source => ?_
        simp [← code, cmgroupDetach, lockoutTasklet]
  | _ =>
    simp only [startCpu, withEpoll, cmgroupTaskDequeued_requeue] at done
    repeat' split at done
    all_goals simp only [Option.some.injEq, Prod.mk.injEq, reduceCtorEq] at done
    all_goals obtain ⟨rfl, rfl⟩ := done
    all_goals exact (grow (by simp)).congr (by constructor <;> rfl)

/-- In every run the two sides of attachments fit together. -/
theorem Reachable.binding (reached : Reachable y) : Binding y := by
  induction reached with
  | start initial =>
    constructor
    all_goals simp [initial.lockPtr, initial.wqPtr, initial.attachedEpoll, initial.attachedAio,
      initial.epCmgroup, initial.ctxCmgroup, initial.idle]
  | step reached _ taken ih =>
    obtain ⟨actor, spent, gained, effect, move⟩ := next_effect taken
    cases effect with
    | @exec _ _ step _ _ done =>
      obtain ⟨rest, before, -⟩ := id move
      cases step with
      | bind b => exact ih.exec_bind reached before done move
      | _ =>
        exact (ih.proceed reached (exec_expands done) move (by simp) (by simp)).congr
          (exec_sameBinding (by simp) done)
    | task idle able done => exact ih.task reached done move
    | cpu idle done => exact ih.cpu reached done move

end Kept

end Cmgroups
