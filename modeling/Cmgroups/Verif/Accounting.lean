import Cmgroups.Verif.Running

/-!
# Runnable accounting

`available` is the concurrency value less the number of charged tasks, up to the accounting
operations in progress. A task's own code and the code that activates it change its two fields
in turns, so that a task that is not in the middle of such an operation is charged exactly
while it is on a run queue.
-/

set_option linter.unusedSectionVars false

namespace Cmgroups

open Function (update)
open Pool

variable {ι κ : Type} [DecidableEq ι] [DecidableEq κ]

/-- A member of a group is charged. -/
def Settled (group : Option GroupId) (charged : Bool) : Prop := group ≠ none → charged = true

/-- The statement holds of every settled task. -/
def AllSettled (later : Option GroupId → Bool → Prop) : Prop :=
  ∀ group charged, Settled group charged → later group charged

/-- What has to hold of the two fields of a task before it executes a micro-step, for `later` to
hold of them afterwards. Micro-steps outside the accounting are executed by settled tasks. -/
def Instr.account (t : ι) (group : Option GroupId) (charged : Bool)
    (later : Option GroupId → Bool → Prop) : Instr ι → Prop
  | .acct (.associate _ g _ _) =>
    Settled group charged ∧ if group = some g then later group charged else later (some g) true
  | .acct (.dissociate _ _) =>
    Settled group charged ∧ if group = none then later none charged else later none false
  | .acct (.storeCmgroup _ g) => group = none ∧ later (some g) true
  | .acct (.clearCharged _ g stale) => group = some g ∧ charged = stale ∧ later (some g) true
  | .acct (.charge p g) =>
    if p = t then group = some g ∧ charged = false ∧ later (some g) true else later group charged
  | .acct (.decAvailable p g) =>
    (p = t → group = some g ∧ charged = true) ∧ later group charged
  | .acct (.uncharge _ g) => group = some g ∧ charged = true ∧ later group false
  | .acct (.incAvailable _ g) => group = some g ∧ charged = false ∧ later group charged
  | .acct (.clearCmgroup _ g) => group = some g ∧ charged = false ∧ later none false
  | .sched (.offRq _) => (group ≠ none → charged = false) ∧ later group charged
  | .sched (.resume _) => later group (charged || group.isSome)
  | .obj (.fire g (.lessRunnable _)) | .obj (.ref g (some (.lessRunnable _))) =>
    group = some g ∧ later group charged
  | .obj (.fire _ _) | .obj (.ref _ _) | .obj (.taskletSchedule _) | .obj (.unref _ _) =>
    later group charged
  | _ => Settled group charged ∧ AllSettled later

/-- What has to hold of the two fields of a task before it executes code, for it to be settled
afterwards. -/
def Accounts (t : ι) : Code ι → Option GroupId → Bool → Prop
  | [] => Settled
  | step :: rest => fun group charged => step.account t group charged (Accounts t rest)

@[simp] theorem accounts_cons (t : ι) (step : Instr ι) (rest : Code ι) (group : Option GroupId)
    (charged : Bool) : Accounts t (step :: rest) group charged ↔
      step.account t group charged (Accounts t rest) := Iff.rfl

/-- Whoever activates a task settles it. -/
theorem settled_activated (group : Option GroupId) (charged : Bool) :
    Settled group (charged || group.isSome) := by
  cases group <;> simp [Settled]

/-- Activation does not change a settled task. -/
theorem Settled.activated {group : Option GroupId} {charged : Bool}
    (settled : Settled group charged) : (charged || group.isSome) = charged := by
  cases group with
  | none => simp
  | some g => simp [settled (by simp)]

/-- A statement about settled tasks that does not depend on their fields. -/
theorem allSettled_const {constant : Prop} :
    (AllSettled fun group charged => Settled group charged ∧ constant) ↔ constant := by
  constructor
  · intro all
    exact (all none true fun _ => rfl).2
  · intro holds group charged settled
    exact ⟨settled, holds⟩

/-- Association settles a task. -/
theorem allSettled_associate {later : Option GroupId → Bool → Prop} (g : GroupId)
    (settled : AllSettled later) : AllSettled fun group charged => Settled group charged ∧
      if group = some g then later group charged else later (some g) true := by
  intro group charged before
  refine ⟨before, ?_⟩
  split_ifs
  · exact settled group charged before
  · exact settled (some g) true fun _ => rfl

/-- So does dissociation. -/
theorem allSettled_dissociate {later : Option GroupId → Bool → Prop}
    (settled : AllSettled later) : AllSettled fun group charged => Settled group charged ∧
      if group = none then later none charged else later none false := by
  intro group charged before
  refine ⟨before, ?_⟩
  split_ifs
  · exact settled none charged fun member => absurd rfl member
  · exact settled none false fun member => absurd rfl member

section Step

variable {actor : Actor ι κ} {choice : Choice} {s s' : Shared ι κ} {step : Instr ι}
  {code rest : Code ι} {t : ι}

/-- Code that starts an operation can be executed by a settled task. -/
theorem Starts.accounts (flow : Starts s actor code) {group : Option GroupId} {charged : Bool}
    (settled : Settled group charged) : Accounts t code group charged := by
  have all : AllSettled Settled := fun _ _ settled => settled
  induction flow <;> simp only [Accounts]
  all_goals try dsimp only [Instr.account]
  all_goals try simp only [allSettled_const]
  all_goals first
    | exact settled
    | exact ⟨settled, all⟩
    | exact allSettled_associate _ (allSettled_const.2 all) group charged settled
    | exact allSettled_dissociate (allSettled_const.2 all) group charged settled

/-- The micro-step neither schedules nor accounts. -/
def Instr.plain : Instr ι → Bool
  | .sched _ | .acct _ => false
  | _ => true

/-- Executing other code, a settled task stays settled. -/
theorem Expands.accounts (flow : Expands s actor step code) (plain : step.plain = true)
    {group : Option GroupId} {charged : Bool} (accounts : Accounts t (step :: rest) group charged) :
    Accounts t (code ++ rest) group charged := by
  induction flow
  case gateAssociate | gateAssociateEnter | pollAssociate =>
    simp only [List.cons_append, List.nil_append, Accounts] at accounts ⊢
    dsimp only [Instr.account] at accounts ⊢
    try simp only [allSettled_const]
    refine ⟨accounts.1, ?_⟩
    split_ifs
    · exact accounts
    · exact ⟨fun _ => rfl, accounts.2⟩
  case ref site | fireActive site | fire site =>
    rcases site with _ | site <;> try cases site
    all_goals simp only [List.cons_append, List.nil_append, Accounts] at accounts ⊢
    all_goals dsimp only [Instr.account] at accounts ⊢
    all_goals tauto
  all_goals first
    | exact absurd plain Bool.false_ne_true
    | skip
  all_goals simp only [List.cons_append, List.nil_append, Accounts] at accounts ⊢
  all_goals dsimp only [Instr.account] at accounts
  all_goals try dsimp only [Instr.account]
  all_goals try simp only [allSettled_const] at accounts ⊢
  all_goals first
    | exact accounts
    | exact accounts.2 _ _ accounts.1

/-- Executing its own code, a task keeps up with its accounting. -/
theorem exec_accounts (own : ∀ p, step.self = some p → p = t)
    (foreign : ∀ p flags, step = .sched (.activate p flags) → p ≠ t)
    (resumed : step = .sched (.resume t) → Settled (s.cmgroup t) (s.charged t))
    (done : exec actor choice s step = some (s', code))
    (accounts : Accounts t (step :: rest) (s.cmgroup t) (s.charged t)) :
    Accounts t (code ++ rest) (s'.cmgroup t) (s'.charged t) := by
  cases step with
  | acct step =>
    cases step <;> simp only [exec, execAcct] at done
    all_goals repeat' split at done
    all_goals simp only [Option.some.injEq, Prod.mk.injEq] at done
    all_goals obtain ⟨rfl, rfl⟩ := done
    all_goals simp only [List.cons_append, List.nil_append, Accounts] at accounts ⊢
    all_goals dsimp only [Instr.account, Instr.self] at accounts own ⊢
    all_goals grind [Settled, AllSettled]
  | sched step =>
    have frame := execSched_frame done
    rw [frame]
    cases exec_expands done
    case activateCharge p flags g member uncharged =>
      have other := foreign p flags rfl
      simp only [List.cons_append, List.nil_append, Accounts] at accounts ⊢
      dsimp only [Instr.account] at accounts ⊢
      simpa [other] using accounts
    case resume p =>
      obtain rfl := own p rfl
      simp only [List.nil_append, Accounts] at accounts ⊢
      dsimp only [Instr.account] at accounts
      rwa [(resumed rfl).activated] at accounts
    case scheduleOff p uncharged =>
      obtain rfl := own p rfl
      simp only [List.cons_append, List.nil_append, Accounts] at accounts ⊢
      dsimp only [Instr.account] at accounts ⊢
      exact ⟨fun member => uncharged.resolve_left member,
        accounts.2 _ _ (settled_activated _ _)⟩
    case scheduleUncharge p g member charged =>
      obtain rfl := own p rfl
      simp only [List.cons_append, List.nil_append, Accounts] at accounts ⊢
      dsimp only [Instr.account] at accounts ⊢
      exact ⟨member, charged, fun _ => rfl, accounts.2 _ _ (settled_activated _ _)⟩
    all_goals simp only [List.cons_append, List.nil_append, Accounts] at accounts ⊢
    all_goals dsimp only [Instr.account] at accounts
    all_goals try dsimp only [Instr.account]
    all_goals first
      | exact accounts
      | exact accounts.2
      | exact accounts.2 _ _ accounts.1
  | obj step =>
    rw [execObj_frame done]
    exact (exec_expands done).accounts rfl accounts
  | lock step =>
    rw [execLock_frame done]
    exact (exec_expands done).accounts rfl accounts
  | bind step =>
    rw [execBind_frame done]
    exact (exec_expands done).accounts rfl accounts
  | tasklet step =>
    rw [execTasklet_frame done]
    exact (exec_expands done).accounts rfl accounts
  | wait step =>
    rw [execWait_frame done]
    exact (exec_expands done).accounts rfl accounts
  | ep step =>
    rw [execEp_frame done]
    exact (exec_expands done).accounts rfl accounts

/-- Who writes the two fields of a task. -/
theorem exec_fields (t : ι) (done : exec actor choice s step = some (s', code)) :
    s'.cmgroup t = s.cmgroup t ∧ s'.charged t = s.charged t ∨
      step.self = some t ∧ step ≠ .sched (.resume t) ∨
      ∃ g, step = .acct (.charge t g) ∧ s'.cmgroup t = s.cmgroup t ∧ s'.charged t = true := by
  cases step with
  | acct step =>
    cases step with
    | charge p g =>
      simp only [exec, execAcct, Option.some.injEq, Prod.mk.injEq] at done
      obtain ⟨rfl, -⟩ := done
      by_cases same : t = p
      · subst same
        exact .inr (.inr ⟨g, rfl, rfl, Function.update_self _ _ _⟩)
      · exact .inl ⟨rfl, Function.update_of_ne same _ _⟩
    | _ =>
      simp only [exec, execAcct] at done
      repeat' split at done
      all_goals simp only [Option.some.injEq, Prod.mk.injEq] at done
      all_goals obtain ⟨rfl, -⟩ := done
      all_goals dsimp only [Instr.self]
      all_goals try simp only [Function.update_apply]
      all_goals grind
  | sched step => rw [execSched_frame done]; exact .inl ⟨rfl, rfl⟩
  | obj step => rw [execObj_frame done]; exact .inl ⟨rfl, rfl⟩
  | lock step => rw [execLock_frame done]; exact .inl ⟨rfl, rfl⟩
  | bind step => rw [execBind_frame done]; exact .inl ⟨rfl, rfl⟩
  | tasklet step => rw [execTasklet_frame done]; exact .inl ⟨rfl, rfl⟩
  | wait step => rw [execWait_frame done]; exact .inl ⟨rfl, rfl⟩
  | ep step => rw [execEp_frame done]; exact .inl ⟨rfl, rfl⟩

/-- A charge sets the flag. -/
theorem exec_charge {g : GroupId}
    (done : exec actor choice s (.acct (.charge t g)) = some (s', code)) :
    s' = { s with charged := update s.charged t true } := by
  simp only [exec, execAcct, Option.some.injEq, Prod.mk.injEq] at done
  exact done.1.symm

/-- The scheduler itself writes neither field. -/
theorem exec_sched_fields {step : SchedStep ι}
    (done : exec actor choice s (.sched step) = some (s', code)) :
    s'.cmgroup = s.cmgroup ∧ s'.charged = s.charged := by
  have frame := execSched_frame done
  rw [frame]
  exact ⟨rfl, rfl⟩

/-- A charge is made in an association or in an activation. -/
theorem Expands.charge_source {g : GroupId} (flow : Expands s actor step code)
    (member : .acct (.charge t g) ∈ code) :
    (∃ stale, step = .acct (.clearCharged t g stale)) ∨
      .sched (.enterRq t) ∈ code ∧ s.cmgroup t = some g ∧ s.charged t = false ∧
        ∃ flags, step = .sched (.activate t flags) := by
  induction flow <;> simp at member
  case activateCharge g' member' uncharged =>
    obtain ⟨rfl, rfl⟩ := member
    exact .inr ⟨by simp, member', uncharged, _, rfl⟩
  case clearCharged =>
    obtain ⟨rfl, rfl⟩ := member
    exact .inl ⟨_, rfl⟩

/-- A charge is followed by the operation on `available`. -/
theorem Expands.deduct_source {g : GroupId} (flow : Expands s actor step code)
    (member : .acct (.decAvailable t g) ∈ code) : step = .acct (.charge t g) := by
  induction flow <;> simp_all

/-- An activation charges a member of a group that is not charged. -/
theorem Expands.enter_source (flow : Expands s actor step code)
    (member : .sched (.enterRq t) ∈ code) :
    ∃ flags, step = .sched (.activate t flags) ∧
      (s.cmgroup t = none ∨ s.charged t = true ∨ flags &&& enqueueNocmgroup ≠ 0 ∨
        ∃ g, .acct (.charge t g) ∈ code) := by
  induction flow <;> simp at member
  case activate unaccounted =>
    subst member
    exact ⟨_, rfl, by tauto⟩
  case activateCharge =>
    subst member
    exact ⟨_, rfl, .inr (.inr (.inr ⟨_, by simp; rfl⟩))⟩

/-- Operations start with none of these. -/
theorem Starts.unaccounted {g : GroupId} (flow : Starts s actor code) :
    .acct (.charge t g) ∉ code ∧ .acct (.decAvailable t g) ∉ code ∧
      .sched (.enterRq t) ∉ code := by
  induction flow <;> simp

end Step

section Shape

variable {y : Sys ι κ} {actor : Actor ι κ} {step : Instr ι} {rest : Code ι}

/-- The micro-step completes an update of fields that belong together. -/
def Instr.completes : Instr ι → Bool
  | .acct (.charge _ _) | .acct (.decAvailable _ _) | .acct (.incAvailable _ _)
  | .acct (.clearCharged _ _ _) | .acct (.setcvAdd _ _) => true
  | _ => false

/-- Such a micro-step is executed as soon as it appears. -/
theorem Reachable.completes (reached : Reachable y) (head : y.todo actor = step :: rest)
    {later : Instr ι} (completes : later.completes = true) : later ∉ rest := by
  have front := reached.front (fun step => step.completes = true)
    (fun flow _ member => absent_of_all (Instr.completes · = true) Instr.completes (fun _ => id)
      member (by induction flow <;> rfl))
    (fun flow _ member => absent_of_all (Instr.completes · = true) Instr.completes (fun _ => id)
      member (by induction flow <;> rfl)) actor
  rw [head] at front
  exact fun member => front _ member completes

/-- So are charges and their operations on `available`. -/
theorem Reachable.prompt (reached : Reachable y) (head : y.todo actor = step :: rest) (t : ι)
    (g : GroupId) : .acct (.charge t g) ∉ rest ∧ .acct (.decAvailable t g) ∉ rest :=
  ⟨reached.completes head rfl, reached.completes head rfl⟩

/-- The micro-step does not activate a task without accounting. -/
def Instr.flagged : Instr ι → Bool
  | .sched (.activate _ flags) => flags &&& enqueueNocmgroup == 0
  | _ => true

/-- Activations account. -/
theorem Reachable.activate_flags (reached : Reachable y) {t : ι} {flags : ℕ}
    (member : .sched (.activate t flags) ∈ y.todo actor) : flags &&& enqueueNocmgroup = 0 := by
  have flagged : (Instr.sched (.activate t flags)).flagged = true := by
    refine @Reachable.forall_mem _ _ _ _ (fun _ step => step.flagged = true)
      (fun flow _ => List.all_eq_true.1 ?_) (fun flow => List.all_eq_true.1 ?_) _ reached
      actor _ member
    · induction flow <;> rfl
    · induction flow <;> rfl
  simpa [Instr.flagged] using flagged

/-- A task resumes right after it has left its run queue. -/
def Resumes (step : Instr ι) (rest : Code ι) : Prop :=
  ∀ t, rest.head? = some (.sched (.resume t)) → ∃ p, step = .sched (.offRq p)

/-- Code resumes in one place only. -/
theorem Reachable.resumes_tails (reached : Reachable y) (actor : Actor ι κ) :
    Tails Resumes (y.todo actor) := by
  refine reached.tails (fun flow rest before => ?_) (fun flow => ?_) actor
  · induction flow <;> simp only [tails_cons, tails_nil, Resumes, List.cons_append, List.nil_append,
      List.head?_cons, Option.some.injEq, Instr.sched.injEq, reduceCtorEq, exists_false, imp_false,
      and_true] at before ⊢
    all_goals grind
  · induction flow <;> simp [Resumes]

/-- What comes next in code is in the relation to the rest. -/
theorem Reachable.resumes (reached : Reachable y) (head : y.todo actor = step :: rest) :
    Resumes step rest := by
  have tails := reached.resumes_tails actor
  rw [head] at tails
  exact tails.1

/-- The code that a step leaves behind begins with a return to the run queue when the task has
just left it. -/
theorem exec_resume {choice : Choice} {s s' : Shared ι κ} {code : Code ι} {t : ι}
    (done : exec actor choice s step = some (s', code)) (resumes : Resumes step rest)
    (head : (code ++ rest).head? = some (.sched (.resume t))) : ∃ p, step = .sched (.offRq p) := by
  cases code with
  | nil => exact resumes t (by simpa using head)
  | cons first code =>
    rw [List.cons_append, List.head?_cons, Option.some.injEq] at head
    have flow := exec_expands done
    rw [head] at flow
    cases flow

end Shape

/-- How the two fields of a task, its code and the code that activates it fit together. -/
structure Charged (y : Sys ι κ) : Prop where
  /-- A task's code keeps up with its accounting. -/
  own : ∀ t, Accounts t (y.todo (.task t)) (y.shared.cmgroup t) (y.shared.charged t)
  /-- A task that was not forked belongs to no group. -/
  unborn : ∀ t, y.shared.taskLife t = .unborn → y.shared.cmgroup t = none
  /-- Other actors charge a task while they activate it. -/
  charging : ∀ actor t g, .acct (.charge t g) ∈ y.todo actor → actor = .task t ∨
    .sched (.enterRq t) ∈ y.todo actor ∧ y.shared.cmgroup t = some g ∧ y.shared.charged t = false
  /-- So they deduct it from `available`. -/
  deducting : ∀ actor t g, .acct (.decAvailable t g) ∈ y.todo actor → actor = .task t ∨
    .sched (.enterRq t) ∈ y.todo actor ∧ y.shared.cmgroup t = some g ∧ y.shared.charged t = true
  /-- A task that is about to enter its run queue is charged before. -/
  entering : ∀ actor t, .sched (.enterRq t) ∈ y.todo actor →
    Settled (y.shared.cmgroup t) (y.shared.charged t) ∨ ∃ g, .acct (.charge t g) ∈ y.todo actor
  /-- A task that was activated is charged. -/
  back : ∀ t, y.shared.onRq t = true → (y.todo (.task t)).head? = some (.sched (.resume t)) →
    Settled (y.shared.cmgroup t) (y.shared.charged t)
  /-- A task off its run queue is not charged. -/
  asleep : ∀ t, y.shared.onRq t = false → y.shared.cmgroup t ≠ none → y.shared.charged t = false ∨
    ∃ actor, .sched (.enterRq t) ∈ y.todo actor

section Reached

variable [Fintype ι] [Fintype κ] {y y' : Sys ι κ} {actor : Actor ι κ} {choice : Choice}
  {step : Instr ι} {gained rest : Code ι}

/-- A task is activated by one actor. -/
theorem Reachable.entering_unique (reached : Reachable y) {first second : Actor ι κ} {t : ι}
    (left : .sched (.enterRq t) ∈ y.todo first) (right : .sched (.enterRq t) ∈ y.todo second) :
    first = second := by
  by_contra different
  have awake := Reachable.awake reached
  have nonneg := fun actor => load_nonneg (activateWeight_nonneg t) (y.todo actor)
  have both := load_add_load_le_total nonneg different
  have one := weight_le_load (activateWeight_nonneg t) left
  have other := weight_le_load (activateWeight_nonneg t) right
  have total := (awake.entering (t := t) left (by simp [activateWeight])).2.1
  simp [activateWeight] at one other
  omega

/-- A task that is being activated is not on its run queue. -/
theorem Reachable.entering_off (reached : Reachable y) {t : ι} {step : Instr ι}
    (member : step ∈ y.todo actor) (activates : activateWeight t step = 1) :
    y.shared.onRq t = false ∧ y.shared.taskLife t ≠ .unborn := by
  have active := ((Reachable.awake reached).entering member activates).1
  by_contra other
  have none : activating t y.shared = 0 := by
    unfold activating
    grind
  omega

/-- A task that charges itself is not being activated. -/
theorem Reachable.charge_awake (reached : Reachable y) {t : ι} {g : GroupId}
    (charge : .acct (.charge t g) ∈ y.todo (.task t)) :
    .sched (.enterRq t) ∉ y.todo actor := by
  intro enters
  have off := (reached.entering_off (t := t) enters (by simp [activateWeight])).1
  cases shape : y.todo (.task t) with
  | nil => simp [shape] at charge
  | cons first code =>
    have here := (reached.prompt shape t g).1
    rw [shape, List.mem_cons] at charge
    obtain rfl := charge.resolve_right here
    simp [(Reachable.awake reached).executes shape (by simp)] at off

/-- The fields of a task that is being activated change only as it is charged. -/
theorem Charged.exec_entering (charged : Charged y) (reached : Reachable y)
    (head : y.todo actor = step :: rest) {other : Actor ι κ} {t : ι}
    (enters : .sched (.enterRq t) ∈ y.todo other)
    (done : exec actor choice y.shared step = some (y'.shared, gained)) :
    y'.shared.cmgroup t = y.shared.cmgroup t ∧ y'.shared.charged t = y.shared.charged t ∨
      other = actor ∧ (∃ g, step = .acct (.charge t g)) ∧
        y'.shared.cmgroup t = y.shared.cmgroup t ∧ y'.shared.charged t = true := by
  have member : step ∈ y.todo actor := by simp [head]
  have off := (reached.entering_off (t := t) enters (by simp [activateWeight])).1
  rcases exec_fields t done with same | ⟨self, other⟩ | ⟨g, rfl, group, now⟩
  · exact .inl same
  · -- the task does not execute code
    obtain rfl := reached.self member self
    simp [(Reachable.awake reached).executes head other] at off
  · right
    rcases charged.charging actor t g member with rfl | ⟨here, -, -⟩
    · exact absurd enters (reached.charge_awake member)
    · exact ⟨reached.entering_unique enters here, ⟨g, rfl⟩, group, now⟩

/-- Executing code keeps fields and code of tasks together. -/
theorem Charged.exec (charged : Charged y) (reached : Reachable y)
    (done : exec actor choice y.shared step = some (y'.shared, gained))
    (move : Move y.todo y'.todo actor [step] gained) : Charged y' := by
  obtain ⟨rest, head, after⟩ := id move
  rw [List.singleton_append] at head
  have member : step ∈ y.todo actor := by simp [head]
  have awake := Reachable.awake reached
  have flow := exec_expands done
  have life := exec_taskLife done
  have prompt := reached.prompt head
  have own : ∀ {t}, step.self = some t → actor = .task t := fun self => reached.self member self
  have queued : ∀ {t}, actor = .task t → step ≠ .sched (.resume t) → y.shared.onRq t = true :=
    fun same other => awake.executes (same ▸ head) other
  -- what is executed as soon as it appears was gained by this step or is another actor's
  have fresh : ∀ {other later}, later ∈ y'.todo other → later ∉ rest →
      other ≠ actor ∧ later ∈ y.todo other ∨ other = actor ∧ later ∈ gained := by
    intro other later present absent
    by_cases same : other = actor
    · subst same
      rw [after, Function.update_self, List.mem_append] at present
      exact .inr ⟨rfl, present.resolve_right absent⟩
    · rw [move.other same] at present
      exact .inl ⟨same, present⟩
  constructor
  case own =>
    intro t
    by_cases mine : actor = .task t
    · subst mine
      rw [after, Function.update_self]
      refine exec_accounts (fun p self => ?_) (fun p flags activates same => ?_) (fun resumes => ?_)
        done (by simpa [head] using charged.own t)
      · simpa using (own self).symm
      · subst activates same
        have off := reached.entering_off (t := p) member (by simp [activateWeight])
        simp [queued rfl (by simp)] at off
      · subst resumes
        refine charged.back t ?_ (by simp [head])
        simp only [Cmgroups.exec, execSched] at done
        split at done
        · exact (‹_ ∧ _›).1
        · simp at done
    · rw [move.other (Ne.symm mine)]
      rcases exec_fields t done with ⟨group, flag⟩ | ⟨self, -⟩ | ⟨g, rfl, group, now⟩
      · rw [group, flag]
        exact charged.own t
      · exact absurd (own self) mine
      · -- a task that another actor charges sleeps, and its code expects to be charged
        obtain ⟨enters, same, flag⟩ := (charged.charging actor t g member).resolve_left mine
        have off := (reached.entering_off (t := t) enters (by simp [activateWeight])).1
        have before := charged.own t
        rw [group, now, same]
        rw [same, flag] at before
        rcases awake.runs t with idle | resumes | on
        · rw [idle]
          exact fun _ => rfl
        · cases code : y.todo (.task t) with
          | nil => exact fun _ => rfl
          | cons first later =>
            rw [code, List.head?_cons, Option.some.injEq] at resumes
            rw [code, resumes] at before
            rw [resumes]
            simpa [Instr.account] using before
        · simp [off] at on
  case unborn =>
    intro t unborn
    rw [life] at unborn
    have idle := (awake.unborn t unborn).1
    have foreign : actor ≠ .task t := by
      rintro rfl
      simp [idle] at head
    rcases exec_fields t done with ⟨group, -⟩ | ⟨self, -⟩ | ⟨g, rfl, group, -⟩
    · rw [group, charged.unborn t unborn]
    · exact absurd (own self) foreign
    · rw [group, charged.unborn t unborn]
  case charging =>
    intro other t g present
    rcases fresh present (prompt t g).1 with ⟨different, old⟩ | ⟨rfl, new⟩
    · refine (charged.charging other t g old).imp_right ?_
      rintro ⟨enters, group, flag⟩
      obtain ⟨group', flag'⟩ := (charged.exec_entering reached head enters done).resolve_right
        fun same => different same.1
      exact ⟨by rwa [move.other different], group'.trans group, flag'.trans flag⟩
    · rcases flow.charge_source new with ⟨stale, rfl⟩ | ⟨enters, group, flag, flags, rfl⟩
      · exact .inl (own rfl)
      · obtain ⟨sameGroup, sameFlag⟩ := exec_sched_fields done
        exact .inr ⟨move.gain enters, by rw [sameGroup, group], by rw [sameFlag, flag]⟩
  case deducting =>
    intro other t g present
    rcases fresh present (prompt t g).2 with ⟨different, old⟩ | ⟨rfl, new⟩
    · refine (charged.deducting other t g old).imp_right ?_
      rintro ⟨enters, group, flag⟩
      obtain ⟨group', flag'⟩ := (charged.exec_entering reached head enters done).resolve_right
        fun same => different same.1
      exact ⟨by rwa [move.other different], group'.trans group, flag'.trans flag⟩
    · obtain rfl := flow.deduct_source new
      refine (charged.charging other t g member).imp_right ?_
      rintro ⟨enters, group, -⟩
      refine ⟨move.keep enters (by simp), ?_⟩
      rw [exec_charge done]
      exact ⟨group, Function.update_self _ _ _⟩
  case entering =>
    intro other t present
    rcases move.mem present with old | ⟨rfl, new⟩
    · rcases charged.exec_entering reached head old done with
        ⟨group, flag⟩ | ⟨-, -, -, flag⟩
      · rw [group, flag]
        refine (charged.entering other t old).imp_right ?_
        rintro ⟨g, charge⟩
        refine ⟨g, move.keep charge ?_⟩
        simp only [List.mem_singleton]
        rintro rfl
        have now : y'.shared.charged t = true := by
          rw [exec_charge done]
          exact Function.update_self _ _ _
        have foreign : other ≠ .task t := fun same =>
          reached.charge_awake (same ▸ charge) old
        obtain ⟨-, -, uncharged⟩ := (charged.charging other t g charge).resolve_left foreign
        simp [flag, uncharged] at now
      · exact .inl fun _ => flag
    · obtain ⟨flags, rfl, source⟩ := flow.enter_source new
      have accounts := reached.activate_flags member
      obtain ⟨sameGroup, sameFlag⟩ := exec_sched_fields done
      rw [sameGroup, sameFlag]
      rcases source with none | flag | silent | ⟨g, charge⟩
      · exact .inl fun joined => absurd none joined
      · exact .inl fun _ => flag
      · exact absurd accounts silent
      · exact .inr ⟨g, move.gain charge⟩
  case back =>
    intro t on resumes
    by_cases mine : actor = .task t
    · subst mine
      rw [after, Function.update_self] at resumes
      obtain ⟨p, rfl⟩ := exec_resume done (reached.resumes head) resumes
      obtain rfl : p = t := by simpa using (own rfl).symm
      simp only [Cmgroups.exec, execSched, Option.some.injEq, Prod.mk.injEq] at done
      simp [← done.1] at on
    · rw [move.other (Ne.symm mine)] at resumes
      have kept : y.shared.onRq t = true → Settled (y'.shared.cmgroup t) (y'.shared.charged t) := by
        intro before
        rcases exec_fields t done with ⟨group, flag⟩ | ⟨self, -⟩ | ⟨g, rfl, -, -⟩
        · rw [group, flag]
          exact charged.back t before resumes
        · exact absurd (own self) mine
        · obtain ⟨enters, -⟩ := (charged.charging actor t g member).resolve_left mine
          simp [(reached.entering_off (t := t) enters (by simp [activateWeight])).1] at before
      cases exec_transit t done with
      | quiet state onRq => exact kept (onRq ▸ on)
      | own self => exact absurd (own self) mine
      | leave leaves => exact absurd (own (by simp [leaves, Instr.self])) mine
      | enter enters =>
        subst enters
        obtain ⟨sameGroup, sameFlag⟩ := exec_sched_fields done
        rw [sameGroup, sameFlag]
        refine (charged.entering actor t member).resolve_right ?_
        rintro ⟨g, charge⟩
        rw [head, List.mem_cons] at charge
        exact (prompt t g).1 (charge.resolve_left (by simp))
      | woken asleep free before => exact kept before
      | waking asleep free absent state onRq => simp [onRq] at on
  case asleep =>
    intro t off joined
    have kept : y.shared.onRq t = false → step ≠ .sched (.enterRq t) →
        y'.shared.charged t = false ∨ ∃ actor, .sched (.enterRq t) ∈ y'.todo actor := by
      intro before other
      rcases exec_fields t done with ⟨group, flag⟩ | ⟨self, resumed⟩ | ⟨g, rfl, -, -⟩
      · rw [group] at joined
        rw [flag]
        refine (charged.asleep t before joined).imp_right ?_
        rintro ⟨actor, enters⟩
        exact ⟨actor, move.keep enters (by simpa using other.symm)⟩
      · simp [queued (own self) resumed] at before
      · rcases charged.charging actor t g member with mine | ⟨enters, -⟩
        · simp [queued mine (by simp)] at before
        · exact .inr ⟨actor, move.keep enters (by simp)⟩
    have absent : step ≠ .sched (.enterRq t) := by
      rintro rfl
      simp only [Cmgroups.exec, execSched, Option.some.injEq, Prod.mk.injEq] at done
      simp [← done.1] at off
    cases exec_transit t done with
    | quiet state onRq =>
      exact kept (onRq ▸ off) absent
    | own self resumed onRq =>
      rw [onRq, queued (own self) resumed] at off
      simp at off
    | leave leaves =>
      subst leaves
      obtain rfl := own rfl
      have before := charged.own t
      rw [head, accounts_cons] at before
      obtain ⟨sameGroup, sameFlag⟩ := exec_sched_fields done
      rw [sameGroup] at joined
      rw [sameFlag]
      exact .inl (before.1 joined)
    | enter enters state onRq => simp [onRq] at off
    | woken asleep free queued state onRq => simp [onRq] at off
    | waking asleep free before => exact kept before absent

/-- Starting an operation keeps fields and code of tasks together. -/
theorem Charged.start (charged : Charged y) (reached : Reachable y)
    (flow : Starts y.shared actor gained) (move : Move y.todo y'.todo actor [] gained)
    (idle : y.todo actor = []) (onRq : y'.shared.onRq = y.shared.onRq)
    (fields : ∀ t, y'.shared.cmgroup t = y.shared.cmgroup t ∧
        y'.shared.charged t = y.shared.charged t ∨
      y.shared.taskLife t = .unborn ∧ y'.shared.cmgroup t = none)
    (unborn : ∀ t, y'.shared.taskLife t = .unborn → y.shared.taskLife t = .unborn) :
    Charged y' := by
  have awake := Reachable.awake reached
  have old : ∀ {other later}, later ∈ y'.todo other → later ∉ gained → later ∈ y.todo other :=
    fun present absent => (move.mem present).resolve_right fun new => absent new.2
  have keep : ∀ {other later}, later ∈ y.todo other → later ∈ y'.todo other :=
    fun present => move.keep present List.not_mem_nil
  -- a task that is activated exists
  have same : ∀ {other t}, .sched (.enterRq t) ∈ y.todo other →
      y'.shared.cmgroup t = y.shared.cmgroup t ∧ y'.shared.charged t = y.shared.charged t :=
    fun {_} {t} enters => (fields t).resolve_right fun new =>
      (reached.entering_off (t := t) enters (by simp [activateWeight])).2 new.1
  constructor
  case own =>
    intro t
    have before := charged.own t
    rcases fields t with ⟨group, flag⟩ | ⟨born, group⟩
    · rw [group, flag]
      by_cases mine : actor = .task t
      · subst mine
        obtain ⟨rest, code, after⟩ := id move
        obtain rfl : rest = [] := by simpa [idle] using code.symm
        rw [idle] at before
        rw [after, Function.update_self, List.append_nil]
        exact flow.accounts before
      · rwa [move.other (Ne.symm mine)]
    · rw [group]
      by_cases mine : actor = .task t
      · subst mine
        obtain ⟨rest, code, after⟩ := id move
        obtain rfl : rest = [] := by simpa [idle] using code.symm
        rw [after, Function.update_self, List.append_nil]
        exact flow.accounts fun joined => absurd rfl joined
      · rw [move.other (Ne.symm mine), (awake.unborn t born).1]
        exact fun joined => absurd rfl joined
  case unborn =>
    intro t new
    rcases fields t with ⟨group, -⟩ | ⟨-, group⟩
    · rw [group, charged.unborn t (unborn t new)]
    · exact group
  case charging =>
    intro other t g present
    refine (charged.charging other t g (old present flow.unaccounted.1)).imp_right ?_
    rintro ⟨enters, group, flag⟩
    exact ⟨keep enters, (same enters).1.trans group, (same enters).2.trans flag⟩
  case deducting =>
    intro other t g present
    refine (charged.deducting other t g (old present flow.unaccounted.2.1)).imp_right ?_
    rintro ⟨enters, group, flag⟩
    exact ⟨keep enters, (same enters).1.trans group, (same enters).2.trans flag⟩
  case entering =>
    intro other t present
    have enters := old present (flow.unaccounted (g := 0)).2.2
    rw [(same enters).1, (same enters).2]
    refine (charged.entering other t enters).imp_right ?_
    rintro ⟨g, charge⟩
    exact ⟨g, keep charge⟩
  case back =>
    intro t on resumes
    rw [onRq] at on
    obtain ⟨group, flag⟩ := (fields t).resolve_right fun new => by
      simp [(awake.unborn t new.1).2.1] at on
    rw [group, flag]
    refine charged.back t on ?_
    by_cases mine : actor = .task t
    · subst mine
      obtain ⟨rest, code, after⟩ := id move
      obtain rfl : rest = [] := by simpa [idle] using code.symm
      rw [after, Function.update_self, List.append_nil] at resumes
      cases flow <;> simp at resumes
    · rwa [move.other (Ne.symm mine)] at resumes
  case asleep =>
    intro t off joined
    rw [onRq] at off
    rcases fields t with ⟨group, flag⟩ | ⟨-, group⟩
    · rw [group] at joined
      rw [flag]
      refine (charged.asleep t off joined).imp_right ?_
      rintro ⟨other, enters⟩
      exact ⟨other, keep enters⟩
    · exact absurd group joined

/-- Starting a task's operation writes the two fields of a task that it forks. -/
theorem startTask_member {s s' : Shared ι κ} {code : Code ι} {op : TaskOp ι} {p : ι} (t : ι)
    (done : startTask s p op = some (s', code)) :
    (s'.cmgroup t = s.cmgroup t ∧ s'.charged t = s.charged t ∨
      s.taskLife t = .unborn ∧ s'.cmgroup t = none) ∧
    (s'.taskLife t = .unborn → s.taskLife t = .unborn) := by
  cases op with
  | fork u =>
    simp only [startTask] at done
    split at done
    all_goals simp only [Option.some.injEq, Prod.mk.injEq, reduceCtorEq] at done
    obtain ⟨rfl, -⟩ := done
    by_cases same : t = u
    · subst same
      exact ⟨.inr ⟨‹_›, Function.update_self _ _ _⟩, fun _ => ‹_›⟩
    · exact ⟨.inl ⟨by simp [same], by simp [same]⟩, by simp [same]⟩
  | exit =>
    simp only [startTask, Option.some.injEq, Prod.mk.injEq] at done
    obtain ⟨rfl, -⟩ := done
    refine ⟨.inl ⟨rfl, rfl⟩, ?_⟩
    by_cases same : t = p <;> simp [same]
  | _ =>
    simp only [startTask, withEpoll, cmgroupFromFd] at done
    repeat' split at done
    all_goals simp only [Option.some.injEq, Prod.mk.injEq, reduceCtorEq] at done
    all_goals obtain ⟨rfl, -⟩ := done
    all_goals exact ⟨.inl ⟨rfl, rfl⟩, id⟩

/-- In every run fields and code of tasks fit together. -/
theorem Reachable.charged (reached : Reachable y) : Charged y := by
  induction reached with
  | start initial =>
    constructor
    case own =>
      intro t
      rw [initial.idle, initial.cmgroup]
      exact fun joined => absurd rfl joined
    all_goals simp [initial.idle, initial.cmgroup]
  | step reached _ taken ih =>
    obtain ⟨actor, spent, gained, effect, move⟩ := next_effect taken
    cases effect with
    | exec done => exact ih.exec reached done move
    | task idle able done =>
      have frame := startTask_frame (Reachable.unknown reached) done
      exact ih.start reached (startTask_starts done) move idle (by rw [frame])
        (fun t => (startTask_member t done).1) fun t => (startTask_member t done).2
    | cpu idle done =>
      have frame := startCpu_frame done
      exact ih.start reached (startCpu_starts done) move idle (by rw [frame])
        (fun t => .inl (by rw [frame]; exact ⟨rfl, rfl⟩)) fun t => by rw [frame]; exact id

end Reached

end Cmgroups
