import Cmgroups.Verif.Openings

/-!
# Reference accounting

The references to a cmgroup are held by its file, the tasks that belong to it, the event source it
is attached to, the fired instances of its tasklet, and the operations in progress. Every step
changes the count by as much as it changes the number of holders.
-/

set_option linter.unusedSectionVars false

namespace Cmgroups

open Function (update)
open Pool

variable {ι κ : Type} [DecidableEq ι] [DecidableEq κ]

/-- References that fired instances of the tasklet are to give back or to hand on, less those that
are still to be taken for them. -/
def instanceWeight (g : GroupId) : Instr ι → ℤ
  | .obj (.ref h (some _)) => if h = g then -1 else 0
  | .obj (.taskletSchedule h) | .tasklet (.again h _) | .tasklet (.act h _)
  | .tasklet (.reset h _) | .tasklet (.wakeAll h _) | .tasklet (.avail h _)
  | .tasklet (.wake h _) | .tasklet (.recheckClear h _) | .tasklet (.recheck h _)
  | .tasklet (.reassert h _) => if h = g then 1 else 0
  | _ => 0

/-- References that operations are to release or to store, less those they are to take. The last
`cmgroup_unref` of an instance is such an operation. -/
def operationWeight (g : GroupId) : Instr ι → ℤ
  | .obj (.ref h none) | .acct (.clearCmgroup _ h) | .bind (.detachStore h _) =>
    if h = g then -1 else 0
  | .obj (.unref h _) | .acct (.storeCmgroup _ h) | .obj (.newFd h) | .obj (.newFile h)
  | .obj (.free h) | .bind (.beginEpoll h _) | .bind (.storeEpoll h _) | .bind (.lookupAio h _)
  | .bind (.beginAio h _) | .bind (.storeAio h _) | .bind (.doAttachAio h _) =>
    if h = g then 1 else 0
  | .acct (.associate _ h addref _) => if h = g then if addref = true then 0 else 1 else 0
  | _ => 0

/-- References of instances and operations together. -/
def refWeight (g : GroupId) (step : Instr ι) : ℤ := instanceWeight g step + operationWeight g step

/-- Detachments that are still to be made: the attachment keeps their reference. -/
def teardownWeight (g : GroupId) : Instr ι → ℤ
  | .bind (.detachStore h _) => if h = g then 1 else 0
  | _ => 0

/-- One for the calls of `fire_tasklet` in a call that has its own reference. -/
def Fire.called : Fire ι → ℤ
  | .setConcurrencyValue => 1
  | .unlockout | .lessRunnable _ => 0

/-- What is done only by calls that have their own reference, or in a detachment. -/
def callNeed (g : GroupId) : Instr ι → ℤ
  | .obj (.fire h site) | .obj (.ref h (some site)) => if h = g then site.called else 0
  | .lock (.lockVia h via) | .lock (.spinVia h _ via) | .lock (.unlockVia h via) =>
    if h = g then via.mutexes else 0
  | .lock (.wakeAll spin) => if spin = .own g then 1 else 0
  | .acct (.setcvStore h _) | .acct (.setcvAdd h _) | .lock (.mtxLock h)
  | .bind (.lockoutCas h) | .bind (.detachQueue h) | .bind (.detachDrain h)
  | .bind (.detachStore h _) => if h = g then 1 else 0
  | _ => 0

section Weights

variable {s : Shared ι κ} {actor : Actor ι κ} {step : Instr ι} {code : Code ι} {g : GroupId}

theorem callNeed_nonneg (g : GroupId) (step : Instr ι) : 0 ≤ callNeed g step := by
  unfold callNeed
  split
  case h_1 site | h_2 site => cases site <;> dsimp only [Fire.called] <;> split_ifs <;> decide
  case h_3 via | h_4 via | h_5 via =>
    cases via <;> dsimp only [Via.mutexes] <;> split_ifs <;> decide
  all_goals first
    | exact le_rfl
    | split_ifs <;> decide

theorem Expands.instance_secured (g : GroupId) (flow : Expands s actor step code) :
    Secured (instanceWeight g) (fun _ => 0) (min (-0) (instanceWeight g step - 0))
      code := by
  induction flow <;> simp only [secured_cons, secured_nil, load_cons, load_nil, and_true] <;>
    dsimp only [instanceWeight]
  all_goals first
    | decide
    | (split_ifs <;> omega)

theorem Starts.instance_secured (g : GroupId) (flow : Starts s actor code) :
    Secured (instanceWeight g) (fun _ => 0) 0 code := by
  induction flow <;> simp only [secured_cons, secured_nil, load_cons, load_nil, and_true] <;>
    dsimp only [instanceWeight] <;> decide

theorem Expands.operation_secured (g : GroupId) (flow : Expands s actor step code) :
    Secured (operationWeight g) (fun _ => 0) (min (-0) (operationWeight g step - 0))
      code := by
  induction flow <;> simp only [secured_cons, secured_nil, load_cons, load_nil, and_true] <;>
    dsimp only [operationWeight]
  all_goals first
    | decide
    | (split_ifs <;> omega)

theorem Starts.operation_secured (g : GroupId) (flow : Starts s actor code) :
    Secured (operationWeight g) (fun _ => 0) 0 code := by
  induction flow <;> simp only [secured_cons, secured_nil, load_cons, load_nil, and_true] <;>
    dsimp only [operationWeight]
  all_goals first
    | decide
    | (split_ifs <;> omega)

theorem Expands.call_secured (g : GroupId) (flow : Expands s actor step code) :
    Secured (fun i => operationWeight g i + teardownWeight g i) (callNeed g)
      (min (-0) (operationWeight g step + teardownWeight g step - callNeed g step))
      code := by
  have own : ∀ h, s.wqOf h = .own g → h = g := fun h same => by
    by_contra other
    exact wqOf_ne_own s (Ne.symm other) same.symm
  induction flow <;> simp only [secured_cons, secured_nil, load_cons, load_nil, and_true] <;>
    dsimp only [operationWeight, teardownWeight, callNeed, Fire.called, Via.mutexes]
  all_goals first
    | decide
    | (split_ifs <;> omega)
    | (split_ifs <;> first | omega | contradiction | exact absurd (own _ ‹_›) ‹_›)

theorem Starts.call_secured (g : GroupId) (flow : Starts s actor code) :
    Secured (fun i => operationWeight g i + teardownWeight g i) (callNeed g) 0 code := by
  induction flow <;> simp only [secured_cons, secured_nil, load_cons, load_nil, and_true] <;>
    dsimp only [operationWeight, teardownWeight, callNeed, Fire.called, Via.mutexes]
  all_goals first
    | decide
    | (split_ifs <;> omega)

/-- The micro-step can change the count, or which of the holders has a reference. -/
def Instr.recounts : Instr ι → Bool
  | .obj (.ref _ _) | .obj (.unref _ _) | .obj (.taskletSchedule _) | .obj (.newFile _)
  | .obj (.free _) | .acct (.storeCmgroup _ _) | .acct (.clearCmgroup _ _)
  | .tasklet (.clearSched _) | .bind (.attachEpoll _ _) | .bind (.setAio _ _)
  | .bind (.storeEpoll _ _) | .bind (.doAttachAio _ _) | .bind (.detachStore _ _) => true
  | _ => false

/-- Other code keeps the references it has. -/
theorem Expands.ref_load (other : step.recounts = false) (flow : Expands s actor step code) :
    load (refWeight g) code = refWeight g step := by
  induction flow <;> first
    | rfl
    | (simp [Instr.recounts] at other; done)
    | (simp only [load_cons, load_nil]; dsimp only [refWeight, instanceWeight, operationWeight]
       split_ifs <;> first | omega | contradiction)

end Weights

section Holders

variable {actor : Actor ι κ} {choice : Choice} {s s' : Shared ι κ} {step : Instr ι}
  {code : Code ι} {g : GroupId} [Fintype ι]

/-- Tasks that belong to the group. -/
def members (g : GroupId) (s : Shared ι κ) : ℤ := ∑ t, if s.cmgroup t = some g then 1 else 0

/-- One for the event source the group is attached to. -/
def attachments (g : GroupId) (s : Shared ι κ) : ℤ :=
  if s.attachedEpoll g = none ∧ s.attachedAio g = none then 0 else 1

/-- Holders of the group outside remaining code: its files, its tasks, its event source, and the
tasklet while it is scheduled. -/
def holders (g : GroupId) (s : Shared ι κ) : ℤ :=
  s.files g + members g s + attachments g s + (s.sched g).toInt

theorem members_nonneg (g : GroupId) (s : Shared ι κ) : 0 ≤ members g s :=
  Finset.sum_nonneg fun t _ => by split_ifs <;> omega

theorem attachments_nonneg (g : GroupId) (s : Shared ι κ) : 0 ≤ attachments g s := by
  unfold attachments
  split_ifs <;> omega

/-- A task that belongs to the group is counted. -/
theorem members_pos {t : ι} (member : s.cmgroup t = some g) : 1 ≤ members g s := by
  have single := Finset.single_le_sum (s := Finset.univ)
    (f := fun t => if s.cmgroup t = some g then (1 : ℤ) else 0)
    (fun t _ => by split_ifs <;> omega) (Finset.mem_univ t)
  simpa [members, member] using single

/-- When one task joins or leaves, it alone changes the number of members. -/
theorem members_update (t : ι) (group : Option GroupId)
    (changed : s'.cmgroup = update s.cmgroup t group) :
    members g s' = members g s - (if s.cmgroup t = some g then 1 else 0) +
      if group = some g then 1 else 0 := by
  have others : ∀ u ∈ Finset.univ.erase t, (if s'.cmgroup u = some g then (1 : ℤ) else 0) =
      if s.cmgroup u = some g then 1 else 0 := by
    intro u other
    rw [changed, Function.update_of_ne (Finset.ne_of_mem_erase other)]
  simp only [members]
  rw [← Finset.add_sum_erase _ _ (Finset.mem_univ t),
    ← Finset.add_sum_erase _ (fun u => if s.cmgroup u = some g then (1 : ℤ) else 0)
      (Finset.mem_univ t), Finset.sum_congr rfl others, changed, Function.update_self]
  ring

/-- Holders that a step does not touch. -/
theorem holders_congr (files : s'.files g = s.files g) (cmgroup : s'.cmgroup = s.cmgroup)
    (epoll : s'.attachedEpoll g = s.attachedEpoll g) (aio : s'.attachedAio g = s.attachedAio g)
    (sched : s'.sched g = s.sched g) : holders g s' = holders g s := by
  simp only [holders, members, attachments, files, cmgroup, epoll, aio, sched]

/-- What a step, which executes a micro-step or starts an operation, does to the references of a
group: by how much their number changes, and what becomes of the count. -/
inductive Recount (g : GroupId) (s s' : Shared ι κ) : Option (Instr ι) → ℤ → Prop where
  /-- At most a holder hands its reference on. -/
  | quiet {executed : Option (Instr ι)} (kref : s'.kref g = s.kref g) (life : s'.life g = s.life g)
      (freeWork : s'.freeWork g = s.freeWork g) : Recount g s s' executed 0
  /-- A reference is taken by `cmgroup_ref` or found through an open file. -/
  | gain {executed : Option (Instr ι)} (source : (∃ site, executed = some (.obj (.ref g site))) ∨ s.files g ≠ 0)
      (kref : s'.kref g = s.kref g + 1) (life : s'.life g = s.life g)
      (freeWork : s'.freeWork g = s.freeWork g) : Recount g s s' executed 1
  /-- A reference is given back, and the group freed or queued for it with the last one. -/
  | drop {atomic : Bool} (kref : s'.kref g = s.kref g - 1)
      (last : s'.kref g = 0 ∧ (s'.life g = .freed ∧ s'.freeWork g = s.freeWork g ∨
        s'.life g = s.life g ∧ s'.freeWork g ≠ none) ∨
        s'.kref g ≠ 0 ∧ s'.life g = s.life g ∧ s'.freeWork g = s.freeWork g) :
      Recount g s s' (some (.obj (.unref g atomic))) (-1)
  /-- The group is freed without having been published. -/
  | free (life : s'.life g = .freed) (freeWork : s'.freeWork g = s.freeWork g) :
      Recount g s s' (some (.obj (.free g))) (-1)
  /-- The group is allocated. -/
  | create (unborn : s.life g = .unborn) (life : s'.life g = .live) (kref : s'.kref g = 1)
      (freeWork : s'.freeWork g = s.freeWork g) : Recount g s s' none 1
  /-- The work item frees the group. -/
  | work (queued : s.freeWork g ≠ none) (life : s'.life g = .freed)
      (freeWork : s'.freeWork g = none) : Recount g s s' none 0

/-- Other code leaves the count and the holders alone. -/
theorem exec_uncounted (other : step.recounts = false)
    (done : exec actor choice s step = some (s', code)) :
    holders g s' = holders g s ∧ s'.kref g = s.kref g ∧ s'.life g = s.life g ∧
      s'.freeWork g = s.freeWork g := by
  cases step with
  | sched step => rw [execSched_frame done]; exact ⟨rfl, rfl, rfl, rfl⟩
  | lock step => rw [execLock_frame done]; exact ⟨rfl, rfl, rfl, rfl⟩
  | wait step => rw [execWait_frame done]; exact ⟨rfl, rfl, rfl, rfl⟩
  | ep step => rw [execEp_frame done]; exact ⟨rfl, rfl, rfl, rfl⟩
  | tasklet step =>
    have sched : s'.sched g = s.sched g := by
      cases step with
      | wake h pass => rw [wake_frame done]
      | clearSched => simp [Instr.recounts] at other
      | _ =>
        simp only [exec, execTasklet] at done
        repeat' split at done
        all_goals simp only [Option.some.injEq, Prod.mk.injEq] at done
        all_goals obtain ⟨rfl, -⟩ := done
        all_goals rfl
    rw [execTasklet_frame done] at sched ⊢
    exact ⟨holders_congr rfl rfl rfl rfl sched, rfl, rfl, rfl⟩
  | acct step =>
    cases step <;> simp only [exec, execAcct] at done
    all_goals repeat' split at done
    all_goals simp only [Option.some.injEq, Prod.mk.injEq] at done
    all_goals obtain ⟨rfl, -⟩ := done
    all_goals first
      | exact ⟨rfl, rfl, rfl, rfl⟩
      | simp [Instr.recounts] at other
  | obj step =>
    cases step <;> simp only [exec, execObj] at done
    all_goals repeat' split at done
    all_goals simp only [Option.some.injEq, Prod.mk.injEq] at done
    all_goals obtain ⟨rfl, -⟩ := done
    all_goals first
      | exact ⟨rfl, rfl, rfl, rfl⟩
      | simp [Instr.recounts] at other
  | bind step =>
    cases step <;> simp only [exec, execBind] at done
    all_goals repeat' split at done
    all_goals simp only [Option.some.injEq, Prod.mk.injEq] at done
    all_goals obtain ⟨rfl, -⟩ := done
    all_goals first
      | exact ⟨rfl, rfl, rfl, rfl⟩
      | simp [Instr.recounts] at other

/-- Taking a reference settles a debt of the code that takes it. -/
theorem refWeight_ref (g h : GroupId) (site : Option (Fire ι)) :
    refWeight g (.obj (.ref h site)) = if h = g then -1 else 0 := by
  cases site <;> simp [refWeight, instanceWeight, operationWeight]

/-- The kind of a change goes with its amount. -/
theorem Recount.amount {executed : Option (Instr ι)} {given found : ℤ}
    (recount : Recount g s s' executed given) (same : found = given) :
    Recount g s s' executed found := same ▸ recount

/-- A micro-step balances the references of a group against its count. -/
theorem exec_recount (done : exec actor choice s step = some (s', code))
    (store : ∀ t h, step = .acct (.storeCmgroup t h) → s.cmgroup t = none)
    (clear : ∀ t h, step = .acct (.clearCmgroup t h) → s.cmgroup t = some h)
    (schedule : step = .obj (.taskletSchedule g) → s.sched g = false)
    (attach : step.attaches g → s.attachedEpoll g = none ∧ s.attachedAio g = none)
    (detach : ∀ source, step = .bind (.detachStore g source) →
      ¬ (s.attachedEpoll g = none ∧ s.attachedAio g = none)) :
    Recount g s s' (some step)
      (holders g s' + load (refWeight g) code - (holders g s + refWeight g step)) := by
  by_cases special : step.recounts = true
  case neg =>
    have other : step.recounts = false := by simpa using special
    obtain ⟨same, kref, life, freeWork⟩ := exec_uncounted (g := g) other done
    rw [same, (exec_expands done).ref_load other, sub_self]
    exact .quiet kref life freeWork
  case pos =>
    cases step with
    | obj step =>
      cases step with
      | ref h site =>
        simp only [exec, execObj, Option.some.injEq, Prod.mk.injEq] at done
        obtain ⟨state, rfl⟩ := done
        have kept : holders g s' = holders g s := state ▸ rfl
        rw [kept, refWeight_ref]
        by_cases same : h = g
        · subst state same
          exact Recount.amount (.gain (.inl ⟨site, rfl⟩) (Function.update_self _ _ _) rfl rfl) (by simp)
        · subst state
          exact Recount.amount (.quiet (Function.update_of_ne (Ne.symm same) _ _) rfl rfl) (by simp [same])
      | unref h atomic =>
        have weight : refWeight g (.obj (.unref h atomic) : Instr ι) = if h = g then 1 else 0 := by
          simp [refWeight, instanceWeight, operationWeight]
        simp only [exec, execObj] at done
        split_ifs at done with last queued
        all_goals simp only [Option.some.injEq, Prod.mk.injEq] at done
        all_goals obtain ⟨state, rfl⟩ := done
        all_goals have kept : holders g s' = holders g s := state ▸ rfl
        all_goals rw [kept, weight, load_nil]
        all_goals by_cases same : h = g
        all_goals subst state
        · subst same
          exact Recount.amount (.drop (by simp) (.inl (by simp [last]))) (by simp)
        · exact Recount.amount (.quiet (by simp [Ne.symm same]) rfl (by simp [Ne.symm same])) (by simp [same])
        · subst same
          exact Recount.amount (.drop (by simp) (.inl (by simp [last]))) (by simp)
        · exact Recount.amount (.quiet (by simp [Ne.symm same]) (by simp [Ne.symm same]) rfl) (by simp [same])
        · subst same
          exact Recount.amount (.drop (by simp) (.inr (by simp [last]))) (by simp)
        · exact Recount.amount (.quiet (by simp [Ne.symm same]) rfl rfl) (by simp [same])
      | taskletSchedule h =>
        have weight : refWeight g (.obj (.taskletSchedule h) : Instr ι) = if h = g then 1 else 0 := by
          simp [refWeight, instanceWeight, operationWeight]
        rw [weight]
        simp only [exec, execObj] at done
        split_ifs at done with set
        all_goals simp only [Option.some.injEq, Prod.mk.injEq] at done
        all_goals obtain ⟨rfl, rfl⟩ := done
        all_goals refine Recount.amount (.quiet rfl rfl rfl) ?_
        all_goals by_cases same : h = g
        · subst same
          simp [schedule rfl] at set
        · simp [same]
        · subst same
          simp [holders, members, attachments, set]
        · simp [holders, members, attachments, same, Ne.symm same]
      | newFile h =>
        have weight : refWeight g (.obj (.newFile h) : Instr ι) = if h = g then 1 else 0 := by
          simp [refWeight, instanceWeight, operationWeight]
        rw [weight]
        simp only [exec, execObj] at done
        split_ifs at done
        all_goals simp only [Option.some.injEq, Prod.mk.injEq] at done
        all_goals obtain ⟨rfl, rfl⟩ := done
        all_goals refine Recount.amount (.quiet rfl rfl rfl) ?_
        · simp [refWeight, instanceWeight, operationWeight]
        · by_cases same : h = g
          · subst same
            simp [holders, members, attachments, refWeight, instanceWeight, operationWeight]
            ring
          · simp [holders, members, attachments, refWeight, instanceWeight, operationWeight, same,
              Ne.symm same]
      | free h =>
        have weight : refWeight g (.obj (.free h) : Instr ι) = if h = g then 1 else 0 := by
          simp [refWeight, instanceWeight, operationWeight]
        simp only [exec, execObj, Option.some.injEq, Prod.mk.injEq] at done
        obtain ⟨state, rfl⟩ := done
        have kept : holders g s' = holders g s := state ▸ rfl
        rw [kept, weight, load_nil]
        by_cases same : h = g
        · subst state same
          exact Recount.amount (.free (Function.update_self _ _ _) rfl) (by simp)
        · subst state
          exact Recount.amount (.quiet rfl (Function.update_of_ne (Ne.symm same) _ _) rfl)
            (by simp [same])
      | _ => simp [Instr.recounts] at special
    | acct step =>
      cases step with
      | storeCmgroup t h =>
        simp only [exec, execAcct, Option.some.injEq, Prod.mk.injEq] at done
        obtain ⟨state, rfl⟩ := done
        have moved := members_update (g := g) t (some h) (congrArg Shared.cmgroup state).symm
        subst state
        refine Recount.amount (.quiet rfl rfl rfl) ?_
        simp only [holders, moved, store t h rfl]
        simp [attachments, refWeight, instanceWeight, operationWeight]
        ring
      | clearCmgroup t h =>
        simp only [exec, execAcct, Option.some.injEq, Prod.mk.injEq] at done
        obtain ⟨state, rfl⟩ := done
        have moved := members_update (g := g) t none (congrArg Shared.cmgroup state).symm
        subst state
        refine Recount.amount (.quiet rfl rfl rfl) ?_
        simp only [holders, moved, clear t h rfl]
        simp [attachments, refWeight, instanceWeight, operationWeight]
        split_ifs <;> ring
      | _ => simp [Instr.recounts] at special
    | tasklet step =>
      cases step with
      | clearSched h =>
        simp only [exec, execTasklet] at done
        split_ifs at done with set
        simp only [Option.some.injEq, Prod.mk.injEq] at done
        obtain ⟨rfl, rfl⟩ := done
        refine Recount.amount (.quiet rfl rfl rfl) ?_
        by_cases same : h = g
        · subst same
          simp [holders, members, attachments, refWeight, instanceWeight, operationWeight, set]
        · simp [holders, members, attachments, refWeight, instanceWeight, operationWeight, same,
            Ne.symm same]
      | _ => simp [Instr.recounts] at special
    | bind step =>
      cases step with
      | attachEpoll e fd | setAio e fd =>
        simp only [exec, execBind] at done
        repeat' split at done
        all_goals simp only [Option.some.injEq, Prod.mk.injEq] at done
        all_goals obtain ⟨state, rfl⟩ := done
        all_goals have kept : holders g s' = holders g s := state ▸ rfl
        all_goals rw [kept]
        case h_3.isFalse h opened =>
          by_cases same : h = g
          · subst state same
            refine Recount.amount (.gain (.inr opened) (Function.update_self _ _ _) rfl rfl) ?_
            simp [refWeight, instanceWeight, operationWeight]
          · subst state
            refine Recount.amount (.quiet (Function.update_of_ne (Ne.symm same) _ _) rfl rfl) ?_
            simp [same, refWeight, instanceWeight, operationWeight]
        all_goals subst state
        all_goals refine Recount.amount (.quiet rfl rfl rfl) ?_
        all_goals simp [refWeight, instanceWeight, operationWeight]
      | storeEpoll h e =>
        simp only [exec, execBind] at done
        split_ifs at done
        all_goals simp only [Option.some.injEq, Prod.mk.injEq] at done
        all_goals obtain ⟨rfl, rfl⟩ := done
        all_goals refine Recount.amount (.quiet rfl rfl rfl) ?_
        · by_cases same : h = g
          · subst same
            simp [holders, members, attachments, attach rfl, endAttachEpoll, refWeight,
              instanceWeight, operationWeight]
            ring
          · simp [holders, members, attachments, endAttachEpoll, refWeight, instanceWeight,
              operationWeight, same, Ne.symm same]
        · by_cases same : h = g
          · subst same
            simp [holders, members, attachments, attach rfl, endAttachEpoll, refWeight,
              instanceWeight, operationWeight]
            ring
          · simp [holders, members, attachments, endAttachEpoll, refWeight, instanceWeight,
              operationWeight, same, Ne.symm same]
        · simp [endAttachEpoll, refWeight, instanceWeight, operationWeight, ebusy]
      | doAttachAio h c =>
        simp only [exec, execBind, Option.some.injEq, Prod.mk.injEq] at done
        obtain ⟨rfl, rfl⟩ := done
        refine Recount.amount (.quiet rfl rfl rfl) ?_
        by_cases same : h = g
        · subst same
          simp [holders, members, attachments, attach rfl, endAttachAio, refWeight,
            instanceWeight, operationWeight]
          ring
        · simp [holders, members, attachments, endAttachAio, refWeight, instanceWeight,
            operationWeight, same, Ne.symm same]
      | detachStore h source =>
        simp only [exec, execBind, Option.some.injEq, Prod.mk.injEq] at done
        obtain ⟨rfl, rfl⟩ := done
        refine Recount.amount (.quiet rfl rfl rfl) ?_
        by_cases same : h = g
        · subst same
          simp only [holders, members, attachments, if_neg (detach source rfl)]
          simp [refWeight, instanceWeight, operationWeight]
          ring
        · simp [holders, members, attachments, refWeight, instanceWeight, operationWeight, same,
            Ne.symm same]
      | _ => simp [Instr.recounts] at special
    | _ => simp [Instr.recounts] at special

/-- A detachment releases the reference of the attachment. -/
theorem load_cmgroupDetach (g h : GroupId) (source : Source) :
    load (refWeight g) (cmgroupDetach h source : Code ι) = 0 := by
  simp only [cmgroupDetach, lockoutTasklet, load_append, load_cons, load_nil]
  dsimp only [refWeight, instanceWeight, operationWeight]
  split_ifs <;> omega

/-- So does the start of a task's operation. -/
theorem startTask_recount {t : ι} {op : TaskOp ι} (fresh : ∀ {h}, s.life h = .unborn → Unknown s h)
    (unborn : ∀ u, s.taskLife u = .unborn → s.cmgroup u = none)
    (done : startTask s t op = some (s', code)) :
    Recount g s s' none (holders g s' + load (refWeight g) code - holders g s) := by
  cases op with
  | newgroup h nthreads flags cpus =>
    simp only [startTask] at done
    repeat' split at done
    all_goals simp only [Option.some.injEq, Prod.mk.injEq, reduceCtorEq] at done
    all_goals obtain ⟨rfl, rfl⟩ := done
    case h_2.isTrue unborn' =>
      rw [cmgroupAlloc_frame (fresh unborn')]
      by_cases same : h = g
      · subst same
        refine Recount.amount (.create unborn' (Function.update_self _ _ _)
          (Function.update_self _ _ _) rfl) ?_
        simp [holders, members, attachments, refWeight, instanceWeight, operationWeight]
      · refine Recount.amount (.quiet (Function.update_of_ne (Ne.symm same) _ _)
          (Function.update_of_ne (Ne.symm same) _ _) rfl) ?_
        simp [holders, members, attachments, refWeight, instanceWeight, operationWeight, same]
    all_goals refine Recount.amount (.quiet rfl rfl rfl) ?_
    all_goals simp [refWeight, instanceWeight, operationWeight]
  | closeFile h =>
    simp only [startTask] at done
    split at done
    case isTrue => simp at done
    case isFalse opened =>
      simp only [Option.some.injEq, Prod.mk.injEq] at done
      obtain ⟨rfl, rfl⟩ := done
      refine Recount.amount (.quiet rfl rfl rfl) ?_
      by_cases same : h = g
      · subst same
        have counted : ((s.files h - 1 : ℕ) : ℤ) = s.files h - 1 := by omega
        simp [holders, members, attachments, refWeight, instanceWeight, operationWeight, counted]
        ring
      · simp [holders, members, attachments, refWeight, instanceWeight, operationWeight, same,
          Ne.symm same]
  | fork u =>
    simp only [startTask] at done
    split at done
    case isFalse => simp at done
    case isTrue new =>
      simp only [Option.some.injEq, Prod.mk.injEq] at done
      obtain ⟨state, rfl⟩ := done
      have moved := members_update (g := g) u none (congrArg Shared.cmgroup state).symm
      subst state
      refine Recount.amount (.quiet rfl rfl rfl) ?_
      simp only [holders, moved, unborn u new]
      simp [attachments, refWeight, instanceWeight, operationWeight]
  | associate fd | getConcurrencyValue fd | setConcurrencyValue fd nthreads cpus =>
    simp only [startTask, cmgroupFromFd] at done
    repeat' split at done
    all_goals simp only [Option.some.injEq, Prod.mk.injEq] at done
    all_goals obtain ⟨state, rfl⟩ := done
    all_goals have kept : holders g s' = holders g s := state ▸ rfl
    all_goals rw [kept]
    all_goals first
      | (subst state
         refine Recount.amount (.quiet rfl rfl rfl) ?_
         simp [refWeight, instanceWeight, operationWeight])
      | skip
    all_goals
      rename_i h opened
      by_cases same : h = g
      · subst state same
        refine Recount.amount (.gain (.inr opened) (Function.update_self _ _ _) rfl rfl) ?_
        simp [refWeight, instanceWeight, operationWeight]
      · subst state
        refine Recount.amount (.quiet (Function.update_of_ne (Ne.symm same) _ _) rfl rfl) ?_
        simp [same, refWeight, instanceWeight, operationWeight]
  | _ =>
    simp only [startTask, withEpoll] at done
    repeat' split at done
    all_goals simp only [Option.some.injEq, Prod.mk.injEq, reduceCtorEq] at done
    all_goals obtain ⟨rfl, rfl⟩ := done
    all_goals refine Recount.amount (.quiet rfl rfl rfl) ?_
    all_goals simp [holders, members, attachments, load_cmgroupDetach, epScanReadyList,
      refWeight, instanceWeight, operationWeight]

/-- And that of a CPU's. -/
theorem startCpu_recount {todo : Actor ι κ → Code ι} {op : CpuOp ι}
    (done : startCpu s todo actor op = some (s', code)) :
    Recount g s s' none (holders g s' + load (refWeight g) code - holders g s) := by
  cases op with
  | freeWork h =>
    simp only [startCpu] at done
    repeat' split at done
    all_goals simp only [Option.some.injEq, Prod.mk.injEq, reduceCtorEq] at done
    all_goals obtain ⟨state, rfl⟩ := done
    all_goals have kept : holders g s' = holders g s := state ▸ rfl
    all_goals rw [kept]
    all_goals
      by_cases same : h = g
      · subst state same
        exact Recount.amount (.work (by simp [*]) (Function.update_self _ _ _)
          (Function.update_self _ _ _)) (by simp)
      · subst state
        exact Recount.amount (.quiet rfl (Function.update_of_ne (Ne.symm same) _ _)
          (Function.update_of_ne (Ne.symm same) _ _)) (by simp)
  | _ =>
    simp only [startCpu, withEpoll, cmgroupTaskDequeued_requeue] at done
    repeat' split at done
    all_goals simp only [Option.some.injEq, Prod.mk.injEq, reduceCtorEq] at done
    all_goals obtain ⟨rfl, rfl⟩ := done
    all_goals refine Recount.amount (.quiet rfl rfl rfl) ?_
    all_goals simp [holders, members, attachments, load_cmgroupDetach,
      refWeight, instanceWeight, operationWeight]

end Holders

end Cmgroups
