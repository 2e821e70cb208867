import Cmgroups.Verif.References
import Cmgroups.Verif.OneToOne

/-!
# Lifetime of a cmgroup

A reference is taken only by code that works for another holder: a file, a task that belongs to
the cmgroup, an event source in use, or a call with a reference of its own. So the count reaches
zero once and for good, when the last holder gives its reference back.
-/

set_option linter.unusedSectionVars false

namespace Cmgroups

open Function (update)
open Pool

variable {ι κ : Type} [DecidableEq ι] [DecidableEq κ]

/-- The cmgroup is attached to the event source, or about to be. -/
def BoundTo (y : Sys ι κ) (g : GroupId) : Source → Prop
  | .epoll e => y.shared.attachedEpoll g = some e
  | .aio c => y.shared.attachedAio g = some c ∨
      ∃ actor, .bind (.doAttachAio g c) ∈ y.todo actor

/-- References to an event source held by calls. -/
def useWeight : Source → Instr ι → ℤ
  | .epoll e => epUsersWeight e
  | .aio c => usersWeight c

/-- What a micro-step does only while a call has a reference to the event source. -/
def useNeed : Source → Instr ι → ℤ
  | .epoll e => epUsersNeed e
  | .aio c => usersNeed c

/-- The micro-step relies on the event source that the cmgroup is attached to: it is part of a call
that fetches events from it, or wakes its waiters. -/
def Instr.relies (g : GroupId) : Instr ι → Prop
  | .acct (.associate _ h true _) | .obj (.ref h none) | .lock (.lockVia h (.waiter _))
  | .lock (.spinVia h _ (.waiter _)) | .lock (.unlockVia h (.waiter _))
  | .wait (.enter _ _ h _ _ _ _) | .wait (.loop _ _ h _ _) | .wait (.fast _ _ h _ _)
  | .wait (.begin _ _ h _ _) | .wait (.check _ _ h _ _) | .wait (.add _ _ h _ _)
  | .wait (.signal _ _ h _ _) | .wait (.woken _ _ h _ _) | .wait (.finish _ h)
  | .wait (.done _ h _ _) | .ep (.wakeWqAvail _ h) | .ep (.wakeWqRequest _ h) => h = g
  | .lock (.lock spin) | .lock (.unlock spin) | .lock (.unlink _ spin) => spin = .own g
  | .ep (.poll _ _ _ locals) => locals.cmgroup = some g
  | _ => False

/-- Code that relies on an event source has a reference to it. -/
def Backed (y : Sys ι κ) (g : GroupId) (step : Instr ι) (rest : Code ι) : Prop :=
  step.relies g → ∃ source, BoundTo y g source ∧ 1 ≤ load (useWeight source) (step :: rest)

/-- The micro-step is part of `cmgroup_unlockout_tasklet` or releases `attached_mtx`. -/
def Instr.unlocks (g : GroupId) : Instr ι → Prop
  | .bind (.unlockoutClear h) | .obj (.fire h .unlockout)
  | .obj (.ref h (some .unlockout)) | .lock (.mtxUnlock h) => h = g
  | _ => False

/-- The micro-step and the code it expands to release no reference. -/
def Instr.calm : Instr ι → Bool
  | .sched _ | .lock _ | .ep (.scanBegin _) | .ep (.scanProc _) | .ep (.scanEnd _)
  | .ep (.wakeWq _) | .ep (.wakeWqAvail _ _) | .ep (.wakeWqRequest _ _)
  | .acct (.setcvStore _ _) | .acct (.setcvAdd _ _) | .acct (.charge _ _)
  | .acct (.decAvailable _ _) | .acct (.uncharge _ _) | .acct (.incAvailable _ _)
  | .obj (.fire _ _) | .obj (.ref _ _) | .obj (.taskletSchedule _)
  | .bind (.lockoutCas _) | .bind (.unlockoutClear _) | .bind (.detachQueue _)
  | .bind (.detachDrain _) | .bind (.detachStore _ _) => true
  | _ => false

/-- So it is for some cmgroup. -/
def Instr.unlocksAny : Instr ι → Bool
  | .bind (.unlockoutClear _) | .obj (.fire _ .unlockout)
  | .obj (.ref _ (some .unlockout)) | .lock (.mtxUnlock _) => true
  | _ => false

/-- What stands before `cmgroup_unlockout_tasklet` releases no reference. -/
def Calmly : Instr ι → Code ι → Prop :=
  Before (fun later => later.unlocksAny = true) fun step => step.calm = true

section Flow

variable {s s' : Shared ι κ} {actor : Actor ι κ} {choice : Choice} {step : Instr ι}
  {code : Code ι} {g : GroupId}

theorem useWeight_nonneg (source : Source) (step : Instr ι) : 0 ≤ useWeight source step := by
  cases source with
  | epoll e => exact epUsersWeight_nonneg e step
  | aio c => exact usersWeight_nonneg c step

theorem Instr.unlocks.any (unlocks : step.unlocks g) : step.unlocksAny = true := by
  unfold Instr.unlocks at unlocks
  split at unlocks
  case h_5 => exact unlocks.elim
  all_goals rfl

theorem Instr.unlocks.absent {later : Instr ι} (member : later ∈ code)
    (others : code.all (fun i => !i.unlocksAny) = true) : ¬ later.unlocks g :=
  absent_of_all (Instr.unlocks g) Instr.unlocksAny (fun _ => Instr.unlocks.any) member others

/-- Calm code stays calm. -/
theorem Expands.calm (flow : Expands s actor step code) (calm : step.calm = true) :
    ∀ later ∈ code, later.calm = true := by
  refine List.all_eq_true.1 ?_
  induction flow
  all_goals first
    | rfl
    | contradiction

/-- Calm code releases no reference of an operation. -/
theorem Expands.calm_load (flow : Expands s actor step code) (calm : step.calm = true) :
    operationWeight g step ≤ load (operationWeight g) code := by
  induction flow
  case ref site =>
    cases site with
    | none =>
      simp only [load_nil, operationWeight]
      split_ifs <;> decide
    | some site => exact le_rfl
  all_goals first
    | (simp [Instr.calm] at calm; done)
    | (simp only [load_cons, load_nil]; dsimp only [operationWeight]
       first
        | decide
        | (split_ifs <;> omega))

/-- Code before `cmgroup_unlockout_tasklet` is calm. -/
theorem Expands.calmly (flow : Expands s actor step code) (rest : Code ι)
    (calmly : Calmly step rest) :
    Tails (fun later tail => Calmly later (tail ++ rest)) code := by
  refine Tails.before (tails_before_of_ordered ?_) fun waiting => flow.calm (calmly waiting)
  induction flow <;> rfl

/-- So is code that starts an operation. -/
theorem Starts.calmly (flow : Starts s actor code) : Tails Calmly code :=
  tails_before_of_ordered (by induction flow <;> rfl)

theorem useNeed_nonneg (source : Source) (step : Instr ι) : 0 ≤ useNeed source step := by
  cases source with
  | epoll e => exact epUsersNeed_nonneg e step
  | aio c => exact usersNeed_nonneg c step

/-- Code begins to rely on an event source that it finds bound to the cmgroup, and keeps the
reference it has to it. -/
theorem Expands.relies (flow : Expands s actor step code) :
    Tails (fun later tail => later.relies g →
      (∃ source, source.cmgroup s = some g ∧ useNeed source step = 1 ∧
        useWeight source step ≤ load (useWeight source) (later :: tail)) ∨
      step.relies g ∧
        ∀ source, useWeight source step ≤ load (useWeight source) (later :: tail)) code := by
  have own : ∀ h, s.wqOf h = .own g → h = g := fun h same => by
    by_contra other
    exact wqOf_ne_own s (Ne.symm other) same.symm
  induction flow <;> simp only [tails_cons, tails_nil, and_true] <;>
    simp only [Instr.relies, false_implies, and_true, true_and, reduceCtorEq]
  case gateAssociate c _ _ _ _ _ h bound | gateEnter c _ _ _ _ _ h bound =>
    rintro rfl
    exact .inl ⟨.aio c, bound, by simp [useNeed, usersNeed], by simp [useWeight, usersWeight]⟩
  case gateAssociateEnter c _ _ _ _ _ h bound =>
    constructor <;> rintro rfl <;> exact .inl ⟨.aio c, bound, by simp [useNeed, usersNeed],
      by simp [useWeight, usersWeight]⟩
  case wakeWq e h bound =>
    rintro rfl
    exact .inl ⟨.epoll e, bound, by simp [useNeed, epUsersNeed], by simp [useWeight, epUsersWeight]⟩
  case pollAssociate e _ _ _ _ h _ _ bound noted =>
    constructor
    · rintro rfl
      exact .inl ⟨.epoll e, bound, by simp [useNeed, epUsersNeed],
        by simp [useWeight, epUsersWeight]⟩
    · intro relies
      refine .inl ⟨.epoll e, ?_, by simp [useNeed, epUsersNeed],
        by simp [useWeight, epUsersWeight]⟩
      rw [← relies, noted]
      exact bound
  case poll e _ _ _ _ _ _ noted | pollOops e _ _ _ _ _ _ noted =>
    intro relies
    rcases noted with kept | new
    · refine .inr ⟨kept.symm.trans relies, fun source => ?_⟩
      cases source <;> simp [useWeight, epUsersWeight, usersWeight]
    · exact .inl ⟨.epoll e, new.symm.trans relies, by simp [useNeed, epUsersNeed],
        by simp [useWeight, epUsersWeight]⟩
  case pollRelease noted | pollRetake noted =>
    intro relies
    refine .inr ⟨noted.symm.trans relies, fun source => ?_⟩
    cases source <;> simp [useWeight, epUsersWeight, usersWeight]
  case pollSleep | pollSend =>
    intro relies
    refine .inr ⟨relies, fun source => ?_⟩
    cases source <;> simp [useWeight, epUsersWeight, usersWeight]
  case lockVia h via =>
    cases via <;> dsimp only <;> intro relies
    case waiter c =>
      refine .inr ⟨relies, fun source => ?_⟩
      cases source <;> simp [useWeight, epUsersWeight, usersWeight]
    all_goals exact relies.elim
  case finish t h =>
    refine ⟨?_, ?_, ?_⟩ <;> intro relies <;>
      refine .inr ⟨own h relies, fun source => ?_⟩ <;>
      cases source <;> simp [useWeight, epUsersWeight, usersWeight]
  all_goals first
    | (intro relies
       refine .inr ⟨relies, fun source => ?_⟩
       cases source <;> simp [useWeight, epUsersWeight, usersWeight])
    | (constructor <;> intro relies <;> refine .inr ⟨relies, fun source => ?_⟩ <;>
       cases source <;> simp [useWeight, epUsersWeight, usersWeight])

/-- No operation starts with such code. -/
theorem Starts.relies (flow : Starts s actor code) : ∀ later ∈ code, ¬ later.relies g := by
  induction flow <;>
    simp only [List.forall_mem_cons, List.not_mem_nil, false_implies, implies_true, and_true] <;>
    dsimp only [Instr.relies]
  case epollWait unnoted => simp [unnoted]
  all_goals simp

/-- Who attaches and detaches a cmgroup. -/
theorem exec_attached (done : exec actor choice s step = some (s', code)) :
    s'.attachedEpoll g = s.attachedEpoll g ∧ s'.attachedAio g = s.attachedAio g ∨
      step.attaches g ∨ ∃ source, step = .bind (.detachStore g source) := by
  cases step with
  | bind step =>
    cases step with
    | storeEpoll h e =>
      simp only [exec, execBind] at done
      split at done
      all_goals simp only [Option.some.injEq, Prod.mk.injEq] at done
      all_goals obtain ⟨rfl, -⟩ := done
      · by_cases same : h = g
        · exact .inr (.inl same)
        · exact .inl ⟨Function.update_of_ne (Ne.symm same) _ _, rfl⟩
      · exact .inl ⟨rfl, rfl⟩
    | doAttachAio h c =>
      simp only [exec, execBind, Option.some.injEq, Prod.mk.injEq] at done
      obtain ⟨rfl, -⟩ := done
      by_cases same : h = g
      · exact .inr (.inl same)
      · exact .inl ⟨rfl, Function.update_of_ne (Ne.symm same) _ _⟩
    | detachStore h source =>
      simp only [exec, execBind, Option.some.injEq, Prod.mk.injEq] at done
      obtain ⟨rfl, -⟩ := done
      by_cases same : h = g
      · subst same
        exact .inr (.inr ⟨source, rfl⟩)
      · exact .inl ⟨Function.update_of_ne (Ne.symm same) _ _,
          Function.update_of_ne (Ne.symm same) _ _⟩
    | _ =>
      simp only [exec, execBind] at done
      repeat' split at done
      all_goals simp only [Option.some.injEq, Prod.mk.injEq] at done
      all_goals obtain ⟨rfl, -⟩ := done
      all_goals exact .inl ⟨rfl, rfl⟩
  | acct step => rw [execAcct_frame done]; exact .inl ⟨rfl, rfl⟩
  | sched step => rw [execSched_frame done]; exact .inl ⟨rfl, rfl⟩
  | obj step => rw [execObj_frame done]; exact .inl ⟨rfl, rfl⟩
  | lock step => rw [execLock_frame done]; exact .inl ⟨rfl, rfl⟩
  | tasklet step => rw [execTasklet_frame done]; exact .inl ⟨rfl, rfl⟩
  | wait step => rw [execWait_frame done]; exact .inl ⟨rfl, rfl⟩
  | ep step => rw [execEp_frame done]; exact .inl ⟨rfl, rfl⟩

/-- Only `cmgroup_detach` takes an attachment away. -/
theorem exec_attachments [Fintype ι] (done : exec actor choice s step = some (s', code))
    (keeps : ∀ source, step ≠ .bind (.detachStore g source))
    (attach : step.attaches g → s.attachedEpoll g = none ∧ s.attachedAio g = none) :
    attachments g s ≤ attachments g s' := by
  rcases exec_attached (g := g) done with ⟨epoll, aio⟩ | attaches | ⟨source, rfl⟩
  · simp [attachments, epoll, aio]
  · have free : attachments g s = 0 := if_pos (attach attaches)
    exact free.trans_le (attachments_nonneg g s')
  · exact absurd rfl (keeps source)

/-- Where `cmgroup_unlockout_tasklet` is called by an executed micro-step. -/
theorem Expands.unlocks (flow : Expands s actor step code) {later : Instr ι} (member : later ∈ code)
    (unlocks : later.unlocks g) :
    step.unlocks g ∧ operationWeight g step = 0 ∧ load (operationWeight g) code = 0 ∨
      1 ≤ load (operationWeight g) code ∨
      (∃ e, step = .bind (.storeEpoll g e)) ∨ (∃ c, step = .bind (.storeAio g c)) ∨
        ∃ c, step = .bind (.doAttachAio g c) := by
  induction flow
  case beginEpollFail h e value | beginAioFail h e value =>
    have same : h = g := by
      simp only [List.mem_cons, List.not_mem_nil, or_false] at member
      rcases member with rfl | rfl | rfl | rfl <;> first
        | exact unlocks
        | exact unlocks.elim
    exact .inr (.inl (by simp [operationWeight, same]))
  case unlockoutClear h =>
    obtain rfl := List.mem_singleton.1 member
    exact .inl ⟨unlocks, rfl, rfl⟩
  case fire h site =>
    simp only [List.mem_cons, List.not_mem_nil, or_false] at member
    rcases member with rfl | rfl
    · cases site with
      | unlockout => exact .inl ⟨unlocks, rfl, rfl⟩
      | _ => exact unlocks.elim
    · exact unlocks.elim
  case storeEpollQuiet h e _ | storeEpoll h e _ | storeEpollFail h e _ =>
    simp [Instr.unlocks] at member unlocks
    rcases member with rfl | rfl | rfl | rfl | rfl <;> simp_all [Instr.unlocks]
  case storeAioFail h c _ =>
    simp at member
    rcases member with rfl | rfl | rfl | rfl | rfl <;> simp_all [Instr.unlocks]
  case doAttachAio h c =>
    simp at member
    rcases member with rfl | rfl | rfl | rfl <;> simp_all [Instr.unlocks]
  all_goals exact absurd unlocks (Instr.unlocks.absent member rfl)

/-- Only `mutex_lock` gives the mutex. -/
theorem Expands.mtx_gain (flow : Expands s actor step code) :
    load (mtxWeight g) code ≤ mtxWeight g step ∨
      step = .lock (.mtxLock g) ∧ load (operationWeight g) code = 0 := by
  induction flow
  case mtxLock h =>
    by_cases same : h = g
    · exact .inr ⟨by rw [same], rfl⟩
    · exact .inl (by simp [mtxWeight, same])
  all_goals
    refine .inl ?_
    simp only [load_cons, load_nil]
    dsimp only [mtxWeight]
    first
      | decide
      | (split_ifs <;> omega)

/-- The caller has a reference of its own or has attached the cmgroup. -/
theorem exec_unlocks [Fintype ι] (done : exec actor choice s step = some (s', code))
    {later : Instr ι} (member : later ∈ code) (unlocks : later.unlocks g) :
    step.unlocks g ∧ operationWeight g step = 0 ∧ load (operationWeight g) code = 0 ∨
      1 ≤ attachments g s' + load (operationWeight g) code := by
  rcases (exec_expands done).unlocks member unlocks with
    still | owns | ⟨e, rfl⟩ | ⟨c, rfl⟩ | ⟨c, rfl⟩
  · exact .inl still
  · have low := attachments_nonneg g s'
    exact .inr (by omega)
  · simp only [exec, execBind] at done
    split at done
    all_goals simp only [Option.some.injEq, Prod.mk.injEq] at done
    all_goals obtain ⟨rfl, rfl⟩ := done
    · refine .inr ?_
      split_ifs <;> simp [attachments, endAttachEpoll, operationWeight]
    · refine .inr ?_
      have low := attachments_nonneg g s
      simp [endAttachEpoll, operationWeight, ebusy]
      omega
  · simp only [exec, execBind] at done
    split at done
    all_goals simp only [Option.some.injEq, Prod.mk.injEq] at done
    all_goals obtain ⟨rfl, rfl⟩ := done
    · simp only [List.mem_singleton] at member
      subst member
      exact unlocks.elim
    · refine .inr ?_
      have low := attachments_nonneg g s
      simp [endAttachAio, operationWeight, ebusy]
      omega
  · simp only [exec, execBind, Option.some.injEq, Prod.mk.injEq] at done
    obtain ⟨rfl, rfl⟩ := done
    refine .inr ?_
    simp [attachments, endAttachAio, operationWeight]

end Flow

section Run

variable {y y' : Sys ι κ} {actor other : Actor ι κ} {choice : Choice} {step : Instr ι}
  {gained rest : Code ι} {g : GroupId} [Fintype ι] [Fintype κ]

/-- An event source in use is not being destroyed. -/
theorem Reachable.used (reached : Reachable y) {source : Source}
    (used : 1 ≤ load (useWeight source) (y.todo actor)) :
    source.stage y.shared = .published ∨ source.stage y.shared = .killed := by
  cases source with
  | epoll e =>
    have total := load_le_total (fun other => load_nonneg (epUsersWeight_nonneg e) (y.todo other))
      actor
    have users := reached.epoll e .users
    have closed := reached.epoll e .closed
    simp only [EpEntry.weight, EpEntry.stock, useWeight] at users closed used
    have idle : Pool.total (fun _ => 0) y.todo = 0 := by simp [Pool.total, load]
    rw [idle] at closed
    split_ifs at closed with opened
    · exact .inl opened
    · omega
  | aio c =>
    have total := load_le_total (fun other => load_nonneg (usersWeight_nonneg c) (y.todo other))
      actor
    have users := reached.ctx c .users
    simp only [CtxEntry.weight, CtxEntry.stock, useWeight] at users used
    split at users
    · exact .inl ‹_›
    · exact .inr ‹_›
    · omega

theorem exec_doAttachAio {s s' : Shared ι κ} {c : CtxId}
    (done : exec actor choice s (.bind (.doAttachAio g c)) = some (s', gained)) :
    s'.attachedAio g = some c := by
  simp only [exec, execBind, Option.some.injEq, Prod.mk.injEq] at done
  obtain ⟨rfl, -⟩ := done
  exact Function.update_self _ _ _

theorem attachWeight_of_attaches (attaches : step.attaches g) : attachWeight g step = 1 := by
  unfold Instr.attaches at attaches
  split at attaches
  all_goals first
    | exact attaches.elim
    | (subst attaches; simp [attachWeight])

/-- Starting an operation breaks no bond. -/
theorem BoundTo.move {source : Source} (bound : BoundTo y g source)
    (move : Move y.todo y'.todo actor [] gained)
    (epoll : y'.shared.attachedEpoll = y.shared.attachedEpoll)
    (aio : y'.shared.attachedAio = y.shared.attachedAio) : BoundTo y' g source := by
  cases source with
  | epoll e => exact (congrFun epoll g).trans bound
  | aio c =>
    rcases bound with attached | ⟨other, pending⟩
    · exact .inl ((congrFun aio g).trans attached)
    · exact .inr ⟨other, move.keep pending (by simp)⟩

/-- The bond between a cmgroup and an event source lasts as long as the event source. -/
theorem BoundTo.next {label : Label ι κ} {source : Source} (bound : BoundTo y g source)
    (reached : Reachable y) (taken : next label y = some y')
    (lives : (source.stage y.shared).destroyed = false) : BoundTo y' g source := by
  have binding := Reachable.binding reached
  obtain ⟨actor, spent, gained, effect, move⟩ := next_effect taken
  cases effect with
  | @exec _ _ step _ _ done =>
    have present : step ∈ y.todo actor := by
      obtain ⟨rest, before, -⟩ := move
      simp [before]
    rcases exec_attached (g := g) done with ⟨epoll, aio⟩ | attaches | ⟨origin, rfl⟩
    · cases source with
      | epoll e => exact epoll.trans bound
      | aio c =>
        rcases bound with attached | ⟨other, pending⟩
        · exact .inl (aio.trans attached)
        · by_cases same : step = .bind (.doAttachAio g c)
          · subst same
            exact .inl (exec_doAttachAio done)
          · exact .inr ⟨other, move.keep pending (by simpa using Ne.symm same)⟩
    · obtain ⟨noEpoll, noAio⟩ := binding.attaching actor g step present attaches
      cases source with
      | epoll e =>
        have attached : y.shared.attachedEpoll g = some e := bound
        simp [noEpoll] at attached
      | aio c =>
        rcases bound with attached | ⟨other, pending⟩
        · simp [noAio] at attached
        · by_cases same : step = .bind (.doAttachAio g c)
          · subst same
            exact .inl (exec_doAttachAio done)
          · have both := weight_add_weight_le_total (attachWeight_nonneg g) present pending same
            have single := reached.attach_le_one g
            have doing : Instr.attaches g (.bind (.doAttachAio g c) : Instr ι) := rfl
            rw [attachWeight_of_attaches attaches, attachWeight_of_attaches doing] at both
            omega
    · have single := binding.single g
      cases origin with
      | epoll f =>
        obtain ⟨attached, freeing⟩ := binding.detachingEpoll actor g f present
        cases source with
        | epoll e =>
          obtain rfl : e = f := Option.some.inj (bound.symm.trans attached)
          simp [Source.stage, freeing, Stage.destroyed] at lives
        | aio c =>
          rcases bound with other | ⟨other, pending⟩
          · simp [attached, other] at single
          · simp [(binding.attaching other g _ pending rfl).1] at attached
      | aio d =>
        obtain ⟨attached, freeing⟩ := binding.detachingAio actor g d present
        cases source with
        | epoll e =>
          have other : y.shared.attachedEpoll g = some e := bound
          simp [attached, other] at single
        | aio c =>
          rcases bound with other | ⟨other, pending⟩
          · obtain rfl : c = d := Option.some.inj (other.symm.trans attached)
            simp [Source.stage, freeing, Stage.destroyed] at lives
          · simp [(binding.attaching other g _ pending rfl).2] at attached
  | task idle able done =>
    have frame := startTask_frame reached.unknown done
    have epoll : y'.shared.attachedEpoll = y.shared.attachedEpoll := by rw [frame]
    have aio : y'.shared.attachedAio = y.shared.attachedAio := by rw [frame]
    exact bound.move move epoll aio
  | cpu idle done =>
    have frame := startCpu_frame done
    have epoll : y'.shared.attachedEpoll = y.shared.attachedEpoll := by rw [frame]
    have aio : y'.shared.attachedAio = y.shared.attachedAio := by rw [frame]
    exact bound.move move epoll aio

/-- Bonds that last keep code backed. -/
theorem Backed.last {code whole : Code ι}
    (lasts : ∀ source, BoundTo y g source → 1 ≤ load (useWeight source) whole →
      BoundTo y' g source)
    (part : ∀ source, load (useWeight source) code ≤ load (useWeight source) whole)
    (backed : Tails (Backed y g) code) : Tails (Backed y' g) code := by
  induction code with
  | nil => exact tails_nil
  | cons head rest ih =>
    refine ⟨fun relies => ?_, ih (fun source => ?_) backed.2⟩
    · obtain ⟨source, bound, used⟩ := backed.1 relies
      exact ⟨source, lasts source bound (used.trans (part source)), used⟩
    · have all := part source
      rw [load_cons] at all
      linarith [useWeight_nonneg source head]

/-- What a micro-step needs of an event source, the code it stands before has. -/
theorem Reachable.use_head (reached : Reachable y) {source : Source}
    (head : y.todo actor = step :: rest) (needs : useNeed source step = 1) :
    1 ≤ load (useWeight source) (step :: rest) := by
  cases source with
  | epoll e =>
    have secured := reached.epUsers_secured e actor
    rw [head] at secured
    exact needs.symm.trans_le secured.head
  | aio c =>
    have secured := reached.users_secured c actor
    rw [head] at secured
    exact needs.symm.trans_le secured.head

/-- An event source in use is bound to its cmgroup. -/
theorem Reachable.used_bound (reached : Reachable y) {source : Source}
    (used : 1 ≤ load (useWeight source) (y.todo actor)) (noted : source.cmgroup y.shared = some g) :
    BoundTo y g source := by
  have binding := Reachable.binding reached
  have lives := reached.used used
  cases source with
  | epoll e =>
    exact binding.epoll e g noted (by rcases lives with h | h <;> simp_all [Source.stage])
      (by rcases lives with h | h <;> simp_all [Source.stage])
  | aio c =>
    exact binding.aio c g noted (by rcases lives with h | h <;> simp_all [Source.stage])
      (by rcases lives with h | h <;> simp_all [Source.stage])

/-- Code that relies on an event source has a reference to it, in every reachable state. -/
theorem Reachable.tails_backed (reached : Reachable y) (g : GroupId) (actor : Actor ι κ) :
    Tails (Backed y g) (y.todo actor) := by
  induction reached generalizing actor with
  | start initial =>
    rw [initial.idle actor]
    exact tails_nil
  | @step label before after reached _ taken ih =>
    have lasts : ∀ other source, BoundTo before g source →
        1 ≤ load (useWeight source) (before.todo other) → BoundTo after g source := by
      intro other source bound used
      refine bound.next reached taken ?_
      rcases Reachable.used reached used with stage | stage <;> simp [stage, Stage.destroyed]
    obtain ⟨acting, spent, gained, effect, rest, was, now⟩ := next_effect taken
    by_cases same : actor = acting
    · subst same
      rw [now, Function.update_self]
      have old := ih actor
      have nonneg := fun source => load_nonneg (useWeight_nonneg (ι := ι) source)
      rcases effect.flow with ⟨step, rfl, flow⟩ | ⟨rfl, idle, flow⟩
      · rw [List.singleton_append] at was
        rw [was] at old
        have begun := flow.relies (g := g)
        refine .append (begun.imp fun later tail begins relies => ?_) ?_
        · rw [← List.cons_append]
          rcases begins relies with ⟨source, noted, needs, keeps⟩ | ⟨earlier, keeps⟩
          · have used := Reachable.use_head reached was needs
            have bound := Reachable.used_bound reached (was ▸ used) noted
            refine ⟨source, lasts actor source bound (was ▸ used), ?_⟩
            rw [load_append]
            rw [load_cons (useWeight source) step] at used
            linarith [keeps]
          · obtain ⟨source, bound, used⟩ := old.1 earlier
            refine ⟨source, lasts actor source bound (was ▸ used), ?_⟩
            rw [load_append]
            rw [load_cons] at used
            linarith [keeps source]
        · refine Backed.last (lasts actor) (fun source => ?_) old.2
          rw [was, load_cons]
          linarith [useWeight_nonneg source step]
      · obtain rfl : rest = [] := by simpa [idle] using was.symm
        rw [List.append_nil]
        have none := flow.relies (g := g)
        clear now was flow effect
        induction gained with
        | nil => exact tails_nil
        | cons head tail more =>
          exact ⟨fun relies => absurd relies (none head (by simp)),
            more fun later member => none later (by simp [member])⟩
    · rw [now, Function.update_of_ne same]
      exact Backed.last (lasts actor) (fun source => le_rfl) (ih actor)

/-- References of instances are never below zero. -/
theorem Reachable.instance_secured (reached : Reachable y) (g : GroupId) (actor : Actor ι κ) :
    Secured (instanceWeight g) (fun _ => 0) 0 (y.todo actor) :=
  reached.secured (fun _ => le_rfl) le_rfl (Expands.instance_secured g)
    (Starts.instance_secured g) actor

/-- Nor are references of operations. -/
theorem Reachable.operation_secured (reached : Reachable y) (g : GroupId) (actor : Actor ι κ) :
    Secured (operationWeight g) (fun _ => 0) 0 (y.todo actor) :=
  reached.secured (fun _ => le_rfl) le_rfl (Expands.operation_secured g)
    (Starts.operation_secured g) actor

theorem Reachable.call_secured (reached : Reachable y) (g : GroupId) (actor : Actor ι κ) :
    Secured (fun i => operationWeight g i + teardownWeight g i) (callNeed g) 0 (y.todo actor) :=
  reached.secured (callNeed_nonneg g) le_rfl (Expands.call_secured g) (Starts.call_secured g) actor

/-- A call that needs a reference of its own has one, or detaches an attached cmgroup. -/
theorem Reachable.called (reached : Reachable y) (head : y.todo actor = step :: rest)
    (needs : callNeed g step = 1) :
    1 ≤ attachments g y.shared + load (operationWeight g) (y.todo actor) := by
  have secured := reached.call_secured g actor
  have own := (reached.operation_secured g actor).nonneg fun _ => le_rfl
  rw [head] at secured
  have sum := secured.head
  rw [needs, ← head, load_add] at sum
  by_cases tears : 0 < load (teardownWeight g) (y.todo actor)
  · obtain ⟨later, member, weighs⟩ := exists_weight_pos tears
    unfold teardownWeight at weighs
    split at weighs
    case h_2 => omega
    case h_1 h source =>
      have same : h = g := by
        by_contra other
        simp [other] at weighs
      subst same
      have attached : attachments h y.shared = 1 := by
        have binding := Reachable.binding reached
        cases source with
        | epoll e => simp [attachments, (binding.detachingEpoll actor h e member).1]
        | aio c => simp [attachments, (binding.detachingAio actor h c member).1]
      omega
  · have low := attachments_nonneg g y.shared
    omega

/-- The step case: the actor executes code of its own. -/
theorem Reachable.unlocking_exec (reached : Reachable y) {later : Instr ι} {s' : Shared ι κ}
    (before : 1 ≤ load (mtxWeight g) (y.todo actor) → ∀ {earlier : Instr ι},
      earlier ∈ y.todo actor → earlier.unlocks g →
        1 ≤ attachments g y.shared + load (operationWeight g) (y.todo actor))
    (head : y.todo actor = step :: rest)
    (done : exec actor choice y.shared step = some (s', gained))
    (held : 1 ≤ load (mtxWeight g) (gained ++ rest)) (member : later ∈ gained ++ rest)
    (unlocks : later.unlocks g) :
    1 ≤ attachments g s' + load (operationWeight g) (gained ++ rest) := by
  have attaching := (Reachable.binding reached).attaching actor g step (by simp [head])
  have flow := exec_expands done
  have secured := reached.operation_secured g actor
  rw [head] at secured
  have tail : 0 ≤ load (operationWeight g) rest := secured.2.nonneg fun _ => le_rfl
  have low := attachments_nonneg g s'
  rw [load_append] at held ⊢
  by_cases locked : 1 ≤ load (mtxWeight g) (y.todo actor)
  · rcases List.mem_append.1 member with new | old
    · rcases exec_unlocks done new unlocks with ⟨still, weight, balance⟩ | covered
      · have holds := before locked (by simp [head]) still
        have kept : attachments g y.shared ≤ attachments g s' := by
          refine exec_attachments done ?_ attaching
          rintro source rfl
          exact still
        rw [head, load_cons] at holds
        omega
      · omega
    · have holds := before locked (by simp [head, old]) unlocks
      have tails : Tails Calmly (y.todo actor) :=
        reached.tails Expands.calmly Starts.calmly actor
      rw [head] at tails holds
      have calm := tails.1 ⟨later, old, unlocks.any⟩
      have balance := flow.calm_load (g := g) calm
      rw [load_cons] at holds
      by_cases tears : ∃ source, step = .bind (.detachStore g source)
      · obtain ⟨source, rfl⟩ := tears
        have weight : operationWeight g (.bind (.detachStore g source) : Instr ι) = -1 := by
          simp [operationWeight]
        have bound := secured.head
        rw [load_cons, weight] at bound
        cases flow
        simp only [load_nil]
        omega
      · have kept := exec_attachments done (fun source same => tears ⟨source, same⟩) attaching
        omega
  · rcases flow.mtx_gain (g := g) with less | ⟨rfl, balance⟩
    · rw [head, load_cons] at locked
      omega
    · have holds := reached.called (g := g) head (by simp [callNeed])
      have kept := exec_attachments (g := g) done (by simp) attaching
      have weight : operationWeight g (.lock (.mtxLock g) : Instr ι) = 0 := rfl
      rw [head, load_cons, weight] at holds
      omega

/-- `cmgroup_unlockout_tasklet` is called while the cmgroup is attached or the call has a reference
of its own. -/
theorem Reachable.unlocking (reached : Reachable y) {later : Instr ι}
    (held : 1 ≤ load (mtxWeight g) (y.todo actor)) (member : later ∈ y.todo actor)
    (unlocks : later.unlocks g) :
    1 ≤ attachments g y.shared + load (operationWeight g) (y.todo actor) := by
  induction reached generalizing actor later with
  | start initial => simp [initial.idle actor] at member
  | @step label before after reached _ taken ih =>
    have binding := Reachable.binding reached
    obtain ⟨acting, spent, gained, effect, rest, was, now⟩ := next_effect taken
    have same : ∀ {s : Shared ι κ}, s.attachedEpoll = before.shared.attachedEpoll →
        s.attachedAio = before.shared.attachedAio →
          attachments g s = attachments g before.shared := by
      intro s epoll aio
      simp [attachments, epoll, aio]
    by_cases self : actor = acting
    · subst self
      rw [now, Function.update_self] at held member ⊢
      cases effect with
      | @exec _ _ step _ _ done =>
        rw [List.singleton_append] at was
        exact Reachable.unlocking_exec reached (fun held _ => ih held) was done held member unlocks
      | task idle able done =>
        obtain rfl : rest = [] := by simpa [idle] using was.symm
        rw [List.append_nil, (startTask_starts done).mtx_load] at held
        omega
      | cpu idle done =>
        obtain rfl : rest = [] := by simpa [idle] using was.symm
        rw [List.append_nil, (startCpu_starts done).mtx_load] at held
        omega
    · rw [now, Function.update_of_ne self] at held member ⊢
      have holds := ih held member unlocks
      cases effect with
      | @exec _ _ step _ _ done =>
        have kept : attachments g before.shared ≤ attachments g after.shared := by
          refine exec_attachments done ?_ (binding.attaching acting g step (by simp [was]))
          rintro source rfl
          exact self (Reachable.mtx_unique reached
            (Reachable.mtx_head reached was (by simp [mtxNeed])) held)
        omega
      | task idle able done =>
        have frame := startTask_frame (Reachable.unknown reached) done
        rw [same (by rw [frame]) (by rw [frame])]
        exact holds
      | cpu idle done =>
        have frame := startCpu_frame done
        rw [same (by rw [frame]) (by rw [frame])]
        exact holds

/-- All references to the cmgroup: those of its holders and those of remaining code. -/
def references (y : Sys ι κ) (g : GroupId) : ℤ := holders g y.shared + total (refWeight g) y.todo

/-- References of fired tasklet instances: while the tasklet is scheduled, and in code. -/
def instances (y : Sys ι κ) (g : GroupId) : ℤ :=
  (y.shared.sched g).toInt + total (instanceWeight g) y.todo

/-- References of operations in progress. -/
def operations (y : Sys ι κ) (g : GroupId) : ℤ := total (operationWeight g) y.todo

theorem references_eq (y : Sys ι κ) (g : GroupId) :
    references y g = y.shared.files g + members g y.shared + attachments g y.shared +
      instances y g + operations y g := by
  have split : total (refWeight g) y.todo =
      total (instanceWeight g) y.todo + total (operationWeight g) y.todo := by
    simp only [total, ← Finset.sum_add_distrib]
    exact Finset.sum_congr rfl fun actor _ => load_add _ _ _
  rw [references, holders, split, instances, operations]
  ring

theorem Reachable.instances_nonneg (reached : Reachable y) (g : GroupId) : 0 ≤ instances y g := by
  have code : 0 ≤ total (instanceWeight g) y.todo :=
    Finset.sum_nonneg fun actor _ => (reached.instance_secured g actor).nonneg fun _ => le_rfl
  have sched : ∀ b : Bool, 0 ≤ b.toInt := by decide
  exact add_nonneg (sched _) code

theorem Reachable.operations_nonneg (reached : Reachable y) (g : GroupId) :
    0 ≤ operations y g :=
  Finset.sum_nonneg fun actor _ => (reached.operation_secured g actor).nonneg fun _ => le_rfl

/-- Whoever has a reference keeps the cmgroup. -/
theorem Reachable.references_pos (reached : Reachable y)
    (held : y.shared.files g ≠ 0 ∨ (∃ t, y.shared.cmgroup t = some g) ∨
      1 ≤ attachments g y.shared ∨ 1 ≤ instances y g ∨ 1 ≤ operations y g) :
    1 ≤ references y g := by
  rw [references_eq]
  have belongs := members_nonneg g y.shared
  have attached := attachments_nonneg g y.shared
  have fired := reached.instances_nonneg g
  have calls := reached.operations_nonneg g
  rcases held with opened | ⟨t, member⟩ | held | held | held
  · omega
  · have counted := members_pos member
    omega
  all_goals omega

/-- An actor's own references are among those of all operations. -/
theorem Reachable.load_le_operations (reached : Reachable y) (g : GroupId) (actor : Actor ι κ) :
    load (operationWeight g) (y.todo actor) ≤ operations y g :=
  load_le_total (fun other => (reached.operation_secured g other).nonneg fun _ => le_rfl) actor

/-- The count and the life of a cmgroup against its references. -/
structure Referenced (y : Sys ι κ) (g : GroupId) : Prop where
  /-- The count is the number of references. -/
  count : y.shared.life g = .live → y.shared.kref g = references y g
  /-- A cmgroup that is not allocated or queued to be freed has no references. -/
  gone : y.shared.life g ≠ .live ∨ y.shared.freeWork g ≠ none → references y g = 0
  /-- Every other cmgroup has one. -/
  alive : y.shared.life g = .live → y.shared.freeWork g = none → 1 ≤ references y g
  /-- Only an allocated cmgroup is queued to be freed. -/
  queued : y.shared.freeWork g ≠ none → y.shared.life g = .live

/-- A cmgroup with a reference is allocated and stays so. -/
theorem Referenced.lives (referenced : Referenced y g) (held : 1 ≤ references y g) :
    y.shared.life g = .live ∧ y.shared.freeWork g = none ∧
      y.shared.kref g = references y g := by
  have lives : y.shared.life g = .live := by
    by_contra dead
    linarith [referenced.gone (.inl dead)]
  have idle : y.shared.freeWork g = none := by
    by_contra work
    linarith [referenced.gone (.inr work)]
  exact ⟨lives, idle, referenced.count lives⟩

/-- A cmgroup without references. -/
theorem Referenced.dead (none : references y g = 0)
    (count : y.shared.life g = .live → y.shared.kref g = 0 ∧ y.shared.freeWork g ≠ Option.none)
    (queued : y.shared.freeWork g ≠ Option.none → y.shared.life g = .live) : Referenced y g where
  count lives := by rw [none, (count lives).1]
  gone _ := none
  alive lives idle := absurd idle (count lives).2
  queued := queued

/-- An allocated cmgroup with references. -/
theorem Referenced.held (lives : y.shared.life g = .live) (idle : y.shared.freeWork g = none)
    (count : y.shared.kref g = references y g) (held : 1 ≤ references y g) : Referenced y g where
  count _ := count
  gone dead := by simp [lives, idle] at dead
  alive _ _ := held
  queued work := absurd idle work

/-- A step that balances references against the count, and takes or gives back a reference only
while there is one, keeps the count. -/
theorem Referenced.recount {executed : Option (Instr ι)} (referenced : Referenced y g)
    (recount : Recount g y.shared y'.shared executed (references y' g - references y g))
    (backed : (∃ site, executed = some (.obj (.ref g site))) ∨ y.shared.files g ≠ 0 →
      1 ≤ references y g)
    (owned : ∀ atomic, executed = some (.obj (.unref g atomic)) → 1 ≤ references y g)
    (sole : executed = some (.obj (.free g)) → 1 ≤ references y g ∧ y.shared.kref g = 1) :
    Referenced y' g := by
  generalize change : references y' g - references y g = delta at recount
  cases recount with
  | quiet kref life freeWork =>
    have same : references y' g = references y g := by linarith
    obtain ⟨count, gone, alive, queued⟩ := referenced
    constructor <;> simpa only [kref, life, freeWork, same]
  | gain source kref life freeWork =>
    have held := backed source
    obtain ⟨lives, idle, count⟩ := referenced.lives held
    exact .held (life.trans lives) (freeWork.trans idle) (by linarith) (by linarith)
  | drop kref last =>
    have held := owned _ rfl
    obtain ⟨lives, idle, count⟩ := referenced.lives held
    rcases last with ⟨zero, last⟩ | ⟨more, life, freeWork⟩
    · refine .dead (by linarith) (fun live => ?_) fun work => ?_
      · rcases last with ⟨life, -⟩ | ⟨-, work⟩
        · simp [life] at live
        · exact ⟨zero, work⟩
      · rcases last with ⟨-, freeWork⟩ | ⟨life, -⟩
        · exact absurd (freeWork.trans idle) work
        · exact life.trans lives
    · have some_ : references y' g ≠ 0 := fun none => more (by linarith)
      have low : 0 ≤ references y' g := by linarith
      exact .held (life.trans lives) (freeWork.trans idle) (by linarith)
        (lt_of_le_of_ne low some_.symm)
  | free life freeWork =>
    obtain ⟨held, kref⟩ := sole rfl
    obtain ⟨lives, idle, count⟩ := referenced.lives held
    refine .dead (by linarith) (fun live => ?_) fun work => ?_
    · simp [life] at live
    · exact absurd (freeWork.trans idle) work
  | create unborn life kref freeWork =>
    have none := referenced.gone (.inl (by simp [unborn]))
    have idle : y.shared.freeWork g = Option.none := by
      by_contra work
      have lives := referenced.queued work
      simp [unborn] at lives
    exact .held life (freeWork.trans idle) (by linarith) (by linarith)
  | work waiting life freeWork =>
    have none := referenced.gone (.inr waiting)
    refine .dead (by linarith) (fun live => ?_) fun work => absurd freeWork work
    simp [life] at live

/-- How a step changes the references follows from what it does to holders and code. -/
theorem references_move {s : Shared ι κ} {spent : Code ι}
    (move : Move y.todo y'.todo actor spent gained) (shared : y'.shared = s) :
    references y' g - references y g =
      holders g s + load (refWeight g) gained - (holders g y.shared + load (refWeight g) spent) := by
  rw [references, references, move.total, shared]
  ring

/-- The micro-step is the second store of an attachment to an AIO context. -/
def Instr.adopts : Instr ι → Bool
  | .bind (.doAttachAio _ _) => true
  | _ => false

theorem Instr.adopts_of_eq {c : CtxId} (step : Instr ι) (same : step = .bind (.doAttachAio g c)) :
    step.adopts = true := by
  rw [same]
  rfl

theorem Instr.adopts.absent {c : CtxId} {code : Code ι} {later : Instr ι} (member : later ∈ code)
    (others : code.all (fun i => !i.adopts) = true) : ¬ later = .bind (.doAttachAio g c) :=
  absent_of_all (· = .bind (.doAttachAio g c)) Instr.adopts Instr.adopts_of_eq member others

/-- The reference of an AIO context that is about to be attached is the call's. -/
theorem Reachable.attaching_load (reached : Reachable y) {c : CtxId}
    (pending : .bind (.doAttachAio g c) ∈ y.todo actor) :
    1 ≤ load (operationWeight g) (y.todo actor) := by
  have first : ∀ step ∈ (y.todo actor).tail, ¬ step = .bind (.doAttachAio g c) :=
    reached.front (fun step => step = .bind (.doAttachAio g c))
      (fun flow _ member => Instr.adopts.absent member (by induction flow <;> rfl))
      (fun flow _ member => Instr.adopts.absent member (by induction flow <;> rfl))
      actor
  have secured := reached.operation_secured g actor
  cases code : y.todo actor with
  | nil => simp [code] at pending
  | cons head rest =>
    rw [code, List.tail_cons] at first
    rw [code] at pending secured
    obtain rfl : .bind (.doAttachAio g c) = head :=
      (List.mem_cons.1 pending).resolve_right fun late => first _ late rfl
    have weight : operationWeight g (.bind (.doAttachAio g c) : Instr ι) = 1 := by
      simp [operationWeight]
    rw [load_cons, weight]
    linarith [secured.2.nonneg fun _ => le_rfl]

/-- A cmgroup that is bound to an event source has a reference. -/
theorem Reachable.bound_pos (reached : Reachable y) {source : Source}
    (bound : BoundTo y g source) : 1 ≤ references y g := by
  cases source with
  | epoll e =>
    have attached : y.shared.attachedEpoll g = some e := bound
    exact reached.references_pos (.inr (.inr (.inl (by simp [attachments, attached]))))
  | aio c =>
    rcases bound with attached | ⟨other, pending⟩
    · exact reached.references_pos (.inr (.inr (.inl (by simp [attachments, attached]))))
    · have stored := reached.attaching_load pending
      have all := reached.load_le_operations g other
      exact reached.references_pos (.inr (.inr (.inr (.inr (by omega)))))

/-- So has one that code relies on. -/
theorem Reachable.relying (reached : Reachable y) (head : y.todo actor = step :: rest)
    (relies : step.relies g) : 1 ≤ references y g := by
  have backed := reached.tails_backed g actor
  rw [head] at backed
  obtain ⟨source, bound, -⟩ := backed.1 relies
  exact reached.bound_pos bound

/-- References are taken only while there is another. -/
theorem Reachable.backed (reached : Reachable y) {site : Option (Fire ι)}
    (head : y.todo actor = .obj (.ref g site) :: rest) : 1 ≤ references y g := by
  have own := reached.load_le_operations g actor
  rcases site with _ | site
  · exact reached.relying head rfl
  · cases site with
    | lessRunnable t =>
      have self : (Instr.obj (.ref g (some (.lessRunnable t))) : Instr ι).self = some t := rfl
      have member := (Reachable.charged reached).own_head reached head self
      exact reached.references_pos (.inr (.inl ⟨t, member.1⟩))
    | setConcurrencyValue =>
      have called := reached.called (g := g) head (by simp [callNeed, Fire.called])
      refine reached.references_pos ?_
      omega
    | unlockout =>
      have held := Reachable.mtx_head reached (g := g) head (by simp [mtxNeed, Fire.mutexes])
      have present : .obj (.ref g (some .unlockout)) ∈ y.todo actor := by simp [head]
      have covered := reached.unlocking held present rfl
      refine reached.references_pos ?_
      omega

/-- The tasklet is scheduled only when it is not scheduled. -/
theorem Reachable.schedule_clear (reached : Reachable y)
    (head : y.todo actor = .obj (.taskletSchedule g) :: rest) : y.shared.sched g = false := by
  have upper := head_le_total
    (fun step => add_nonneg (ownNeed_nonneg g step) (sealNeed_nonneg g step))
    (reached.own_nonneg g) head
  have balance := reached.own g
  rw [balance] at upper
  simp only [ownWeight, if_true] at upper
  revert upper
  cases y.shared.taskletActive g <;> cases y.shared.sched g <;> simp

/-- The count of every cmgroup is the number of its references, in every reachable state. -/
theorem Reachable.referenced (reached : Reachable y) (g : GroupId) : Referenced y g := by
  induction reached with
  | @start y initial =>
    have none : references y g = 0 := by
      have idle : total (refWeight g) y.todo = 0 := total_idle _ initial.idle
      simp [references, idle, holders, members, attachments, initial.files, initial.cmgroup,
        initial.attachedEpoll, initial.attachedAio, initial.sched]
    exact .dead none (fun lives => by simp [initial.life] at lives)
      fun work => absurd (initial.freeWork g) work
  | @step label before after reached _ taken ih =>
    obtain ⟨actor, spent, gained, effect, move⟩ := next_effect taken
    have binding := Reachable.binding reached
    have opened : before.shared.files g ≠ 0 → 1 ≤ references before g := fun opened =>
      Reachable.references_pos reached (.inl opened)
    cases effect with
    | @exec _ _ step _ _ done =>
      obtain ⟨rest, head, -⟩ := id move
      rw [List.singleton_append] at head
      have present : step ∈ before.todo actor := by simp [head]
      have charged := Reachable.charged reached
      have secured := Reachable.operation_secured reached g actor
      have all := Reachable.load_le_operations reached g actor
      rw [head] at secured
      have tail : 0 ≤ load (operationWeight g) rest := secured.2.nonneg fun _ => le_rfl
      have owns : operationWeight g step = 1 → 1 ≤ references before g := by
        intro weight
        rw [head, load_cons, weight] at all
        exact Reachable.references_pos reached (.inr (.inr (.inr (.inr (by omega)))))
      have recount : Recount g before.shared after.shared (some step)
          (references after g - references before g) := by
        rw [references_move move rfl, load_cons, load_nil, add_zero]
        refine exec_recount done ?_ ?_ ?_ (binding.attaching actor g step present) ?_
        · rintro t h rfl
          have self : (Instr.acct (.storeCmgroup t h) : Instr ι).self = some t := rfl
          exact (charged.own_head reached head self).1
        · rintro t h rfl
          have self : (Instr.acct (.clearCmgroup t h) : Instr ι).self = some t := rfl
          exact (charged.own_head reached head self).1
        · rintro rfl
          exact Reachable.schedule_clear reached head
        · rintro source rfl ⟨noEpoll, noAio⟩
          cases source with
          | epoll e => simp [(binding.detachingEpoll actor g e present).1] at noEpoll
          | aio c => simp [(binding.detachingAio actor g c present).1] at noAio
      refine ih.recount recount ?_ ?_ ?_
      · rintro (⟨site, same⟩ | files)
        · obtain rfl := Option.some.inj same
          exact Reachable.backed reached head
        · exact opened files
      · intro atomic same
        obtain rfl := Option.some.inj same
        exact owns (by simp [operationWeight])
      · intro same
        obtain rfl := Option.some.inj same
        have creating := creating_of_mem (g := g) present rfl
        exact ⟨owns (by simp [operationWeight]),
          ((Reachable.concealed reached g).born creating).2⟩
    | task idle able done =>
      have recount : Recount g before.shared after.shared none
          (references after g - references before g) := by
        rw [references_move move rfl, load_nil, add_zero]
        exact startTask_recount (Reachable.unknown reached) (Reachable.charged reached).unborn done
      exact ih.recount recount (by simpa using opened) (by simp) (by simp)
    | cpu idle done =>
      have recount : Recount g before.shared after.shared none
          (references after g - references before g) := by
        rw [references_move move rfl, load_nil, add_zero]
        exact startCpu_recount done
      exact ih.recount recount (by simpa using opened) (by simp) (by simp)

/-- The count of an allocated cmgroup is the number of its holders: files, tasks, its event source,
fired tasklet instances and operations in progress. A cmgroup is freed, or queued to be freed by its
work item, exactly when no holder is left. -/
theorem reference_accounting (reached : Reachable y) (g : GroupId) :
    (y.shared.life g = .live → y.shared.kref g = y.shared.files g + members g y.shared +
      attachments g y.shared + instances y g + operations y g) ∧
    (y.shared.life g ≠ .unborn → (y.shared.life g = .freed ∨ y.shared.freeWork g ≠ none ↔
      y.shared.files g = 0 ∧ (∀ t, y.shared.cmgroup t ≠ some g) ∧
        (y.shared.attachedEpoll g = none ∧ y.shared.attachedAio g = none) ∧
        instances y g = 0 ∧ operations y g = 0)) ∧
    0 ≤ instances y g ∧ ∀ actor, 0 ≤ load (operationWeight g) (y.todo actor) := by
  have referenced := reached.referenced g
  have belongs := members_nonneg g y.shared
  have attached := attachments_nonneg g y.shared
  have fired := reached.instances_nonneg g
  have calls := reached.operations_nonneg g
  refine ⟨fun lives => ?_, fun born => ?_, fired, fun actor =>
    (reached.operation_secured g actor).nonneg fun _ => le_rfl⟩
  · rw [referenced.count lives, references_eq]
  · constructor
    · intro dead
      have none : references y g = 0 := by
        refine referenced.gone (dead.imp_left fun freed => ?_)
        simp [freed]
      have without : ¬ _ := fun held => absurd (reached.references_pos (g := g) held) (by omega)
      push Not at without
      obtain ⟨files, cmgroup, unattached, idle, quiet⟩ := without
      refine ⟨files, cmgroup, ?_, by omega, by omega⟩
      by_contra source
      simp [attachments, source] at unattached
    · rintro ⟨files, cmgroup, unattached, idle, quiet⟩
      have none : references y g = 0 := by
        simp [references_eq, files, idle, quiet, attachments, unattached, members, cmgroup]
      by_contra lives
      push Not at lives
      have live : y.shared.life g = .live := by
        cases life : y.shared.life g <;> simp_all
      have some_ := referenced.alive live lives.2
      omega

end Run

/-- A task creates a group, associates itself with it and binds an epoll to it, up to the end of the
lock-out of the tasklet, which fires the tasklet. -/
def holdRun : List (Label Unit Unit) :=
  [Label.task () (.newgroup 0 1 0 1), .run (.task ()) {}, .run (.task ()) {}, .run (.task ()) {},
    .task () (.associate (.cm 0))] ++ List.replicate 6 (Label.run (.task ()) {}) ++
  [Label.task () (.epollCreate 0), .run (.task ()) {}, .task () (.epollSetCmgroup 0 (.cm 0))] ++
  List.replicate 14 (Label.run (.task ()) {})

/-- The file, the task, the epoll and the fired tasklet have a reference each. -/
theorem reference_accounting_held : ∃ y : Sys Unit Unit, Reachable y ∧ y.shared.kref 0 = 4 ∧
    y.shared.kref 0 = y.shared.files 0 + members 0 y.shared + attachments 0 y.shared +
      instances y 0 + operations y 0 := by
  have replayed : (Transition.run next holdRun (boot fun _ => true)).map (fun y => decide
      (y.shared.life 0 = .live ∧ y.shared.kref 0 = 4)) = some true := by decide +kernel
  obtain ⟨y, reached, passed⟩ :=
    Transition.exists_reach_of_run (boot_initial fun _ => true) replayed
  obtain ⟨lives, count⟩ := of_decide_eq_true passed
  exact ⟨y, reached, count, (reference_accounting reached 0).1 lives⟩

end Cmgroups
