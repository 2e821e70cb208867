import Mathlib.Logic.Basic

/-!
# Labelled transition systems

A system is given by its initial states and a partial step function over labels. Every
nondeterministic choice is part of the label, so a run is a list of labels and can be
replayed. `ReachWith` restricts the steps of a run by a condition on the label and on the
state before the step; `Reach` is the unrestricted case. A property of every reachable
state is proved through `ReachWith.invariant`, which hands the step case both the
induction hypothesis and the reachability of the state it starts from.
-/

namespace Transition

variable {σ lbl : Type}

/-- States reached from an initial state by steps that all meet `ok`. -/
inductive ReachWith (init : σ → Prop) (next : lbl → σ → Option σ) (ok : lbl → σ → Prop) :
    σ → Prop where
  /-- Every initial state is reached. -/
  | start {state : σ} (initial : init state) : ReachWith init next ok state
  /-- One admitted step further. -/
  | step {label : lbl} {before after : σ} (reached : ReachWith init next ok before)
      (admitted : ok label before) (taken : next label before = some after) :
      ReachWith init next ok after

/-- States reached by any steps. -/
abbrev Reach (init : σ → Prop) (next : lbl → σ → Option σ) : σ → Prop :=
  ReachWith init next fun _ _ => True

variable {init : σ → Prop} {next : lbl → σ → Option σ} {ok : lbl → σ → Prop}

/-- The induction rule of invariants: initially true and kept by every admitted step. -/
theorem ReachWith.invariant {property : σ → Prop}
    (base : ∀ state, init state → property state)
    (kept : ∀ label before after, ReachWith init next ok before → property before →
      ok label before → next label before = some after → property after)
    {state : σ} (reached : ReachWith init next ok state) : property state := by
  induction reached with
  | start initial => exact base _ initial
  | step reached admitted taken ih => exact kept _ _ _ reached ih admitted taken

/-- Weakening the condition keeps every reached state. -/
theorem ReachWith.mono {weaker : lbl → σ → Prop}
    (implied : ∀ label state, ok label state → weaker label state) {state : σ}
    (reached : ReachWith init next ok state) : ReachWith init next weaker state := by
  induction reached with
  | start initial => exact .start initial
  | step _ admitted taken ih => exact .step ih (implied _ _ admitted) taken

/-- Restricted runs reach no state that an unrestricted run does not. -/
theorem ReachWith.reach {state : σ} (reached : ReachWith init next ok state) :
    Reach init next state :=
  reached.mono fun _ _ _ => trivial

/-- Replay a list of labels. -/
def run (next : lbl → σ → Option σ) : List lbl → σ → Option σ
  | [], state => some state
  | label :: rest, state => (next label state).bind (run next rest)

/-- Replaying labels from a reached state reaches the last state. -/
theorem Reach.run {labels : List lbl} {before after : σ} (reached : Reach init next before)
    (replayed : run next labels before = some after) : Reach init next after := by
  induction labels generalizing before with
  | nil =>
    obtain rfl : before = after := by simpa [Transition.run] using replayed
    exact reached
  | cons label rest ih =>
    cases taken : next label before with
    | none => simp [Transition.run, taken] at replayed
    | some middle =>
      simp only [Transition.run, taken, Option.bind_some] at replayed
      exact ih (.step reached trivial taken) replayed

/-- A replay from an initial state whose last state passes a test exhibits a reachable
state with that property. -/
theorem exists_reach_of_run {labels : List lbl} {state : σ} {test : σ → Bool}
    (initial : init state) (passes : (run next labels state).map test = some true) :
    ∃ after, Reach init next after ∧ test after = true := by
  cases replayed : run next labels state with
  | none => simp [replayed] at passes
  | some after =>
    simp only [replayed, Option.map_some, Option.some.injEq] at passes
    exact ⟨after, Reach.run (.start initial) replayed, passes⟩

section Watch

variable {γ : Type}

/-- A system with a record of its runs: `observe` adds to the record what a step between two
states shows. -/
def watch (next : lbl → σ → Option σ) (observe : lbl → σ → σ → γ → γ) :
    lbl → σ × γ → Option (σ × γ)
  | label, (state, seen) => (next label state).map fun after =>
    (after, observe label state after seen)

/-- Initial states with an empty record. -/
def Blank (init : σ → Prop) (blank : γ) (watched : σ × γ) : Prop :=
  init watched.1 ∧ watched.2 = blank

/-- States and records reached by steps that all meet `ok`. -/
abbrev WatchedWith (init : σ → Prop) (next : lbl → σ → Option σ) (ok : lbl → σ → Prop)
    (observe : lbl → σ → σ → γ → γ) (blank : γ) : σ × γ → Prop :=
  ReachWith (Blank init blank) (watch next observe) fun label watched => ok label watched.1

/-- States and records reached by any steps. -/
abbrev Watched (init : σ → Prop) (next : lbl → σ → Option σ) (observe : lbl → σ → σ → γ → γ)
    (blank : γ) : σ × γ → Prop :=
  WatchedWith init next (fun _ _ => True) observe blank

variable {observe : lbl → σ → σ → γ → γ} {blank : γ}

/-- A step of the watched system is a step of the system. -/
theorem watch_eq_some {label : lbl} {state : σ} {seen : γ} {after : σ × γ}
    (taken : watch next observe label (state, seen) = some after) :
    next label state = some after.1 ∧ after.2 = observe label state after.1 seen := by
  simp only [watch, Option.map_eq_some_iff] at taken
  obtain ⟨reached, taken, rfl⟩ := taken
  exact ⟨taken, rfl⟩

/-- Watching a system does not add to what it reaches. -/
theorem WatchedWith.reach {watched : σ × γ}
    (reached : WatchedWith init next ok observe blank watched) :
    ReachWith init next ok watched.1 := by
  induction reached with
  | start initial => exact .start initial.1
  | @step label before after _ admitted taken ih =>
    obtain ⟨state, seen⟩ := before
    exact .step ih admitted (watch_eq_some taken).1

/-- The induction rule of properties of states and records: true of initial states with an empty
record and kept by every admitted step. -/
theorem WatchedWith.invariant {property : σ → γ → Prop}
    (base : ∀ state, init state → property state blank)
    (kept : ∀ label before seen after, ReachWith init next ok before → property before seen →
      ok label before → next label before = some after →
      property after (observe label before after seen))
    {state : σ} {seen : γ} (reached : WatchedWith init next ok observe blank (state, seen)) :
    property state seen := by
  refine @ReachWith.invariant _ _ _ _ _ (fun watched => property watched.1 watched.2) ?_ ?_ _ reached
  · rintro ⟨state, seen⟩ ⟨initial, rfl⟩
    exact base state initial
  · rintro label ⟨before, seen⟩ ⟨after, later⟩ reached holds admitted taken
    obtain ⟨taken, record⟩ := watch_eq_some taken
    dsimp only at taken record ⊢
    rw [record]
    exact kept label before seen after (WatchedWith.reach reached) holds admitted taken

/-- Watching a system does not take away from what it reaches. -/
theorem ReachWith.watched {state : σ} (reached : ReachWith init next ok state) :
    ∃ seen, WatchedWith init next ok observe blank (state, seen) := by
  induction reached with
  | start initial => exact ⟨blank, .start ⟨initial, rfl⟩⟩
  | @step label before after _ admitted taken ih =>
    obtain ⟨seen, reached⟩ := ih
    refine ⟨observe label before after seen, .step reached admitted ?_⟩
    simp [watch, taken]

end Watch

/-- Replay a list of labels, each of which has to pass a test in the state it is taken in. -/
def runWith (next : lbl → σ → Option σ) (test : lbl → σ → Bool) : List lbl → σ → Option σ
  | [], state => some state
  | label :: rest, state =>
    if test label state then (next label state).bind (runWith next test rest) else none

/-- Replaying labels that pass a test for the condition reaches the last state by steps that
meet the condition. -/
theorem ReachWith.run {test : lbl → σ → Bool}
    (admitted : ∀ label state, test label state = true → ok label state) {labels : List lbl}
    {before after : σ} (reached : ReachWith init next ok before)
    (replayed : runWith next test labels before = some after) : ReachWith init next ok after := by
  induction labels generalizing before with
  | nil =>
    obtain rfl : before = after := by simpa [runWith] using replayed
    exact reached
  | cons label rest ih =>
    simp only [runWith] at replayed
    split at replayed
    case isTrue passed =>
      cases taken : next label before with
      | none => simp [taken] at replayed
      | some middle =>
        simp only [taken, Option.bind_some] at replayed
        exact ih (.step reached (admitted label before passed) taken) replayed
    case isFalse => simp at replayed

/-- A replay from an initial state by tested labels exhibits a state reached by admitted steps. -/
theorem exists_reachWith_of_run {test : lbl → σ → Bool}
    (admitted : ∀ label state, test label state = true → ok label state) {labels : List lbl}
    {state : σ} {check : σ → Bool} (initial : init state)
    (passes : (runWith next test labels state).map check = some true) :
    ∃ after, ReachWith init next ok after ∧ check after = true := by
  cases replayed : runWith next test labels state with
  | none => simp [replayed] at passes
  | some after =>
    simp only [replayed, Option.map_some, Option.some.injEq] at passes
    exact ⟨after, ReachWith.run admitted (.start initial) replayed, passes⟩

end Transition
