import Mathlib.Algebra.BigOperators.Group.Finset.Basic
import Mathlib.Algebra.BigOperators.Group.List.Basic
import Mathlib.Algebra.Order.BigOperators.Group.Finset
import Mathlib.Data.Fintype.Basic
import Mathlib.Tactic.Linarith
import Mathlib.Tactic.Ring
import Cmgroups.Lib.Transition

/-!
# Pools of actors with remaining code

Concurrent code is modelled by a shared state and, for each actor, the list of micro-steps
it still has to execute. Executing the first micro-step updates the shared state and puts
in its place the micro-steps it expands to; calls, branches and loops are such expansions.

What an actor owns in the middle of an operation can then be read off its remaining code.
A *weight* assigns an integer to each micro-step; the *load* of an actor is the sum over
its remaining code, and a resource is conserved when a quantity of the shared state plus
all loads is unchanged by every step. `Secured` bounds the load of every tail of the remaining
code from below by what the first micro-step of the tail needs: a micro-step that relies on a
resource is followed by one that gives it back.
-/

namespace Pool

/-- A shared state and the remaining code of every actor. -/
@[ext]
structure Config (σ θ α : Type) where
  /-- What all actors read and write. -/
  shared : σ
  /-- The micro-steps each actor still has to execute. -/
  todo : θ → List α

section Load

variable {α : Type} (weight : α → ℤ)

/-- The weight of a piece of remaining code. -/
def load (code : List α) : ℤ := (code.map weight).sum

@[simp] theorem load_nil : load weight [] = 0 := rfl

@[simp] theorem load_cons (head : α) (rest : List α) :
    load weight (head :: rest) = weight head + load weight rest := by
  simp [load]

@[simp] theorem load_append (left right : List α) :
    load weight (left ++ right) = load weight left + load weight right := by
  simp [load]

/-- Every tail of the code has a load of at least `floor` above what its first micro-step
needs. -/
def Secured (weight need : α → ℤ) (floor : ℤ) : List α → Prop
  | [] => True
  | head :: rest =>
    need head + floor ≤ weight head + load weight rest ∧ Secured weight need floor rest

variable (need : α → ℤ)

@[simp] theorem secured_nil (floor : ℤ) : Secured weight need floor [] := trivial

@[simp] theorem secured_cons (floor : ℤ) (head : α) (rest : List α) :
    Secured weight need floor (head :: rest) ↔
      need head + floor ≤ weight head + load weight rest ∧
        Secured weight need floor rest := Iff.rfl

variable {weight need}

/-- Securing code before secured code. -/
theorem Secured.append {floor : ℤ} {left right : List α}
    (first : Secured weight need (floor - load weight right) left)
    (second : Secured weight need floor right) : Secured weight need floor (left ++ right) := by
  induction left with
  | nil => exact second
  | cons head rest ih =>
    obtain ⟨bound, later⟩ := first
    rw [List.cons_append, secured_cons, load_append]
    exact ⟨by linarith, ih later⟩

/-- A lower floor is easier to stay above. -/
theorem Secured.mono {lower floor : ℤ} (ordered : lower ≤ floor) {code : List α}
    (secured : Secured weight need floor code) : Secured weight need lower code := by
  induction code with
  | nil => exact secured_nil weight need lower
  | cons head rest ih =>
    obtain ⟨bound, later⟩ := secured
    exact ⟨by linarith, ih later⟩

/-- Secured code has no load below the least need. -/
theorem Secured.least {least : ℤ} (low : ∀ step, least ≤ need step) (nonpos : least ≤ 0)
    {code : List α} (secured : Secured weight need 0 code) : least ≤ load weight code := by
  cases code with
  | nil => exact nonpos
  | cons head rest =>
    rw [load_cons]
    linarith [low head, secured.1]

/-- Secured code stays secured when its first micro-step is replaced by code whose tails are
above their needs by no less than the margin of that micro-step. -/
theorem Secured.replace {least : ℤ} (low : ∀ step, least ≤ need step) (nonpos : least ≤ 0)
    {step : α} {rest gained : List α} (secured : Secured weight need 0 (step :: rest))
    (above : Secured weight need (min (-least) (weight step - need step)) gained) :
    Secured weight need 0 (gained ++ rest) := by
  obtain ⟨bound, later⟩ := secured
  refine .append (above.mono ?_) later
  have tail := later.least low nonpos
  rw [le_min_iff]
  constructor <;> linarith

/-- The load of a sum of weights. -/
theorem load_add (weight other : α → ℤ) (code : List α) :
    load (fun step => weight step + other step) code = load weight code + load other code := by
  induction code with
  | nil => simp
  | cons head rest ih =>
    simp only [load_cons, ih]
    ring

/-- The load of a difference of weights. -/
theorem load_sub (weight other : α → ℤ) (code : List α) :
    load (fun step => weight step - other step) code = load weight code - load other code := by
  induction code with
  | nil => simp
  | cons head rest ih =>
    simp only [load_cons, ih]
    ring

/-- The load of a negated weight. -/
theorem load_neg (weight : α → ℤ) (code : List α) :
    load (fun step => -weight step) code = -load weight code := by
  induction code with
  | nil => simp
  | cons head rest ih =>
    simp only [load_cons, ih]
    ring

/-- Weights and needs can be added. -/
theorem Secured.add {other demand : α → ℤ} {code : List α} (first : Secured weight need 0 code)
    (second : Secured other demand 0 code) :
    Secured (fun step => weight step + other step) (fun step => need step + demand step) 0 code := by
  induction code with
  | nil => exact secured_nil _ _ 0
  | cons head rest ih =>
    obtain ⟨bound, later⟩ := first
    obtain ⟨limit, after⟩ := second
    refine ⟨?_, ih later after⟩
    rw [load_add]
    linarith

/-- The rest of secured code is secured. -/
theorem Secured.rest {floor : ℤ} {front rest : List α}
    (secured : Secured weight need floor (front ++ rest)) : Secured weight need floor rest := by
  induction front with
  | nil => exact secured
  | cons head tail ih => exact ih secured.2

/-- Secured code carries what its first micro-step needs. -/
theorem Secured.head {step : α} {rest : List α} (secured : Secured weight need 0 (step :: rest)) :
    need step ≤ load weight (step :: rest) := by
  rw [load_cons]
  linarith [secured.1]

/-- Secured code whose needs are not negative has no negative load. -/
theorem Secured.nonneg (low : ∀ step, 0 ≤ need step) {code : List α}
    (secured : Secured weight need 0 code) : 0 ≤ load weight code :=
  secured.least low le_rfl

/-- A larger weight gives a larger load. -/
theorem load_mono {other : α → ℤ} {code : List α}
    (ordered : ∀ step ∈ code, weight step ≤ other step) : load weight code ≤ load other code := by
  induction code with
  | nil => simp
  | cons head rest ih =>
    rw [load_cons, load_cons]
    have first := ordered head (by simp)
    have later := ih fun step member => ordered step (by simp [member])
    linarith

/-- When no weight is negative, no micro-step weighs more than the code it is in. -/
theorem weight_le_load (nonneg : ∀ step, 0 ≤ weight step) {code : List α} {step : α}
    (member : step ∈ code) : weight step ≤ load weight code :=
  List.single_le_sum (by simpa using fun step _ => nonneg step) _ (List.mem_map_of_mem member)

/-- When no weight is negative, code has no negative load. -/
theorem load_nonneg (nonneg : ∀ step, 0 ≤ weight step) (code : List α) : 0 ≤ load weight code :=
  List.sum_nonneg (by simpa using fun step _ => nonneg step)

/-- When no weight is negative, code carries what each of its micro-steps needs. -/
theorem Secured.need_le_load (nonneg : ∀ step, 0 ≤ weight step) {code : List α} {step : α}
    (secured : Secured weight need 0 code) (member : step ∈ code) :
    need step ≤ load weight code := by
  obtain ⟨front, rest, rfl⟩ := List.append_of_mem member
  have tail := secured.rest.1
  rw [load_append, load_cons]
  linarith [load_nonneg nonneg front]

/-- When no weight is negative, two different micro-steps weigh no more than their code. -/
theorem weight_add_weight_le_load (nonneg : ∀ step, 0 ≤ weight step) {code : List α}
    {first second : α} (left : first ∈ code) (right : second ∈ code) (different : first ≠ second) :
    weight first + weight second ≤ load weight code := by
  obtain ⟨front, rest, rfl⟩ := List.append_of_mem left
  rw [load_append, load_cons]
  rcases List.mem_append.1 right with before | after
  · linarith [weight_le_load nonneg before, load_nonneg nonneg rest]
  · have later := (List.mem_cons.1 after).resolve_left different.symm
    linarith [weight_le_load nonneg later, load_nonneg nonneg front]

/-- Code with a load has a micro-step with a weight. -/
theorem exists_weight_pos {code : List α} (loaded : 0 < load weight code) :
    ∃ step ∈ code, 0 < weight step := by
  induction code with
  | nil => simp at loaded
  | cons head rest ih =>
    by_cases first : 0 < weight head
    · exact ⟨head, by simp, first⟩
    · rw [load_cons] at loaded
      obtain ⟨step, member, weighs⟩ := ih (by omega)
      exact ⟨step, by simp [member], weighs⟩

/-- Every micro-step of the code stands in a relation to the code after it. -/
def Tails (property : α → List α → Prop) : List α → Prop
  | [] => True
  | head :: rest => property head rest ∧ Tails property rest

variable {property : α → List α → Prop}

@[simp] theorem tails_nil : Tails property [] := trivial

@[simp] theorem tails_cons (head : α) (rest : List α) :
    Tails property (head :: rest) ↔ property head rest ∧ Tails property rest := Iff.rfl

/-- A weaker relation holds wherever a stronger one does. -/
theorem Tails.imp {weaker : α → List α → Prop} {code : List α}
    (implied : ∀ head rest, property head rest → weaker head rest) (tails : Tails property code) :
    Tails weaker code := by
  induction code with
  | nil => exact tails_nil
  | cons head rest ih => exact ⟨implied head rest tails.1, ih tails.2⟩

/-- Two relations hold together. -/
theorem Tails.and {other : α → List α → Prop} {code : List α} (first : Tails property code)
    (second : Tails other code) : Tails (fun step rest => property step rest ∧ other step rest)
      code := by
  induction code with
  | nil => exact tails_nil
  | cons head rest ih => exact ⟨⟨first.1, second.1⟩, ih first.2 second.2⟩

/-- Code before code, where the relation reaches across. -/
theorem Tails.append {left right : List α}
    (first : Tails (fun step rest => property step (rest ++ right)) left)
    (second : Tails property right) : Tails property (left ++ right) := by
  induction left with
  | nil => exact second
  | cons head rest ih => exact ⟨first.1, ih first.2⟩

/-- Before a marked micro-step stand only calm ones. -/
def Before (marked calm : α → Prop) (step : α) (rest : List α) : Prop :=
  (∃ later ∈ rest, marked later) → calm step

/-- So it is in code before code that is calm when the code after it is marked. -/
theorem Tails.before {marked calm : α → Prop} {code rest : List α}
    (inside : Tails (Before marked calm) code)
    (keeps : (∃ later ∈ rest, marked later) → ∀ step ∈ code, calm step) :
    Tails (fun step tail => Before marked calm step (tail ++ rest)) code := by
  induction code with
  | nil => exact tails_nil
  | cons head tail ih =>
    refine ⟨?_, ih inside.2 fun marked step member => keeps marked step (by simp [member])⟩
    rintro ⟨last, member, marks⟩
    rcases List.mem_append.1 member with here | there
    · exact inside.1 ⟨last, here, marks⟩
    · exact keeps ⟨last, there, marks⟩ head (by simp)

/-- A check that before every marked micro-step stand only calm ones. -/
def ordered (marked calm : α → Bool) : List α → Bool
  | [] => true
  | head :: rest => (!rest.any marked || calm head) && ordered marked calm rest

/-- A micro-step with a property is not in code in which a check finds none. -/
theorem absent_of_all (property : α → Prop) (test : α → Bool)
    (sound : ∀ step, property step → test step = true) {code : List α} {step : α}
    (member : step ∈ code) (checked : code.all (fun step => !test step) = true) :
    ¬ property step := by
  intro holds
  have failed := List.all_eq_true.1 checked step member
  rw [sound step holds] at failed
  contradiction

/-- The check is sound. -/
theorem tails_before_of_ordered {marked calm : α → Bool} {code : List α}
    (checked : ordered marked calm code = true) :
    Tails (Before (fun later => marked later = true) fun step => calm step = true) code := by
  induction code with
  | nil => exact tails_nil
  | cons head rest ih =>
    simp only [ordered, Bool.and_eq_true] at checked
    refine ⟨?_, ih checked.2⟩
    rintro ⟨later, member, marks⟩
    have waiting : rest.any marked = true := List.any_eq_true.2 ⟨later, member, marks⟩
    simpa [waiting] using checked.1

end Load

section Total

variable {θ α : Type} [Fintype θ] (weight : α → ℤ)

/-- The load of all actors together. -/
def total (todo : θ → List α) : ℤ := ∑ actor, load weight (todo actor)

/-- Idle actors carry nothing. -/
theorem total_idle {todo : θ → List α} (idle : ∀ actor, todo actor = []) :
    total weight todo = 0 := by
  simp [total, idle]

/-- Replacing one actor's code changes the total by the difference of the two loads. -/
theorem total_update [DecidableEq θ] (todo : θ → List α) (actor : θ) (code : List α) :
    total weight (Function.update todo actor code) =
      total weight todo - load weight (todo actor) + load weight code := by
  have split : ∀ f : θ → List α, total weight f =
      load weight (f actor) + ∑ other ∈ Finset.univ.erase actor, load weight (f other) := by
    intro f
    simp only [total]
    rw [Finset.add_sum_erase _ (fun other => load weight (f other)) (Finset.mem_univ actor)]
  rw [split, split todo, Function.update_self]
  have others : ∑ other ∈ Finset.univ.erase actor,
        load weight (Function.update todo actor code other) =
      ∑ other ∈ Finset.univ.erase actor, load weight (todo other) := by
    refine Finset.sum_congr rfl fun other member => ?_
    rw [Function.update_of_ne (Finset.ne_of_mem_erase member)]
  rw [others]
  ring

variable {weight}

/-- When all loads are nonnegative, no actor carries more than the total. -/
theorem load_le_total {todo : θ → List α} (nonneg : ∀ actor, 0 ≤ load weight (todo actor))
    (actor : θ) : load weight (todo actor) ≤ total weight todo :=
  Finset.single_le_sum (f := fun other => load weight (todo other))
    (fun other _ => nonneg other) (Finset.mem_univ actor)

/-- A weight that every actor covers by another one is covered in total. -/
theorem total_le_total {other need : α → ℤ} (low : ∀ step, 0 ≤ need step) {todo : θ → List α}
    (covered : ∀ actor, Secured (fun step => other step - weight step) need 0 (todo actor)) :
    total weight todo ≤ total other todo := by
  refine Finset.sum_le_sum fun actor _ => ?_
  have bound := (covered actor).nonneg low
  rw [load_sub] at bound
  linarith

/-- The first micro-step of secured code weighs no more than the total. -/
theorem head_le_total {need : α → ℤ} (low : ∀ step, 0 ≤ need step) {todo : θ → List α}
    (secured : ∀ actor, Secured weight need 0 (todo actor)) {actor : θ} {step : α}
    {rest : List α} (code : todo actor = step :: rest) : weight step ≤ total weight todo := by
  have tail : Secured weight need 0 rest := by
    have all := secured actor
    rw [code] at all
    exact all.2
  have whole := load_le_total (fun other => (secured other).nonneg low) actor
  rw [code, load_cons] at whole
  linarith [tail.nonneg low]

/-- What the first micro-step of secured code needs is there. -/
theorem need_le_total {need : α → ℤ} (low : ∀ step, 0 ≤ need step) {todo : θ → List α}
    (secured : ∀ actor, Secured weight need 0 (todo actor)) {actor : θ} {step : α}
    {rest : List α} (code : todo actor = step :: rest) : need step ≤ total weight todo := by
  have all := secured actor
  have whole := load_le_total (fun other => (secured other).nonneg low) actor
  rw [code] at all whole
  rw [load_cons] at whole
  linarith [all.1]

/-- When no weight is negative, no micro-step weighs more than the total. -/
theorem weight_le_total (nonneg : ∀ step, 0 ≤ weight step) {todo : θ → List α} {actor : θ}
    {step : α} (member : step ∈ todo actor) : weight step ≤ total weight todo :=
  (weight_le_load nonneg member).trans
    (load_le_total (fun other => load_nonneg nonneg (todo other)) actor)

/-- When all loads are nonnegative, two different actors together carry at most the total. -/
theorem load_add_load_le_total [DecidableEq θ] {todo : θ → List α}
    (nonneg : ∀ actor, 0 ≤ load weight (todo actor)) {first second : θ}
    (different : first ≠ second) :
    load weight (todo first) + load weight (todo second) ≤ total weight todo := by
  have pair : ∑ actor ∈ {first, second}, load weight (todo actor) ≤ total weight todo :=
    Finset.sum_le_sum_of_subset_of_nonneg (Finset.subset_univ _)
      fun actor _ _ => nonneg actor
  rwa [Finset.sum_pair different] at pair

/-- When no weight is negative, two different micro-steps weigh no more than the total. -/
theorem weight_add_weight_le_total [DecidableEq θ] (nonneg : ∀ step, 0 ≤ weight step)
    {todo : θ → List α} {actor other : θ} {first second : α} (left : first ∈ todo actor)
    (right : second ∈ todo other) (different : first ≠ second) :
    weight first + weight second ≤ total weight todo := by
  have bounded := fun actor => load_nonneg nonneg (todo actor)
  by_cases same : actor = other
  · subst same
    exact (weight_add_weight_le_load nonneg left right different).trans
      (load_le_total bounded actor)
  · linarith [load_add_load_le_total bounded same, weight_le_load nonneg left,
      weight_le_load nonneg right]

end Total

section Move

variable {θ α : Type} [DecidableEq θ]

/-- One actor replaces `spent` at the front of its code by `gained`. -/
def Move (todo after : θ → List α) (actor : θ) (spent gained : List α) : Prop :=
  ∃ rest, todo actor = spent ++ rest ∧ after = Function.update todo actor (gained ++ rest)

variable {todo after : θ → List α} {actor : θ} {spent gained : List α}

/-- The other actors keep their code. -/
theorem Move.other (move : Move todo after actor spent gained) {other : θ}
    (different : other ≠ actor) : after other = todo other := by
  obtain ⟨rest, -, rfl⟩ := move
  exact Function.update_of_ne different _ _

/-- The total changes by what is spent and gained. -/
theorem Move.total [Fintype θ] (move : Move todo after actor spent gained) (weight : α → ℤ) :
    total weight after = total weight todo - load weight spent + load weight gained := by
  obtain ⟨rest, before, rfl⟩ := move
  rw [total_update, before, load_append, load_append]
  ring

/-- A micro-step of the new code was there before or was gained. -/
theorem Move.mem (move : Move todo after actor spent gained) {other : θ} {step : α}
    (member : step ∈ after other) : step ∈ todo other ∨ other = actor ∧ step ∈ gained := by
  obtain ⟨rest, before, rfl⟩ := move
  by_cases same : other = actor
  · subst same
    rw [Function.update_self, List.mem_append] at member
    rw [before, List.mem_append]
    tauto
  · rw [Function.update_of_ne same] at member
    exact .inl member

/-- Loads are kept when as much is gained as is spent. -/
theorem Move.load_eq (move : Move todo after actor spent gained) {weight : α → ℤ}
    (balanced : load weight gained = load weight spent) (other : θ) :
    load weight (after other) = load weight (todo other) := by
  obtain ⟨rest, before, rfl⟩ := move
  by_cases same : other = actor
  · subst same
    rw [Function.update_self, before, load_append, load_append, balanced]
  · rw [Function.update_of_ne same]

/-- A micro-step that is not spent is kept. -/
theorem Move.keep (move : Move todo after actor spent gained) {other : θ} {step : α}
    (member : step ∈ todo other) (unspent : step ∉ spent) : step ∈ after other := by
  obtain ⟨rest, before, rfl⟩ := move
  by_cases same : other = actor
  · subst same
    rw [before, List.mem_append] at member
    rw [Function.update_self, List.mem_append]
    exact .inr (member.resolve_left unspent)
  · rwa [Function.update_of_ne same]

/-- What is gained is there afterwards. -/
theorem Move.gain (move : Move todo after actor spent gained) {step : α}
    (member : step ∈ gained) : step ∈ after actor := by
  obtain ⟨rest, -, rfl⟩ := move
  rw [Function.update_self, List.mem_append]
  exact .inl member

end Move

end Pool
