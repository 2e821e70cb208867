import Cmgroups.Kernel.System

/-!
# Steps of the system

Every global step replaces the front of one actor's code: the micro-step it executed, or
nothing when the actor starts an operation. `Effect` lists the three kinds of step; an
invariant is kept when it is kept by each of them.
-/

namespace Cmgroups

open Function (update)
open Pool

variable {ι κ : Type} [DecidableEq ι] [DecidableEq κ]

/-- How a step of `actor` comes about: the code it spends, the new shared state and the code it
gains. -/
inductive Effect (y : Sys ι κ) :
    Label ι κ → Actor ι κ → Code ι → Shared ι κ → Code ι → Prop where
  /-- The actor executes a micro-step. -/
  | exec {actor : Actor ι κ} {choice : Choice} {step : Instr ι} {s : Shared ι κ}
      {code : Code ι} (done : exec actor choice y.shared step = some (s, code)) :
      Effect y (.run actor choice) actor [step] s code
  /-- An idle task starts an operation. -/
  | task {t : ι} {op : TaskOp ι} {s : Shared ι κ} {code : Code ι}
      (idle : y.todo (.task t) = []) (able : canStart y.shared t = true)
      (done : startTask y.shared t op = some (s, code)) :
      Effect y (.task t op) (.task t) [] s code
  /-- An idle CPU starts an operation. -/
  | cpu {c : κ} {op : CpuOp ι} {s : Shared ι κ} {code : Code ι}
      (idle : y.todo (.cpu c) = [])
      (done : startCpu y.shared y.todo (.cpu c) op = some (s, code)) :
      Effect y (.cpu c op) (.cpu c) [] s code

/-- The micro-step that a global step executes. -/
def executed : Label ι κ → Sys ι κ → Option (Instr ι)
  | .run actor _, y => (y.todo actor).head?
  | .task _ _, _ | .cpu _ _, _ => none

/-- Every step is an effect on one actor's code. -/
theorem next_effect {label : Label ι κ} {y y' : Sys ι κ} (taken : next label y = some y') :
    ∃ actor spent gained, Effect y label actor spent y'.shared gained ∧
      Move y.todo y'.todo actor spent gained := by
  cases label with
  | run actor choice =>
    cases code : y.todo actor with
    | nil => simp [next, code] at taken
    | cons step rest =>
      simp only [next, code, proceed, Option.map_eq_some_iff] at taken
      obtain ⟨⟨s, gained⟩, done, rfl⟩ := taken
      exact ⟨actor, [step], gained, .exec done, rest, code, rfl⟩
  | task t op =>
    simp only [next, proceed] at taken
    split at taken
    case isFalse => simp at taken
    case isTrue able =>
      rw [Option.map_eq_some_iff] at taken
      obtain ⟨⟨s, gained⟩, done, rfl⟩ := taken
      exact ⟨.task t, [], gained, .task able.1 able.2 done, [], able.1, rfl⟩
  | cpu c op =>
    simp only [next, proceed] at taken
    split at taken
    case isFalse => simp at taken
    case isTrue idle =>
      rw [Option.map_eq_some_iff] at taken
      obtain ⟨⟨s, gained⟩, done, rfl⟩ := taken
      exact ⟨.cpu c, [], gained, .cpu idle done, [], idle, rfl⟩

end Cmgroups
