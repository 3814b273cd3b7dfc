import Mathlib.Logic.Relation

/-!
A machine given by an executable `step`, which performs one action if it is
possible. Owns its runs: the states reached by any sequence of actions, the run of
a given list of actions, the rule that an invariant of the steps holds along
every run, and the rule that a run is matched by one of another machine if every step
is matched by some of its steps.
-/

namespace FabricBench.Lib.Machine

variable {State Action : Type} (step : State → Action → Option State)

/-- Some action leads from one state to the other. -/
def Step (s s' : State) : Prop := ∃ action, step s action = some s'

/-- Some sequence of actions leads from one state to the other. -/
def Run : State → State → Prop := Relation.ReflTransGen (Step step)

/-- Perform actions in order, if all are possible. -/
def runActions (s : State) : List Action → Option State
  | [] => some s
  | action :: rest => (step s action).bind fun s' => runActions s' rest

variable {step}

theorem run_of_actions {s s' : State} (actions : List Action)
    (taken : runActions step s actions = some s') : Run step s s' := by
  induction actions generalizing s with
  | nil =>
      obtain rfl : s = s' := by simpa [runActions] using taken
      exact .refl
  | cons action rest inductionHypothesis =>
      obtain ⟨middle, first, others⟩ := Option.bind_eq_some_iff.mp taken
      exact .head ⟨action, first⟩ (inductionHypothesis others)

theorem runActions_append (s : State) (first second : List Action) :
    runActions step s (first ++ second) =
      (runActions step s first).bind fun s' => runActions step s' second := by
  induction first generalizing s with
  | nil => rfl
  | cons action rest inductionHypothesis =>
      rw [List.cons_append, runActions, runActions, Option.bind_assoc]
      simp only [inductionHypothesis]

theorem runActions_trans {s middle s' : State} {first second : List Action}
    (taken : runActions step s first = some middle)
    (rest : runActions step middle second = some s') :
    runActions step s (first ++ second) = some s' := by
  rw [runActions_append, taken, Option.bind_some, rest]

/-- A run that can be evaluated ends where it is found to end. -/
theorem exists_of_runActions {s : State} {actions : List Action} {p : State → Prop}
    [DecidablePred p] (reached : (runActions step s actions).any (fun s' => decide (p s')) = true) :
    ∃ s', runActions step s actions = some s' ∧ p s' := by
  cases taken : runActions step s actions with
  | none => simp [taken] at reached
  | some s' => exact ⟨s', rfl, by simpa [taken] using reached⟩

/-- What every step keeps holds along every run. -/
theorem Run.invariant {inv : State → Prop} {s s' : State} (run : Run step s s') (start : inv s)
    (keeps : ∀ {before after}, inv before → Step step before after → inv after) : inv s' := by
  induction run with
  | refl => exact start
  | tail _ last inductionHypothesis => exact keeps inductionHypothesis last

/-- If every step from related states is matched by steps of the other machine to related
states, every run is. -/
theorem Run.matched {Abstract : Type} {abstractStep : Abstract → Abstract → Prop}
    (related : State → Abstract → Prop) {s s' : State} {x : Abstract} (run : Run step s s')
    (start : related s x)
    (matches_step : ∀ {before after x}, related before x → Step step before after →
      ∃ x', Relation.ReflTransGen abstractStep x x' ∧ related after x') :
    ∃ x', Relation.ReflTransGen abstractStep x x' ∧ related s' x' := by
  induction run with
  | refl => exact ⟨x, .refl, start⟩
  | tail _ last inductionHypothesis =>
      obtain ⟨middle, steps, here⟩ := inductionHypothesis
      obtain ⟨x', more, there⟩ := matches_step here last
      exact ⟨x', steps.trans more, there⟩

end FabricBench.Lib.Machine
