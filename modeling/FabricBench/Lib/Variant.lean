import FabricBench.Lib.Machine

/-!
Machines that come to an end. A variant is a number that every step lowers; the
invariant under which it does is part of it.

Owns: the bound on the length of runs that a variant gives (`length_add_le`), that
every run can be continued to a state without steps (`exists_final`), and both together
where it is known which states those are (`completes`).
-/

namespace FabricBench.Lib.Machine

variable {State Action : Type} (step : State → Action → Option State)

/-- No action is possible. -/
def Final (s : State) : Prop := ∀ action, step s action = none

/-- In the states of `inv`, which the steps do not leave, every step lowers `left`. -/
structure Variant (inv : State → Prop) (left : State → Nat) : Prop where
  keeps : ∀ {s s' : State}, inv s → Step step s s' → inv s'
  lowers : ∀ {s s' : State}, inv s → Step step s s' → left s' < left s

variable {step} {inv : State → Prop} {left : State → Nat}

/-- A run takes no more actions than it lowers the variant. -/
theorem Variant.length_add_le (variant : Variant step inv left) {s s' : State} (start : inv s)
    {actions : List Action} (taken : runActions step s actions = some s') :
    actions.length + left s' ≤ left s := by
  induction actions generalizing s with
  | nil =>
      obtain rfl : s = s' := by simpa [runActions] using taken
      simp
  | cons action rest inductionHypothesis =>
      obtain ⟨middle, first, others⟩ := Option.bind_eq_some_iff.mp taken
      have lower := variant.lowers start ⟨action, first⟩
      have remaining := inductionHypothesis (variant.keeps start ⟨action, first⟩) others
      rw [List.length_cons]
      omega

/-- From every state some run ends. -/
theorem Variant.exists_final (variant : Variant step inv left) {s : State} (start : inv s) :
    ∃ actions s', runActions step s actions = some s' ∧ Final step s' := by
  induction bound : left s using Nat.strongRecOn generalizing s with
  | ind n inductionHypothesis =>
      by_cases final : Final step s
      · exact ⟨[], s, rfl, final⟩
      · obtain ⟨action, possible⟩ := Classical.not_forall.mp final
        obtain ⟨middle, first⟩ := Option.ne_none_iff_exists'.mp possible
        have lower := variant.lowers start ⟨action, first⟩
        obtain ⟨rest, s', others, final⟩ := inductionHypothesis (left middle) (bound ▸ lower)
          (variant.keeps start ⟨action, first⟩) rfl
        refine ⟨action :: rest, s', ?_, final⟩
        rw [runActions, first]
        exact others

/-- What every step keeps holds after a list of actions. -/
theorem Variant.inv_of_actions (variant : Variant step inv left) {s s' : State} (start : inv s)
    {actions : List Action} (taken : runActions step s actions = some s') : inv s' :=
  Run.invariant (run_of_actions actions taken) start variant.keeps

/-- If the states without steps are those of `done`, a run is no longer than the variant of
its start, it is over exactly in a state of `done`, and it can be continued to one. -/
theorem Variant.completes (variant : Variant step inv left) {done : State → Prop}
    (final_iff : ∀ {s}, inv s → (Final step s ↔ done s)) {s s' : State} (start : inv s)
    {actions : List Action} (taken : runActions step s actions = some s') :
    actions.length ≤ left s ∧ (Final step s' ↔ done s') ∧
      ∃ more s'', runActions step s' more = some s'' ∧ done s'' := by
  have reached := variant.inv_of_actions start taken
  refine ⟨?_, final_iff reached, ?_⟩
  · exact Nat.le_trans (Nat.le_add_right _ _) (variant.length_add_le start taken)
  · obtain ⟨more, s'', rest, final⟩ := variant.exists_final reached
    exact ⟨more, s'', rest, (final_iff (variant.inv_of_actions reached rest)).mp final⟩

end FabricBench.Lib.Machine
