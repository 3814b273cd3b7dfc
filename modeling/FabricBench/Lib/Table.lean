import Mathlib.Logic.Function.Basic

/-!
Owns tables with two indices, a row per process and an entry per thread or
queue, and writing one entry of them.
-/

namespace FabricBench.Lib

variable {α β γ : Type} [DecidableEq α] [DecidableEq β]

/-- Write one entry. -/
def put (table : α → β → γ) (row : α) (entry : β) (value : γ) : α → β → γ :=
  fun row' entry' => if row' = row ∧ entry' = entry then value else table row' entry'

@[simp] theorem put_same (table : α → β → γ) (row : α) (entry : β) (value : γ) :
    put table row entry value row entry = value := by
  simp [put]

theorem put_row_ne (table : α → β → γ) {row row' : α} (entry entry' : β) (value : γ)
    (different : row' ≠ row) : put table row entry value row' entry' = table row' entry' := by
  simp [put, different]

/-- The other rows are as before. -/
theorem put_row_of_ne (table : α → β → γ) {row row' : α} (entry : β) (value : γ)
    (different : row' ≠ row) : put table row entry value row' = table row' :=
  funext fun entry' => put_row_ne table entry entry' value different

/-- The row that was written. -/
theorem put_row_same (table : α → β → γ) (row : α) (entry : β) (value : γ) :
    put table row entry value row = Function.update (table row) entry value := by
  funext entry'
  simp [put, Function.update_apply]

theorem put_of_ne (table : α → β → γ) {row row' : α} {entry entry' : β} (value : γ)
    (different : ¬ (row' = row ∧ entry' = entry)) :
    put table row entry value row' entry' = table row' entry' := by
  simp [put, different]

/-- What holds of the entry that was written and of all others holds of every entry. -/
theorem forall_entries {motive : α → β → Prop} (row : α) (entry : β) (own : motive row entry)
    (others : ∀ row' entry', ¬ (row' = row ∧ entry' = entry) → motive row' entry') (row' : α)
    (entry' : β) : motive row' entry' := by
  by_cases same : row' = row ∧ entry' = entry
  · obtain ⟨rfl, rfl⟩ := same
    exact own
  · exact others row' entry' same

/-- The last write counts. -/
@[simp] theorem put_put (table : α → β → γ) (row : α) (entry : β) (value value' : γ) :
    put (put table row entry value) row entry value' = put table row entry value' := by
  funext row' entry'
  by_cases same : row' = row ∧ entry' = entry <;> simp [put, same]

/-- Writing what is there changes nothing. -/
theorem put_self (table : α → β → γ) (row : α) (entry : β) :
    put table row entry (table row entry) = table := by
  funext row' entry'
  by_cases same : row' = row ∧ entry' = entry
  · obtain ⟨rfl, rfl⟩ := same
    exact put_same _ _ _ _
  · exact put_of_ne _ _ same

end FabricBench.Lib
