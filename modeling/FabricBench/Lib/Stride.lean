import Mathlib.Algebra.Order.Group.Nat

/-!
Indices dealt to groups in strides: of the indices below `n`, those of group `c` of
`m` groups are `c`, `c + m`, `c + 2 * m`, ...
-/

namespace FabricBench.Lib.Stride

variable {m n c : Nat}

/-- Where `m` divides `n`, every group has `n / m` indices below `n`. -/
theorem index_lt_iff (dvd : m ∣ n) (below : c < m) (k : Nat) : c + k * m < n ↔ k < n / m := by
  obtain ⟨size, rfl⟩ := dvd
  rw [Nat.mul_div_cancel_left _ (by omega)]
  constructor
  · intro inside
    by_contra past
    have := Nat.mul_le_mul_left m (Nat.not_lt.mp past)
    rw [Nat.mul_comm m k] at this
    omega
  · intro inside
    calc c + k * m < m + k * m := Nat.add_lt_add_right below _
      _ = m * (k + 1) := by rw [Nat.mul_succ, Nat.mul_comm m k, Nat.add_comm]
      _ ≤ m * size := Nat.mul_le_mul_left m inside

theorem index_div (below : c < m) (k : Nat) : (c + k * m) / m = k := by
  rw [Nat.add_mul_div_right _ _ (by omega), Nat.div_eq_of_lt below, Nat.zero_add]

theorem index_mod (below : c < m) (k : Nat) : (c + k * m) % m = c := by
  rw [Nat.add_mul_mod_self_right, Nat.mod_eq_of_lt below]

end FabricBench.Lib.Stride
