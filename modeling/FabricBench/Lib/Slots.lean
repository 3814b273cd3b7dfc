import Mathlib.Order.CompletePartialOrder
import Mathlib.Order.Interval.Set.Disjoint

/-!
A heap of slots of one size, one after the other. Owns the range of the first bytes of
a slot, and that it stays in its slot.
-/

namespace FabricBench.Lib.Slots

/-- `len` bytes from `start` on. -/
def bytes (start len : Nat) : Set Nat := Set.Ico start (start + len)

variable {size k k' n len len' : Nat}

theorem end_le (below : k < n) (fits : len ≤ size) : k * size + len ≤ n * size :=
  calc k * size + len ≤ k * size + size := Nat.add_le_add_left fits _
    _ = (k + 1) * size := (Nat.succ_mul k size).symm
    _ ≤ n * size := Nat.mul_le_mul_right size below

/-- The slots of a heap are inside it. -/
theorem bytes_subset {heap : Nat} (below : k < n) (fits : len ≤ size) (room : n * size ≤ heap) :
    bytes (k * size) len ⊆ Set.Ico 0 heap := by
  intro a inside
  exact ⟨Nat.zero_le a, Nat.lt_of_lt_of_le inside.2 ((end_le below fits).trans room)⟩

/-- Different slots do not meet. -/
theorem bytes_disjoint (different : k ≠ k') (fits : len ≤ size) (fits' : len' ≤ size) :
    Disjoint (bytes (k * size) len) (bytes (k' * size) len') := by
  rw [Set.disjoint_left]
  intro a inside inside'
  rcases Nat.lt_or_gt_of_ne different with less | greater
  · exact absurd (inside.2.trans_le (end_le less fits)) (Nat.not_lt.mpr inside'.1)
  · exact absurd (inside'.2.trans_le (end_le greater fits')) (Nat.not_lt.mpr inside.1)

end FabricBench.Lib.Slots
