import Mathlib.Algebra.Order.Group.Int
import Mathlib.Algebra.Order.Ring.Int
import Mathlib.Tactic.Ring

/-!
Owns the arithmetic of a 32-bit C `int`: products, quotients and remainders that fail
where the C standard leaves them undefined, exactly when that is, and the conversion
to `size_t`.
-/

namespace FabricBench.Lib.CInt

/-- Why an operation is undefined. -/
inductive Fault where
  | divisionByZero
  | overflow
deriving DecidableEq, Repr

/-- The values of an `int`. -/
def Fits (n : Int) : Prop := -2 ^ 31 ≤ n ∧ n < 2 ^ 31

instance (n : Int) : Decidable (Fits n) := inferInstanceAs (Decidable (_ ∧ _))

def mul (a b : Int) : Except Fault Int :=
  if Fits (a * b) then .ok (a * b) else .error .overflow

def div (a b : Int) : Except Fault Int :=
  if b = 0 then .error .divisionByZero
  else if Fits (a.tdiv b) then .ok (a.tdiv b)
  else .error .overflow

/-- The remainder is undefined wherever the quotient is. -/
def rem (a b : Int) : Except Fault Int :=
  if b = 0 then .error .divisionByZero
  else if Fits (a.tdiv b) then .ok (a.tmod b)
  else .error .overflow

/-- The conversion of an `int` to a 64-bit `size_t`. -/
def toSizeT (n : BitVec 32) : BitVec 64 := n.signExtend 64

/-- A computation that does nothing undefined. -/
def Defined {α : Type} (computation : Except Fault α) : Prop := ∃ a, computation = .ok a

/-! ## Conversions -/

theorem toNat_toSizeT (n : BitVec 32) :
    (toSizeT n).toNat = n.toNat + if n.toInt < 0 then 2 ^ 64 - 2 ^ 32 else 0 := by
  have wide : n.toNat % 2 ^ 64 = n.toNat := Nat.mod_eq_of_lt (by omega)
  rw [toSizeT, BitVec.toNat_signExtend, BitVec.toNat_setWidth, wide, BitVec.msb_eq_toInt]
  simp only [decide_eq_true_eq]

theorem toNat_toSizeT_of_nonneg {n : BitVec 32} (nonneg : 0 ≤ n.toInt) :
    ((toSizeT n).toNat : Int) = n.toInt := by
  rw [toNat_toSizeT, if_neg (by omega)]
  rw [BitVec.toInt_eq_toNat_cond] at nonneg ⊢
  split_ifs at nonneg ⊢ <;> omega

theorem toNat_toSizeT_of_neg {n : BitVec 32} (negative : n.toInt < 0) :
    ((toSizeT n).toNat : Int) = n.toInt + 2 ^ 64 := by
  rw [toNat_toSizeT, if_pos negative]
  rw [BitVec.toInt_eq_toNat_cond] at negative ⊢
  split_ifs at negative ⊢ <;> omega

/-- Converting back gives the `int` again. -/
theorem setWidth_toSizeT (n : BitVec 32) : (toSizeT n).setWidth 32 = n := by
  apply BitVec.eq_of_toNat_eq
  rw [BitVec.toNat_setWidth, toNat_toSizeT]
  have := n.isLt
  split_ifs <;> omega

/-! ## When an operation is defined -/

theorem fits_toInt (n : BitVec 32) : Fits n.toInt := by
  unfold Fits
  have low := BitVec.le_toInt n
  have high := BitVec.toInt_lt (x := n)
  omega

theorem mul_eq_ok_iff {a b c : Int} : mul a b = .ok c ↔ Fits (a * b) ∧ c = a * b := by
  unfold mul
  split_ifs with fits
  · simp [fits, eq_comm]
  · simp [fits]

theorem div_eq_ok_iff {a b c : Int} :
    div a b = .ok c ↔ (b ≠ 0 ∧ Fits (a.tdiv b)) ∧ c = a.tdiv b := by
  unfold div
  split_ifs with zero fits
  · simp [zero]
  · simp [zero, fits, eq_comm]
  · simp [fits]

theorem rem_eq_ok_iff {a b c : Int} :
    rem a b = .ok c ↔ (b ≠ 0 ∧ Fits (a.tdiv b)) ∧ c = a.tmod b := by
  unfold rem
  split_ifs with zero fits
  · simp [zero]
  · simp [zero, fits, eq_comm]
  · simp [fits]

/-- The only quotient of two values that is no value is that of the least one and -1. -/
theorem fits_tdiv_iff {a b : Int} (fits : Fits a) (nonzero : b ≠ 0) :
    Fits (a.tdiv b) ↔ ¬ (a = -2 ^ 31 ∧ b = -1) := by
  constructor
  · rintro quotient ⟨rfl, rfl⟩
    revert quotient
    decide
  · intro other
    by_cases minus : b = -1
    · subst minus
      have least : a ≠ -2 ^ 31 := fun least => other ⟨least, rfl⟩
      rw [Int.tdiv_neg, Int.tdiv_one]
      unfold Fits at fits ⊢
      omega
    · by_cases one : b = 1
      · rw [one, Int.tdiv_one]
        exact fits
      · -- the divisor is at least two, so the quotient is at most half
        have halved : (a.tdiv b).natAbs ≤ a.natAbs / 2 := by
          rw [Int.natAbs_tdiv]
          apply Nat.div_le_div_left
          · omega
          · omega
        unfold Fits at fits ⊢
        omega

theorem defined_ok {α : Type} (a : α) : Defined (.ok a : Except Fault α) := ⟨a, rfl⟩

theorem not_defined_error {α : Type} (fault : Fault) :
    ¬ Defined (.error fault : Except Fault α) := by
  rintro ⟨a, same⟩
  cases same

theorem defined_bind {α β : Type} {first : Except Fault α} {rest : α → Except Fault β} :
    Defined (first >>= rest) ↔ ∃ a, first = .ok a ∧ Defined (rest a) := by
  cases first with
  | error fault =>
      constructor
      · intro defined
        exact absurd defined (not_defined_error fault)
      · rintro ⟨a, same, -⟩
        cases same
  | ok a =>
      constructor
      · intro defined
        exact ⟨a, rfl, defined⟩
      · rintro ⟨_, same, defined⟩
        cases same
        exact defined

/-- What a factor between zero and a fitting one gives also fits. -/
theorem fits_mul_of_le {k n m : Int} (fits : Fits (n * m)) (nonneg : 0 ≤ k) (le : k ≤ n) :
    Fits (k * m) := by
  unfold Fits at fits ⊢
  rcases le_total 0 m with positive | negative
  · have low : 0 ≤ k * m := mul_nonneg nonneg positive
    have high : k * m ≤ n * m := mul_le_mul_of_nonneg_right le positive
    omega
  · have high : k * m ≤ 0 := mul_nonpos_of_nonneg_of_nonpos nonneg negative
    have low : n * m ≤ k * m := mul_le_mul_of_nonpos_right le negative
    omega

end FabricBench.Lib.CInt
