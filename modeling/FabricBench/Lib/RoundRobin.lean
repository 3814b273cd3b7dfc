import Mathlib.Algebra.BigOperators.Fin
import Mathlib.Algebra.Order.BigOperators.Group.Finset
import Mathlib.Tactic.Linarith

/-!
Owns round-robin dealing to `K` receivers: a cursor that moves up by one and
wraps at `K`, the share each receiver has after a number of deals
(`share`), and the counting facts dealing gives: shares differ by at most one,
so a total of `K * m` leaves nobody below `m`. Dealing from zero on has a closed form:
after `m` deals the cursor is at `m % K`, and receiver `j` has `(m + K - 1 - j) / K`.

`share q first cursor j` is the share of receiver `j` when dealing started with
the cursor at `first`, has gone round `q` times and stands at `cursor`.
-/

namespace FabricBench.Lib.RoundRobin

/-- The cursor after one deal. -/
def advance (K cursor : Nat) : Nat :=
  if cursor + 1 < K then cursor + 1 else 0

/-- One when receiver `j` lies before the cursor, zero otherwise. -/
def before (cursor j : Nat) : Int := if j < cursor then 1 else 0

/-- What receiver `j` was dealt between the cursor positions `first` and `cursor`,
`rounds` times around. -/
def share (rounds : Int) (first cursor j : Nat) : Int :=
  rounds + before cursor j - before first j

/-- The rounds after dealing to the receiver at the cursor. -/
def advanceRounds (K : Nat) (rounds : Int) (cursor : Nat) : Int :=
  if cursor + 1 < K then rounds else rounds + 1

theorem share_start (first j : Nat) : share 0 first first j = 0 := by
  simp [share]

/-- One deal raises the share of the receiver at the cursor and no other. -/
theorem share_advance {K cursor j : Nat} (rounds : Int) (first : Nat) (cursorLt : cursor < K)
    (below : j < K) :
    share (advanceRounds K rounds cursor) first (advance K cursor) j =
      share rounds first cursor j + if j = cursor then 1 else 0 := by
  unfold share advance advanceRounds before
  split_ifs <;> omega

/-- Shares differ by at most one. -/
theorem share_le_share_add_one (rounds : Int) (first cursor i j : Nat) :
    share rounds first cursor i ≤ share rounds first cursor j + 1 := by
  unfold share before
  split_ifs <;> omega

/-- When dealing started at zero and everybody has the same share, the cursor is
back at zero. -/
theorem cursor_eq_zero_of_even {K cursor : Nat} {rounds value : Int} (cursorLt : cursor < K)
    (even : ∀ j, j < K → share rounds 0 cursor j = value) : cursor = 0 := by
  have first := even 0 (by omega)
  have last := even (K - 1) (by omega)
  unfold share before at first last
  split_ifs at first last <;> omega

/-! ## The closed form -/

theorem advance_mod {K : Nat} (positive : 0 < K) (m : Nat) : advance K (m % K) = (m + 1) % K := by
  have below := Nat.mod_lt m positive
  unfold advance
  rw [Nat.add_mod_eq_ite]
  rcases Nat.lt_or_ge 1 K with many | one
  · rw [Nat.mod_eq_of_lt many]
    split_ifs <;> omega
  · obtain rfl : K = 1 := by omega
    simp [Nat.mod_one]

theorem dealt_zero {K j : Nat} : (0 + K - 1 - j) / K = 0 := by
  rcases Nat.eq_zero_or_pos K with rfl | positive
  · simp
  · exact Nat.div_eq_of_lt (by omega)

/-- Deal number `m` goes to receiver `m % K`. -/
theorem dealt_succ {K j : Nat} (m : Nat) (below : j < K) :
    (m + 1 + K - 1 - j) / K = (m + K - 1 - j) / K + if j = m % K then 1 else 0 := by
  obtain ⟨rounds, cursor, cursorLt, rfl⟩ : ∃ rounds cursor, cursor < K ∧ m = cursor + K * rounds :=
    ⟨m / K, m % K, Nat.mod_lt _ (by omega), (Nat.mod_add_div m K).symm⟩
  rw [Nat.add_mul_mod_self_left, Nat.mod_eq_of_lt cursorLt]
  have old : cursor + K * rounds + K - 1 - j = (cursor + K - 1 - j) + K * rounds := by omega
  have new : cursor + K * rounds + 1 + K - 1 - j = (cursor + K - j) + K * rounds := by omega
  rw [old, new, Nat.add_mul_div_left _ _ (by omega), Nat.add_mul_div_left _ _ (by omega)]
  rcases Nat.lt_trichotomy j cursor with less | rfl | greater
  · rw [if_neg (by omega), show cursor + K - j = (cursor - j) + K by omega,
      show cursor + K - 1 - j = (cursor - j - 1) + K by omega, Nat.add_div_right _ (by omega),
      Nat.add_div_right _ (by omega), Nat.div_eq_of_lt (by omega), Nat.div_eq_of_lt (by omega)]
    omega
  · rw [if_pos rfl, Nat.add_sub_cancel_left, Nat.div_self (by omega), Nat.div_eq_of_lt (by omega)]
    omega
  · rw [if_neg (by omega), Nat.div_eq_of_lt (by omega), Nat.div_eq_of_lt (by omega)]
    omega

/-! ## Totals -/

/-- Where nobody has more than one above `who`, a total of `K * m` gives `who` at
least `m`. -/
theorem le_of_mul_le_sum {K : Nat} {amount : Fin K → Int} {m : Int} (who : Fin K)
    (even : ∀ j, amount j ≤ amount who + 1) (total : K * m ≤ ∑ j, amount j) : m ≤ amount who := by
  by_contra less
  have strict : ∑ j, amount j < ∑ _j : Fin K, m :=
    Finset.sum_lt_sum (fun j _ => by have := even j; omega) ⟨who, Finset.mem_univ _, by omega⟩
  simp only [Finset.sum_const, Finset.card_univ, Fintype.card_fin, nsmul_eq_mul] at strict
  omega

/-- Changing one summand changes the sum by as much. -/
theorem sum_update_add {K : Nat} (amount : Fin K → Int) (who : Fin K) (delta : Int) :
    ∑ j, (if j = who then amount j + delta else amount j) = ∑ j, amount j + delta := by
  have split : ∀ j, (if j = who then amount j + delta else amount j) =
      amount j + if j = who then delta else 0 := by
    intro j
    split_ifs <;> simp
  simp [split, Finset.sum_add_distrib]

end FabricBench.Lib.RoundRobin
