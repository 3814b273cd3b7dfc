import FabricBench.Admission
import Mathlib.Tactic.NormNum

/-!
The loop of `RUN_VARY_MSG` over the message sizes,
`for (msg_size = first; msg_size <= second; msg_size <<= 1)`, on 64-bit words. Its bounds
are `min_size` and `max_size`, converted from `int`.

Owns: the sizes of its rounds (`sweepRounds`), what the sweep should do
(`SweepRight`), exactly for which bounds it does, and the sizes of a sweep that ends
(`SweepEnds`), which the runs of the benchmarks go through.
-/

namespace FabricBench

open FabricBench.Lib
open FabricBench.Lib.CInt

/-- The sizes of the first rounds, at most `fuel` of them. -/
def sweepRounds (second : BitVec 64) : Nat → BitVec 64 → List (BitVec 64)
  | 0, _ => []
  | fuel + 1, msgSize =>
      if msgSize ≤ second then msgSize :: sweepRounds second fuel (msgSize <<< 1) else []

/-- The first rounds of `RUN_VARY_MSG({min_size, max_size}, ...)`. -/
def sweepSizes (minSize maxSize : BitVec 32) (fuel : Nat) : List (BitVec 64) :=
  sweepRounds (toSizeT maxSize) fuel (toSizeT minSize)

/-- The size as the body gets it, an `int`. -/
def bodySize (msgSize : BitVec 64) : Int := (msgSize.setWidth 32).toInt

/-- The sizes are the doublings of the first one up to the last one, in increasing
order. -/
structure Sweeps (first last : Nat) (sizes : List Nat) : Prop where
  sorted : sizes.Pairwise (· < ·)
  mem_iff : ∀ n, n ∈ sizes ↔ ∃ k, n = first * 2 ^ k ∧ n ≤ last

/-- With some fuel the loop ends, having run the right sizes, and the body got each of
them as an `int` in range. -/
def SweepRight (minSize maxSize : BitVec 32) : Prop :=
  ∃ fuel, (sweepSizes minSize maxSize fuel).length < fuel ∧
    Sweeps (toSizeT minSize).toNat (toSizeT maxSize).toNat
      ((sweepSizes minSize maxSize fuel).map BitVec.toNat) ∧
    ∀ msgSize ∈ sweepSizes minSize maxSize fuel,
      0 ≤ bodySize msgSize ∧ bodySize msgSize ≤ maxSize.toInt

/-- The loop ends, and these are the sizes that its body got. -/
def SweepEnds (minSize maxSize : BitVec 32) (sizes : List Nat) : Prop :=
  ∃ fuel, (sweepSizes minSize maxSize fuel).length < fuel ∧
    sizes = (sweepSizes minSize maxSize fuel).map fun msgSize => (bodySize msgSize).toNat

/-! ## The right sizes -/

theorem Sweeps.nil {first last : Nat} (past : last < first) : Sweeps first last [] where
  sorted := List.Pairwise.nil
  mem_iff := by
    intro n
    simp only [List.not_mem_nil, false_iff, not_exists, not_and]
    rintro k rfl
    have := Nat.le_mul_of_pos_right first (Nat.two_pow_pos k)
    omega

theorem Sweeps.cons {first last : Nat} {sizes : List Nat} (positive : 0 < first) (le : first ≤ last)
    (rest : Sweeps (2 * first) last sizes) : Sweeps first last (first :: sizes) where
  sorted := by
    apply List.Pairwise.cons
    · intro n mem
      obtain ⟨k, rfl, -⟩ := (rest.mem_iff n).mp mem
      have := Nat.le_mul_of_pos_right (2 * first) (Nat.two_pow_pos k)
      omega
    · exact rest.sorted
  mem_iff := by
    intro n
    rw [List.mem_cons, rest.mem_iff]
    constructor
    · rintro (rfl | ⟨k, rfl, below⟩)
      · exact ⟨0, by simp, le⟩
      · exact ⟨k + 1, by rw [Nat.pow_succ', ← Nat.mul_assoc, Nat.mul_comm 2], below⟩
    · rintro ⟨k, same, below⟩
      cases k with
      | zero => exact .inl (by simpa using same)
      | succ k =>
          exact .inr ⟨k, by rw [same, Nat.pow_succ', ← Nat.mul_assoc, Nat.mul_comm 2], below⟩

/-! ## Sweeps that end -/

section Ends

variable {second msgSize : BitVec 64}

/-- Below half the range a positive size doubles until it is past the bound. -/
theorem sweepRounds_spec (room : second.toNat < 2 ^ 63) (fuel : Nat) (positive : 0 < msgSize.toNat)
    (enough : second.toNat < msgSize.toNat * 2 ^ fuel) :
    (sweepRounds second (fuel + 1) msgSize).length < fuel + 1 ∧
      Sweeps msgSize.toNat second.toNat
        ((sweepRounds second (fuel + 1) msgSize).map BitVec.toNat) := by
  induction fuel generalizing msgSize with
  | zero =>
      have past : second.toNat < msgSize.toNat := by simpa using enough
      rw [sweepRounds, if_neg (by rw [BitVec.le_def]; omega)]
      exact ⟨by simp, Sweeps.nil past⟩
  | succ fuel inductionHypothesis =>
      rw [sweepRounds]
      split_ifs with guard
      · have le : msgSize.toNat ≤ second.toNat := BitVec.le_def.mp guard
        have double : (msgSize <<< 1).toNat = 2 * msgSize.toNat := by
          rw [BitVec.toNat_shiftLeft, Nat.shiftLeft_eq, Nat.mod_eq_of_lt (by omega)]
          omega
        have remaining : second.toNat < (msgSize <<< 1).toNat * 2 ^ fuel := by
          rw [double, Nat.mul_comm 2, Nat.mul_assoc, ← Nat.pow_succ']
          exact enough
        obtain ⟨short, rest⟩ := inductionHypothesis (by omega) remaining
        rw [double] at rest
        exact ⟨Nat.succ_lt_succ short, rest.cons positive le⟩
      · have past : second.toNat < msgSize.toNat := by
          rw [BitVec.le_def] at guard
          omega
        exact ⟨by simp, Sweeps.nil past⟩

/-- The sizes of a sweep are at most its bound. -/
theorem le_of_mem_sweepRounds {fuel : Nat} {size : BitVec 64}
    (mem : size ∈ sweepRounds second fuel msgSize) :
    size.toNat ≤ second.toNat := by
  induction fuel generalizing msgSize with
  | zero => simp [sweepRounds] at mem
  | succ fuel inductionHypothesis =>
      rw [sweepRounds] at mem
      split_ifs at mem with guard
      · rcases List.mem_cons.mp mem with rfl | mem
        · exact BitVec.le_def.mp guard
        · exact inductionHypothesis mem
      · simp at mem

end Ends

section Bounds

variable {minSize maxSize : BitVec 32}

/-- Bounds in the wrong order as unsigned words give the empty sweep. -/
theorem sweepRight_of_past (past : (toSizeT maxSize).toNat < (toSizeT minSize).toNat) :
    SweepRight minSize maxSize := by
  have none : sweepSizes minSize maxSize 1 = [] := if_neg (by rw [BitVec.le_def]; omega)
  refine ⟨1, ?_⟩
  rw [none]
  exact ⟨by simp, Sweeps.nil past, by simp⟩

/-- A size below `2 ^ 31` reaches the body as it is. -/
theorem bodySize_of_lt {msgSize : BitVec 64} (small : msgSize.toNat < 2 ^ 31) :
    bodySize msgSize = msgSize.toNat := by
  rw [bodySize, BitVec.toInt_eq_toNat_of_lt, BitVec.toNat_setWidth, Nat.mod_eq_of_lt (by omega)]
  rw [BitVec.toNat_setWidth, Nat.mod_eq_of_lt (by omega)]
  omega

theorem sweepRight_of_pos (positive : 0 < minSize.toInt) (nonneg : 0 ≤ maxSize.toInt) :
    SweepRight minSize maxSize := by
  have first := toNat_toSizeT_of_nonneg positive.le
  have last := toNat_toSizeT_of_nonneg nonneg
  have small := maxSize.toInt_lt
  obtain ⟨short, right⟩ :=
    @sweepRounds_spec (toSizeT maxSize) (toSizeT minSize) (by omega) 31 (by omega) (by omega)
  refine ⟨32, short, right, ?_⟩
  intro msgSize mem
  have le := le_of_mem_sweepRounds mem
  rw [bodySize_of_lt (by omega)]
  omega

/-! ## Sweeps that do not -/

/-- If every doubling passes the test, every unit of fuel is spent on a round. -/
theorem length_sweepRounds {second msgSize : BitVec 64} (always : ∀ k : Nat, msgSize <<< k ≤ second)
    (fuel : Nat) : (sweepRounds second fuel msgSize).length = fuel := by
  induction fuel generalizing msgSize with
  | zero => rfl
  | succ fuel inductionHypothesis =>
      rw [sweepRounds, if_pos (by simpa using always 0), List.length_cons, inductionHypothesis]
      intro k
      rw [← BitVec.shiftLeft_add]
      exact always (1 + k)

theorem not_sweepRight_of_always (always : ∀ k : Nat, toSizeT minSize <<< k ≤ toSizeT maxSize) :
    ¬ SweepRight minSize maxSize := by
  rintro ⟨fuel, short, -⟩
  rw [sweepSizes, length_sweepRounds always] at short
  exact absurd short (Nat.lt_irrefl fuel)

theorem not_sweepRight_of_zero (zero : minSize = 0) : ¬ SweepRight minSize maxSize := by
  apply not_sweepRight_of_always
  intro k
  have same : toSizeT minSize <<< k = 0 := by
    rw [zero]
    simp [toSizeT]
  rw [same, BitVec.le_def]
  exact Nat.zero_le _

/-- The doublings of an `int` wrap around to multiples of a power of two, so none is
within `2 ^ 33` of the largest word. -/
theorem toNat_shiftLeft_le {m : BitVec 64} (small : m.toNat < 2 ^ 31) (k : Nat) :
    (m <<< k).toNat ≤ 2 ^ 64 - 2 ^ 33 := by
  rw [BitVec.toNat_shiftLeft, Nat.shiftLeft_eq]
  rcases le_total k 33 with low | high
  · calc m.toNat * 2 ^ k % 2 ^ 64
        ≤ m.toNat * 2 ^ k := Nat.mod_le _ _
      _ ≤ (2 ^ 31 - 1) * 2 ^ 33 := Nat.mul_le_mul (by omega) (Nat.pow_le_pow_right (by omega) low)
      _ = 2 ^ 64 - 2 ^ 33 := by norm_num
  · have multiple : 2 ^ 33 ∣ m.toNat * 2 ^ k % 2 ^ 64 := by
      rw [Nat.dvd_mod_iff (Nat.pow_dvd_pow 2 (by omega))]
      exact Nat.dvd_mul_left_of_dvd (Nat.pow_dvd_pow 2 high) _
    have below : m.toNat * 2 ^ k % 2 ^ 64 < 2 ^ 64 := Nat.mod_lt _ (by omega)
    omega

theorem not_sweepRight_of_pos_of_neg (positive : 0 < minSize.toInt) (negative : maxSize.toInt < 0) :
    ¬ SweepRight minSize maxSize := by
  apply not_sweepRight_of_always
  intro k
  have first := toNat_toSizeT_of_nonneg positive.le
  have small := minSize.toInt_lt
  have last := toNat_toSizeT_of_neg negative
  have low := maxSize.le_toInt
  have far := @toNat_shiftLeft_le (toSizeT minSize) (by omega) k
  rw [BitVec.le_def]
  omega

/-- With two negative bounds in order the first size is negative as an `int`. -/
theorem not_sweepRight_of_neg (negative : maxSize.toInt < 0) (le : minSize.toInt ≤ maxSize.toInt) :
    ¬ SweepRight minSize maxSize := by
  rintro ⟨fuel, short, -, inRange⟩
  cases fuel with
  | zero => simp at short
  | succ fuel =>
      have guard : toSizeT minSize ≤ toSizeT maxSize := by
        have first := @toNat_toSizeT_of_neg minSize (by omega)
        have last := toNat_toSizeT_of_neg negative
        rw [BitVec.le_def]
        omega
      have mem : toSizeT minSize ∈ sweepSizes minSize maxSize (fuel + 1) := by
        rw [sweepSizes, sweepRounds, if_pos guard]
        exact List.mem_cons_self
      have nonneg := (inRange _ mem).1
      rw [bodySize, setWidth_toSizeT] at nonneg
      omega

theorem toInt_eq_zero_iff (size : BitVec 32) : size = 0 ↔ size.toInt = 0 := by
  rw [← BitVec.toInt_inj]
  rfl

theorem sweepRight_of_bounds (nonzero : minSize ≠ 0)
    (bounds : 0 ≤ maxSize.toInt ∨ maxSize.toInt < minSize.toInt ∧ minSize.toInt < 0) :
    SweepRight minSize maxSize := by
  rw [Ne, toInt_eq_zero_iff] at nonzero
  rcases Int.lt_or_le 0 minSize.toInt with positive | nonpos
  · exact sweepRight_of_pos positive (by omega)
  · -- a negative lower bound is above every upper bound of the second kind
    have first := @toNat_toSizeT_of_neg minSize (by omega)
    have low := minSize.le_toInt
    apply sweepRight_of_past
    rcases Int.lt_or_le maxSize.toInt 0 with negative | nonneg
    · have last := toNat_toSizeT_of_neg negative
      omega
    · have last := toNat_toSizeT_of_nonneg nonneg
      have high := maxSize.toInt_lt
      omega

/-- With such bounds there are sizes for the benchmarks to go through. -/
theorem exists_sweepEnds (nonzero : minSize ≠ 0)
    (bounds : 0 ≤ maxSize.toInt ∨ maxSize.toInt < minSize.toInt ∧ minSize.toInt < 0) :
    ∃ sizes, SweepEnds minSize maxSize sizes := by
  obtain ⟨fuel, short, -⟩ := sweepRight_of_bounds nonzero bounds
  exact ⟨_, fuel, short, rfl⟩

end Bounds

/-! ## Main theorem -/

/-- The sweep is right if it does not start at zero and its upper bound is not negative.
Of the other bounds it is right only for the negative ones in the wrong order, which run
nothing. -/
theorem sweepRight_iff (minSize maxSize : BitVec 32) :
    SweepRight minSize maxSize ↔
      minSize ≠ 0 ∧ (0 ≤ maxSize.toInt ∨ maxSize.toInt < minSize.toInt ∧ minSize.toInt < 0) := by
  constructor
  · intro right
    refine ⟨fun zero => not_sweepRight_of_zero zero right, ?_⟩
    by_contra other
    have negative : maxSize.toInt < 0 := by omega
    rcases Int.lt_or_le maxSize.toInt minSize.toInt with less | le
    · have nonzero : minSize.toInt ≠ 0 := fun zero =>
        not_sweepRight_of_zero ((toInt_eq_zero_iff minSize).mpr zero) right
      exact not_sweepRight_of_pos_of_neg (by omega) negative right
    · exact not_sweepRight_of_neg negative le right
  · exact fun ⟨nonzero, bounds⟩ => sweepRight_of_bounds nonzero bounds

/-- `pingpong_prg 4 1 0 1024` passes all checks, and its sweep stays at zero. -/
theorem sweep_stuck_at_zero :
    (PrgArgs.mk 4 1 0 1024 none).check = .ok .admitted ∧ ¬ SweepRight 0 1024 ∧
      ∀ fuel, (sweepSizes 0 1024 fuel).length = fuel := by
  have always (k : Nat) : toSizeT 0 <<< k ≤ toSizeT 1024 := by simp [toSizeT, BitVec.le_def]
  exact ⟨by decide, not_sweepRight_of_always always, fun fuel => length_sweepRounds always fuel⟩

end FabricBench
