import Mathlib.Data.List.Basic
import Mathlib.Logic.Function.Basic

/-!
Owns loops `for (i = 0; i < n; ++i)` as folds: the rule for an invariant of the
iterations, and loops that write entry `i` of an array in iteration `i`.
-/

namespace FabricBench.Lib

variable {σ α : Type}

/-- `for (i = 0; i < n; ++i) s = body(s, i)`. -/
def forLoop (n : Nat) (body : σ → Nat → σ) (s : σ) : σ := (List.range n).foldl body s

theorem forLoop_succ (n : Nat) (body : σ → Nat → σ) (s : σ) :
    forLoop (n + 1) body s = body (forLoop n body s) n := by
  rw [forLoop, List.range_succ, List.foldl_append]
  rfl

/-- What holds before the loop and is carried from each iteration to the next holds
behind it. -/
theorem forLoop_invariant {n : Nat} {body : σ → Nat → σ} {s : σ} (inv : Nat → σ → Prop)
    (start : inv 0 s) (step : ∀ i s, i < n → inv i s → inv (i + 1) (body s i)) :
    inv n (forLoop n body s) := by
  induction n with
  | zero => exact start
  | succ n inductionHypothesis =>
      rw [forLoop_succ]
      refine step n _ (Nat.lt_succ_self n) (inductionHypothesis fun i s below => ?_)
      exact step i s (by omega)

/-- A loop that rewrites every entry in its own iteration. -/
theorem forLoop_update (n : Nat) (f : Nat → α → α) (a : Nat → α) (j : Nat) :
    forLoop n (fun a i => Function.update a i (f i (a i))) a j =
      if j < n then f j (a j) else a j := by
  induction n with
  | zero => rfl
  | succ n inductionHypothesis =>
      rw [forLoop_succ]
      by_cases last : j = n
      · subst last
        rw [Function.update_self, inductionHypothesis, if_neg (by omega), if_pos (by omega)]
      · rw [Function.update_of_ne last, inductionHypothesis]
        by_cases below : j < n
        · rw [if_pos below, if_pos (by omega)]
        · rw [if_neg below, if_neg (by omega)]

end FabricBench.Lib
