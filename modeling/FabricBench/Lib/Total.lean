import FabricBench.Lib.Table
import Mathlib.Algebra.BigOperators.Group.Finset.Basic
import Mathlib.Data.Fintype.Basic

/-!
Owns the total of a table of weights, and the one fact by which it is followed through
a step: if all other weights stay, the total changes by what one weight changes.
-/

namespace FabricBench.Lib

open Finset

variable {ι τ : Type} [Fintype ι] [Fintype τ]

def tableSum (weight : ι → τ → Nat) : Nat := ∑ i, ∑ t, weight i t

variable [DecidableEq ι] [DecidableEq τ]

theorem tableSum_change (weight weight' : ι → τ → Nat) (i : ι) (t : τ)
    (others : ∀ i' t', ¬ (i' = i ∧ t' = t) → weight' i' t' = weight i' t') :
    tableSum weight' + weight i t = tableSum weight + weight' i t := by
  have row : ∑ t', weight' i t' + weight i t = ∑ t', weight i t' + weight' i t := by
    have same : ∑ t' ∈ univ.erase t, weight' i t' = ∑ t' ∈ univ.erase t, weight i t' := by
      refine Finset.sum_congr rfl fun t' member => others i t' ?_
      exact fun both => Finset.ne_of_mem_erase member both.2
    rw [← Finset.add_sum_erase univ _ (Finset.mem_univ t),
      ← Finset.add_sum_erase univ (weight i) (Finset.mem_univ t), same]
    omega
  have rows :
      ∑ i' ∈ univ.erase i, ∑ t', weight' i' t' = ∑ i' ∈ univ.erase i, ∑ t', weight i' t' := by
    refine Finset.sum_congr rfl fun i' member => Finset.sum_congr rfl fun t' _ => others i' t' ?_
    exact fun both => Finset.ne_of_mem_erase member both.1
  unfold tableSum
  rw [← Finset.add_sum_erase univ _ (Finset.mem_univ i),
    ← Finset.add_sum_erase univ (fun i' => ∑ t', weight i' t') (Finset.mem_univ i), rows]
  omega

end FabricBench.Lib
