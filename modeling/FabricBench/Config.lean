import Mathlib.Tactic.NormNum

/-!
Owns the constants of `include/config.hpp.in` and of the benchmarks, and the
arithmetic of ranks: `target_rank` and which half of the job sends.
-/

namespace FabricBench

/-! ## Constants -/

def heapSize : Nat := 4 * 1024 * 1024

def rxQueueLen : Nat := 4096

/-- `TOTAL`: iterations of a measured loop. -/
def total : Nat := 450000

/-- `SKIP`: iterations of a warm-up loop. -/
def skip : Nat := 10000

/-- The most completions one call of `progress` returns, in every backend. -/
def numToPoll : Nat := 16

/-! ## Ranks -/

/-- `target_rank = (rank + size / 2) % size`, the same in all four benchmarks. -/
def targetRank (size rank : Nat) : Nat := (rank + size / 2) % size

/-- `rank < size / 2` runs `send_thread`, the other half `recv_thread`. -/
def isSender (size rank : Nat) : Bool := decide (rank < size / 2)

theorem targetRank_lt {size rank : Nat} (below : rank < size) : targetRank size rank < size :=
  Nat.mod_lt _ (by omega)

theorem targetRank_eq {half rank : Nat} (below : rank < 2 * half) :
    targetRank (2 * half) rank = if rank < half then rank + half else rank - half := by
  unfold targetRank
  rw [show 2 * half / 2 = half by omega]
  split_ifs with lower
  · exact Nat.mod_eq_of_lt (by omega)
  · rw [Nat.mod_eq_sub_mod (by omega)]
    rw [show rank + half - 2 * half = rank - half by omega]
    exact Nat.mod_eq_of_lt (by omega)

/-- In a job of even size partners are mutual. -/
theorem targetRank_targetRank {half rank : Nat} (below : rank < 2 * half) :
    targetRank (2 * half) (targetRank (2 * half) rank) = rank := by
  have partnerBelow := targetRank_lt below
  rw [targetRank_eq partnerBelow, targetRank_eq below]
  split_ifs <;> omega

/-- Partners are in different halves of the job. -/
theorem isSender_targetRank {half rank : Nat} (below : rank < 2 * half) :
    isSender (2 * half) (targetRank (2 * half) rank) = !isSender (2 * half) rank := by
  unfold isSender
  rw [targetRank_eq below, show 2 * half / 2 = half by omega]
  split_ifs with lower
  · simp [lower]
  · have lowerPartner : rank - half < half := by omega
    simp [lower, lowerPartner]

/-- The partner of a rank of a job of `2 * half` ranks. -/
def partnerRank {half : Nat} (r : Fin (2 * half)) : Fin (2 * half) :=
  ⟨targetRank (2 * half) r, targetRank_lt r.isLt⟩

/-- The rank runs `send_thread`. -/
def sendsFirst {half : Nat} (r : Fin (2 * half)) : Bool := isSender (2 * half) r

theorem partnerRank_partnerRank {half : Nat} (r : Fin (2 * half)) :
    partnerRank (partnerRank r) = r :=
  Fin.ext (targetRank_targetRank r.isLt)

theorem sendsFirst_partnerRank {half : Nat} (r : Fin (2 * half)) :
    sendsFirst (partnerRank r) = !sendsFirst r :=
  isSender_targetRank r.isLt

end FabricBench
