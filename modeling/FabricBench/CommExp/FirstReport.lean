import FabricBench.CommExp.Phases

/-!
Where the threads of a job come to stand while thread 0 of one process does not get past its
first report: the other threads of that process at the next team barrier, all other
processes in the `proc_barrier` this barrier opens.

Owns: `nextBarrier`, the position of that barrier; `FirstReport`, which says where everybody
is; and that this is exactly where they stay (`firstReport_of_stays`, `FirstReport.stays`).
-/

namespace FabricBench

open FabricBench.Lib

/-- The first `thread_barrier` behind the first report: that of the next size, behind its
reset, or that of the `proc_barrier` behind the last size. -/
def nextBarrier (params : RunParams) : Nat := if 1 < params.sizes.length then 17 else 16

variable {ι τ : Type} {params : RunParams} {leader : τ} {reporter : ι} {control : Spmd.Control ι τ}
  {i : ι} {t : τ}

/-- Thread 0 of `reporter` is at its first report and everybody else waits for it. -/
structure FirstReport (params : RunParams) (leader : τ) (reporter : ι)
    (control : Spmd.Control ι τ) : Prop where
  report : (control reporter leader).pc = 15
  team : ∀ t, t ≠ leader → control reporter t = ⟨nextBarrier params, true⟩
  leaders : ∀ i, i ≠ reporter → control i leader = ⟨nextBarrier params + 1, true⟩
  others : ∀ i t, i ≠ reporter → t ≠ leader → control i t = ⟨nextBarrier params + 2, true⟩

instance [Fintype ι] [Fintype τ] [DecidableEq ι] [DecidableEq τ] (params : RunParams) (leader : τ)
    (reporter : ι) (control : Spmd.Control ι τ) :
    Decidable (FirstReport params leader reporter control) :=
  decidable_of_iff
    ((control reporter leader).pc = 15 ∧
      (∀ t, t ≠ leader → control reporter t = ⟨nextBarrier params, true⟩) ∧
      (∀ i, i ≠ reporter → control i leader = ⟨nextBarrier params + 1, true⟩) ∧
      ∀ i t, i ≠ reporter → t ≠ leader → control i t = ⟨nextBarrier params + 2, true⟩)
    ⟨fun ⟨report, team, leaders, others⟩ => ⟨report, team, leaders, others⟩,
      fun first => ⟨first.report, first.team, first.leaders, first.others⟩⟩

/-! ## The positions behind the first report -/

theorem nextBarrier_bounds (params : RunParams) :
    16 ≤ nextBarrier params ∧ nextBarrier params ≤ 17 := by
  unfold nextBarrier
  split_ifs <;> simp

section Positions

variable (sized : params.sizes ≠ [])

include sized

/-- The barrier of the next reset, or the closing one, and the two calls behind it. -/
theorem controlProgram_nextBarrier {r : Nat} (inside : r < 3) :
    (controlProgram params)[nextBarrier params + r]? = (procBarrier[r]?).map Instr.op := by
  have positive := List.length_pos_of_ne_nil sized
  have loops : params.loops = 2 * params.sizes.length := rfl
  unfold nextBarrier
  split_ifs with another
  · have found := controlProgram_slot params (e := 2) (r := 1 + r) (by omega) (by omega)
    rw [show 17 + r = 8 * 2 + (1 + r) by omega, found]
    interval_cases r <;> rfl
  · rw [show 16 + r = 8 * params.loops + r by omega]
    exact controlProgram_tail params r

theorem controlProgram_opening : (controlProgram params)[nextBarrier params]? = some .team :=
  controlProgram_nextBarrier sized (r := 0) (by omega)

theorem controlProgram_collective : (controlProgram params)[nextBarrier params + 1]? = some .job :=
  controlProgram_nextBarrier sized (r := 1) (by omega)

theorem controlProgram_closing : (controlProgram params)[nextBarrier params + 2]? = some .team :=
  controlProgram_nextBarrier sized (r := 2) (by omega)

/-- In front of it there is only work. -/
theorem controlProgram_before_nextBarrier {k : Nat} (low : 15 ≤ k) (high : k < nextBarrier params) :
    (controlProgram params)[k]? = some .work := by
  have positive := List.length_pos_of_ne_nil sized
  have loops : params.loops = 2 * params.sizes.length := rfl
  have bounds := nextBarrier_bounds params
  rcases Nat.eq_or_lt_of_le low with rfl | behind
  · exact controlProgram_slot params (e := 1) (r := 7) (by omega) (by omega)
  · obtain rfl : k = 16 := by omega
    have another : 1 < params.sizes.length := by
      by_contra last
      rw [nextBarrier, if_neg last] at high
      omega
    exact controlProgram_slot params (e := 2) (r := 0) (by omega) (by omega)

end Positions

/-! ## Who stays -/

section Stays

variable (sized : params.sizes ≠ [])

include sized

/-- Nobody gets past the barriers while the thread is at its report. -/
theorem le_of_report (inv : Spmd.Synchronised (controlProgram params) leader control)
    (report : (control reporter leader).pc = 15) (i : ι) (t : τ) :
    (control i t).pc ≤ nextBarrier params + 2 ∧
      (t = leader → (control i t).pc ≤ nextBarrier params + 1) ∧
      (i = reporter → (control i t).pc ≤ nextBarrier params) := by
  have bounds := nextBarrier_bounds params
  have opening := controlProgram_opening sized
  have collective := controlProgram_collective sized
  have closing := controlProgram_closing sized
  have late : ∀ k, nextBarrier params ≤ k → ¬ (control reporter leader).Reached k := by
    rintro k far (after | ⟨same, -⟩) <;> omega
  refine ⟨?_, ?_, ?_⟩
  · by_contra past
    exact late _ (le_refl _)
      (inv.bracket_reached opening collective closing (Nat.lt_of_not_le past) reporter leader)
  · rintro rfl
    by_contra past
    exact late _ (Nat.le_succ _) (inv.job i reporter _ collective (Nat.lt_of_not_le past))
  · rintro rfl
    by_contra past
    exact late _ (le_refl _) (inv.team i t leader _ opening (Nat.lt_of_not_le past))

variable [DecidableEq τ] [Fintype ι] [Fintype τ]

/-- If the thread at its first report is one of those furthest behind, nobody else is at
work, and nobody can synchronise, everybody waits for it. -/
theorem firstReport_of_stays (inv : Spmd.Synchronised (controlProgram params) leader control)
    (report : (control reporter leader).pc = 15) (least : ∀ i t, 15 ≤ (control i t).pc)
    (idle : ∀ i t, ¬ (i = reporter ∧ t = leader) → (control i t).pc < 20 →
      (controlProgram params)[(control i t).pc]? ≠ some .work)
    (stays : ∀ i t, Spmd.syncMove (controlProgram params) leader control i t = none) :
    FirstReport params leader reporter control := by
  have bounds := nextBarrier_bounds params
  have opening := controlProgram_opening sized
  have collective := controlProgram_collective sized
  have closing := controlProgram_closing sized
  have upper := le_of_report sized inv report
  have lower : ∀ i t, ¬ (i = reporter ∧ t = leader) → nextBarrier params ≤ (control i t).pc := by
    intro i t other
    by_contra before
    have high := Nat.lt_of_not_le before
    exact idle i t other (by omega) (controlProgram_before_nextBarrier sized (least i t) high)
  -- whoever is at one of the two team barriers is inside it
  have inside : ∀ i t k, (controlProgram params)[k]? = some .team →
      (control i t).pc = k → (control i t).inside = true := by
    rintro i t k here rfl
    exact ((Spmd.syncMove_eq_none_team here).mp (stays i t)).1
  -- so all threads of another process are through the first one
  have past : ∀ i t, i ≠ reporter → nextBarrier params < (control i t).pc := by
    intro i t other
    refine Nat.lt_of_le_of_ne (lower i t fun same => other same.1) fun same => ?_
    obtain ⟨-, t', late⟩ := (Spmd.syncMove_eq_none_team (same ▸ opening)).mp (stays i t)
    refine late ?_
    rw [← same]
    rcases Nat.eq_or_lt_of_le (lower i t' fun same => other same.1) with at' | after
    · exact Or.inr ⟨at'.symm, inside i t' _ opening at'.symm⟩
    · exact Or.inl after
  refine ⟨report, fun t other => ?_, fun i other => ?_, fun i t otherProc other => ?_⟩
  · have here := Nat.le_antisymm ((upper reporter t).2.2 rfl)
      (lower reporter t fun same => other same.2)
    exact Spmd.Point.ext here (inside reporter t _ opening here)
  · have here := Nat.le_antisymm ((upper i leader).2.1 rfl) (past i leader other)
    have entered := (Spmd.syncMove_eq_none_job (here ▸ collective)).mp (stays i leader)
    exact Spmd.Point.ext here entered.2.1
  · -- it has skipped the collective
    have skipped : (control i t).pc ≠ nextBarrier params + 1 := by
      intro here
      exact other ((Spmd.syncMove_eq_none_job (here ▸ collective)).mp (stays i t)).1
    have behind := past i t otherProc
    have here := Nat.le_antisymm (upper i t).1 (by omega)
    exact Spmd.Point.ext here (inside i t _ closing here)

/-- Conversely, from there nobody can synchronise. -/
theorem FirstReport.stays (first : FirstReport params leader reporter control) (i : ι) (t : τ) :
    Spmd.syncMove (controlProgram params) leader control i t = none := by
  have bounds := nextBarrier_bounds params
  have opening := controlProgram_opening sized
  have collective := controlProgram_collective sized
  have closing := controlProgram_closing sized
  have report := first.report
  have late : ∀ k, nextBarrier params ≤ k → ¬ (control reporter leader).Reached k := by
    rintro k far (after | ⟨same, -⟩) <;> omega
  by_cases isReporter : i = reporter
  · subst isReporter
    by_cases isLeader : t = leader
    · subst isLeader
      refine Option.eq_none_iff_forall_ne_some.mpr fun point move => ?_
      obtain ⟨op, here, sync⟩ := Spmd.syncMove_op move
      rw [report, controlProgram_before_nextBarrier sized (le_refl 15) (by omega)] at here
      exact sync (Option.some.inj here).symm
    · have here := first.team t isLeader
      refine (Spmd.syncMove_eq_none_team (by rw [here]; exact opening)).mpr ?_
      rw [here]
      exact ⟨rfl, leader, late _ (le_refl _)⟩
  · by_cases isLeader : t = leader
    · subst isLeader
      have here := first.leaders i isReporter
      refine (Spmd.syncMove_eq_none_job (by rw [here]; exact collective)).mpr ?_
      rw [here]
      exact ⟨rfl, rfl, reporter, late _ (Nat.le_succ _)⟩
    · have here := first.others i t isReporter isLeader
      refine (Spmd.syncMove_eq_none_team (by rw [here]; exact closing)).mpr ?_
      rw [here]
      refine ⟨rfl, leader, ?_⟩
      rw [first.leaders i isReporter]
      rintro (after | ⟨same, -⟩)
      · exact absurd after (by simp)
      · exact absurd same (by simp)

omit [DecidableEq τ] [Fintype ι] [Fintype τ] in
/-- Nobody but the thread at its report is at work. -/
theorem FirstReport.eq_of_work (first : FirstReport params leader reporter control) {instr : Instr}
    {flag : Bool} (here : (runVaryMsg params flag)[(control i t).pc]? = some instr)
    (work : instr.op = .work) : i = reporter ∧ t = leader := by
  have op : (controlProgram params)[(control i t).pc]? = some .work := by
    rw [controlProgram_getElem? params flag, here, ← work]
    rfl
  by_contra other
  by_cases isReporter : i = reporter
  · subst isReporter
    rw [first.team t fun same => other ⟨rfl, same⟩,
      controlProgram_opening sized] at op
    exact absurd op (by simp)
  · by_cases isLeader : t = leader
    · subst isLeader
      rw [first.leaders i isReporter, controlProgram_collective sized] at op
      exact absurd op (by simp)
    · rw [first.others i t isReporter isLeader,
        controlProgram_closing sized] at op
      exact absurd op (by simp)

end Stays

end FabricBench
