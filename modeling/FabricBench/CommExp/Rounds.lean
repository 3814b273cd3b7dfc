import FabricBench.CommExp.Team
import Mathlib.Algebra.BigOperators.Group.Finset.Piecewise
import Mathlib.Algebra.Order.BigOperators.Group.Finset

/-!
What a thread has done over the whole run: its iterations in all loops together,
and `Team.count`, which adds what it has done of the current iteration. The
symmetric benchmarks compare these counts of the two threads of a pair, so that
they need not know which loops the two are in.
-/

namespace FabricBench

open FabricBench.Lib

/-! ## Iterations of all loops -/

/-- The iterations a thread at `pc` has done of all loops, `iter` of them in the
loop it is in. -/
def rounds (params : RunParams) (pc iter : Nat) : Nat :=
  ∑ e ∈ Finset.range params.loops, loopDone params pc iter e

theorem rounds_loop (params : RunParams) {e : Nat} (below : e < params.loops) (iter : Nat) :
    rounds params (8 * e + 4) iter = rounds params (8 * e + 4) 0 + iter := by
  have each : ∀ e', loopDone params (8 * e + 4) iter e' =
      loopDone params (8 * e + 4) 0 e' + if e' = e then iter else 0 := by
    intro e'
    by_cases same : e' = e
    · subst same
      rw [loopDone_at, loopDone_at, if_pos rfl, Nat.zero_add]
    · rw [if_neg same, loopDone_congr params iter 0 (by omega)]
      rfl
  unfold rounds
  rw [Finset.sum_congr rfl fun e' _ => each e', Finset.sum_add_distrib, Finset.sum_ite_eq',
    if_pos (Finset.mem_range.mpr below)]

/-- Before loop `e` a thread has done at most all iterations of the earlier loops. -/
theorem rounds_le {params : RunParams} {pc iter e : Nat} (below : e ≤ params.loops)
    (before : pc < 8 * e + 4) (le : ∀ e', pc = 8 * e' + 4 → iter ≤ params.iters e') :
    rounds params pc iter ≤ ∑ e' ∈ Finset.range e, params.iters e' := by
  have only : rounds params pc iter = ∑ e' ∈ Finset.range e, loopDone params pc iter e' := by
    symm
    refine Finset.sum_subset (Finset.range_mono below) fun e' _ later => ?_
    rw [Finset.mem_range] at later
    exact loopDone_before params iter (by omega)
  rw [only]
  exact Finset.sum_le_sum fun e' _ => loopDone_le (le e')

/-- Behind the loops before `e` it has done all of theirs. -/
theorem le_rounds {params : RunParams} {pc e : Nat} (iter : Nat) (below : e ≤ params.loops)
    (after : ∀ e', e' < e → 8 * e' + 4 < pc) :
    ∑ e' ∈ Finset.range e, params.iters e' ≤ rounds params pc iter := by
  calc ∑ e' ∈ Finset.range e, params.iters e'
      = ∑ e' ∈ Finset.range e, loopDone params pc iter e' :=
        Finset.sum_congr rfl fun e' member =>
          (loopDone_after params iter (after e' (Finset.mem_range.mp member))).symm
    _ ≤ rounds params pc iter :=
        Finset.sum_le_sum_of_subset (Finset.range_mono below)

/-! ## The count of a thread -/

variable {ι τ σ : Type} {job : Job ι τ σ} {team : Team ι τ σ} {i i' : ι} {t t' : τ}

/-- The iterations of thread `(i, t)` and `extra` for the stage of the current one. -/
def Team.count (job : Job ι τ σ) (team : Team ι τ σ) (extra : ι → σ → Nat) (i : ι) (t : τ) : Nat :=
  rounds job.params (team.control i t).pc (team.loc i t).iter + extra i (team.loc i t).stage

/-- All threads start with nothing done. -/
theorem Team.count_start (job : Job ι τ σ) {extra : ι → σ → Nat}
    (none : ∀ i, extra i (job.first i) = 0) (i : ι) (t : τ) :
    (Team.start job : Team ι τ σ).count job extra i t = 0 := by
  have zero : rounds job.params 0 0 = 0 :=
    Finset.sum_eq_zero fun e _ => loopDone_before job.params 0 (Nat.succ_pos (8 * e + 3))
  change rounds job.params 0 0 + extra i (job.first i) = 0
  rw [zero, none]

/-- A thread before loop `e` has sent and taken no more than the earlier loops have
iterations. -/
theorem Team.Ok.count_le {extra : ι → σ → Nat} {e : Nat} (ok : team.Ok job)
    (none : ∀ i, extra i (job.first i) = 0) (one : ∀ i stage, extra i stage ≤ 1)
    (below : e ≤ job.params.loops) (before : (team.control i t).pc < 8 * e + 4) :
    team.count job extra i t ≤ ∑ e' ∈ Finset.range e, job.params.iters e' := by
  have own := ok.loc i t
  unfold Team.count
  cases instr : team.instr job i t with
  | some found =>
      by_cases atLoop : ∃ iters msgSize, found = .loop iters msgSize
      · obtain ⟨iters, msgSize, rfl⟩ := atLoop
        obtain ⟨e', e'Below, here, rfl⟩ := loop_position instr
        rw [instr] at own
        -- in the middle of a body the iteration is one of the loop's
        have fits : (team.loc i t).iter + extra i (team.loc i t).stage ≤ job.params.iters e' := by
          have le := own.1
          have atMost := one i (team.loc i t).stage
          by_cases last : (team.loc i t).iter = job.params.iters e'
          · rw [own.2 last, none]
            omega
          · omega
        have sum : rounds job.params (team.control i t).pc (team.loc i t).iter +
            extra i (team.loc i t).stage = rounds job.params (team.control i t).pc
              ((team.loc i t).iter + extra i (team.loc i t).stage) := by
          rw [here, rounds_loop job.params e'Below, rounds_loop job.params e'Below
            ((team.loc i t).iter + extra i (team.loc i t).stage), Nat.add_assoc]
        rw [sum]
        refine rounds_le below before fun e'' same => ?_
        obtain rfl : e'' = e' := by omega
        exact fits
      · have stage := own.stage_eq fun iters msgSize same => by
          rw [instr, Option.some.injEq] at same
          exact absurd ⟨iters, msgSize, same⟩ atLoop
        rw [stage, none, Nat.add_zero]
        refine rounds_le below before fun e'' same => ?_
        obtain ⟨msgSize, rfl⟩ := instr_at_loop instr same
        exact absurd ⟨_, msgSize, rfl⟩ atLoop
  | none =>
      rw [instr] at own
      rw [show team.loc i t = Local.start (job.first i) from own]
      change rounds _ _ 0 + extra i (job.first i) ≤ _
      rw [none, Nat.add_zero]
      exact rounds_le below before fun _ _ => Nat.zero_le _

section Moves

variable [DecidableEq ι] [DecidableEq τ]

/-- Going on changes no count. -/
theorem Team.count_goTo [Fintype ι] [Fintype τ] {point : Spmd.Point} {extra : ι → σ → Nat}
    (ok : team.Ok job) (next : team.Next job i t point) (i' : ι) (t' : τ) :
    (team.goTo job i t point).count job extra i' t' = team.count job extra i' t' := by
  have same : rounds job.params ((team.goTo job i t point).control i' t').pc
      ((team.goTo job i t point).loc i' t').iter =
        rounds job.params (team.control i' t').pc (team.loc i' t').iter :=
    Finset.sum_congr rfl fun e _ =>
      Team.done_goTo ok next (fun _ _ => 0) (fun _ => rfl) i' t' e
  unfold Team.count
  rw [same, next.goTo_stage ok]

/-- Work of another thread does not change the count. -/
theorem Team.count_work_of_ne {extra : ι → σ → Nat} {l : Local σ}
    (different : ¬ (i' = i ∧ t' = t)) :
    (team.work i t l).count job extra i' t' = team.count job extra i' t' := by
  simp only [Team.count, Team.work, put_of_ne _ _ different]

/-- Outside of the loops progress at the same stage does not change a count. -/
theorem Team.count_work_outside {extra : ι → σ → Nat} {l : Local σ}
    (outside : ∀ e, (team.control i t).pc ≠ 8 * e + 4) (stage : l.stage = (team.loc i t).stage)
    (i' : ι) (t' : τ) :
    (team.work i t l).count job extra i' t' = team.count job extra i' t' := by
  by_cases own : i' = i ∧ t' = t
  · obtain ⟨rfl, rfl⟩ := own
    have same : rounds job.params (team.control i' t').pc l.iter =
        rounds job.params (team.control i' t').pc (team.loc i' t').iter :=
      Finset.sum_congr rfl fun e _ => loopDone_congr job.params _ _ (outside e)
    simp only [Team.count, Team.work, put_same, same, stage]
  · exact Team.count_work_of_ne own

/-- In a loop the count of the thread that works changes with its progress. -/
theorem Team.count_work_same (extra : ι → σ → Nat) (l : Local σ) {iters msgSize : Nat}
    (here : team.instr job i t = some (.loop iters msgSize)) :
    (team.work i t l).count job extra i t + (team.loc i t).iter + extra i (team.loc i t).stage =
      team.count job extra i t + l.iter + extra i l.stage := by
  obtain ⟨e, below, position, -⟩ := loop_position here
  simp only [Team.count, Team.work, put_same, position, rounds_loop job.params below l.iter,
    rounds_loop job.params below (team.loc i t).iter]
  omega

end Moves

end FabricBench
