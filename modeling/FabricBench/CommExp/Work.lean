import FabricBench.CommExp.Team
import FabricBench.Lib.Total
import Mathlib.Algebra.BigOperators.Ring.Finset
import Mathlib.Algebra.GroupWithZero.Action.Defs
import Mathlib.Tactic.Ring

/-!
How much a thread still has to do in `RUN_VARY_MSG`: every call, every store of
`reset_counters` and every iteration of a loop has its cost, and what is left goes
down with everything a thread does.

Owns: `Cost`, which says what an iteration costs and how much of it is spent at a
stage of the body; what is left for a thread (`Team.left`) and for all of them
(`Team.leftAll`); what going on and working take off it; and what is left at the
start (`leftAll_start`).
-/

namespace FabricBench

open FabricBench.Lib

variable {ι τ σ : Type}

/-- What an iteration costs, and what of it is spent when a process is at a stage. -/
structure Cost (ι σ : Type) where
  round : Nat
  spent : ι → σ → Nat
  spent_le : ∀ i stage, spent i stage ≤ round

/-- A synchronising call is entered and left. -/
def Instr.cost (round stores : Nat) : Instr → Nat
  | .threadBarrier _ => 2
  | .pmiBarrier => 2
  | .loop iters _ => iters * round + 1
  | .resetCounters _ => stores + 1
  | .recordTime => 1
  | .report _ => 1

def codeCost (round stores : Nat) (code : List Instr) : Nat :=
  (code.map (Instr.cost round stores)).sum

/-- What is spent of the loop a thread is in. -/
def Cost.spentIn (cost : Cost ι σ) (i : ι) (l : Local σ) : Nat :=
  l.iter * cost.round + cost.spent i l.stage

/-- What is left of an instruction. -/
def Cost.instrLeft (cost : Cost ι σ) (stores : Nat) (i : ι) (inside : Bool) (l : Local σ) :
    Instr → Nat
  | .threadBarrier _ => if inside then 1 else 2
  | .pmiBarrier => if inside then 1 else 2
  | .loop iters _ => iters * cost.round - cost.spentIn i l + 1
  | .resetCounters _ => stores - l.iter + 1
  | .recordTime => 1
  | .report _ => 1

/-- What is left for a thread: of its instruction, and all behind it. -/
def Team.left (job : Job ι τ σ) (cost : Cost ι σ) (team : Team ι τ σ) (i : ι) (t : τ) : Nat :=
  match team.instr job i t with
  | none => 0
  | some instr =>
      cost.instrLeft (job.stores t) i (team.control i t).inside (team.loc i t) instr +
        codeCost cost.round (job.stores t)
          ((runVaryMsg job.params (job.report i t)).drop ((team.control i t).pc + 1))

/-- A body starts with nothing spent. -/
def Cost.Fresh (cost : Cost ι σ) (job : Job ι τ σ) : Prop := ∀ i, cost.spent i (job.first i) = 0

variable {job : Job ι τ σ} {cost : Cost ι σ} {team : Team ι τ σ} {i : ι} {t : τ}

theorem Cost.instrLeft_pos (cost : Cost ι σ) (stores : Nat) (i : ι) (inside : Bool) (l : Local σ)
    (instr : Instr) :
    0 < cost.instrLeft stores i inside l instr := by
  cases instr with
  | threadBarrier site => cases inside <;> simp [Cost.instrLeft]
  | pmiBarrier => cases inside <;> simp [Cost.instrLeft]
  | loop iters msgSize => simp [Cost.instrLeft]
  | resetCounters syncCount => simp [Cost.instrLeft]
  | recordTime => simp [Cost.instrLeft]
  | report flag => simp [Cost.instrLeft]

/-- In front of an instruction all of it is left. -/
theorem Cost.instrLeft_start (fresh : cost.Fresh job) (stores : Nat) (instr : Instr) :
    cost.instrLeft stores i false (Local.start (job.first i)) instr =
      instr.cost cost.round stores := by
  cases instr <;> simp [Cost.instrLeft, Instr.cost, Cost.spentIn, Local.start, fresh i]

/-- An iteration or a part of it never costs more than the loop. -/
theorem Cost.spentIn_le {iters : Nat} {l : Local σ} (cost : Cost ι σ) (i : ι)
    (more : l.iter < iters) : cost.spentIn i l ≤ iters * cost.round := by
  have stage := cost.spent_le i l.stage
  calc l.iter * cost.round + cost.spent i l.stage
      ≤ l.iter * cost.round + cost.round := by omega
    _ = (l.iter + 1) * cost.round := (Nat.succ_mul _ _).symm
    _ ≤ iters * cost.round := Nat.mul_le_mul_right _ more

/-- A thread that starts afresh at a position has all from there on left. -/
theorem Team.left_fresh (team : Team ι τ σ) (i : ι) (t : τ) (fresh : cost.Fresh job)
    (outside : (team.control i t).inside = false)
    (start : team.loc i t = Local.start (job.first i)) :
    team.left job cost i t = codeCost cost.round (job.stores t)
      ((runVaryMsg job.params (job.report i t)).drop (team.control i t).pc) := by
  unfold Team.left
  cases here : team.instr job i t with
  | none =>
      have past := List.getElem?_eq_none_iff.mp here
      simp [List.drop_eq_nil_of_le past, codeCost]
  | some instr =>
      obtain ⟨below, same⟩ := List.getElem?_eq_some_iff.mp here
      simp only [start, outside, Cost.instrLeft_start fresh]
      rw [List.drop_eq_getElem_cons below, same]
      simp [codeCost]

/-! ## Going on -/

section Next

variable [DecidableEq ι] [DecidableEq τ]

/-- Leaving an instruction leaves less than being at it. -/
theorem Team.left_next_lt (fresh : cost.Fresh job) {instr : Instr}
    (here : team.instr job i t = some instr) :
    (team.goTo job i t (team.control i t).next).left job cost i t < team.left job cost i t := by
  have after := Team.left_fresh (team.goTo job i t (team.control i t).next) i t fresh
    (by simp [Team.goTo, Spmd.Point.next]) (by simp [Team.goTo])
  have positive := cost.instrLeft_pos (job.stores t) i (team.control i t).inside
      (team.loc i t) instr
  rw [after, Team.left, here]
  simp only [Team.goTo, Spmd.Control.set_same, Spmd.Point.next]
  omega

theorem Team.Next.left_lt [Fintype ι] [Fintype τ] {point : Spmd.Point}
    (next : team.Next job i t point) (fresh : cost.Fresh job) :
    (team.goTo job i t point).left job cost i t < team.left job cost i t := by
  cases next with
  | sync _ move =>
      obtain ⟨instr, here, -⟩ := Team.sync_instr move
      rcases Spmd.syncMove_cases move with ⟨rfl, outside, call⟩ | ⟨rfl, -⟩ | ⟨rfl, -⟩
      · -- the call is entered: the position stays, and half of the call is done
        have op : instr.op = .team ∨ instr.op = .job := by
          have found := Team.op_of_instr here
          rcases call with call | ⟨call, -⟩
          · exact Or.inl (Option.some.inj (found.symm.trans call))
          · exact Or.inr (Option.some.inj (found.symm.trans call))
        have stays : (team.goTo job i t (team.control i t).enter).instr job i t = some instr := by
          rw [← here]
          simp [Team.instr, Team.goTo, Spmd.Point.enter]
        rw [Team.left, Team.left, stays, here]
        simp only [Team.goTo, Spmd.Control.set_same, Spmd.Point.enter, put_same, outside]
        refine Nat.add_lt_add_right ?_ _
        cases instr with
        | threadBarrier site => exact Nat.one_lt_two
        | pmiBarrier => exact Nat.one_lt_two
        | loop iters msgSize => simp [Instr.op] at op
        | resetCounters syncCount => simp [Instr.op] at op
        | recordTime => simp [Instr.op] at op
        | report flag => simp [Instr.op] at op
      · exact Team.left_next_lt fresh here
      · exact Team.left_next_lt fresh here
  | finish instr here done => exact Team.left_next_lt fresh here

end Next

/-! ## Working -/

section Work

variable [DecidableEq ι] [DecidableEq τ] {l : Local σ}

theorem Team.work_instr (i' : ι) (t' : τ) :
    (team.work i t l).instr job i' t' = team.instr job i' t' := rfl

/-- Work in a loop takes off what it spends. -/
theorem Team.left_work_loop {iters msgSize : Nat} (spends : Nat)
    (here : team.instr job i t = some (.loop iters msgSize))
    (spent : cost.spentIn i l = cost.spentIn i (team.loc i t) + spends)
    (within : cost.spentIn i l ≤ iters * cost.round) :
    (team.work i t l).left job cost i t + spends = team.left job cost i t := by
  rw [Team.left, Team.left, Team.work_instr, here]
  simp only [Team.work, put_same, Cost.instrLeft]
  omega

/-- A store of `reset_counters` takes off one. -/
theorem Team.left_work_store {syncCount : Int}
    (here : team.instr job i t = some (.resetCounters syncCount))
    (iter : l.iter = (team.loc i t).iter + 1) (below : (team.loc i t).iter < job.stores t) :
    (team.work i t l).left job cost i t + 1 = team.left job cost i t := by
  rw [Team.left, Team.left, Team.work_instr, here]
  simp only [Team.work, put_same, Cost.instrLeft, iter]
  omega

end Work

/-! ## All threads -/

section All

variable [Fintype ι] [Fintype τ]

/-- What is left for all threads of the job. -/
def Team.leftAll (job : Job ι τ σ) (cost : Cost ι σ) (team : Team ι τ σ) : Nat :=
  tableSum (team.left job cost)

variable [DecidableEq ι] [DecidableEq τ] {l : Local σ} {point : Spmd.Point}

theorem Team.Next.leftAll_lt (next : team.Next job i t point) (fresh : cost.Fresh job) :
    (team.goTo job i t point).leftAll job cost < team.leftAll job cost := by
  have own := next.left_lt fresh
  have change := tableSum_change (team.left job cost)
      ((team.goTo job i t point).left job cost) i t fun i' t' different => by
      rw [Team.left, Team.left, Team.goTo_instr_of_ne different, Team.goTo_loc_of_ne different,
        Team.goTo_control_of_ne different]
  unfold Team.leftAll
  omega

theorem Team.leftAll_work (spends : Nat)
    (own : (team.work i t l).left job cost i t + spends = team.left job cost i t) :
    (team.work i t l).leftAll job cost + spends = team.leftAll job cost := by
  have change := tableSum_change (team.left job cost)
      ((team.work i t l).left job cost) i t fun i' t' different => by
      rw [Team.left, Team.left, Team.work_instr]
      simp only [Team.work, put_of_ne _ _ different]
  unfold Team.leftAll
  omega

/-- A step of a loop's body takes off what it spends: an iteration never spends more than a
round. -/
theorem Team.leftAll_body (team : Team ι τ σ) (stores : Nat) (fresh : cost.Fresh job)
    {iters msgSize spends : Nat}
    (here : team.instr job i t = some (.loop iters msgSize))
    (spent : cost.spentIn i l = cost.spentIn i (team.loc i t) + spends)
    (fits : LocalOk (job.first i) stores (some (.loop iters msgSize)) l) :
    (team.work i t l).leftAll job cost + spends = team.leftAll job cost := by
  refine Team.leftAll_work spends (Team.left_work_loop spends here spent ?_)
  rcases Nat.lt_or_eq_of_le fits.1 with more | last
  · exact cost.spentIn_le i more
  · have none : cost.spent i l.stage = 0 := by
      rw [fits.2 last]
      exact fresh i
    rw [Cost.spentIn, none, last, Nat.add_zero]

end All

/-! ## What is left at the start -/

theorem codeCost_append (round stores : Nat) (code code' : List Instr) :
    codeCost round stores (code ++ code') =
      codeCost round stores code + codeCost round stores code' := by
  simp [codeCost]

theorem codeCost_sizeBlock (round stores : Nat) (params : RunParams) (report : Bool)
    (msgSize : Nat) : codeCost round stores (sizeBlock params report msgSize) =
      26 + 2 * stores + round * (params.skip + params.loop) := by
  simp only [codeCost, sizeBlock, procBarrier, List.cons_append, List.nil_append, List.map_cons,
    List.map_nil, List.sum_cons, List.sum_nil, Instr.cost]
  rw [Nat.mul_add, Nat.mul_comm round, Nat.mul_comm round]
  omega

/-- The cost of the whole program of a thread. -/
theorem codeCost_runVaryMsg (round stores : Nat) (params : RunParams) (report : Bool) :
    codeCost round stores (runVaryMsg params report) =
      params.sizes.length * (26 + 2 * stores + round * (params.skip + params.loop)) + 6 := by
  rw [runVaryMsg, codeCost_append]
  congr 1
  induction params.sizes with
  | nil => simp [codeCost]
  | cons size sizes inductionHypothesis =>
      rw [List.flatMap_cons, codeCost_append, inductionHypothesis, codeCost_sizeBlock,
        List.length_cons, Nat.add_comm, ← Nat.succ_mul]

/-- At the start every thread has its whole program left. -/
theorem Team.left_start (fresh : cost.Fresh job) (i : ι) (t : τ) :
    (Team.start job : Team ι τ σ).left job cost i t =
      job.params.sizes.length *
        (26 + 2 * job.stores t + cost.round * (job.params.skip + job.params.loop)) + 6 := by
  have all := Team.left_fresh (Team.start job : Team ι τ σ) i t fresh rfl rfl
  rw [all, ← codeCost_runVaryMsg _ _ _ (job.report i t)]
  rfl

/-- For each size 26 for the calls, two resets and the iterations, and 6 for the closing
barrier. -/
theorem Team.leftAll_start [Fintype ι] [Fintype τ] (fresh : cost.Fresh job) :
    (Team.start job : Team ι τ σ).leftAll job cost =
      Fintype.card ι * (Fintype.card τ *
          (job.params.sizes.length * (26 + cost.round * (job.params.skip + job.params.loop)) + 6) +
        job.params.sizes.length * (2 * ∑ t, job.stores t)) := by
  have thread : ∀ i t, (Team.start job : Team ι τ σ).left job cost i t =
      (job.params.sizes.length * (26 + cost.round * (job.params.skip + job.params.loop)) + 6) +
        job.params.sizes.length * 2 * job.stores t := by
    intro i t
    rw [Team.left_start fresh]
    ring
  rw [Team.leftAll, tableSum]
  simp only [thread, Finset.sum_add_distrib, ← Finset.mul_sum, Finset.sum_const, Finset.card_univ,
    smul_eq_mul]
  ring

end FabricBench
