import FabricBench.CommExp.Worker

/-!
All threads of a job in `RUN_VARY_MSG`, each at an instruction with its progress
inside it: the part of the state that every benchmark has.

Owns: `Team`, the two ways a thread changes it (`Team.Next` with `Team.goTo` for
going on, `Team.work` for progress inside an instruction), the invariant
`Team.Ok`, and the count `Team.done` of what a thread did of a loop, which going
on never changes.
-/

namespace FabricBench

open FabricBench.Lib

/-- What is fixed for a job: the parameters of the run, who reports, which thread
is thread 0, where a body starts and how many stores a thread's `reset_counters`
makes. -/
structure Job (ι τ σ : Type) where
  params : RunParams
  report : ι → τ → Bool
  leader : τ
  first : ι → σ
  stores : τ → Nat

structure Team (ι τ σ : Type) where
  control : Spmd.Control ι τ
  loc : ι → τ → Local σ

variable {ι τ σ : Type}

/-- The instruction a thread stands at. -/
def Team.instr (job : Job ι τ σ) (team : Team ι τ σ) (i : ι) (t : τ) : Option Instr :=
  (runVaryMsg job.params (job.report i t))[(team.control i t).pc]?

/-- Everybody at the start. -/
def Team.start (job : Job ι τ σ) : Team ι τ σ where
  control := Spmd.Control.start
  loc i _ := Local.start (job.first i)

/-- What thread `(i, t)` has done of loop `e`, where `inLoop` counts it inside the
loop. -/
def Team.done (job : Job ι τ σ) (team : Team ι τ σ) (inLoop : Local σ → Nat) (i : ι) (t : τ)
    (e : Nat) : Nat :=
  loopDone job.params (team.control i t).pc (inLoop (team.loc i t)) e

/-- Holds in every reachable state of every benchmark. -/
structure Team.Ok (job : Job ι τ σ) (team : Team ι τ σ) : Prop where
  synced : Spmd.Synchronised (controlProgram job.params) job.leader team.control
  bounded : ∀ i t, (team.control i t).pc ≤ 8 * job.params.loops + 3
  loc : ∀ i t, LocalOk (job.first i) (job.stores t) (team.instr job i t) (team.loc i t)

variable {job : Job ι τ σ} {team : Team ι τ σ} {i i' : ι} {t t' : τ}

theorem Team.ok_start (job : Job ι τ σ) : (Team.start job : Team ι τ σ).Ok job where
  synced := Spmd.synchronised_start _ _
  bounded := fun _ _ => Nat.zero_le _
  loc := fun i t => localOk_start (job.first i) (job.stores t) _

theorem Team.op_of_instr {instr : Instr} (here : team.instr job i t = some instr) :
    (controlProgram job.params)[(team.control i t).pc]? = some instr.op := by
  rw [controlProgram_getElem? job.params (job.report i t)]
  exact congrArg (Option.map Instr.op) here

theorem Team.instr_of_op {op : Spmd.Op}
    (here : (controlProgram job.params)[(team.control i t).pc]? = some op) :
    ∃ instr, team.instr job i t = some instr ∧ instr.op = op := by
  rw [controlProgram_getElem? job.params (job.report i t), Option.map_eq_some_iff] at here
  exact here

theorem Team.done_start (job : Job ι τ σ) (inLoop : Local σ → Nat) (i : ι) (t : τ) (e : Nat) :
    (Team.start job : Team ι τ σ).done job inLoop i t e = 0 :=
  loopDone_before job.params _ (Nat.succ_pos (8 * e + 3))

theorem Team.done_at {inLoop : Local σ → Nat} {e : Nat} (here : (team.control i t).pc = 8 * e + 4) :
    team.done job inLoop i t e = inLoop (team.loc i t) := by
  rw [Team.done, here, loopDone_at]

/-- A store of `reset_counters` fits the instruction. -/
theorem Team.Ok.localOk_store (ok : team.Ok job) {syncCount : Int} {n : Nat}
    (here : team.instr job i t = some (.resetCounters syncCount)) (below : n < job.stores t) :
    LocalOk (job.first i) (job.stores t) (team.instr job i t) ⟨n + 1, (team.loc i t).stage⟩ := by
  have own := ok.loc i t
  rw [here] at own ⊢
  exact ⟨below, own.2⟩

/-! ## The moves -/

variable [DecidableEq ι] [DecidableEq τ]

/-- Thread `(i, t)` goes to `point` and starts afresh there. -/
def Team.goTo (job : Job ι τ σ) (team : Team ι τ σ) (i : ι) (t : τ) (point : Spmd.Point) :
    Team ι τ σ where
  control := team.control.set i t point
  loc := put team.loc i t (Local.start (job.first i))

/-- Thread `(i, t)` makes progress inside its instruction. -/
def Team.work (team : Team ι τ σ) (i : ι) (t : τ) (l : Local σ) : Team ι τ σ :=
  { team with loc := put team.loc i t l }

/-- Where thread `(i, t)` may go: on at a synchronising call, or past finished work. -/
inductive Team.Next [Fintype ι] [Fintype τ] (job : Job ι τ σ) (team : Team ι τ σ) (i : ι) (t : τ) :
    Spmd.Point → Prop where
  | sync (point : Spmd.Point)
      (move : Spmd.syncMove (controlProgram job.params) job.leader team.control i t = some point) :
      Next job team i t point
  | finish (instr : Instr) (here : team.instr job i t = some instr)
      (done : workDone (job.stores t) (team.loc i t) instr = true) :
      Next job team i t (team.control i t).next

/-- The progress of the other threads is as before. -/
theorem Team.goTo_loc_of_ne {point : Spmd.Point} (different : ¬ (i' = i ∧ t' = t)) :
    (team.goTo job i t point).loc i' t' = team.loc i' t' := put_of_ne _ _ different

theorem Team.goTo_control_of_ne {point : Spmd.Point} (different : ¬ (i' = i ∧ t' = t)) :
    (team.goTo job i t point).control i' t' = team.control i' t' := by
  simp [Team.goTo, Spmd.Control.set_apply, different]

theorem Team.goTo_instr_of_ne {point : Spmd.Point} (different : ¬ (i' = i ∧ t' = t)) :
    (team.goTo job i t point).instr job i' t' = team.instr job i' t' := by
  rw [Team.instr, Team.goTo_control_of_ne different, Team.instr]

/-! ## Going on -/

section Next

variable [Fintype ι] [Fintype τ] {point : Spmd.Point}

omit [DecidableEq ι] in
/-- Where a thread can move by synchronising, it stands at a synchronising call. -/
theorem Team.sync_instr
    (move : Spmd.syncMove (controlProgram job.params) job.leader team.control i t = some point) :
    ∃ instr, team.instr job i t = some instr ∧ instr.op ≠ .work := by
  obtain ⟨op, here, sync⟩ := Spmd.syncMove_op move
  obtain ⟨instr, found, rfl⟩ := Team.instr_of_op here
  exact ⟨instr, found, sync⟩

/-- A synchronising move is going to the new point: nothing is in progress there. -/
theorem Team.Ok.sync_eq (ok : team.Ok job)
    (move : Spmd.syncMove (controlProgram job.params) job.leader team.control i t = some point) :
    { team with control := team.control.set i t point } = team.goTo job i t point := by
  obtain ⟨instr, here, sync⟩ := Team.sync_instr move
  have own := ok.loc i t
  rw [here] at own
  simp only [Team.goTo, ← own.of_sync sync, put_self]

omit [DecidableEq ι] in
/-- Going on is entering a call, with nothing in progress, or leaving an
instruction that is a synchronising call or is done. -/
theorem Team.Next.cases (next : team.Next job i t point) (ok : team.Ok job) :
    (point.pc = (team.control i t).pc ∧ team.loc i t = Local.start (job.first i)) ∨
      (point.pc = (team.control i t).pc + 1 ∧ ∃ instr, team.instr job i t = some instr ∧
        (workDone (job.stores t) (team.loc i t) instr = true ∨ instr.op ≠ .work)) := by
  cases next with
  | sync _ move =>
      obtain ⟨instr, here, sync⟩ := Team.sync_instr move
      rcases Spmd.syncMove_cases move with ⟨rfl, -⟩ | ⟨rfl, -⟩ | ⟨rfl, -⟩
      · have own := ok.loc i t
        rw [here] at own
        exact Or.inl ⟨rfl, own.of_sync sync⟩
      · exact Or.inr ⟨rfl, instr, here, Or.inr sync⟩
      · exact Or.inr ⟨rfl, instr, here, Or.inr sync⟩
  | finish instr here done => exact Or.inr ⟨rfl, instr, here, Or.inl done⟩

theorem Team.Next.control (next : team.Next job i t point) :
    Spmd.Step (controlProgram job.params) job.leader team.control
      (team.control.set i t point) := by
  cases next with
  | sync _ move => exact .sync i t point move
  | finish instr here done =>
      refine .work i t ?_
      rw [Team.op_of_instr here, op_of_workDone done]

theorem Team.Ok.goTo (ok : team.Ok job) (next : team.Next job i t point) :
    (team.goTo job i t point).Ok job where
  synced := ok.synced.step next.control
  bounded := by
    intro i' t'
    by_cases same : i' = i ∧ t' = t
    · obtain ⟨rfl, rfl⟩ := same
      simp only [Team.goTo, Spmd.Control.set_same]
      rcases next.cases ok with ⟨stays, -⟩ | ⟨goes, instr, here, -⟩
      · rw [stays]
        exact ok.bounded i' t'
      · have below := pc_lt_of_instr here
        omega
    · rw [Team.goTo_control_of_ne same]
      exact ok.bounded i' t'
  loc := by
    intro i' t'
    by_cases same : i' = i ∧ t' = t
    · obtain ⟨rfl, rfl⟩ := same
      simp only [Team.goTo, put_same]
      exact localOk_start _ _ _
    · rw [Team.goTo_instr_of_ne same, Team.goTo_loc_of_ne same]
      exact ok.loc i' t'

theorem Team.Ok.sync (ok : team.Ok job)
    (move : Spmd.syncMove (controlProgram job.params) job.leader team.control i t = some point) :
    Team.Ok job { team with control := team.control.set i t point } := by
  rw [ok.sync_eq move]
  exact ok.goTo (.sync point move)

omit [DecidableEq ι] in
/-- Who goes on is not in the middle of a body. -/
theorem Team.Next.stage_eq (next : team.Next job i t point) (ok : team.Ok job) :
    (team.loc i t).stage = job.first i := by
  rcases next.cases ok with ⟨-, start⟩ | ⟨-, instr, here, done⟩
  · rw [start]
    rfl
  · refine (ok.loc i t).stage_eq fun iters msgSize atLoop => ?_
    rw [here, Option.some.injEq] at atLoop
    subst atLoop
    simpa [workDone, Instr.op] using done

/-- So nobody's stage changes. -/
theorem Team.Next.goTo_stage (next : team.Next job i t point) (ok : team.Ok job) (i' : ι) (t' : τ) :
    ((team.goTo job i t point).loc i' t').stage = (team.loc i' t').stage := by
  by_cases same : i' = i ∧ t' = t
  · obtain ⟨rfl, rfl⟩ := same
    rw [next.stage_eq ok]
    simp only [Team.goTo, put_same, Local.start]
  · rw [Team.goTo_loc_of_ne same]

end Next

/-! ## Working -/

theorem Team.Ok.work (ok : team.Ok job) {l : Local σ}
    (own : LocalOk (job.first i) (job.stores t) (team.instr job i t) l) :
    (team.work i t l).Ok job where
  synced := ok.synced
  bounded := ok.bounded
  loc := by
    intro i' t'
    change LocalOk _ _ (team.instr job i' t') (put team.loc i t l i' t')
    by_cases same : i' = i ∧ t' = t
    · obtain ⟨rfl, rfl⟩ := same
      rw [put_same]
      exact own
    · rw [put_of_ne _ _ same]
      exact ok.loc i' t'

/-- Progress that fits a loop keeps the team in order. -/
theorem Team.Ok.work_loop (ok : team.Ok job) {l : Local σ} {iters msgSize : Nat}
    (here : team.instr job i t = some (.loop iters msgSize))
    (fits : LocalOk (job.first i) (job.stores t) (some (.loop iters msgSize)) l) :
    (team.work i t l).Ok job := by
  refine ok.work ?_
  rw [here]
  exact fits

/-! ## What is done of each loop -/

/-- Going on changes no count. -/
theorem Team.done_goTo [Fintype ι] [Fintype τ] {point : Spmd.Point} (ok : team.Ok job)
    (next : team.Next job i t point) (extra : ι → σ → Nat)
    (none : ∀ i, extra i (job.first i) = 0) (i' : ι) (t' : τ) (e : Nat) :
    (team.goTo job i t point).done job (fun l => l.iter + extra i' l.stage) i' t' e =
      team.done job (fun l => l.iter + extra i' l.stage) i' t' e := by
  by_cases same : i' = i ∧ t' = t
  · obtain ⟨rfl, rfl⟩ := same
    have fresh : (Local.start (job.first i')).iter + extra i' (Local.start (job.first i')).stage =
        0 := by simp [Local.start, none]
    simp only [Team.done, Team.goTo, put_same, Spmd.Control.set_same, fresh]
    rcases next.cases ok with ⟨stays, start⟩ | ⟨goes, instr, here, done⟩
    · rw [stays, start, fresh]
    · have own := ok.loc i' t'
      rw [here] at own
      rw [goes]
      exact loopDone_next here own done (none i') e
  · simp only [Team.done, Team.goTo_control_of_ne same, Team.goTo_loc_of_ne same]

/-- Work in another loop, or by another thread, does not change the count. -/
theorem Team.done_work_of_ne {inLoop : Local σ → Nat} {l : Local σ} {e : Nat}
    (different : ¬ (i' = i ∧ t' = t ∧ (team.control i t).pc = 8 * e + 4)) :
    (team.work i t l).done job inLoop i' t' e = team.done job inLoop i' t' e := by
  by_cases same : i' = i ∧ t' = t
  · obtain ⟨rfl, rfl⟩ := same
    exact loopDone_congr job.params _ _ fun here => different ⟨rfl, rfl, here⟩
  · simp only [Team.done, Team.work, put_of_ne _ _ same]

theorem Team.done_work_same {inLoop : Local σ → Nat} {l : Local σ} {e : Nat}
    (here : (team.control i t).pc = 8 * e + 4) :
    (team.work i t l).done job inLoop i t e = inLoop l := by
  simp only [Team.done, Team.work, put_same, here, loopDone_at]

/-- Work that leaves the worker's own count alone changes no count. -/
theorem Team.done_work_eq (inLoop : ι → Local σ → Nat) {l : Local σ}
    (same : inLoop i l = inLoop i (team.loc i t)) (i' : ι) (t' : τ) (e : Nat) :
    (team.work i t l).done job (inLoop i') i' t' e = team.done job (inLoop i') i' t' e := by
  by_cases own : i' = i ∧ t' = t ∧ (team.control i t).pc = 8 * e + 4
  · obtain ⟨rfl, rfl, here⟩ := own
    rw [Team.done_work_same here, Team.done_at here, same]
  · exact Team.done_work_of_ne own

end FabricBench
