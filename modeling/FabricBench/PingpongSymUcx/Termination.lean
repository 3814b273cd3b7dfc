import FabricBench.CommExp.FirstReport
import FabricBench.CommExp.Sweep
import FabricBench.Lib.Variant
import FabricBench.PingpongSymUcx.Lockstep

/-!
Every run of `pingpong_sym_ucx` comes to its first report, which is as far as its behaviour
is defined: each step leaves less to do (`Move.left_lt`), and when no defined step is left
thread 0 of rank 0 is at its first report and all other workers wait for it, with no message
in flight or in a callback and all counters at zero (`DefinedInv.stopped`).
-/

namespace FabricBench.PingpongSymUcx

open FabricBench.Lib

variable {cfg : Config} {s s' : State cfg}

/-! ## What is left -/

/-- The steps of the callback for the messages to a worker. -/
def State.pipeLeft (s : State cfg) (r : Rank cfg) (t : Worker cfg) : Nat :=
  2 * (s.net r t).length + (s.callback r t).toList.length

def State.left (s : State cfg) : Nat :=
  s.team.leftAll (job cfg) (rhythm cfg).cost + tableSum s.pipeLeft

theorem leftAll_store {r : Rank cfg} {t : Worker cfg} {syncCount : Int}
    (here : s.instr r (leader cfg) = some (.resetCounters syncCount))
    (iter : (s.loc r (leader cfg)).iter = t) :
    (s.team.work r (leader cfg) ⟨t + 1, (s.loc r (leader cfg)).stage⟩).leftAll (job cfg)
      (rhythm cfg).cost + 1 = s.team.leftAll (job cfg) (rhythm cfg).cost := by
  refine Team.leftAll_work 1 (Team.left_work_store here ?_ ?_)
  · exact congrArg (· + 1) iter.symm
  · change (s.loc r (leader cfg)).iter < stores (leader cfg)
    rw [leader_stores, iter]
    exact t.isLt

/-- A step that changes what is on its way to one worker changes the sum by what changes
there. -/
theorem tableSum_pipeLeft (s s' : State cfg) (r : Rank cfg) (t : Worker cfg)
    (others : ∀ r' t', ¬ (r' = r ∧ t' = t) →
      s'.net r' t' = s.net r' t' ∧ s'.callback r' t' = s.callback r' t') :
    tableSum s'.pipeLeft + s.pipeLeft r t = tableSum s.pipeLeft + s'.pipeLeft r t := by
  refine tableSum_change _ _ r t fun r' t' different => ?_
  obtain ⟨net, callback⟩ := others r' t' different
  rw [State.pipeLeft, State.pipeLeft, net, callback]

/-- Every step leaves less to do. -/
theorem Move.left_lt (move : Move s s') (inv : Inv s) : s'.left < s.left := by
  cases move with
  | sync r t point move =>
      have next : s.team.Next (job cfg) r t point := .sync point move
      have lower := next.leftAll_lt (starts cfg).cost
      rw [← inv.team.sync_eq move] at lower
      exact Nat.add_lt_add_right lower _
  | finish r t instr here done =>
      have next : s.team.Next (job cfg) r t _ := .finish instr here done
      exact Nat.add_lt_add_right (next.leftAll_lt (starts cfg).cost) _
  | send r t iters msgSize here more stage =>
      have team := s.team.leftAll_beat (goes_send stage) (starts cfg) here more
      have pipe := tableSum_pipeLeft s { s with
        net := put s.net (partner r) t (s.net (partner r) t ++ [msgSize])
        loc := put s.loc r t ⟨(s.loc r t).iter, .flush⟩ } (partner r) t
        fun _ _ different => ⟨put_of_ne _ _ different, rfl⟩
      simp only [State.pipeLeft, put_same, List.length_append, List.length_singleton] at pipe
      simp only [State.left, State.team, Team.work] at team ⊢
      omega
  | flush r t iters msgSize here more stage =>
      have team := s.team.leftAll_beat (goes_afterFlush stage) (starts cfg) here more
      exact Nat.add_lt_add_right (Nat.lt_of_succ_le team.le) _
  | receive r t k size found idle =>
      have below : k < (s.net r t).length := (List.getElem?_eq_some_iff.mp found).1
      have pipe := tableSum_pipeLeft s { s with
        net := put s.net r t ((s.net r t).eraseIdx k)
        bufs := put s.bufs r t size
        callback := put s.callback r t (some size) } r t
        fun _ _ different => ⟨put_of_ne _ _ different, put_of_ne _ _ different⟩
      simp only [State.pipeLeft, put_same, List.length_eraseIdx_of_lt below, idle,
        Option.toList_none, Option.toList_some, List.length_nil, List.length_singleton] at pipe
      simp only [State.left, State.team]
      omega
  | bump r t size running =>
      have pipe := tableSum_pipeLeft s { s with
        callback := put s.callback r t none
        syncs := put s.syncs r t (s.syncs r t + 1) } r t
        fun _ _ different => ⟨rfl, put_of_ne _ _ different⟩
      simp only [State.pipeLeft, put_same, running, Option.toList_none, Option.toList_some,
        List.length_nil, List.length_singleton] at pipe
      simp only [State.left, State.team]
      omega
  | observe r t iters msgSize here more stage token =>
      have team := s.team.leftAll_beat (goes_observe stage) (starts cfg) here more
      exact Nat.add_lt_add_right (Nat.lt_of_succ_le team.le) _
  | consume r t iters msgSize here more stage =>
      have team := s.team.leftAll_beat (goes_afterConsume stage) (starts cfg) here more
      exact Nat.add_lt_add_right (Nat.lt_of_succ_le team.le) _
  | store r syncCount t here iter =>
      exact Nat.add_lt_add_right (Nat.lt_of_succ_le (leftAll_store here iter).le) _

theorem Move.pc_le_succ (move : Move s s') (inv : Inv s) (r : Rank cfg) (t : Worker cfg) :
    (s'.control r t).pc ≤ (s.control r t).pc + 1 := by
  have goes : ∀ {r' t' point}, s.team.Next (job cfg) r' t' point →
      (s.control.set r' t' point r t).pc ≤ (s.control r t).pc + 1 := by
    intro r' t' point next
    rw [Spmd.Control.set_apply]
    split_ifs with same
    · obtain ⟨rfl, rfl⟩ := same
      rcases next.cases inv.team with ⟨stays, -⟩ | ⟨goes, -⟩
      · exact stays.le.trans (Nat.le_succ _)
      · exact goes.le
    · exact Nat.le_succ _
  cases move with
  | sync r' t' point move => exact goes (.sync point move)
  | finish r' t' instr here done => exact goes (.finish instr here done)
  | send | flush | receive | bump | observe | consume | store => exact Nat.le_succ _

/-! ## The first report -/

/-- Thread 0 of rank 0 is not past its first report. -/
def Unreported (s : State cfg) : Prop :=
  cfg.params.sizes ≠ [] → ∀ (r : Rank cfg) (t : Worker cfg), r.val = 0 → t.val = 0 →
    (s.control r t).pc ≤ 15

theorem instr_at_report (sized : cfg.params.sizes ≠ []) {r : Rank cfg} {t : Worker cfg}
    (rank : r.val = 0) (thread : t.val = 0) (here : (s.control r t).pc = 15) :
    s.instr r t = some (.report true) := by
  have positive := List.length_pos_of_ne_nil sized
  have found := runVaryMsg_slot cfg.params (decide (r.val = 0 ∧ t.val = 0)) (e := 1) (r := 7)
    (show 1 < 2 * cfg.params.sizes.length by omega) (by omega)
  rw [State.instr, here]
  refine found.trans ?_
  simp [slot, rank, thread]

/-- What holds along the defined steps. -/
structure DefinedInv (s : State cfg) : Prop where
  inv : Inv s
  unreported : Unreported s

theorem definedInv_init (cfg : Config) : DefinedInv (State.init cfg) where
  inv := inv_init cfg
  unreported := fun _ _ _ _ _ => Nat.zero_le _

theorem DefinedInv.step {action : Action cfg} (ok : DefinedInv s)
    (taken : definedStep s action = some s') : DefinedInv s' := by
  obtain ⟨move, reporting⟩ := move_of_definedStep taken
  refine ⟨ok.inv.move move, fun sized r t rank thread => ?_⟩
  have low := ok.unreported sized r t rank thread
  rcases Nat.eq_or_lt_of_le low with here | before
  · rw [reporting r t (instr_at_report sized rank thread here)]
    exact low
  · exact (move.pc_le_succ ok.inv r t).trans before

theorem variant_left (cfg : Config) : Machine.Variant (@definedStep cfg) DefinedInv State.left where
  keeps := by
    rintro s s' ok ⟨action, taken⟩
    exact ok.step taken
  lowers := by
    rintro s s' ok ⟨action, taken⟩
    exact (move_of_definedStep taken).1.left_lt ok.inv

/-! ## The end of the defined steps -/

/-- No message is in flight or in a callback, and all counters are at zero. -/
structure Settled (s : State cfg) : Prop where
  net : ∀ r t, s.net r t = []
  callback : ∀ r t, s.callback r t = none
  syncs : ∀ r t, s.syncs r t = 0

/-- All workers are at the end of their programs, and nothing is left over. -/
structure Completed (s : State cfg) : Prop where
  workers : ∀ (r : Rank cfg) (t : Worker cfg),
    (threadCode cfg.params r t).length ≤ (s.control r t).pc
  settled : Settled s

/-- Thread 0 of rank 0 is at its first report and everybody else waits for it. Both loops of
the first size are over, and nothing is left over. -/
structure Reporting (s : State cfg) : Prop where
  first : ∀ r : Rank cfg, r.val = 0 → FirstReport cfg.params (leader cfg) r s.control
  settled : Settled s

instance (s : State cfg) : Decidable (Settled s) :=
  decidable_of_iff
    ((∀ r t, s.net r t = []) ∧ (∀ r t, s.callback r t = none) ∧ ∀ r t, s.syncs r t = 0)
    ⟨fun ⟨net, callback, syncs⟩ => ⟨net, callback, syncs⟩,
      fun settled => ⟨settled.net, settled.callback, settled.syncs⟩⟩

instance (s : State cfg) : Decidable (Reporting s) :=
  decidable_of_iff
    ((∀ r : Rank cfg, r.val = 0 → FirstReport cfg.params (leader cfg) r s.control) ∧ Settled s)
    ⟨fun ⟨first, settled⟩ => ⟨first, settled⟩,
      fun reporting => ⟨reporting.first, reporting.settled⟩⟩

/-- Where the defined steps end: at the first report, if there is a size to report. -/
def Stopped (s : State cfg) : Prop :=
  if cfg.params.sizes = [] then Completed s else Reporting s

theorem Inv.settled (inv : Inv s) (nothing : ∀ r t, s.unconsumed r t = 0) : Settled s := by
  have parts : ∀ r t, (s.net r t).length = 0 ∧ (s.callback r t).toList.length = 0 ∧
      s.syncs r t = 0 := by
    intro r t
    have none := nothing r t
    have nonneg := (inv.tokens r t).nonneg
    unfold State.unconsumed at none
    omega
  refine ⟨fun r t => List.length_eq_zero_iff.mp (parts r t).1, fun r t => ?_,
    fun r t => (parts r t).2.2⟩
  simpa using (parts r t).2.1

section Final

variable (final : Machine.Final definedStep s)

include final

theorem stays_of_final (r : Rank cfg) (t : Worker cfg) :
    Spmd.syncMove (controlProgram cfg.params) (leader cfg) s.control r t = none := by
  have stays := final (.sync r t)
  simpa only [definedStep, step, threadCode, controlProgram_eq, Option.map_eq_none_iff] using stays

theorem idle_of_final (r : Rank cfg) (t : Worker cfg) : s.callback r t = none := by
  cases running : s.callback r t with
  | none => rfl
  | some size =>
      have stays := final (.bump r t)
      simp [definedStep, step, running] at stays

/-- Who is in a loop waits for its counter, and nothing is on its way. -/
theorem waits_of_final {r : Rank cfg} {t : Worker cfg} {e : Nat}
    (below : e < cfg.params.loops) (inLoop : (s.control r t).pc = 8 * e + 4) :
    WaitsIn (job cfg) (rhythm cfg).exchange s.team s.unconsumed e r t := by
  have here : s.instr r t =
      some (.loop (cfg.params.iters e) (cfg.params.sizes.getD (e / 2) 0)) := by
    rw [State.instr, inLoop]
    exact loop_instr _ below
  have more : (s.loc r t).iter < cfg.params.iters e := by
    by_contra done
    have stays := final (.finish r t)
    simp [definedStep, step, here, workDone, Nat.le_of_not_lt done] at stays
  have idle := idle_of_final final r t
  cases stage : (s.loc r t).stage with
  | send =>
      have stays := final (.send r t)
      simp [definedStep, step, here, more, stage, idle] at stays
  | flush =>
      have stays := final (.flush r t)
      simp [definedStep, step, here, more, stage, idle] at stays
  | consume =>
      have stays := final (.consume r t)
      simp [definedStep, step, here, more, stage, idle] at stays
  | wait =>
      have empty : s.syncs r t = 0 := by
        have stays := final (.observe r t)
        simpa [definedStep, step, here, more, stage, idle] using stays
      have flying : s.net r t = [] := by
        by_contra some
        obtain ⟨size, others, messages⟩ := List.exists_cons_of_ne_nil some
        have stays := final (.receive r t 0)
        simp [definedStep, step, here, more, stage, idle, messages, Stage.progresses] at stays
      refine ⟨below, inLoop, more, ?_, by simp [State.unconsumed, empty, flying, idle]⟩
      exact Rhythm.waits (Or.inl (congrArg Stage.beat stage))

/-- Outside of the loops only the report of thread 0 of rank 0 holds a worker up. -/
theorem report_of_final {r : Rank cfg} {t : Worker cfg} {instr : Instr}
    (here : s.instr r t = some instr) (op : instr.op = .work)
    (noLoop : ∀ iters msgSize, instr ≠ .loop iters msgSize) : instr = .report true := by
  by_contra other
  have undone : workDone (stores t) (s.loc r t) instr = false := by
    have stays := final (.finish r t)
    simpa [definedStep, step, here, other] using stays
  rcases undone_cases op undone with ⟨iters, msgSize, same⟩ | ⟨syncCount, rfl, left⟩
  · exact noLoop iters msgSize same
  · -- thread 0 has a store left
    obtain rfl : t = leader cfg := by
      by_contra other
      rw [stores, if_neg other] at left
      exact absurd left (Nat.not_lt_zero _)
    rw [leader_stores] at left
    have stays := final (.store r)
    simp [definedStep, step, here, left] at stays

/-- If the worker that is furthest behind is at that report, everybody waits for it. -/
theorem firstReport_of_final (inv : Inv s) (sized : cfg.params.sizes ≠ []) {r : Rank cfg}
    (rank : r.val = 0) (here : (s.control r (leader cfg)).pc = 15)
    (least : ∀ r t, 15 ≤ (s.control r t).pc) :
    FirstReport cfg.params (leader cfg) r s.control := by
  refine firstReport_of_stays sized inv.team.synced here least (fun r' t' other near work => ?_)
    (stays_of_final final)
  obtain ⟨instr, found, op⟩ : ∃ instr, s.instr r' t' = some instr ∧ instr.op = .work :=
    @Team.instr_of_op _ _ _ (job cfg) s.team r' t' .work work
  have low := least r' t'
  have reports : instr = .report true := by
    refine report_of_final final found op ?_
    rintro iters msgSize rfl
    obtain ⟨e, -, position, -⟩ := loop_position found
    omega
  subst reports
  obtain ⟨k, -, -, flag⟩ := report_position found
  obtain ⟨rank', thread'⟩ := of_decide_eq_true flag.symm
  exact other ⟨Fin.ext (rank'.trans rank.symm), Fin.ext thread'⟩

end Final

/-- At the end of the programs nothing is left over. -/
theorem Inv.completed (inv : Inv s)
    (ended : ∀ r t, (controlProgram cfg.params).length ≤ (s.control r t).pc) : Completed s := by
  refine ⟨fun r t => ?_,
    inv.settled (inv.balanced.pending_end (starts cfg).exchange inv.team ended)⟩
  have past := ended r t
  rw [controlProgram_length] at past
  rw [threadCode, runVaryMsg_length]
  exact past

/-- Neither is at the first report: everybody is behind the two loops of the first size and in
front of the next one. -/
theorem Inv.reporting (inv : Inv s) (sized : cfg.params.sizes ≠ []) {r : Rank cfg}
    (rank : r.val = 0) (first : FirstReport cfg.params (leader cfg) r s.control)
    (least : ∀ r t, 15 ≤ (s.control r t).pc) : Reporting s := by
  have positive := List.length_pos_of_ne_nil sized
  have bounds := nextBarrier_bounds cfg.params
  refine ⟨fun r' rank' => ?_, inv.settled ?_⟩
  · obtain rfl : r' = r := Fin.ext (rank'.trans rank.symm)
    exact first
  · refine inv.balanced.pending_between (starts cfg).exchange inv.team (e := 2)
      (show 2 ≤ 2 * cfg.params.sizes.length by omega) (fun r t e' earlier => ?_) fun r t => ?_
    · have low := least r t
      change 8 * e' + 4 < (s.control r t).pc
      omega
    · have high := (le_of_report sized inv.team.synced first.report r t).1
      omega

theorem DefinedInv.stopped (ok : DefinedInv s) (final : Machine.Final definedStep s) :
    Stopped s := by
  have inv := ok.inv
  unfold Stopped
  rcases inv.balanced.held_or_finished (stays_of_final final)
      (fun r t e below => waits_of_final final below) with
    ⟨r, t, instr, here, op, noLoop, least⟩ | finished
  · obtain rfl := report_of_final final here op noLoop
    obtain ⟨k, below, position, flag⟩ := report_position here
    obtain ⟨rank, thread⟩ := of_decide_eq_true flag.symm
    obtain rfl : t = leader cfg := Fin.ext thread
    have sized : cfg.params.sizes ≠ [] := List.ne_nil_of_length_pos (Nat.zero_lt_of_lt below)
    have low := ok.unreported sized r (leader cfg) rank rfl
    have first : (s.control r (leader cfg)).pc = 15 := by
      change (s.control r (leader cfg)).pc = 16 * k + 15 at position
      omega
    have behind : ∀ r t, 15 ≤ (s.control r t).pc := fun r' t' => first ▸ least r' t'
    rw [if_neg sized]
    exact inv.reporting sized rank (firstReport_of_final final inv sized rank first behind) behind
  · split_ifs with sized
    · exact inv.completed finished
    · -- there is no rank 0 that could be past its report
      have nobody : ∀ _ : Rank cfg, False := by
        intro r
        have none := ok.unreported sized ⟨0, Nat.zero_lt_of_lt r.isLt⟩ (leader cfg) rfl rfl
        have all := finished ⟨0, Nat.zero_lt_of_lt r.isLt⟩ (leader cfg)
        have positive := List.length_pos_of_ne_nil sized
        rw [controlProgram_length] at all
        change 8 * (2 * cfg.params.sizes.length) + 3 ≤ _ at all
        change _ ≤ (s.control _ _).pc at all
        omega
      exact ⟨fun r => (nobody r).elim, fun r => (nobody r).elim, fun r => (nobody r).elim,
        fun r => (nobody r).elim⟩

theorem Completed.final (completed : Completed s) : Machine.Final definedStep s := by
  have noInstr : ∀ {r t instr}, s.instr r t = some instr → False := by
    intro r t instr here
    rw [State.instr, List.getElem?_eq_none (completed.workers r t)] at here
    exact absurd here (by simp)
  intro action
  by_contra possible
  obtain ⟨s', taken⟩ := Option.ne_none_iff_exists'.mp possible
  cases (move_of_definedStep taken).1 with
  | sync r t point move =>
      obtain ⟨instr, here, -⟩ := @Team.sync_instr _ _ _ (job cfg) s.team r t _ _ _ point move
      exact noInstr here
  | finish r t instr here done => exact noInstr here
  | send r t iters msgSize here more stage => exact noInstr here
  | flush r t iters msgSize here more stage => exact noInstr here
  | receive r t k size found idle =>
      rw [completed.settled.net r t] at found
      exact absurd found (by simp)
  | bump r t size running =>
      rw [completed.settled.callback r t] at running
      exact absurd running (by simp)
  | observe r t iters msgSize here more stage token => exact noInstr here
  | consume r t iters msgSize here more stage => exact noInstr here
  | store r syncCount t here iter => exact noInstr here

/-- The only work that is left is the report. -/
theorem Reporting.instr_eq (reporting : Reporting s) (sized : cfg.params.sizes ≠ []) {r : Rank cfg}
    {t : Worker cfg} {instr : Instr} (here : s.instr r t = some instr) (op : instr.op = .work) :
    instr = .report true := by
  have first := reporting.first ⟨0, Nat.zero_lt_of_lt r.isLt⟩ rfl
  obtain ⟨isReporter, isLeader⟩ := first.eq_of_work sized here op
  rw [isReporter, isLeader, instr_at_report sized rfl rfl first.report] at here
  exact (Option.some.inj here).symm

theorem Reporting.final (reporting : Reporting s) (sized : cfg.params.sizes ≠ []) :
    Machine.Final definedStep s := by
  have noLoop : ∀ {r t iters msgSize}, s.instr r t = some (.loop iters msgSize) → False := by
    intro r t iters msgSize here
    exact absurd (reporting.instr_eq sized here rfl) (by simp)
  intro action
  by_contra possible
  obtain ⟨s', taken⟩ := Option.ne_none_iff_exists'.mp possible
  obtain ⟨move, stays⟩ := move_of_definedStep taken
  cases move with
  | sync r t point move =>
      rw [(reporting.first ⟨0, Nat.zero_lt_of_lt r.isLt⟩ rfl).stays sized r t] at move
      exact absurd move (by simp)
  | finish r t instr here done =>
      -- a defined step does not finish the report
      obtain rfl := reporting.instr_eq sized here (op_of_workDone done)
      have same := congrArg Spmd.Point.pc (stays r t here)
      simp [State.advance, Spmd.Point.next] at same
  | send r t iters msgSize here more stage => exact noLoop here
  | flush r t iters msgSize here more stage => exact noLoop here
  | receive r t k size found idle =>
      rw [reporting.settled.net r t] at found
      exact absurd found (by simp)
  | bump r t size running =>
      rw [reporting.settled.callback r t] at running
      exact absurd running (by simp)
  | observe r t iters msgSize here more stage token => exact noLoop here
  | consume r t iters msgSize here more stage => exact noLoop here
  | store r syncCount t here iter =>
      exact absurd (reporting.instr_eq sized here rfl) (by simp)

theorem DefinedInv.final_iff (ok : DefinedInv s) : Machine.Final definedStep s ↔ Stopped s := by
  refine ⟨ok.stopped, fun stopped => ?_⟩
  unfold Stopped at stopped
  split_ifs at stopped with sized
  · exact stopped.final
  · exact stopped.final sized

/-! ## How long a run can be -/

/-- For each size 26 steps for the calls and 6 for each iteration of a worker, 6 for the
closing barrier, and the stores of the two resets of each rank. -/
def workload (cfg : Config) : Nat :=
  2 * cfg.half * (cfg.txThreadNum *
      (cfg.params.sizes.length * (26 + 6 * (cfg.params.skip + cfg.params.loop)) + 6) +
    cfg.params.sizes.length * (2 * cfg.txThreadNum))

theorem left_init (cfg : Config) : (State.init cfg).left = workload cfg := by
  have team : (State.init cfg).team = Team.start (job cfg) := rfl
  have quiet : tableSum (State.init cfg).pipeLeft = 0 := by
    simp [tableSum, State.pipeLeft, State.init]
  have resets : ∑ t : Worker cfg, (job cfg).stores t = cfg.txThreadNum := by
    simp [job, stores]
  rw [State.left, team, quiet, Team.leftAll_start (starts cfg).cost, resets, Fintype.card_fin,
    Fintype.card_fin]
  rfl

section Quick

/-- Two ranks with two workers each and two sizes, of which the second is never begun. -/
def twoWorkers : Config where
  half := 1
  txThreadNum := 2
  params := ⟨0, 1, 1, [8, 16]⟩
  tx_pos := Nat.two_pos
  no_prefill := rfl

def ping : Rank twoWorkers := ⟨0, Nat.two_pos⟩

def pong : Rank twoWorkers := ⟨1, Nat.one_lt_two⟩

def zero : Worker twoWorkers := ⟨0, Nat.two_pos⟩

def one : Worker twoWorkers := ⟨1, Nat.one_lt_two⟩

/-- The same for both ranks, one after the other. -/
def both (actions : Rank twoWorkers → List (Action twoWorkers)) : List (Action twoWorkers) :=
  actions ping ++ actions pong

/-- The workers of a rank go through a `thread_barrier`. -/
def quickBarrier (r : Rank twoWorkers) : List (Action twoWorkers) :=
  [.sync r zero, .sync r one, .sync r zero, .sync r one]

def quickReset (r : Rank twoWorkers) : List (Action twoWorkers) :=
  [.store r, .store r, .finish r zero, .finish r one]

/-- Both ranks go through a `proc_barrier`, whose `pmi_barrier` is for thread 0. -/
def quickProcBarrier : List (Action twoWorkers) :=
  both (fun r => quickBarrier r ++ [.sync r zero, .sync r one]) ++
  both (fun r => [.sync r zero] ++ quickBarrier r)

/-- What the callback does for a message, and the worker behind it. -/
def quickTake (r : Rank twoWorkers) (t : Worker twoWorkers) : List (Action twoWorkers) :=
  [.bump r t, .observe r t, .consume r t]

/-- A ping and its answer, from the return of the ping on. -/
def quickAnswer (t : Worker twoWorkers) : List (Action twoWorkers) :=
  quickTake pong t ++ [.send pong t, .flush pong t, .receive ping t 0] ++ quickTake ping t

/-- The ranks come to their warm-up loop: one ping is in the callback, the other in flight. -/
def quickPings : List (Action twoWorkers) :=
  both quickReset ++ quickProcBarrier ++
  [.send ping zero, .flush ping zero, .receive pong zero 0, .send ping one, .flush ping one]

/-- From there to the first report, with all others waiting. -/
def quickToReport : List (Action twoWorkers) :=
  let finish (r : Rank twoWorkers) : List (Action twoWorkers) := [.finish r zero, .finish r one]
  let exchange (t : Worker twoWorkers) : List (Action twoWorkers) :=
    [.send ping t, .flush ping t, .receive pong t 0] ++ quickAnswer t
  quickAnswer zero ++ [.receive pong one 0] ++ quickAnswer one ++ both finish ++ quickProcBarrier ++
  both quickReset ++ quickProcBarrier ++ exchange zero ++ exchange one ++ both finish ++
  both finish ++ both quickBarrier ++ [.finish ping one, .finish ping one, .sync ping one] ++
  finish pong ++ quickReset pong ++ quickBarrier pong ++
  [.sync pong zero, .sync pong one, .sync pong one]

end Quick

end FabricBench.PingpongSymUcx
