import FabricBench.CommExp.Work
import FabricBench.Lib.Variant
import FabricBench.PingpongPrg.Progress

/-!
How long the teams of `pingpong_prg` can go on.

What is left to do goes down with every step: the threads have their programs left,
and a message that is sent leaves the deliver, the poll and the dispatching steps
that it will take (`State.left`, `Move.left_lt`). At the start it is `workload`.
-/

namespace FabricBench.PingpongPrg

open FabricBench.Lib

variable {cfg : Config} {s s' : State cfg}

/-! ## What is left -/

/-- An iteration is a send, a look at the counter and a decrement, and the message takes up
to eight steps: it is delivered and polled, its worker is read, the cursor is moved in
three steps, the counter is incremented, and the receive is posted again. -/
def workCost (cfg : Config) : Cost (Rank cfg) BodyStage where
  round := 11
  spent r stage :=
    match stage with
    | .send => if sender r then 0 else 2
    | .wait => if sender r then 9 else 0
    | .consume => if sender r then 10 else 1
  spent_le := by
    intro r stage
    cases stage <;> cases sender r <;> simp

/-- The steps a progress thread makes until its next poll. -/
def PrgThread.left (thread : PrgThread) : Nat :=
  match thread.stage with
  | .poll => 0
  | .read => 5 * thread.batch.length + 1
  | .fetch _ => 5 * thread.batch.tail.length + 5
  | .store _ _ => 5 * thread.batch.tail.length + 4
  | .wrap _ => 5 * thread.batch.tail.length + 3
  | .bump _ => 5 * thread.batch.tail.length + 2

/-- The steps that the messages on their way to a progress thread take. -/
def State.pipeLeft (s : State cfg) (r : Rank cfg) (p : Prg cfg) : Nat :=
  8 * (s.net r p).length + 7 * (s.cq r p).length + (s.prg r p).left

def State.left (s : State cfg) : Nat :=
  s.team.leftAll (job cfg) (workCost cfg) + tableSum s.pipeLeft

theorem workCost_fresh (cfg : Config) : (workCost cfg).Fresh (job cfg) := by
  intro r
  simp only [workCost, job, firstStage]
  cases sender r <;> rfl

/-! ## The workers -/

section Worker

variable {r : Rank cfg} {l : Local BodyStage}

theorem spentIn_afterSend (stage : l.stage = .send) :
    (workCost cfg).spentIn r (afterSend (sender r) l) = (workCost cfg).spentIn r l + 9 := by
  unfold Cost.spentIn afterSend
  cases role : sender r with
  | true => simp [workCost, role, stage]
  | false => simp [workCost, role, stage, Nat.succ_mul]

theorem spentIn_observe (stage : l.stage = .wait) :
    (workCost cfg).spentIn r ⟨l.iter, .consume⟩ = (workCost cfg).spentIn r l + 1 := by
  unfold Cost.spentIn
  cases role : sender r <;> simp [workCost, role, stage]

theorem spentIn_afterConsume (stage : l.stage = .consume) :
    (workCost cfg).spentIn r (afterConsume (sender r) l) = (workCost cfg).spentIn r l + 1 := by
  unfold Cost.spentIn afterConsume
  cases role : sender r with
  | true => simp [workCost, role, stage, Nat.succ_mul]
  | false => simp [workCost, role, stage]

theorem leftAll_store {syncCount : Int} {i : Nat}
    (here : s.instr r (leader cfg) = some (.resetCounters syncCount))
    (iter : (s.loc r (leader cfg)).iter = i) (below : i < cfg.txThreadNum + cfg.rxThreadNum) :
    (s.team.work r (leader cfg) ⟨i + 1, (s.loc r (leader cfg)).stage⟩).leftAll (job cfg)
      (workCost cfg) + 1 = s.team.leftAll (job cfg) (workCost cfg) := by
  refine Team.leftAll_work 1 (Team.left_work_store here ?_ ?_)
  · exact congrArg (· + 1) iter.symm
  · change (s.loc r (leader cfg)).iter < stores (leader cfg)
    rw [leader_stores, iter]
    exact below

end Worker

/-! ## The messages -/

/-- A step that changes the queues of one progress thread only changes the total by what
changes there. -/
theorem tableSum_pipeLeft (s s' : State cfg) (r : Rank cfg) (p : Prg cfg)
    (net : ∀ r' p', ¬ (r' = r ∧ p' = p) → s'.net r' p' = s.net r' p')
    (side : ∀ r' p', ¬ (r' = r ∧ p' = p) →
      s'.cq r' p' = s.cq r' p' ∧ s'.prg r' p' = s.prg r' p') :
    tableSum s'.pipeLeft + s.pipeLeft r p = tableSum s.pipeLeft + s'.pipeLeft r p := by
  refine tableSum_change _ _ r p fun r' p' different => ?_
  obtain ⟨cq, prg⟩ := side r' p' different
  rw [State.pipeLeft, State.pipeLeft, net r' p' different, cq, prg]

/-- A step of the transport or of a progress thread leaves less to do if it does so there. -/
theorem left_lt_of_pipeLeft (r : Rank cfg) (p : Prg cfg) (team : s'.team = s.team)
    (net : ∀ r' p', ¬ (r' = r ∧ p' = p) → s'.net r' p' = s.net r' p')
    (side : ∀ r' p', ¬ (r' = r ∧ p' = p) →
      s'.cq r' p' = s.cq r' p' ∧ s'.prg r' p' = s.prg r' p')
    (own : s'.pipeLeft r p < s.pipeLeft r p) : s'.left < s.left := by
  have change := tableSum_pipeLeft s s' r p net side
  unfold State.left
  rw [team]
  omega

/-- Every step leaves less to do. -/
theorem Move.left_lt (move : Move s s') (inv : Inv s) : s'.left < s.left := by
  cases move with
  | sync r t point move =>
      have next : s.team.Next (job cfg) r t point := .sync point move
      have lower := next.leftAll_lt (workCost_fresh cfg)
      rw [← inv.team.sync_eq move] at lower
      exact Nat.add_lt_add_right lower _
  | finish r t instr here done =>
      have next : s.team.Next (job cfg) r t _ := .finish instr here done
      exact Nat.add_lt_add_right (next.leftAll_lt (workCost_fresh cfg)) _
  | send r t iters msgSize here more stage =>
      have team := s.team.leftAll_body (stores t) (workCost_fresh cfg) here
        (spentIn_afterSend stage) (localOk_afterSend more)
      have pipe := tableSum_pipeLeft s { s with
        net := put s.net (partner r) (route t) (s.net (partner r) (route t) ++
          [⟨t, msgSize, (s.control r t).pc⟩])
        loc := put s.loc r t (afterSend (sender r) (s.loc r t)) } (partner r) (route t)
        (fun _ _ different => put_of_ne _ _ different) (fun _ _ _ => ⟨rfl, rfl⟩)
      simp only [State.pipeLeft, put_same, List.length_append, List.length_singleton] at pipe
      simp only [State.left, State.team, Team.work] at team ⊢
      omega
  | observe r t iters msgSize here more stage token =>
      have team := s.team.leftAll_body (stores t) (workCost_fresh cfg) here
        (spentIn_observe stage) (localOk_middle more)
      exact Nat.add_lt_add_right (Nat.lt_of_succ_le team.le) _
  | consume r t iters msgSize here more stage =>
      have team := s.team.leftAll_body (stores t) (workCost_fresh cfg) here
        (spentIn_afterConsume stage) (localOk_afterConsume more)
      exact Nat.add_lt_add_right (Nat.lt_of_succ_le team.le) _
  | storeSync r syncCount i here iter below =>
      have team := leftAll_store here iter (Nat.lt_add_right _ below)
      exact Nat.add_lt_add_right (Nat.lt_of_succ_le team.le) _
  | storeCursor r syncCount i here iter below =>
      have team := leftAll_store here iter (Nat.add_lt_add_left below _)
      exact Nat.add_lt_add_right (Nat.lt_of_succ_le team.le) _
  | deliver r p k msg buf rest found posted =>
      refine left_lt_of_pipeLeft r p rfl (fun _ _ different => put_of_ne _ _ different)
        (fun _ _ different => ⟨put_of_ne _ _ different, rfl⟩) ?_
      have positive : 0 < (s.net r p).length := List.length_pos_of_mem (List.mem_of_getElem? found)
      have below : k < (s.net r p).length := (List.getElem?_eq_some_iff.mp found).1
      simp only [State.pipeLeft, put_same, List.length_append, List.length_singleton,
        List.length_eraseIdx_of_lt below]
      omega
  | poll r p count stage positive few available =>
      refine left_lt_of_pipeLeft r p rfl (fun _ _ _ => rfl)
        (fun _ _ different => ⟨put_of_ne _ _ different, put_of_ne _ _ different⟩) ?_
      simp only [State.pipeLeft, put_same, PrgThread.left, stage, List.length_drop,
        List.length_take]
      omega
  | refill r p stage batch =>
      refine left_lt_of_pipeLeft r p rfl (fun _ _ _ => rfl)
        (fun _ _ different => ⟨rfl, put_of_ne _ _ different⟩) ?_
      simp only [State.pipeLeft, put_same, PrgThread.left, stage]
      omega
  | read r p head tail stage batch =>
      refine left_lt_of_pipeLeft r p rfl (fun _ _ _ => rfl)
        (fun _ _ different => ⟨rfl, put_of_ne _ _ different⟩) ?_
      simp only [State.pipeLeft, put_same, PrgThread.left, stage, batch, List.length_cons,
        List.tail_cons]
      omega
  | fetch r p workerIdx stage =>
      refine left_lt_of_pipeLeft r p rfl (fun _ _ _ => rfl)
        (fun _ _ different => ⟨rfl, put_of_ne _ _ different⟩) ?_
      simp only [State.pipeLeft, put_same, PrgThread.left, stage]
      omega
  | store r p workerIdx cursor stage =>
      refine left_lt_of_pipeLeft r p rfl (fun _ _ _ => rfl)
        (fun _ _ different => ⟨rfl, put_of_ne _ _ different⟩) ?_
      simp only [State.pipeLeft, put_same, PrgThread.left, stage]
      omega
  | wrap r p workerIdx stage =>
      refine left_lt_of_pipeLeft r p rfl (fun _ _ _ => rfl)
        (fun _ _ different => ⟨rfl, put_of_ne _ _ different⟩) ?_
      simp only [State.pipeLeft, put_same, PrgThread.left, stage]
      omega
  | bump r p workerIdx stage =>
      refine left_lt_of_pipeLeft r p rfl (fun _ _ _ => rfl)
        (fun _ _ different => ⟨rfl, put_of_ne _ _ different⟩) ?_
      simp only [State.pipeLeft, put_same, PrgThread.left, stage]
      omega

/-- In the states with the invariant, what is left is a variant of the steps. -/
theorem variant_left (cfg : Config) : Machine.Variant (@step cfg) Inv State.left where
  keeps := fun inv taken => inv.move (step_iff_move.mp taken)
  lowers := fun inv taken => (step_iff_move.mp taken).left_lt inv

/-! ## How long a run can be -/

/-- The steps of a job: for each size 26 for the calls and 11 for each iteration of a worker,
6 for the closing barrier, and the stores of the two resets of each rank. -/
def workload (cfg : Config) : Nat :=
  cfg.size * (cfg.txThreadNum *
      (cfg.params.sizes.length * (26 + 11 * (cfg.params.skip + cfg.params.loop)) + 6) +
    cfg.params.sizes.length * (2 * (cfg.txThreadNum + cfg.rxThreadNum)))

theorem left_init (cfg : Config) : (State.init cfg).left = workload cfg := by
  have team : (State.init cfg).team = Team.start (job cfg) := rfl
  have quiet : tableSum (State.init cfg).pipeLeft = 0 := by
    simp [tableSum, State.pipeLeft, State.init, PrgThread.left]
  have resets : ∑ t : Worker cfg, (job cfg).stores t = cfg.txThreadNum + cfg.rxThreadNum := by
    simp [job, stores]
  rw [State.left, team, quiet, Team.leftAll_start (workCost_fresh cfg), resets, Fintype.card_fin,
    Fintype.card_fin]
  rfl

end FabricBench.PingpongPrg
