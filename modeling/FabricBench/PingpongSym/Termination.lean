import FabricBench.CommExp.Sweep
import FabricBench.Lib.Variant
import FabricBench.PingpongSym.Lockstep

/-!
Every run of `pingpong_sym` comes to an end, and the end is the right one: each step
leaves less to do (`Move.left_lt`), and when no step is left all threads are at the end of
their programs with every message received, every send reported and the preposted
receives posted (`Inv.completed`).
-/

namespace FabricBench.PingpongSym

open FabricBench.Lib

variable {cfg : Config} {s s' : State cfg}

/-! ## What is left -/

/-- What the threads have left, the messages to deliver and the sends to report. A send leaves
one of each. -/
def State.left (s : State cfg) : Nat :=
  s.team.leftAll (job cfg) (rhythm cfg).cost + tableSum (fun r t => (s.net r t).length) +
    tableSum s.unacked

/-- Every step leaves less to do. -/
theorem Move.left_lt (move : Move s s') (inv : Inv s) : s'.left < s.left := by
  cases move with
  | sync r t point move =>
      have next : s.team.Next (job cfg) r t point := .sync point move
      have lower := next.leftAll_lt (starts cfg).cost
      rw [← inv.team.sync_eq move] at lower
      exact Nat.add_lt_add_right (Nat.add_lt_add_right lower _) _
  | finish r t instr here done =>
      have next : s.team.Next (job cfg) r t _ := .finish instr here done
      have lower := next.leftAll_lt (starts cfg).cost
      exact Nat.add_lt_add_right (Nat.add_lt_add_right lower _) _
  | isend r t iters msgSize here more stage =>
      -- two steps of the transport are left instead, for the message and for its completion
      have team := s.team.leftAll_beat (goes_isend stage) (starts cfg) here more
      have flying := tableSum_change (fun r t => (s.net r t).length)
        (fun r' t' => (put s.net (partner r) t (s.net (partner r) t ++ [msgSize]) r' t').length)
        (partner r) t fun r' t' different => by rw [put_of_ne _ _ different]
      have unreported := tableSum_change s.unacked (put s.unacked r t (s.unacked r t + 1)) r t
        fun r' t' different => put_of_ne _ _ different
      simp only [put_same, List.length_append, List.length_singleton] at flying unreported
      simp only [State.left, State.team, Team.work] at team ⊢
      omega
  | pollSend r t iters msgSize count here more stage positive available =>
      have team := s.team.leftAll_beat (goes_afterSendDone stage) (starts cfg) here more
      exact Nat.add_lt_add_right (Nat.add_lt_add_right (Nat.lt_of_succ_le team.le) _) _
  | irecv r t iters msgSize here more stage =>
      have team := s.team.leftAll_beat (goes_irecv stage) (starts cfg) here more
      exact Nat.add_lt_add_right (Nat.add_lt_add_right (Nat.lt_of_succ_le team.le) _) _
  | pollRecv r t iters msgSize count here more stage positive available =>
      have team := s.team.leftAll_beat (goes_afterRecvDone stage) (starts cfg) here more
      exact Nat.add_lt_add_right (Nat.add_lt_add_right (Nat.lt_of_succ_le team.le) _) _
  | deliver r t k size buf rest found posted =>
      have below : k < (s.net r t).length := (List.getElem?_eq_some_iff.mp found).1
      have flying := tableSum_change (fun r t => (s.net r t).length)
        (fun r' t' => (put s.net r t ((s.net r t).eraseIdx k) r' t').length) r t
        fun r' t' different => by rw [put_of_ne _ _ different]
      simp only [put_same, List.length_eraseIdx_of_lt below] at flying
      simp only [State.left, State.team]
      omega
  | ack r t posted =>
      have unreported := tableSum_change s.unacked (put s.unacked r t (s.unacked r t - 1)) r t
        fun r' t' different => put_of_ne _ _ different
      simp only [put_same] at unreported
      simp only [State.left, State.team]
      omega

theorem variant_left (cfg : Config) : Machine.Variant (@step cfg) Inv State.left where
  keeps := by
    rintro s s' inv ⟨action, taken⟩
    exact inv.move (move_of_step taken)
  lowers := by
    rintro s s' inv ⟨action, taken⟩
    exact (move_of_step taken).left_lt inv

/-! ## The end of a run -/

/-- All threads are at the end of their programs, every message is received, every send is
reported, and as many receives are posted as at the start. -/
structure Completed (s : State cfg) : Prop where
  threads : ∀ (r : Rank cfg) (t : Thread cfg),
    (threadCode cfg.params r t).length ≤ (s.control r t).pc
  received : ∀ r t, s.net r t = [] ∧ s.recvCq r t = []
  reported : ∀ r t, s.unacked r t = 0 ∧ s.sendCq r t = 0
  posted : ∀ r t, (s.rq r t).length = numPrepostRecv

instance (s : State cfg) : Decidable (Completed s) :=
  decidable_of_iff
    ((∀ (r : Rank cfg) (t : Thread cfg), (threadCode cfg.params r t).length ≤ (s.control r t).pc) ∧
      (∀ r t, s.net r t = [] ∧ s.recvCq r t = []) ∧
      (∀ r t, s.unacked r t = 0 ∧ s.sendCq r t = 0) ∧
      ∀ r t, (s.rq r t).length = numPrepostRecv)
    ⟨fun ⟨threads, received, reported, posted⟩ => ⟨threads, received, reported, posted⟩,
      fun completed => ⟨completed.threads, completed.received, completed.reported,
        completed.posted⟩⟩

section Final

variable (final : Machine.Final step s)

include final

/-- Who is in a loop waits for the completion of its receive, and nothing is on its way. -/
theorem waits_of_final (inv : Inv s) {r : Rank cfg} {t : Thread cfg} {e : Nat}
    (below : e < cfg.params.loops) (inLoop : (s.control r t).pc = 8 * e + 4) :
    WaitsIn (job cfg) (rhythm cfg).exchange s.team (fun r t => s.unconsumed r t) e r t := by
  have here : s.instr r t =
      some (.loop (cfg.params.iters e) (cfg.params.sizes.getD (e / 2) 0)) := by
    rw [State.instr, inLoop]
    exact loop_instr _ below
  have more : (s.loc r t).iter < cfg.params.iters e := by
    by_contra done
    have stays := final (.finish r t)
    simp [step, here, workDone, Nat.le_of_not_lt done] at stays
  have reported : s.unacked r t = 0 := by
    have stays := final (.ack r t)
    simpa [step] using stays
  have queues := inv.queues r t
  cases stage : (s.loc r t).stage with
  | send =>
      have stays := final (.isend r t)
      simp [step, here, more, stage] at stays
  | post =>
      have stays := final (.irecv r t)
      simp [step, here, more, stage] at stays
  | waitSend =>
      have one : s.sendCq r t = 1 := by
        have sends := queues.sends
        rw [stage, reported] at sends
        exact sends
      have stays := final (.pollSend r t 1)
      simp [step, here, more, stage, one, numToPoll] at stays
  | waitRecv =>
      have arrived : s.recvCq r t = [] := by
        have stays := final (.pollRecv r t 1)
        simpa [step, here, more, stage, numToPoll] using stays
      have flying : s.net r t = [] := by
        by_contra some
        obtain ⟨size, others, messages⟩ := List.exists_cons_of_ne_nil some
        obtain ⟨buf, rest, receives⟩ : ∃ buf rest, s.rq r t = buf :: rest := by
          have bounds := (inv.rq_bounds r t).1
          exact List.exists_cons_of_length_pos
            (by unfold numPrepostRecv rxQueueLen at bounds; omega)
        have stays := final (.deliver r t 0)
        simp [step, messages, receives] at stays
      refine ⟨below, inLoop, more, ?_, by simp [State.unconsumed, arrived, flying]⟩
      exact Rhythm.waits (Or.inr (congrArg Stage.beat stage))

/-- Outside of the loops nobody is held up: all other work can be finished. -/
theorem finished_of_final (inv : Inv s) (r : Rank cfg) (t : Thread cfg) :
    (controlProgram cfg.params).length ≤ (s.control r t).pc := by
  have stays : ∀ r t,
      Spmd.syncMove (controlProgram cfg.params) (leader cfg) s.control r t = none := by
    intro r t
    have stays := final (.sync r t)
    simpa only [step, threadCode, controlProgram_eq, Option.map_eq_none_iff] using stays
  rcases inv.balanced.held_or_finished stays fun r t e below => waits_of_final final inv below with
    ⟨r, t, instr, here, op, noLoop, -⟩ | finished
  · have undone : workDone 0 (s.loc r t) instr = false := by
      have stays := final (.finish r t)
      simpa [step, show s.instr r t = some instr from here] using stays
    rcases undone_cases op undone with ⟨iters, msgSize, same⟩ | ⟨syncCount, -, left⟩
    · exact absurd same (noLoop iters msgSize)
    · exact absurd left (Nat.not_lt_zero _)
  · exact finished r t

end Final

/-- At the end of the programs the queues are as at the start. -/
theorem Inv.completed (inv : Inv s)
    (ended : ∀ r t, (controlProgram cfg.params).length ≤ (s.control r t).pc) : Completed s := by
  have settled : ∀ r t, s.net r t = [] ∧ s.recvCq r t = [] := by
    intro r t
    have nothing := inv.balanced.pending_end (starts cfg).exchange inv.team ended r t
    have lengths : (s.net r t).length + (s.recvCq r t).length = 0 := by exact_mod_cast nothing
    exact ⟨List.length_eq_zero_iff.mp (by omega), List.length_eq_zero_iff.mp (by omega)⟩
  have queues : ∀ r t, Queues (firstStage (sender r)) (s.sendCq r t) (s.unacked r t)
      (s.rq r t).length (s.recvCq r t).length := by
    intro r t
    have own := inv.queues r t
    have start : s.loc r t = Local.start (firstStage (sender r)) := inv.team.loc_end (ended r t)
    rwa [start] at own
  have none : ∀ sends, sendsPosted (firstStage sends) = 0 ∧ recvsPosted (firstStage sends) = 0 := by
    decide
  refine ⟨fun r t => ?_, settled, fun r t => ?_, fun r t => ?_⟩
  · have past := ended r t
    rw [controlProgram_length] at past
    rw [threadCode, runVaryMsg_length]
    exact past
  · have sends := (queues r t).sends
    rw [(none (sender r)).1] at sends
    omega
  · have receives := (queues r t).receives
    rw [(none (sender r)).2, (settled r t).2] at receives
    exact receives

theorem Completed.final (completed : Completed s) : Machine.Final step s := by
  have noInstr : ∀ {r t instr}, s.instr r t = some instr → False := by
    intro r t instr here
    rw [State.instr, List.getElem?_eq_none (completed.threads r t)] at here
    exact absurd here (by simp)
  intro action
  by_contra possible
  obtain ⟨s', taken⟩ := Option.ne_none_iff_exists'.mp possible
  cases move_of_step taken with
  | sync r t point move =>
      obtain ⟨instr, here, -⟩ := @Team.sync_instr _ _ _ (job cfg) s.team r t _ _ _ point move
      exact noInstr here
  | finish r t instr here done => exact noInstr here
  | isend r t iters msgSize here more stage => exact noInstr here
  | pollSend r t iters msgSize count here more stage positive available => exact noInstr here
  | irecv r t iters msgSize here more stage => exact noInstr here
  | pollRecv r t iters msgSize count here more stage positive available => exact noInstr here
  | deliver r t k size buf rest found posted =>
      rw [(completed.received r t).1] at found
      exact absurd found (by simp)
  | ack r t posted => exact absurd (completed.reported r t).1 posted.ne'

/-! ## How long a run can be -/

/-- For each size 26 steps for the calls and 6 for each iteration of a thread, and 6 for the
closing barrier. -/
def workload (cfg : Config) : Nat :=
  2 * cfg.half * (cfg.threadNum *
    (cfg.params.sizes.length * (26 + 6 * (cfg.params.skip + cfg.params.loop)) + 6))

theorem left_init (cfg : Config) : (State.init cfg).left = workload cfg := by
  have team : (State.init cfg).team = Team.start (job cfg) := rfl
  have flying : tableSum (fun r t => ((State.init cfg).net r t).length) = 0 := by
    simp [tableSum, State.init]
  have unreported : tableSum (State.init cfg).unacked = 0 := by
    simp [tableSum, State.init]
  have resets : ∑ t : Thread cfg, (job cfg).stores t = 0 := by
    simp [job]
  rw [State.left, team, flying, unreported, Team.leftAll_start (starts cfg).cost, resets,
    Fintype.card_fin, Fintype.card_fin]
  rfl

theorem Inv.final_iff (inv : Inv s) : Machine.Final step s ↔ Completed s :=
  ⟨fun final => inv.completed (finished_of_final final inv), Completed.final⟩

section Quick

def ping : Rank twoRanks := ⟨0, Nat.two_pos⟩

def pong : Rank twoRanks := ⟨1, Nat.one_lt_two⟩

def only : Thread twoRanks := leader twoRanks

/-- The same for both ranks, one after the other. -/
def both (actions : Rank twoRanks → List (Action twoRanks)) : List (Action twoRanks) :=
  actions ping ++ actions pong

/-- A rank goes up to a collective, or from one to the end of its barrier. -/
def quickSync (r : Rank twoRanks) : List (Action twoRanks) := List.replicate 3 (.sync r only)

/-- The first rank sends and the second one answers. -/
def quickPing : List (Action twoRanks) :=
  [.irecv pong only, .isend ping only, .deliver pong only 0, .pollRecv pong only 1,
    .isend pong only]

/-- The first rank takes the answer, and both sends are reported. -/
def quickPong : List (Action twoRanks) :=
  [.ack ping only, .pollSend ping only 1, .irecv ping only, .deliver ping only 0,
    .pollRecv ping only 1, .ack pong only, .pollSend pong only 1]

/-- The ranks come to their warm-up loop. -/
def quickEnter : List (Action twoRanks) :=
  both (fun r => [.finish r only] ++ quickSync r) ++ both quickSync

/-- From there on: the rest of a warm-up iteration, two measured ones, and the end. -/
def quickRest : List (Action twoRanks) :=
  quickPong ++ both (fun r => [.finish r only] ++ quickSync r) ++
  both (fun r => quickSync r ++ [.finish r only] ++ quickSync r) ++ both quickSync ++
  quickPing ++ quickPong ++ quickPing ++ quickPong ++
  both (fun r => [.finish r only, .finish r only, .sync r only, .sync r only, .finish r only] ++
    quickSync r) ++ both quickSync

end Quick

end FabricBench.PingpongSym
