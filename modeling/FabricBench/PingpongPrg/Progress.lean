import FabricBench.PingpongPrg.Accounts

/-!
`pingpong_prg` never gets stuck.

In a state without a move nothing is under way, and the threads at the least
position wait in a loop. A waiting worker has taken at least as much as some
worker of the partner's group has sent, so that one waits as well; from there it
goes back, and around the circle the counts get smaller and smaller.
-/

namespace FabricBench.PingpongPrg

open FabricBench.Lib FabricBench.Account

variable {cfg : Config} {s : State cfg}

/-- No thread and no message can move. -/
def Stuck (s : State cfg) : Prop := ∀ s', ¬ Step s s'

/-- The worker waits in loop `e` and has no token. -/
structure Waiting (s : State cfg) (e : Nat) (r : Rank cfg) (t : Worker cfg) : Prop where
  pc : (s.control r t).pc = 8 * e + 4
  more : (s.loc r t).iter < cfg.params.iters e
  stage : (s.loc r t).stage = .wait
  empty : s.syncs r t = 0

/-! ## What is stuck -/

section Stuck

variable (stuck : Stuck s)

include stuck

theorem Stuck.no_move {s' : State cfg} (move : Move s s') : False :=
  stuck s' (step_iff_move.mpr move)

/-- A progress thread that has something to do does it. -/
theorem Stuck.polls (r : Rank cfg) (p : Prg cfg) : (s.prg r p).stage = .poll := by
  cases stage : (s.prg r p).stage with
  | poll => rfl
  | read =>
      cases batch : (s.prg r p).batch with
      | nil => exact (stuck.no_move (.refill r p stage batch)).elim
      | cons head tail => exact (stuck.no_move (.read r p head tail stage batch)).elim
  | fetch workerIdx => exact (stuck.no_move (.fetch r p workerIdx stage)).elim
  | store workerIdx cursor => exact (stuck.no_move (.store r p workerIdx cursor stage)).elim
  | wrap workerIdx => exact (stuck.no_move (.wrap r p workerIdx stage)).elim
  | bump workerIdx => exact (stuck.no_move (.bump r p workerIdx stage)).elim

/-- The receives never run out for good, so messages do not stay under way. -/
theorem Stuck.drained (inv : Inv s) (r : Rank cfg) (p : Prg cfg) : s.underway r p = [] := by
  have credit := inv.credit r p
  have stage := stuck.polls r p
  obtain ⟨batch, completed⟩ := credit.poll stage
  have arrived : s.cq r p = [] := by
    by_contra some
    have positive := List.length_pos_iff.mpr some
    exact stuck.no_move (.poll r p 1 stage (by omega) (by decide) (by omega))
  have posted : s.rq r p ≠ [] := by
    intro none
    have sum := credit.sum
    rw [none, arrived, completed] at sum
    exact absurd sum (by decide)
  have flying : s.net r p = [] := by
    obtain ⟨buf, rest, receives⟩ := List.exists_cons_of_ne_nil posted
    by_contra some
    obtain ⟨msg, others, messages⟩ := List.exists_cons_of_ne_nil some
    exact stuck.no_move (.deliver r p 0 msg buf rest (by simp [messages]) receives)
  simp [State.underway, flying, arrived, batch]

/-- Who is in a loop waits there. -/
theorem Stuck.waiting {e : Nat} (below : e < cfg.params.loops) {r : Rank cfg} {t : Worker cfg}
    (inLoop : (s.control r t).pc = 8 * e + 4) : Waiting s e r t := by
  have here : s.instr r t =
      some (.loop (cfg.params.iters e) (cfg.params.sizes.getD (e / 2) 0)) := by
    rw [State.instr, inLoop]
    exact loop_instr _ below
  have more : (s.loc r t).iter < cfg.params.iters e := by
    by_contra done
    exact stuck.no_move (.finish r t _ here (by simpa [workDone] using done))
  cases stage : (s.loc r t).stage with
  | send => exact (stuck.no_move (.send r t _ _ here more stage)).elim
  | consume => exact (stuck.no_move (.consume r t _ _ here more stage)).elim
  | wait =>
      refine ⟨inLoop, more, stage, ?_⟩
      by_contra token
      exact stuck.no_move (.observe r t _ _ here more stage token)

/-- Who is at work is in a loop. -/
theorem Stuck.in_loop {r : Rank cfg} {t : Worker cfg}
    (work : (controlProgram cfg.params)[(s.control r t).pc]? = some .work) :
    ∃ e, e < cfg.params.loops ∧ (s.control r t).pc = 8 * e + 4 := by
  obtain ⟨instr, here, op⟩ : ∃ instr, s.instr r t = some instr ∧ instr.op = .work :=
    @Team.instr_of_op _ _ _ (job cfg) s.team r t .work work
  have undone : workDone (stores t) (s.loc r t) instr = false := by
    by_contra done
    exact stuck.no_move (.finish r t instr here (by simpa using done))
  rcases undone_cases op undone with ⟨iters, msgSize, rfl⟩ | ⟨syncCount, rfl, left⟩
  · obtain ⟨e, below, inLoop, -⟩ := loop_of_instr here
    exact ⟨e, below, inLoop⟩
  · -- thread 0 has a store left
    obtain rfl : t = leader cfg := by
      by_contra other
      rw [stores, if_neg other] at left
      exact absurd left (by simp)
    rw [leader_stores] at left
    by_cases counters : (s.loc r (leader cfg)).iter < cfg.txThreadNum
    · exact (stuck.no_move (.storeSync r syncCount _ here rfl counters)).elim
    · exact (stuck.no_move (.storeCursor r syncCount
        ((s.loc r (leader cfg)).iter - cfg.txThreadNum) here (by omega) (by omega))).elim

end Stuck

/-! ## The circle of waiting workers -/

section Circle

variable {e : Nat} {r : Rank cfg} {t : Worker cfg}

theorem Waiting.taken_eq (waiting : Waiting s e r t) :
    s.takenIn r t e = (s.loc r t).iter := by
  rw [takenIn_at waiting.pc]
  simp [Local.taken, takenExtra, waiting.stage]

theorem Waiting.sent_eq (waiting : Waiting s e r t) :
    s.sentIn r t e = (s.loc r t).iter + if sender r then 1 else 0 := by
  rw [sentIn_at waiting.pc]
  simp [Local.sent, sentExtra, waiting.stage]

end Circle

section Fair

variable (stuck : Stuck s) (inv : Inv s) (fair : ∀ r p, Account.Fair (view s r p))
variable {e : Nat} {r : Rank cfg} {t : Worker cfg}

include stuck inv fair

/-- A waiting worker waits for a worker of the partner that has sent no more than it has
taken, and that one waits, too: dealing is fair wherever the cursor was before. -/
theorem Stuck.waits_for (below : e < cfg.params.loops)
    (least : ∀ r t, 8 * e + 4 ≤ (s.control r t).pc) (waiting : Waiting s e r t) :
    ∃ t', Waiting s e (partner r) t' ∧ s.sentIn (partner r) t' e ≤ (s.loc r t).iter := by
  obtain ⟨j, few⟩ : ∃ j, s.sentIn (partner r) (groupWorker (route t) j) e ≤ (s.loc r t).iter := by
    by_contra none
    have all : ∀ j, (s.loc r t).iter + 1 ≤ (view s r (route t)).sent j e := fun j =>
      Nat.succ_le_of_lt (Nat.lt_of_not_le fun few => none ⟨j, few⟩)
    have drained : (view s r (route t)).pending e = 0 := by simp [view, stuck.drained inv]
    have empty : (view s r (route t)).sync (seat t) = 0 := by
      simp only [view, groupWorker_route_seat]
      exact waiting.empty
    have taken := (fair r (route t)).taken_ge
      (view_mode_of_loop inv below waiting.pc (route t)) drained all (seat t) empty
    simp only [view, groupWorker_route_seat, waiting.taken_eq] at taken
    omega
  refine ⟨groupWorker (route t) j, ?_, few⟩
  rcases Nat.eq_or_lt_of_le (least (partner r) (groupWorker (route t) j)) with inLoop | past
  · exact stuck.waiting below inLoop.symm
  · have through : s.sentIn (partner r) (groupWorker (route t) j) e = cfg.params.iters e :=
      loopDone_after _ _ past
    have more := waiting.more
    omega

/-- Going around the circle once leads to a sender with fewer iterations. -/
theorem Stuck.no_sender_waits (below : e < cfg.params.loops)
    (least : ∀ r t, 8 * e + 4 ≤ (s.control r t).pc) (sends : sender r = true) (t : Worker cfg) :
    ¬ Waiting s e r t := by
  intro waiting
  have answers : sender (partner r) = false := by
    rw [sender_partner, sends]
    rfl
  obtain ⟨iter, same⟩ : ∃ iter, (s.loc r t).iter = iter := ⟨_, rfl⟩
  induction iter using Nat.strong_induction_on generalizing t with
  | _ iter inductionHypothesis =>
      obtain ⟨u, partnerWaiting, fewAnswers⟩ := stuck.waits_for inv fair below least waiting
      obtain ⟨v, ownWaiting, fewSent⟩ := stuck.waits_for inv fair below least partnerWaiting
      rw [partner_partner] at ownWaiting fewSent
      rw [partnerWaiting.sent_eq, answers] at fewAnswers
      rw [ownWaiting.sent_eq, sends] at fewSent
      simp only [Bool.false_eq_true, if_false, if_true] at fewAnswers fewSent
      exact inductionHypothesis (s.loc r v).iter (by omega) v ownWaiting rfl

/-- Without a step there is no worker left. -/
theorem Stuck.finished (r : Rank cfg) (t : Worker cfg) :
    (threadCode cfg.params r t).length ≤ (s.control r t).pc := by
  have : Nonempty (Rank cfg) := ⟨r⟩
  have : Nonempty (Worker cfg) := ⟨leader cfg⟩
  rcases Spmd.exists_move_or_min (controlProgram cfg.params) (leader cfg) s.control with
    ⟨r, t, point, move⟩ | ⟨r, t, work, least⟩ | finished
  · exact (stuck.no_move (.sync r t point move)).elim
  · -- the least position is a loop, where either the worker or one that it waits for sends
    obtain ⟨e, below, inLoop⟩ := stuck.in_loop work
    rw [inLoop] at least
    have waiting := stuck.waiting below inLoop
    cases sends : sender r with
    | true => exact (stuck.no_sender_waits inv fair below least sends t waiting).elim
    | false =>
        obtain ⟨u, partnerWaiting, -⟩ := stuck.waits_for inv fair below least waiting
        have partnerSends : sender (partner r) = true := by
          rw [sender_partner, sends]
          rfl
        exact (stuck.no_sender_waits inv fair below least partnerSends u partnerWaiting).elim
  · have length := finished r t
    rw [controlProgram_length] at length
    rw [threadCode, runVaryMsg_length]
    exact length

end Fair

/-- For all `T`, `R` with `R ∣ T`, every prefill, all iteration counts and sizes and
every order of the moves: unless all workers of all ranks are at the end of their
program, some thread, the transport or a reset can move. -/
theorem pingpongPrg_not_stuck (cfg : Config) (s : State cfg) (reachable : Reachable s) :
    (∀ (r : Rank cfg) (t : Worker cfg), (threadCode cfg.params r t).length ≤ (s.control r t).pc) ∨
      ∃ s', Step s s' := by
  by_cases stuck : Stuck s
  · exact .inl (stuck.finished reachable.inv fun r p => reachable.fair r p)
  · obtain ⟨s', possible⟩ := Classical.not_forall.mp stuck
    exact .inr ⟨s', Classical.not_not.mp possible⟩

/-- In the middle of the first loop of a job of two ranks, with a message in flight. -/
theorem pingpongPrg_not_stuck_smallRun :
    ∃ s : State smallJob, Machine.runActions step (State.init smallJob) smallRun = some s ∧
      s.net pong odds = [⟨3, 8, 4⟩] ∧
      ((∀ (r : Rank smallJob) (t : Worker smallJob),
        (threadCode smallJob.params r t).length ≤ (s.control r t).pc) ∨ ∃ s', Step s s') := by
  obtain ⟨s, taken, flying, -⟩ := smallRun_ends
  have reachable : Reachable s := Machine.run_of_actions smallRun taken
  exact ⟨s, taken, flying, pingpongPrg_not_stuck smallJob s reachable⟩

end FabricBench.PingpongPrg
