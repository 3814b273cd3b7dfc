import FabricBench.PingpongPrg.LoneJob

/-!
Conservation of tokens in one loop of `pingpong_prg` that starts with nothing
under way: the messages under way in both directions and the tokens both sides
hold change only with the workers that are in the middle of an iteration.
-/

namespace FabricBench.PingpongPrg

open FabricBench.Lib FabricBench.Account

variable {cfg : Config} {s s₀ : State cfg} {r : Rank cfg} {p : Prg cfg} {e : Nat}

/-- The `send_thread` workers that have sent and not yet taken the answer. -/
def State.expecting (s : State cfg) (r : Rank cfg) (p : Prg cfg) : Finset (Fin cfg.perGroup) :=
  Finset.univ.filter fun j => (s.loc r (groupWorker p j)).stage ≠ .send

/-- The `recv_thread` workers that have taken a token and not yet answered. -/
def State.answering (s : State cfg) (r : Rank cfg) (p : Prg cfg) : Finset (Fin cfg.perGroup) :=
  Finset.univ.filter fun j => (s.loc r (groupWorker p j)).stage = .send

/-- Only messages of the loop are under way. -/
theorem underway_length {offset : Int} (account : Flow (plan cfg) (view s r p) e offset) :
    (s.underway r p).length = (view s r p).pending e := by
  symm
  refine List.countP_eq_length.mpr fun msg member => ?_
  by_contra other
  have none := account.only msg.tag (by simpa using other)
  simp only [view, List.countP_eq_zero] at none
  exact none msg member (by simp)

theorem sent_sub_taken_sender (inv : Inv s) (active : (view s r p).mode = .active e)
    (sends : sender r = true) (t : Worker cfg) :
    (s.sentIn r t e - s.takenIn r t e : Int) = if (s.loc r t).stage ≠ .send then 1 else 0 := by
  by_cases inLoop : (s.control r t).pc = 8 * e + 4
  · rw [sentIn_at inLoop, takenIn_at inLoop]
    simp only [Local.sent, Local.taken, sentExtra, takenExtra, sends]
    split_ifs <;> simp_all
  · have stage := stage_first_of_ne inv active inLoop
    have same : s.sentIn r t e = s.takenIn r t e := loopDone_congr _ _ _ inLoop
    simp [same, stage, sends, firstStage]

theorem sent_sub_taken_receiver (inv : Inv s) (active : (view s r p).mode = .active e)
    (answers : sender r = false) (t : Worker cfg) :
    (s.sentIn r t e - s.takenIn r t e : Int) = - if (s.loc r t).stage = .send then 1 else 0 := by
  by_cases inLoop : (s.control r t).pc = 8 * e + 4
  · rw [sentIn_at inLoop, takenIn_at inLoop]
    simp only [Local.sent, Local.taken, sentExtra, takenExtra, answers]
    split_ifs <;> simp_all
  · have stage := stage_first_of_ne inv active inLoop
    have same : s.sentIn r t e = s.takenIn r t e := loopDone_congr _ _ _ inLoop
    simp [same, stage, answers, firstStage]

/-! ## The account of a loop that starts with nothing under way -/

section Loop

variable {prefill : Nat} (below : e < cfg.params.loops) (reachable : Reachable s₀)
  (start : s₀.AtLoopStart e) (empty : ∀ r p, s₀.underway r p = [])
  (prefilled : ∀ r (t : Worker cfg), s₀.syncs r t = prefill)
  (run : Relation.ReflTransGen Step s₀ s)

include below reachable start

/-- What a worker was given before the loop is in its prefill. -/
theorem start_balance (r : Rank cfg) (t : Worker cfg) :
    s₀.syncs r t = cfg.params.base e + s₀.given r t := by
  have balance := (reachable.sound r (route t)).balance
  simp only [BalanceOk, start.mode_eq below] at balance
  have own := balance (seat t)
  simp only [view, groupWorker_route_seat, start.taken_eq_zero, Nat.cast_zero, zero_add] at own
  exact own

omit reachable in
include empty in
theorem start_flow (r : Rank cfg) (p : Prg cfg) :
    FlowUntil (plan cfg) (view s₀ r p) e (view s₀ r p).givenTotal := by
  refine Or.inl ⟨start.mode_eq below r p, ?_, ?_, ?_⟩
  · simp [Ledger.sentTotal, view, empty, start.sent_eq_zero]
  · intro l _
    simp [view, empty]
  · intro l earlier j
    exact start.sent_earlier _ _ earlier

include empty run in
/-- Until the next reset of the process its account keeps the flow of the loop. -/
theorem loop_flow (r : Rank cfg) (p : Prg cfg)
    (during : (s.control r (leader cfg)).pc < 8 * (e + 1)) :
    (view s r p).mode = .active e ∧ Flow (plan cfg) (view s r p) e (view s₀ r p).givenTotal := by
  have account := account_of_run (fun led => FlowUntil (plan cfg) led e (view s₀ r p).givenTotal)
    FlowUntil.step reachable run r p (start_flow below start empty r p)
  exact account.resolve_right (not_past_of_lt during)

include empty prefilled run in
/-- One side of the loop: what a group holds and what is under way to it is its
prefill, and what the partner's workers sent less what its own took. -/
theorem loop_total (r : Rank cfg) (p : Prg cfg)
    (during : (s.control r (leader cfg)).pc < 8 * (e + 1)) :
    ∑ j, s.syncs r (groupWorker p j) + (s.underway r p).length =
      cfg.perGroup * (prefill : Int) + ∑ j, (s.sentIn (partner r) (groupWorker p j) e -
        s.takenIn r (groupWorker p j) e : Int) := by
  obtain ⟨active, account⟩ := loop_flow below reachable start empty run r p during
  have now : Reachable s := Relation.ReflTransGen.trans reachable run
  have total := account.total (now.sound r p) active
  rw [underway_length account]
  have offset : (cfg.perGroup : Int) * cfg.params.base e + (view s₀ r p).givenTotal =
      cfg.perGroup * prefill := by
    have each : ∀ j, (prefill : Int) = cfg.params.base e + (view s₀ r p).given j := fun j =>
      (prefilled r (groupWorker p j)).symm.trans
        (start_balance below reachable start r (groupWorker p j))
    have sums := Finset.sum_congr rfl fun j (_ : j ∈ Finset.univ) => each j
    simp only [Finset.sum_const, Finset.card_univ, Fintype.card_fin, nsmul_eq_mul,
      Finset.sum_add_distrib] at sums
    rw [sums]
    rfl
  rw [← offset]
  exact total

include prefilled run in
/-- A worker takes no more than its prefill and what is handed to it. -/
theorem loop_taken_le (r : Rank cfg) (t : Worker cfg)
    (during : (view s r (route t)).mode = .active e) :
    0 ≤ s.syncs r t ∧
      (s.takenIn r t e : Int) ≤ prefill + ((s.given r t : Int) - s₀.given r t) := by
  have now : Reachable s := Relation.ReflTransGen.trans reachable run
  have nonneg := (now.sound r (route t)).nonneg (seat t)
  have balance := (now.sound r (route t)).balance
  simp only [BalanceOk, during] at balance
  have own := balance (seat t)
  have before := start_balance below reachable start r t
  rw [prefilled r t] at before
  simp only [view, groupWorker_route_seat] at own nonneg
  change (s.takenIn r t e : Int) + s.syncs r t = cfg.params.base e + s.given r t at own
  exact ⟨nonneg, by omega⟩

end Loop

/-- For a loop that starts with nothing under way and every counter at `prefill`:
in every state of every run, until one of the two processes begins its next reset,
the messages under way in both directions, the tokens held on both sides and the
answers still owed add up to the prefill and the answers still expected. No counter
is negative, no worker takes more than its prefill and what was handed to it, and
towards neither progress thread more than `K * (2 * prefill + 1)` messages are
under way. -/
theorem credit_conserved (cfg : Config) (s₀ s : State cfg) (e prefill : Nat)
    (below : e < cfg.params.loops) (reachable : Reachable s₀) (start : s₀.AtLoopStart e)
    (empty : ∀ r p, s₀.underway r p = [])
    (prefilled : ∀ r (t : Worker cfg), s₀.syncs r t = prefill)
    (run : Relation.ReflTransGen Step s₀ s) (r : Rank cfg) (sends : sender r = true) (p : Prg cfg)
    (during : (s.control r (leader cfg)).pc < 8 * (e + 1))
    (duringPartner : (s.control (partner r) (leader cfg)).pc < 8 * (e + 1)) :
    ((s.underway r p).length + (s.underway (partner r) p).length : Int) +
        ∑ j, (s.syncs r (groupWorker p j) + s.syncs (partner r) (groupWorker p j)) +
        (s.answering (partner r) p).card =
      2 * prefill * cfg.perGroup + (s.expecting r p).card ∧
    (∀ j, 0 ≤ s.syncs r (groupWorker p j) ∧ 0 ≤ s.syncs (partner r) (groupWorker p j)) ∧
    (∀ j, (s.takenIn r (groupWorker p j) e : Int) ≤ prefill +
        ((s.given r (groupWorker p j) : Int) - s₀.given r (groupWorker p j)) ∧
      (s.takenIn (partner r) (groupWorker p j) e : Int) ≤ prefill +
        ((s.given (partner r) (groupWorker p j) : Int) -
          s₀.given (partner r) (groupWorker p j))) ∧
    (s.underway r p).length ≤ cfg.perGroup * (2 * prefill + 1) ∧
    (s.underway (partner r) p).length ≤ cfg.perGroup * (2 * prefill + 1) := by
  have now : Reachable s := Relation.ReflTransGen.trans reachable run
  have answers : sender (partner r) = false := by
    rw [sender_partner, sends]
    rfl
  have active := (loop_flow below reachable start empty run r p during).1
  have activePartner := (loop_flow below reachable start empty run (partner r) p duringPartner).1
  have own := loop_total below reachable start empty prefilled run r p during
  have other := loop_total below reachable start empty prefilled run (partner r) p duringPartner
  rw [partner_partner] at other
  have expected : ∑ j, (s.sentIn r (groupWorker p j) e - s.takenIn r (groupWorker p j) e : Int) =
      (s.expecting r p).card := by
    rw [State.expecting, Finset.card_filter]
    push_cast
    exact Finset.sum_congr rfl fun j _ => sent_sub_taken_sender now.inv active sends _
  have owed : ∑ j, (s.sentIn (partner r) (groupWorker p j) e -
      s.takenIn (partner r) (groupWorker p j) e : Int) = -(s.answering (partner r) p).card := by
    rw [State.answering, Finset.card_filter]
    push_cast
    rw [← Finset.sum_neg_distrib]
    exact Finset.sum_congr rfl fun j _ =>
      sent_sub_taken_receiver now.inv activePartner answers _
  have equation : ((s.underway r p).length + (s.underway (partner r) p).length : Int) +
        ∑ j, (s.syncs r (groupWorker p j) + s.syncs (partner r) (groupWorker p j)) +
        (s.answering (partner r) p).card =
      2 * prefill * cfg.perGroup + (s.expecting r p).card := by
    rw [Finset.sum_add_distrib]
    rw [Finset.sum_sub_distrib] at own other expected owed
    linarith
  have takenLe := fun j => loop_taken_le below reachable start prefilled run r (groupWorker p j)
    (by rw [route_groupWorker]; exact active)
  have takenLePartner := fun j => loop_taken_le below reachable start prefilled run (partner r)
    (groupWorker p j) (by rw [route_groupWorker]; exact activePartner)
  have held : 0 ≤ ∑ j, (s.syncs r (groupWorker p j) + s.syncs (partner r) (groupWorker p j)) :=
    Finset.sum_nonneg fun j _ => add_nonneg (takenLe j).1 (takenLePartner j).1
  have few : (s.expecting r p).card ≤ cfg.perGroup := by
    simpa using Finset.card_le_univ (s.expecting r p)
  have bound : ((s.underway r p).length + (s.underway (partner r) p).length : Int) ≤
      cfg.perGroup * (2 * prefill + 1) := by
    have few' : ((s.expecting r p).card : Int) ≤ cfg.perGroup := by exact_mod_cast few
    have owed' : (0 : Int) ≤ (s.answering (partner r) p).card := Int.natCast_nonneg _
    linarith
  refine ⟨equation, fun j => ⟨(takenLe j).1, (takenLePartner j).1⟩,
    fun j => ⟨(takenLe j).2, (takenLePartner j).2⟩, ?_, ?_⟩
  · zify
    have := Int.natCast_nonneg (s.underway (partner r) p).length
    linarith
  · zify
    have := Int.natCast_nonneg (s.underway r p).length
    linarith

/-- A measured loop with one prefilled token after its first iteration: one message
is in flight to each rank. -/
theorem credit_conserved_after_iteration :
    ∃ s₀ s : State (loneJob (oneSize 1)), Reachable s₀ ∧ s₀.AtLoopStart 1 ∧
      Relation.ReflTransGen Step s₀ s ∧ (∀ r p, (s.underway r p).length = 1) ∧
      ∀ p, ((s.underway pinger p).length + (s.underway (partner pinger) p).length : Int) +
          ∑ j, (s.syncs pinger (groupWorker p j) + s.syncs (partner pinger) (groupWorker p j)) +
          (s.answering (partner pinger) p).card =
        2 * (1 : Nat) * (loneJob (oneSize 1)).perGroup + (s.expecting pinger p).card := by
  have below : 1 < (oneSize 1).loops := by decide
  obtain ⟨s₀, reachable, atStart⟩ :=
    exists_reachable (leads_to_measured (show 0 < (oneSize 1).sizes.length by decide))
  obtain ⟨s, run, after⟩ := leads_prefilled_iteration below (show 0 < total by decide) s₀ atStart
  obtain ⟨start, empty, prefilled⟩ := atStart.loopStart
  have pc : ∀ r, (s.control r (leader (loneJob (oneSize 1)))).pc = 8 * 1 + 4 := by
    intro r
    rw [(after r).control]
    rcases pinger_or_ponger r with rfl | rfl <;> simp [quiet]
  refine ⟨s₀, s, reachable, start, run, fun r p => ?_, fun p => ?_⟩
  · have row := after r
    rcases pinger_or_ponger r with rfl | rfl
    all_goals
      simp only [quiet, stations_pinger, stations_ponger] at row
      simp [State.underway, row.net, row.cq, row.prg]
  · exact (credit_conserved (loneJob (oneSize 1)) s₀ s 1 1 below reachable start empty prefilled run
      pinger sender_pinger p (by rw [pc]; omega) (by rw [pc]; omega)).1

end FabricBench.PingpongPrg
