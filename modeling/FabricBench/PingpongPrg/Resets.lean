import FabricBench.PingpongPrg.LoneJob

/-!
What `reset_counters` finds in `pingpong_prg`.

If no loop but the last one starts with prefilled tokens, every loop is settled
when a process resets its counters for the next one, although nothing but a
barrier of the process itself stands before the reset. Without prefill the stores
change nothing at all; with a prefill and a single size the measured loop starts
from exactly the prefill.
-/

namespace FabricBench.PingpongPrg

open FabricBench.Lib FabricBench.Account

variable {cfg : Config} {s : State cfg}

/-- Only the last loop of the run starts with prefilled tokens, or the measured
loops are empty. -/
def Config.PrefillsLast (cfg : Config) : Prop :=
  cfg.params.prefilledWork = 0 ∨ cfg.params.sizes.length ≤ 1 ∨ cfg.params.loop = 0

theorem plan_settles (cfg : Config) (last : cfg.PrefillsLast) : (plan cfg).Settles := by
  intro e another
  change e + 1 < 2 * cfg.params.sizes.length at another
  simp only [plan, RunParams.base, RunParams.iters]
  split_ifs with even
  · exact Or.inl rfl
  · rcases last with none | single | noLoop
    · exact Or.inl (by simp [none])
    · omega
    · exact Or.inr noLoop

/-- With nothing pending nothing is under way. -/
theorem underway_eq_nil {r : Rank cfg} {p : Prg cfg} (drained : ∀ l, (view s r p).pending l = 0) :
    s.underway r p = [] := by
  refine List.eq_nil_iff_forall_not_mem.mpr fun msg member => ?_
  have none := drained msg.tag
  simp only [view, List.countP_eq_zero] at none
  exact none msg member (by simp)

/-- The account's cursor at zero is the cursor at the group's first worker. -/
theorem nextWorkerIdx_eq {r : Rank cfg} {p : Prg cfg} (inv : Inv s)
    (ready : (view s r p).stage = .ready) (cursor : (view s r p).cursor = 0) :
    s.nextWorkerIdxes r p = p.val := by
  have aligned := inv.aligned r p
  have group : InGroup p (s.nextWorkerIdxes r p) := by
    cases stage : (s.prg r p).stage with
    | poll => rw [stage] at aligned; exact aligned
    | read => rw [stage] at aligned; exact aligned
    | fetch workerIdx => exact absurd ready (by simp [view, viewStage, stage])
    | store workerIdx cursor => exact absurd ready (by simp [view, viewStage, stage])
    | wrap workerIdx => exact absurd ready (by simp [view, viewStage, stage])
    | bump workerIdx => exact absurd ready (by simp [view, viewStage, stage])
  have index := group.seatOf_spec.2
  change seatOf p (s.nextWorkerIdxes r p) = 0 at cursor
  rw [cursor] at index
  omega

/-! ## The start of a measured loop -/

/-- At the start of a loop an exact account holds the prefill and nothing else. -/
theorem exact_start (last : cfg.PrefillsLast) (reachable : Reachable s) {e : Nat}
    (below : e < cfg.params.loops) (start : s.AtLoopStart e) (r : Rank cfg) (p : Prg cfg) :
    (∀ l, (view s r p).pending l = 0) ∧ (view s r p).stage = .ready ∧
      (view s r p).cursor = 0 ∧ ∀ j, (view s r p).sync j = cfg.params.base e := by
  have active := start.mode_eq below r p
  have sound := reachable.sound r p
  have exactly := reachable.exactAccount r p (plan_settles cfg last)
  have account := exactly.loop e active
  have noneSent : (view s r p).sentTotal e = 0 := by
    simp [Ledger.sentTotal, view, start.sent_eq_zero]
  have flow := account.flow
  have nonneg : 0 ≤ (view s r p).givenTotal := Finset.sum_nonneg fun j _ => Int.natCast_nonneg _
  have noneGiven : (view s r p).givenTotal = 0 := by omega
  have given : ∀ j, (view s r p).given j = 0 := by
    intro j
    have zero := (Finset.sum_eq_zero_iff_of_nonneg fun j _ => Int.natCast_nonneg _).mp noneGiven
    exact_mod_cast zero j (Finset.mem_univ j)
  have drained : ∀ l, (view s r p).pending l = 0 := by
    intro l
    by_cases same : l = e
    · subst same
      omega
    · exact account.only l same
  have ready := ready_of_drained sound.stage drained
  refine ⟨drained, ready, ?_, fun j => ?_⟩
  · exact (exactly.dealt e active).cursor_eq_zero sound.stage ready given
  · have balance := sound.balance
    simp only [BalanceOk, active] at balance
    have own := balance j
    have noneTaken : (view s r p).taken j e = 0 := start.taken_eq_zero r (groupWorker p j)
    rw [given j, noneTaken, Nat.cast_zero, zero_add, add_zero] at own
    exact own

/-- A message under way to a process is one of the loop the process serves. -/
theorem mode_of_underway (last : cfg.PrefillsLast) (reachable : Reachable s) {r : Rank cfg}
    {p : Prg cfg} {msg : Msg} (member : msg ∈ s.underway r p) :
    (view s r p).mode = .active msg.tag := by
  have account := reachable.exactAccount r p (plan_settles cfg last)
  have some : (view s r p).pending msg.tag ≠ 0 :=
    (List.countP_pos_iff.mpr ⟨msg, member, by simp⟩).ne'
  cases mode : (view s r p).mode with
  | resetting loop => exact absurd ((account.reset loop mode).drained msg.tag) some
  | active loop =>
      by_contra other
      exact some ((account.loop loop mode).only msg.tag fun same => other (by rw [same]))

/-- While a process serves loop `l` it has passed the reset for it and not begun
the next one. -/
theorem pc_of_active {params : RunParams} {pc l : Nat} (loops : 0 < params.loops)
    (active : modeAt params pc = .active l) :
    8 * l + 1 ≤ pc ∧ (pc < 8 * (l + 1) ∨ l + 1 = params.loops) := by
  unfold modeAt at active
  split_ifs at active with reset
  have loop := Mode.active.inj active
  unfold AtReset at reset
  omega

/-- With no prefill, at most one size or no measured iterations: at the start of
every measured loop each counter holds the prefill, each cursor is at its group's
first worker and nothing is under way; and a message under way to a process was
sent in the loop the process is in, so that it is never counted in a later one. -/
theorem measured_loop_starts_from_prefill (cfg : Config) (last : cfg.PrefillsLast) (s : State cfg)
    (reachable : Reachable s) :
    (∀ e, e < cfg.params.loops → e % 2 = 1 → s.AtLoopStart e → ∀ r,
      (∀ t : Worker cfg, s.syncs r t = cfg.params.prefilledWork) ∧
      ∀ p : Prg cfg, s.nextWorkerIdxes r p = p.val ∧ s.underway r p = []) ∧
    ∀ e, e < cfg.params.loops → ∀ r p msg, msg ∈ s.underway r p → msg.tag = e →
      8 * e + 1 ≤ (s.control r (leader cfg)).pc ∧
        ((s.control r (leader cfg)).pc < 8 * (e + 1) ∨ e + 1 = cfg.params.loops) := by
  refine ⟨fun e below odd start r => ⟨fun t => ?_, fun p => ?_⟩, ?_⟩
  · obtain ⟨-, -, -, sync⟩ := exact_start last reachable below start r (route t)
    have own := sync (seat t)
    simp only [view, groupWorker_route_seat] at own
    rw [own, RunParams.base, if_neg (by omega)]
  · obtain ⟨drained, ready, cursor, -⟩ := exact_start last reachable below start r p
    exact ⟨nextWorkerIdx_eq reachable.inv ready cursor, underway_eq_nil drained⟩
  · rintro e below r p msg member rfl
    exact pc_of_active (by omega) (mode_of_underway last reachable member)

/-- A job with one size and one prefilled token. -/
theorem measured_loop_starts_from_prefill_oneSize :
    ∃ s : State (loneJob (oneSize 1)), Reachable s ∧ s.AtLoopStart 1 ∧
      ∀ r, (∀ t : Worker (loneJob (oneSize 1)), s.syncs r t = (1 : Nat)) ∧
        ∀ p : Prg (loneJob (oneSize 1)), s.nextWorkerIdxes r p = p.val ∧ s.underway r p = [] := by
  obtain ⟨s, reachable, here⟩ :=
    exists_reachable (leads_to_measured (show 0 < (oneSize 1).sizes.length by decide))
  exact ⟨s, reachable, here.loopStart.1,
    (measured_loop_starts_from_prefill (loneJob (oneSize 1)) (Or.inr (Or.inl (by decide))) s
      reachable).1 1 (by decide) rfl here.loopStart.1⟩

/-- With two sizes and one prefilled token it is not so: the threads may leave the
`proc_barrier` before the second measured loop while a message of the first one is
still in flight to each rank. -/
theorem late_message_survives_resets :
    ∃ s : State (loneJob (twoSizes 1)), Reachable s ∧ s.AtLoopStart 3 ∧
      ∀ r p, ∃ msg, s.underway r p = [msg] ∧ msg.tag = 1 := by
  have late : Leads (quiet (twoSizes 1) 0 0 0 []) _ := leads_late rfl (by decide) (by decide)
  obtain ⟨s, reachable, here⟩ := exists_reachable late
  exact ⟨s, reachable, here.loopStart.1,
    fun r p => ⟨loopMsg (twoSizes 1) 1, here.loopStart.2.1 r p, rfl⟩⟩

/-! ## Resets without prefill -/

/-- The account while thread 0 is in the reset for loop `e`. -/
theorem exact_reset (last : cfg.PrefillsLast) (reachable : Reachable s) {r : Rank cfg} {e : Nat}
    (below : e < cfg.params.loops) (atReset : (s.control r (leader cfg)).pc = 8 * e) (p : Prg cfg) :
    (view s r p).mode = .resetting e ∧ (view s r p).cursor = 0 ∧
      QuietReset (plan cfg) (view s r p) e := by
  have resetting : (view s r p).mode = .resetting e := by
    simp only [view, atReset]
    exact modeAt_reset below
  have exactly := reachable.exactAccount r p (plan_settles cfg last)
  exact ⟨resetting, exactly.cursor e resetting, exactly.reset e resetting⟩

/-- Without prefill every counter is zero during a reset: those not stored yet were
used up in the loop before. -/
theorem sync_eq_zero_of_reset (noPrefill : cfg.params.prefilledWork = 0) (reachable : Reachable s)
    {r : Rank cfg} {e : Nat} (below : e < cfg.params.loops)
    (atReset : (s.control r (leader cfg)).pc = 8 * e) (t : Worker cfg) : s.syncs r t = 0 := by
  have base : ∀ e, (plan cfg).base e = 0 := by
    intro e
    simp [plan, RunParams.base, noPrefill]
  obtain ⟨resetting, -, account⟩ := exact_reset (Or.inl noPrefill) reachable below atReset (route t)
  have zero := account.sync_eq_zero (reachable.sound r (route t)) resetting base (seat t)
  simpa only [view, groupWorker_route_seat] using zero

/-- No worker is in a loop while thread 0 of its process resets. -/
theorem no_loop_in_reset (inv : Inv s) {r : Rank cfg} {e : Nat}
    (atReset : (s.control r (leader cfg)).pc = 8 * e) (t : Worker cfg) (iters msgSize : Nat) :
    s.instr r t ≠ some (.loop iters msgSize) := by
  intro atLoop
  obtain ⟨e', below, inLoop, -⟩ := loop_of_instr atLoop
  obtain ⟨low, high⟩ := leader_of_loop inv.team.synced below inLoop
  change 8 * e' + 1 ≤ (s.control r (leader cfg)).pc at low
  change (s.control r (leader cfg)).pc ≤ 8 * e' + 6 at high
  omega

/-- Without prefill, whenever thread 0 of a process is in `reset_counters`: nothing
is under way to the process; in the loop before, the partner has sent everything,
its workers have taken everything, and each of them was given exactly one token
per iteration (as the stores that are still to come find it); all counters are zero
and all cursors at the first worker of their group; no worker of the process is in
a loop; and a store of the reset changes no counter and no cursor. -/
theorem reset_loses_nothing (cfg : Config) (noPrefill : cfg.params.prefilledWork = 0)
    (s : State cfg) (reachable : Reachable s) (r : Rank cfg) (syncCount : Int)
    (atReset : s.instr r (leader cfg) = some (.resetCounters syncCount)) :
    (∀ p, s.underway r p = []) ∧
    (∀ e, (s.control r (leader cfg)).pc = 8 * (e + 1) → ∀ t : Worker cfg,
      s.sentIn (partner r) t e = cfg.params.iters e ∧ s.takenIn r t e = cfg.params.iters e ∧
        ((s.loc r (leader cfg)).iter ≤ t.val → s.given r t = cfg.params.iters e)) ∧
    (∀ t : Worker cfg, s.syncs r t = 0) ∧
    (∀ p : Prg cfg, s.nextWorkerIdxes r p = p.val) ∧
    (∀ (t : Worker cfg) iters msgSize, s.instr r t ≠ some (.loop iters msgSize)) ∧
    ∀ s', step s (.store r) = some s' →
      s'.syncs = s.syncs ∧ s'.nextWorkerIdxes = s.nextWorkerIdxes := by
  obtain ⟨e, below, here, value⟩ := reset_of_instr atReset
  have account := fun p => (exact_reset (Or.inl noPrefill) reachable below here p).2.2
  have zero := sync_eq_zero_of_reset noPrefill reachable below here
  have cursor : ∀ p : Prg cfg, s.nextWorkerIdxes r p = p.val := fun p =>
    nextWorkerIdx_eq reachable.inv ((account p).ready (reachable.sound r p))
      (exact_reset (Or.inl noPrefill) reachable below here p).2.1
  have stored : syncCount = 0 := by simp [value, RunParams.base, noPrefill]
  refine ⟨fun p => underway_eq_nil (account p).drained, ?_, zero, cursor,
    no_loop_in_reset reachable.inv here, ?_⟩
  · intro e' before t
    obtain rfl : e = e' + 1 := by omega
    refine ⟨?_, ?_, fun later => ?_⟩
    · have sent := (account (route t)).past e' (by omega) (seat t)
      simp only [view, groupWorker_route_seat] at sent
      exact sent
    · exact (through_of_leader reachable.inv (by omega) (by omega) (by omega) t).1
    · have unstored : (view s r (route t)).fresh (seat t) = false := by
        simp only [view, groupWorker_route_seat, Bool.and_eq_false_iff, decide_eq_false_iff_not]
        exact Or.inr (by omega)
      have given := ((account (route t)).kept (seat t) unstored (by omega)).2
      simp only [view, groupWorker_route_seat] at given
      exact given
  · intro s' taken
    simp only [step, atReset, State.storeNext, stored] at taken
    split_ifs at taken with counters cursors
    · obtain rfl := Option.some.inj taken
      refine ⟨?_, rfl⟩
      have same := put_self s.syncs r (s.loc r (leader cfg)).iter
      rw [zero ⟨_, counters⟩] at same
      exact same
    · obtain rfl := Option.some.inj taken
      refine ⟨rfl, ?_⟩
      have same := put_self s.nextWorkerIdxes r ((s.loc r (leader cfg)).iter - cfg.txThreadNum)
      rw [cursor ⟨_, by omega⟩] at same
      exact same

/-- The reset before the first measured loop of a job without prefill. -/
theorem reset_loses_nothing_after_warmup :
    ∃ s : State (loneJob (twoSizes 0)), Reachable s ∧
      s.instr pinger (leader _) = some (.resetCounters 0) ∧
      (∀ p, s.underway pinger p = []) ∧
      ∀ t : Worker (loneJob (twoSizes 0)), s.given pinger t = skip := by
  obtain ⟨s, reachable, here⟩ :=
    exists_reachable (leads_warmup (show 0 < (twoSizes 0).sizes.length by decide))
  have row := here pinger
  simp only [quiet, stations_pinger] at row
  have atReset : s.instr pinger (leader _) = some (.resetCounters 0) := by
    rw [State.instr, row.control]
    exact reset_instr _ (show 1 < (twoSizes 0).loops by decide)
  have found := reset_loses_nothing (loneJob (twoSizes 0)) rfl s reachable pinger 0 atReset
  refine ⟨s, reachable, atReset, found.1, fun t => ?_⟩
  refine (found.2.1 0 (by rw [row.control]) t).2.2 ?_
  rw [row.loc]
  exact Nat.zero_le _

end FabricBench.PingpongPrg
