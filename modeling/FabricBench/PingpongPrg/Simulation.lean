import FabricBench.PingpongPrg.View

/-!
The moves of `pingpong_prg` as steps of the groups' accounts. One lemma per kind of
move says what it is for an account; `view_simulates` puts them together.
-/

namespace FabricBench.PingpongPrg

open FabricBench.Lib FabricBench.Account

variable {cfg : Config} {s s' : State cfg} {r r' : Rank cfg} {t t' : Worker cfg}

theorem partner_partner (r : Rank cfg) : partner (partner r) = r := partnerRank_partnerRank r

theorem sender_partner (r : Rank cfg) : sender (partner r) = !sender r := sendsFirst_partnerRank r

theorem firstStage_ne_consume (sends : Bool) : firstStage sends ≠ .consume := by
  cases sends <;> simp [firstStage]

/-! ## Counts under the moves of a thread -/

theorem sentIn_goTo {point : Spmd.Point} (inv : Inv s) (next : s.team.Next (job cfg) r t point)
    (team : s'.team = s.team.goTo (job cfg) r t point) (r' : Rank cfg) (t' : Worker cfg) (e : Nat) :
    s'.sentIn r' t' e = s.sentIn r' t' e := by
  unfold State.sentIn
  rw [team]
  exact Team.done_goTo inv.team next (fun r => sentExtra (sender r))
    (fun r => sentExtra_first (sender r)) r' t' e

theorem takenIn_goTo {point : Spmd.Point} (inv : Inv s) (next : s.team.Next (job cfg) r t point)
    (team : s'.team = s.team.goTo (job cfg) r t point) (r' : Rank cfg) (t' : Worker cfg) (e : Nat) :
    s'.takenIn r' t' e = s.takenIn r' t' e := by
  unfold State.takenIn
  rw [team]
  exact Team.done_goTo inv.team next (fun r => takenExtra (sender r))
    (fun r => takenExtra_first (sender r)) r' t' e

section Work

variable {l : Local BodyStage}

theorem sentIn_work_of_ne {e : Nat} (team : s'.team = s.team.work r t l)
    (different : ¬ (r' = r ∧ t' = t ∧ (s.control r t).pc = 8 * e + 4)) :
    s'.sentIn r' t' e = s.sentIn r' t' e := by
  unfold State.sentIn
  rw [team]
  exact Team.done_work_of_ne different

theorem takenIn_work_of_ne {e : Nat} (team : s'.team = s.team.work r t l)
    (different : ¬ (r' = r ∧ t' = t ∧ (s.control r t).pc = 8 * e + 4)) :
    s'.takenIn r' t' e = s.takenIn r' t' e := by
  unfold State.takenIn
  rw [team]
  exact Team.done_work_of_ne different

theorem sentIn_at {e : Nat} (here : (s.control r t).pc = 8 * e + 4) :
    s.sentIn r t e = (s.loc r t).sent (sender r) := Team.done_at here

theorem takenIn_at {e : Nat} (here : (s.control r t).pc = 8 * e + 4) :
    s.takenIn r t e = (s.loc r t).taken (sender r) := Team.done_at here

theorem sentIn_work_same {e : Nat} (team : s'.team = s.team.work r t l)
    (here : (s.control r t).pc = 8 * e + 4) : s'.sentIn r t e = l.sent (sender r) := by
  unfold State.sentIn
  rw [team]
  exact Team.done_work_same here

theorem takenIn_work_same {e : Nat} (team : s'.team = s.team.work r t l)
    (here : (s.control r t).pc = 8 * e + 4) : s'.takenIn r t e = l.taken (sender r) := by
  unfold State.takenIn
  rw [team]
  exact Team.done_work_same here

theorem sentIn_work_eq (team : s'.team = s.team.work r t l)
    (same : l.sent (sender r) = (s.loc r t).sent (sender r)) (r' : Rank cfg) (t' : Worker cfg)
    (e : Nat) : s'.sentIn r' t' e = s.sentIn r' t' e := by
  unfold State.sentIn
  rw [team]
  exact Team.done_work_eq (fun r => Local.sent (sender r)) same r' t' e

theorem takenIn_work_eq (team : s'.team = s.team.work r t l)
    (same : l.taken (sender r) = (s.loc r t).taken (sender r)) (r' : Rank cfg) (t' : Worker cfg)
    (e : Nat) : s'.takenIn r' t' e = s.takenIn r' t' e := by
  unfold State.takenIn
  rw [team]
  exact Team.done_work_eq (fun r => Local.taken (sender r)) same r' t' e

/-- A thread that is not thread 0 in a reset does not touch the marks of the reset. -/
theorem fresh_work (team : s'.team = s.team.work r t l)
    (outside : t = leader cfg → ¬ AtReset cfg.params (s.control r t).pc) (r' : Rank cfg)
    (p : Prg cfg) : (view s' r' p).fresh = (view s r' p).fresh := by
  have control : s'.control = s.control := congrArg Team.control team
  have loc : s'.loc = put s.loc r t l := congrArg Team.loc team
  funext j
  simp only [view, control, loc]
  by_cases same : r' = r ∧ leader cfg = t
  · obtain ⟨rfl, rfl⟩ := same
    simp [outside rfl]
  · rw [put_of_ne _ _ same]

end Work

/-! ## Going on -/

/-- Thread `(r, t)` goes to `point`. -/
def State.goTo (s : State cfg) (r : Rank cfg) (t : Worker cfg) (point : Spmd.Point) : State cfg :=
  { s with
    control := s.control.set r t point
    loc := put s.loc r t (Local.start (firstStage (sender r))) }

theorem armed_goTo {point : Spmd.Point} (inv : Inv s) (next : s.team.Next (job cfg) r t point)
    (r' : Rank cfg) (t' : Worker cfg) :
    ((s.goTo r t point).loc r' t').stage = .consume ↔ (s.loc r' t').stage = .consume := by
  by_cases same : r' = r ∧ t' = t
  · obtain ⟨rfl, rfl⟩ := same
    have before : (s.loc r' t').stage = firstStage (sender r') := next.stage_eq inv.team
    simp [State.goTo, Local.start, before]
  · simp only [State.goTo, put_of_ne _ _ same]

/-- Going on changes nothing of an account but which loop it serves. -/
theorem view_goTo {point : Spmd.Point} (inv : Inv s) (next : s.team.Next (job cfg) r t point)
    (r' : Rank cfg) (p : Prg cfg) :
    view (s.goTo r t point) r' p = { view s r' p with
      mode := (view (s.goTo r t point) r' p).mode
      fresh := (view (s.goTo r t point) r' p).fresh } := by
  refine Ledger.ext rfl ?_ rfl rfl rfl rfl ?_ ?_ rfl rfl
  · funext j
    simp only [view, armed_goTo inv next]
  · funext j e
    exact sentIn_goTo inv next rfl _ _ e
  · funext j e
    exact takenIn_goTo inv next rfl _ _ e

/-- While its thread 0 is behind loop `e` and not past the next reset, the workers
of a process are through with the loop and in no other. -/
theorem through_of_leader (inv : Inv s) {e : Nat} (below : e < cfg.params.loops)
    (low : 8 * e + 7 ≤ (s.control r (leader cfg)).pc)
    (high : (s.control r (leader cfg)).pc ≤ 8 * e + 8) (t : Worker cfg) :
    s.takenIn r t e = cfg.params.iters e ∧ (s.loc r t).stage = firstStage (sender r) := by
  have left : 8 * e + 5 ≤ (s.control r t).pc := left_of_past inv.team.synced below low t
  refine ⟨loopDone_after _ _ (by change 8 * e + 4 < (s.control r t).pc; omega), ?_⟩
  refine (inv.team.loc r t).stage_eq fun iters msgSize atLoop => ?_
  -- a worker in a later loop would have the leader past the reset before it
  obtain ⟨e', below', here, -⟩ := loop_position atLoop
  change (s.control r t).pc = 8 * e' + 4 at here
  have reached := reached_of_loop inv.team.synced below' (i := r) (t := t)
    (by change 8 * e' + 4 ≤ (s.control r t).pc; omega) r (leader cfg)
  change (s.control r (leader cfg)).Reached (8 * e' + 1) at reached
  rcases reached with after | ⟨same, -⟩ <;> omega

theorem simulate_goTo {point : Spmd.Point} (inv : Inv s) (next : s.team.Next (job cfg) r t point)
    (r' : Rank cfg) (p : Prg cfg) :
    view (s.goTo r t point) r' p = view s r' p ∨
      Account.Step (plan cfg) (view s r' p) (view (s.goTo r t point) r' p) := by
  rw [view_goTo inv next]
  by_cases own : r' = r ∧ leader cfg = t
  swap
  · left
    refine Ledger.ext rfl rfl rfl rfl rfl rfl rfl rfl ?_ ?_
    · simp only [view, State.goTo, Spmd.Control.set_apply, if_neg own]
    · simp only [view, State.goTo, Spmd.Control.set_apply, if_neg own, put_of_ne _ _ own]
  obtain ⟨rfl, rfl⟩ := own
  rcases next.cases inv.team with ⟨stays, start⟩ | ⟨goes, instr, here, done⟩
  · left
    change point.pc = (s.control r' (leader cfg)).pc at stays
    change s.loc r' (leader cfg) = Local.start (firstStage (sender r')) at start
    refine Ledger.ext rfl rfl rfl rfl rfl rfl rfl rfl ?_ ?_
    · simp only [view, State.goTo, Spmd.Control.set_same, stays]
    · simp only [view, State.goTo, Spmd.Control.set_same, stays, put_same, start]
  · change point.pc = (s.control r' (leader cfg)).pc + 1 at goes
    have fresh : (view (s.goTo r' (leader cfg) point) r' p).fresh = fun _ => false := by
      simp [view, State.goTo, Local.start]
    have mode : (view (s.goTo r' (leader cfg) point) r' p).mode =
        modeAt cfg.params ((s.control r' (leader cfg)).pc + 1) := by
      simp only [view, State.goTo, Spmd.Control.set_same, goes]
    rw [fresh, mode]
    rcases modeAt_succ cfg.params (s.control r' (leader cfg)).pc with
      ⟨e, below, atReset⟩ | ⟨e, below, atEnd⟩ | ⟨same, outside, -⟩
    · right
      rw [atReset, modeAt_active below (by omega) (by omega)]
      refine .endReset e ?_ fun j => ?_
      · simp only [view, atReset, modeAt_reset below]
      · -- the stores of the reset are all made when it is done
        have found : s.team.instr (job cfg) r' (leader cfg) =
            some (.resetCounters (cfg.params.base e)) := by
          change (runVaryMsg _ _)[(s.control r' (leader cfg)).pc]? = _
          rw [atReset]
          exact reset_instr _ below
        obtain rfl : instr = _ := Option.some.inj (here.symm.trans found)
        have stored : (job cfg).stores (leader cfg) ≤ (s.team.loc r' (leader cfg)).iter := by
          simpa [workDone, Instr.op] using done
        have all : cfg.txThreadNum + cfg.rxThreadNum ≤ (s.loc r' (leader cfg)).iter :=
          leader_stores ▸ stored
        have worker := (groupWorker p j).isLt
        have reset : AtReset cfg.params (8 * e) := ⟨by omega, by omega⟩
        simp only [view, atReset, reset, decide_true, Bool.true_and, decide_eq_true_eq]
        omega
    · right
      rw [atEnd, show 8 * e + 7 + 1 = 8 * (e + 1) by omega, modeAt_reset below]
      have through := through_of_leader inv (r := r') (e := e) (by omega) (by omega) (by omega)
      refine .beginReset e ?_ below (fun j => (through _).1) fun j => ?_
      · simp only [view, atEnd]
        exact modeAt_active (by omega) (by omega) (by omega)
      · simp only [view, (through _).2, firstStage_ne_consume, decide_false]
    · left
      refine Ledger.ext rfl rfl rfl rfl rfl rfl rfl rfl same ?_
      simp [view, outside]

/-! ## The body of a loop -/

section Body

variable {iters msgSize : Nat}

theorem loop_of_instr (here : s.instr r t = some (.loop iters msgSize)) :
    ∃ e, e < cfg.params.loops ∧ (s.control r t).pc = 8 * e + 4 ∧ iters = cfg.params.iters e :=
  loop_position here

/-- The account of a worker in loop `e` serves that loop. -/
theorem view_mode_of_loop (inv : Inv s) {e : Nat} (below : e < cfg.params.loops)
    (inLoop : (s.control r t).pc = 8 * e + 4) (p : Prg cfg) :
    (view s r p).mode = .active e := by
  obtain ⟨low, high⟩ := leader_of_loop inv.team.synced below inLoop
  change 8 * e + 1 ≤ (s.control r (leader cfg)).pc at low
  change (s.control r (leader cfg)).pc ≤ 8 * e + 6 at high
  exact modeAt_active below low (by omega)

theorem simulate_send (inv : Inv s) (here : s.instr r t = some (.loop iters msgSize))
    (more : (s.loc r t).iter < iters) (stage : (s.loc r t).stage = .send)
    (eq : s' = { s with
      net := put s.net (partner r) (route t) (s.net (partner r) (route t) ++
        [⟨t, msgSize, (s.control r t).pc⟩])
      loc := put s.loc r t (afterSend (sender r) (s.loc r t)) })
    (r' : Rank cfg) (p : Prg cfg) :
    view s' r' p = view s r' p ∨ Account.Step (plan cfg) (view s r' p) (view s' r' p) := by
  obtain ⟨e, below, inLoop, rfl⟩ := loop_of_instr here
  have team : s'.team = s.team.work r t (afterSend (sender r) (s.loc r t)) := by rw [eq]; rfl
  have armed : (view s' r' p).armed = (view s r' p).armed := by
    funext j
    rw [eq]
    simp only [view]
    by_cases same : r' = r ∧ groupWorker p j = t
    · obtain ⟨rfl, rfl⟩ := same
      cases sends : sender r' <;> simp [afterSend, stage]
    · simp only [put_of_ne _ _ same]
  have taken : (view s' r' p).taken = (view s r' p).taken := by
    funext j l
    exact takenIn_work_eq team (afterSend_taken stage) _ _ l
  have fresh := fresh_work team (fun _ => by rw [inLoop]; exact not_atReset_loop _ _) r' p
  by_cases own : r' = partner r ∧ p = route t
  · obtain ⟨rfl, rfl⟩ := own
    right
    have opened : (view s (partner r) (route t)).mode.Opened e := by
      have reached := reached_of_loop inv.team.synced below (i := r) (t := t)
        (by change 8 * e + 4 ≤ (s.control r t).pc; omega) (partner r) (leader cfg)
      change (s.control (partner r) (leader cfg)).Reached (8 * e + 1) at reached
      refine modeAt_opened below ?_
      rcases reached with after | ⟨same, -⟩ <;> omega
    have sentBefore : s.sentIn r t e < cfg.params.iters e := by
      rw [sentIn_at inLoop]
      exact sent_lt more stage
    have step : Account.Step (plan cfg) (view s (partner r) (route t)) _ :=
      .post (seat t) e opened (by
        simp only [view, partner_partner, groupWorker_route_seat]
        exact sentBefore)
    convert step using 1
    refine Ledger.ext (by rw [eq]; rfl) armed (by rw [eq]; rfl) (by rw [eq]; rfl) (by rw [eq]; rfl)
      ?_ ?_ taken (by rw [eq]; rfl) fresh
    · funext l
      have tag : (8 * e + 4) / 8 = e := by omega
      simp only [view, eq, State.underway, put_same, List.countP_append, List.countP_cons,
        List.countP_nil, Msg.tag, inLoop, tag, decide_eq_true_eq]
      by_cases same : l = e
      · subst same
        simp
        omega
      · simp [same, Ne.symm same]
    · funext j l
      simp only [view, partner_partner, tick]
      split_ifs with same
      · obtain ⟨rfl, rfl⟩ := same
        rw [groupWorker_route_seat, sentIn_work_same team inLoop, sentIn_at inLoop,
          afterSend_sent stage]
      · refine sentIn_work_of_ne team fun both => same ⟨?_, by have := both.2.2; omega⟩
        exact ((groupWorker_eq_iff _ _ _).mp both.2.1).2
  · left
    refine Ledger.ext (by rw [eq]; rfl) armed (by rw [eq]; rfl) (by rw [eq]; rfl) (by rw [eq]; rfl)
      ?_ ?_ taken (by rw [eq]; rfl) fresh
    · funext l
      simp only [view, eq, State.underway, put_of_ne _ _ own]
    · funext j l
      refine sentIn_work_of_ne team fun both => own ⟨?_, ?_⟩
      · rw [← both.1, partner_partner]
      · exact ((groupWorker_eq_iff _ _ _).mp both.2.1).1

theorem simulate_observe (inv : Inv s) (here : s.instr r t = some (.loop iters msgSize))
    (more : (s.loc r t).iter < iters) (stage : (s.loc r t).stage = .wait)
    (token : s.syncs r t ≠ 0)
    (eq : s' = { s with loc := put s.loc r t ⟨(s.loc r t).iter, .consume⟩ })
    (r' : Rank cfg) (p : Prg cfg) :
    view s' r' p = view s r' p ∨ Account.Step (plan cfg) (view s r' p) (view s' r' p) := by
  obtain ⟨e, below, inLoop, rfl⟩ := loop_of_instr here
  have team : s'.team = s.team.work r t ⟨(s.loc r t).iter, .consume⟩ := by rw [eq]; rfl
  have sent : (view s' r' p).sent = (view s r' p).sent := by
    funext j l
    exact sentIn_work_eq team (observe_sent stage) _ _ l
  have taken : (view s' r' p).taken = (view s r' p).taken := by
    funext j l
    exact takenIn_work_eq team (observe_taken stage) _ _ l
  have fresh := fresh_work team (fun _ => by rw [inLoop]; exact not_atReset_loop _ _) r' p
  by_cases own : r' = r ∧ p = route t
  · obtain ⟨rfl, rfl⟩ := own
    right
    have step : Account.Step (plan cfg) (view s r' (route t)) _ :=
      .arm (seat t) e (view_mode_of_loop inv below inLoop _) (by
        simp only [view, groupWorker_route_seat, takenIn_at inLoop]
        exact taken_lt more (by simp [stage])) (by
        simp only [view, groupWorker_route_seat]
        exact token)
    convert step using 1
    refine Ledger.ext (by rw [eq]; rfl) ?_ (by rw [eq]; rfl) (by rw [eq]; rfl) (by rw [eq]; rfl)
      (by rw [eq]; rfl) sent taken (by rw [eq]; rfl) fresh
    funext j
    simp only [view, eq]
    by_cases same : j = seat t
    · subst same
      simp [groupWorker_route_seat]
    · rw [if_neg same, put_of_ne _ _ fun both => same ((groupWorker_eq_iff _ _ _).mp both.2).2]
  · left
    refine Ledger.ext (by rw [eq]; rfl) ?_ (by rw [eq]; rfl) (by rw [eq]; rfl) (by rw [eq]; rfl)
      (by rw [eq]; rfl) sent taken (by rw [eq]; rfl) fresh
    funext j
    simp only [view, eq]
    rw [put_of_ne _ _ fun both => own ⟨both.1, ((groupWorker_eq_iff _ _ _).mp both.2).1⟩]

theorem simulate_consume (inv : Inv s) (here : s.instr r t = some (.loop iters msgSize))
    (more : (s.loc r t).iter < iters) (stage : (s.loc r t).stage = .consume)
    (eq : s' = { s with
      syncs := put s.syncs r t (s.syncs r t - 1)
      loc := put s.loc r t (afterConsume (sender r) (s.loc r t)) })
    (r' : Rank cfg) (p : Prg cfg) :
    view s' r' p = view s r' p ∨ Account.Step (plan cfg) (view s r' p) (view s' r' p) := by
  obtain ⟨e, below, inLoop, rfl⟩ := loop_of_instr here
  have team : s'.team = s.team.work r t (afterConsume (sender r) (s.loc r t)) := by rw [eq]; rfl
  have sent : (view s' r' p).sent = (view s r' p).sent := by
    funext j l
    exact sentIn_work_eq team (afterConsume_sent stage) _ _ l
  have fresh := fresh_work team (fun _ => by rw [inLoop]; exact not_atReset_loop _ _) r' p
  by_cases own : r' = r ∧ p = route t
  · obtain ⟨rfl, rfl⟩ := own
    right
    have step : Account.Step (plan cfg) (view s r' (route t)) _ :=
      .take (seat t) e (view_mode_of_loop inv below inLoop _) (by
        simp only [view, groupWorker_route_seat, takenIn_at inLoop]
        exact taken_lt more (by simp [stage])) (by
        simp only [view, groupWorker_route_seat, stage, decide_true])
    convert step using 1
    refine Ledger.ext ?_ ?_ (by rw [eq]; rfl) (by rw [eq]; rfl) (by rw [eq]; rfl)
      (by rw [eq]; rfl) sent ?_ (by rw [eq]; rfl) fresh
    · funext j
      simp only [view, eq]
      by_cases same : j = seat t
      · subst same
        simp [groupWorker_route_seat]
      · rw [if_neg same, put_of_ne _ _ fun both =>
          same ((groupWorker_eq_iff _ _ _).mp (Fin.ext both.2)).2]
    · funext j
      simp only [view, eq]
      by_cases same : j = seat t
      · subst same
        cases sends : sender r' <;> simp [groupWorker_route_seat, afterConsume]
      · rw [if_neg same, put_of_ne _ _ fun both => same ((groupWorker_eq_iff _ _ _).mp both.2).2]
    · funext j l
      simp only [view, tick]
      split_ifs with same
      · obtain ⟨rfl, rfl⟩ := same
        rw [groupWorker_route_seat, takenIn_work_same team inLoop, takenIn_at inLoop,
          afterConsume_taken stage]
      · refine takenIn_work_of_ne team fun both => same ⟨?_, by have := both.2.2; omega⟩
        exact ((groupWorker_eq_iff _ _ _).mp both.2.1).2
  · left
    have other : ∀ j, ¬ (r' = r ∧ groupWorker p j = t) := fun j both =>
      own ⟨both.1, ((groupWorker_eq_iff _ _ _).mp both.2).1⟩
    refine Ledger.ext ?_ ?_ (by rw [eq]; rfl) (by rw [eq]; rfl) (by rw [eq]; rfl)
      (by rw [eq]; rfl) sent ?_ (by rw [eq]; rfl) fresh
    · funext j
      simp only [view, eq]
      rw [put_of_ne _ _ fun both => other j ⟨both.1, Fin.ext both.2⟩]
    · funext j
      simp only [view, eq]
      rw [put_of_ne _ _ (other j)]
    · funext j l
      exact takenIn_work_of_ne team fun both => other j ⟨both.1, both.2.1⟩

end Body

/-! ## The stores of a reset -/

section Stores

variable {syncCount : Int} {i : Nat}

theorem reset_of_instr (here : s.instr r (leader cfg) = some (.resetCounters syncCount)) :
    ∃ e, e < cfg.params.loops ∧ (s.control r (leader cfg)).pc = 8 * e ∧
      syncCount = cfg.params.base e :=
  reset_position here

/-- A store by thread 0 counts in no loop and arms nobody. -/
theorem view_store {e : Nat} (atReset : (s.control r (leader cfg)).pc = 8 * e)
    (team : s'.team = s.team.work r (leader cfg) ⟨i, (s.loc r (leader cfg)).stage⟩)
    (r' : Rank cfg) (p : Prg cfg) :
    (view s' r' p).armed = (view s r' p).armed ∧ (view s' r' p).sent = (view s r' p).sent ∧
      (view s' r' p).taken = (view s r' p).taken := by
  refine ⟨?_, ?_, ?_⟩
  · have loc : s'.loc = put s.loc r (leader cfg) ⟨i, (s.loc r (leader cfg)).stage⟩ :=
      congrArg Team.loc team
    funext j
    simp only [view, loc]
    by_cases same : r' = r ∧ groupWorker p j = leader cfg
    · rw [same.1, same.2, put_same]
    · rw [put_of_ne _ _ same]
  · funext j l
    exact sentIn_work_of_ne team fun both => by have := both.2.2; omega
  · funext j l
    exact takenIn_work_of_ne team fun both => by have := both.2.2; omega

theorem simulate_storeSync (here : s.instr r (leader cfg) = some (.resetCounters syncCount))
    (iter : (s.loc r (leader cfg)).iter = i) (below : i < cfg.txThreadNum)
    (eq : s' = { s with
      syncs := put s.syncs r i syncCount
      given := put s.given r i 0
      loc := put s.loc r (leader cfg) ⟨i + 1, (s.loc r (leader cfg)).stage⟩ })
    (r' : Rank cfg) (p : Prg cfg) :
    view s' r' p = view s r' p ∨ Account.Step (plan cfg) (view s r' p) (view s' r' p) := by
  obtain ⟨e, loopBelow, atReset, rfl⟩ := reset_of_instr here
  have team : s'.team = s.team.work r (leader cfg) ⟨i + 1, (s.loc r (leader cfg)).stage⟩ := by
    rw [eq]; rfl
  obtain ⟨armed, sent, taken⟩ := view_store atReset team r' p
  by_cases own : r' = r ∧ p = route ⟨i, below⟩
  · obtain ⟨rfl, rfl⟩ := own
    right
    have resetting : (view s r' (route ⟨i, below⟩)).mode = .resetting e := by
      simp only [view, atReset]
      exact modeAt_reset loopBelow
    have step : Account.Step (plan cfg) (view s r' (route ⟨i, below⟩)) _ :=
      .storeSync (seat ⟨i, below⟩) e resetting
    convert step using 1
    have worker : ∀ j, (groupWorker (route ⟨i, below⟩) j).val = i ↔ j = seat ⟨i, below⟩ := by
      intro j
      have iff := groupWorker_eq_iff (route ⟨i, below⟩) j ⟨i, below⟩
      simpa [Fin.ext_iff] using iff
    refine Ledger.ext ?_ armed ?_ (by rw [eq]; rfl) (by rw [eq]; rfl)
      (by rw [eq]; rfl) sent taken (by rw [eq]; rfl) ?_
    · funext j
      simp only [view, eq, put, worker, true_and]
      rfl
    · funext j
      simp only [view, eq, put, worker, true_and]
    · funext j
      have reset : AtReset cfg.params (8 * e) := ⟨by omega, by omega⟩
      simp only [view, eq, put_same, atReset, reset, decide_true, Bool.true_and, iter]
      by_cases same : j = seat ⟨i, below⟩
      · have := (worker j).mpr same
        rw [if_pos same]
        simp only [decide_eq_true_eq]
        omega
      · have := mt (worker j).mp same
        rw [if_neg same, decide_eq_decide]
        omega
  · left
    have other : ∀ j, ¬ (r' = r ∧ (groupWorker p j).val = i) := fun j both =>
      own ⟨both.1, ((groupWorker_eq_iff _ _ _).mp (Fin.ext both.2)).1⟩
    refine Ledger.ext ?_ armed ?_ (by rw [eq]; rfl) (by rw [eq]; rfl)
      (by rw [eq]; rfl) sent taken (by rw [eq]; rfl) ?_
    · funext j
      simp only [view, eq, put_of_ne _ _ (other j)]
    · funext j
      simp only [view, eq, put_of_ne _ _ (other j)]
    · funext j
      simp only [view, eq]
      by_cases same : r' = r
      · subst same
        have different : (groupWorker p j).val ≠ i := fun index => other j ⟨rfl, index⟩
        simp only [put_same, iter]
        congr 1
        rw [decide_eq_decide]
        omega
      · rw [put_row_ne _ _ _ _ same]

theorem simulate_storeCursor (here : s.instr r (leader cfg) = some (.resetCounters syncCount))
    (iter : (s.loc r (leader cfg)).iter = cfg.txThreadNum + i) (below : i < cfg.rxThreadNum)
    (eq : s' = { s with
      nextWorkerIdxes := put s.nextWorkerIdxes r i i
      loc := put s.loc r (leader cfg) ⟨cfg.txThreadNum + i + 1, (s.loc r (leader cfg)).stage⟩ })
    (r' : Rank cfg) (p : Prg cfg) :
    view s' r' p = view s r' p ∨ Account.Step (plan cfg) (view s r' p) (view s' r' p) := by
  obtain ⟨e, loopBelow, atReset, rfl⟩ := reset_of_instr here
  have team : s'.team = s.team.work r (leader cfg)
      ⟨cfg.txThreadNum + i + 1, (s.loc r (leader cfg)).stage⟩ := by
    rw [eq]; rfl
  obtain ⟨armed, sent, taken⟩ := view_store atReset team r' p
  have fresh : (view s' r' p).fresh = (view s r' p).fresh := by
    funext j
    have worker := (groupWorker p j).isLt
    simp only [view, eq]
    by_cases same : r' = r
    · subst same
      simp only [put_same, iter]
      congr 1
      rw [decide_eq_decide]
      omega
    · rw [put_row_ne _ _ _ _ same]
  by_cases own : r' = r ∧ p.val = i
  · obtain ⟨rfl, rfl⟩ := own
    right
    have resetting : (view s r' p).mode = .resetting e := by
      simp only [view, atReset]
      exact modeAt_reset loopBelow
    have step : Account.Step (plan cfg) (view s r' p) _ := .storeCursor e resetting
    convert step using 1
    refine Ledger.ext (by rw [eq]; rfl) armed (by rw [eq]; rfl) ?_ (by rw [eq]; rfl)
      (by rw [eq]; rfl) sent taken (by rw [eq]; rfl) fresh
    simp only [view, eq, put_same]
    simp [seatOf]
  · left
    refine Ledger.ext (by rw [eq]; rfl) armed (by rw [eq]; rfl) ?_ (by rw [eq]; rfl)
      (by rw [eq]; rfl) sent taken (by rw [eq]; rfl) fresh
    simp only [view, eq, put_of_ne _ _ own]

end Stores

/-! ## The transport and the progress threads -/

section Dispatch

theorem view_deliver {k : Nat} {msg : Msg} {buf : Nat} {rest : List Nat} {p : Prg cfg}
    (found : (s.net r p)[k]? = some msg)
    (eq : s' = { s with
      net := put s.net r p ((s.net r p).eraseIdx k)
      rq := put s.rq r p rest
      cq := put s.cq r p (s.cq r p ++ [⟨msg, buf⟩]) })
    (r' : Rank cfg) (p' : Prg cfg) : view s' r' p' = view s r' p' := by
  refine Ledger.ext (by rw [eq]; rfl) (by rw [eq]; rfl) (by rw [eq]; rfl) (by rw [eq]; rfl)
    (by rw [eq]; rfl) ?_ (by rw [eq]; rfl) (by rw [eq]; rfl) (by rw [eq]; rfl) (by rw [eq]; rfl)
  funext l
  by_cases own : r' = r ∧ p' = p
  · obtain ⟨rfl, rfl⟩ := own
    obtain ⟨bound, rfl⟩ := List.getElem?_eq_some_iff.mp found
    -- the message only changes its place
    have whole := (List.getElem_cons_eraseIdx_perm bound).countP_eq (fun m => decide (m.tag = l))
    simp only [view, eq, State.underway, put_same, List.map_append, List.map_cons, List.map_nil,
      List.countP_append, List.countP_cons, List.countP_nil] at whole ⊢
    omega
  · simp only [view, eq, State.underway, put_of_ne _ _ own]

theorem view_poll {p : Prg cfg} {count : Nat} (inv : Inv s) (stage : (s.prg r p).stage = .poll)
    (eq : s' = { s with
      cq := put s.cq r p ((s.cq r p).drop count)
      prg := put s.prg r p ⟨.read, (s.cq r p).take count, count⟩ })
    (r' : Rank cfg) (p' : Prg cfg) : view s' r' p' = view s r' p' := by
  refine Ledger.ext (by rw [eq]; rfl) (by rw [eq]; rfl) (by rw [eq]; rfl) (by rw [eq]; rfl)
    ?_ ?_ (by rw [eq]; rfl) (by rw [eq]; rfl) (by rw [eq]; rfl) (by rw [eq]; rfl)
  · by_cases own : r' = r ∧ p' = p
    · obtain ⟨rfl, rfl⟩ := own
      simp only [view, eq, viewStage, put_same, stage]
    · simp only [view, eq, viewStage, put_of_ne _ _ own]
  · funext l
    by_cases own : r' = r ∧ p' = p
    · obtain ⟨rfl, rfl⟩ := own
      have idle := ((inv.credit r' p').poll stage).1
      have parts := congrArg (List.countP fun c => decide (c.msg.tag = l))
        (List.take_append_drop count (s.cq r' p'))
      rw [List.countP_append] at parts
      simp only [view, eq, State.underway, put_same, idle, List.countP_append, List.countP_map,
        Function.comp_def, List.map_nil, List.countP_nil]
      omega
    · simp only [view, eq, State.underway, put_of_ne _ _ own]

theorem view_refill {p : Prg cfg} (stage : (s.prg r p).stage = .read)
    (batch : (s.prg r p).batch = [])
    (eq : s' = { s with
      rq := put s.rq r p (s.rq r p ++
        List.replicate (s.prg r p).completed (recvSlot cfg (s.nextWorkerIdxes r p)))
      prg := put s.prg r p ⟨.poll, [], 0⟩ })
    (r' : Rank cfg) (p' : Prg cfg) : view s' r' p' = view s r' p' := by
  refine Ledger.ext (by rw [eq]; rfl) (by rw [eq]; rfl) (by rw [eq]; rfl) (by rw [eq]; rfl)
    ?_ ?_ (by rw [eq]; rfl) (by rw [eq]; rfl) (by rw [eq]; rfl) (by rw [eq]; rfl)
  · by_cases own : r' = r ∧ p' = p
    · obtain ⟨rfl, rfl⟩ := own
      simp only [view, eq, viewStage, put_same, stage]
    · simp only [view, eq, viewStage, put_of_ne _ _ own]
  · funext l
    by_cases own : r' = r ∧ p' = p
    · obtain ⟨rfl, rfl⟩ := own
      simp only [view, eq, State.underway, put_same, batch]
    · simp only [view, eq, State.underway, put_of_ne _ _ own]

/-- The worker's number of an index of the group. -/
theorem InGroup.seatOf_spec {p : Prg cfg} {workerIdx : Nat} (group : InGroup p workerIdx) :
    seatOf p workerIdx < cfg.perGroup ∧
      workerIdx = p.val + seatOf p workerIdx * cfg.rxThreadNum := by
  obtain ⟨j, below, rfl⟩ := group
  rw [seatOf_add]
  exact ⟨below, rfl⟩

/-- The account of the progress thread that moves. -/
theorem view_dispatch {p : Prg cfg} (cursor : Nat) (thread : PrgThread)
    (same : thread.batch = (s.prg r p).batch)
    (eq : s' = { s with
      nextWorkerIdxes := put s.nextWorkerIdxes r p cursor
      prg := put s.prg r p thread })
    (r' : Rank cfg) (p' : Prg cfg) :
    view s' r' p' = if r' = r ∧ p' = p then
      { view s r p with cursor := seatOf p cursor, stage := viewStage p thread }
      else view s r' p' := by
  split_ifs with own
  · obtain ⟨rfl, rfl⟩ := own
    refine Ledger.ext (by rw [eq]; rfl) (by rw [eq]; rfl) (by rw [eq]; rfl) ?_ ?_ ?_
      (by rw [eq]; rfl) (by rw [eq]; rfl) (by rw [eq]; rfl) (by rw [eq]; rfl)
    · simp only [view, eq, put_same]
    · simp only [view, eq, put_same]
    · funext l
      simp only [view, eq, State.underway, put_same, same]
  · have other : ¬ (r' = r ∧ p'.val = p.val) := fun both => own ⟨both.1, Fin.ext both.2⟩
    refine Ledger.ext (by rw [eq]; rfl) (by rw [eq]; rfl) (by rw [eq]; rfl) ?_ ?_ ?_
      (by rw [eq]; rfl) (by rw [eq]; rfl) (by rw [eq]; rfl) (by rw [eq]; rfl)
    · simp only [view, eq, put_of_ne _ _ other]
    · simp only [view, eq, put_of_ne _ _ own]
    · funext l
      simp only [view, eq, State.underway, put_of_ne _ _ own]

/-- The message in hand is under way. -/
theorem pending_tag_pos {p : Prg cfg} (holding : (s.prg r p).batch ≠ []) :
    0 < (view s r p).pending (s.prg r p).tag := by
  obtain ⟨head, tail, batch⟩ := List.exists_cons_of_ne_nil holding
  simp only [view, State.underway, PrgThread.tag, batch]
  refine List.countP_pos_iff.mpr ⟨head.msg, ?_, by simp⟩
  simp

theorem simulate_read {p : Prg cfg} {head : Completion} {tail : List Completion}
    (stage : (s.prg r p).stage = .read) (batch : (s.prg r p).batch = head :: tail)
    (eq : s' = { s with
      prg := put s.prg r p { s.prg r p with stage := .fetch (s.nextWorkerIdxes r p) } })
    (r' : Rank cfg) (p' : Prg cfg) :
    view s' r' p' = view s r' p' ∨ Account.Step (plan cfg) (view s r' p') (view s' r' p') := by
  have kept : s' = { s with
      nextWorkerIdxes := put s.nextWorkerIdxes r p (s.nextWorkerIdxes r p)
      prg := put s.prg r p { s.prg r p with stage := .fetch (s.nextWorkerIdxes r p) } } := by
    rw [eq, put_self]
  have after := view_dispatch _ { s.prg r p with stage := .fetch (s.nextWorkerIdxes r p) } rfl
    kept r' p'
  split_ifs at after with own
  · obtain ⟨rfl, rfl⟩ := own
    right
    rw [after]
    refine .read (s.prg r' p').tag ?_ (pending_tag_pos (by simp [batch]))
    simp only [view, viewStage, stage]
  · exact Or.inl after

theorem simulate_fetch {p : Prg cfg} {workerIdx : Nat}
    (stage : (s.prg r p).stage = .fetch workerIdx)
    (eq : s' = { s with
      prg := put s.prg r p
        { s.prg r p with stage := .store workerIdx (s.nextWorkerIdxes r p) } })
    (r' : Rank cfg) (p' : Prg cfg) :
    view s' r' p' = view s r' p' ∨ Account.Step (plan cfg) (view s r' p') (view s' r' p') := by
  have kept : s' = { s with
      nextWorkerIdxes := put s.nextWorkerIdxes r p (s.nextWorkerIdxes r p)
      prg := put s.prg r p
        { s.prg r p with stage := .store workerIdx (s.nextWorkerIdxes r p) } } := by
    rw [eq, put_self]
  have after := view_dispatch _
    { s.prg r p with stage := .store workerIdx (s.nextWorkerIdxes r p) } rfl kept r' p'
  split_ifs at after with own
  · obtain ⟨rfl, rfl⟩ := own
    right
    rw [after]
    refine .fetch (seatOf p' workerIdx) (s.prg r' p').tag ?_
    simp only [view, viewStage, stage]
  · exact Or.inl after

theorem simulate_store {p : Prg cfg} {workerIdx cursor : Nat} (inv : Inv s)
    (stage : (s.prg r p).stage = .store workerIdx cursor)
    (eq : s' = { s with
      nextWorkerIdxes := put s.nextWorkerIdxes r p (cursor + cfg.rxThreadNum)
      prg := put s.prg r p { s.prg r p with stage := .wrap workerIdx } })
    (r' : Rank cfg) (p' : Prg cfg) :
    view s' r' p' = view s r' p' ∨ Account.Step (plan cfg) (view s r' p') (view s' r' p') := by
  have after := view_dispatch _ { s.prg r p with stage := .wrap workerIdx } rfl eq r' p'
  split_ifs at after with own
  · obtain ⟨rfl, rfl⟩ := own
    right
    have aligned := inv.aligned r' p'
    rw [stage] at aligned
    obtain ⟨j, -, loaded⟩ := aligned.2.2
    have next : seatOf p' (cursor + cfg.rxThreadNum) = seatOf p' cursor + 1 := by
      rw [loaded, show p'.val + j * cfg.rxThreadNum + cfg.rxThreadNum =
        p'.val + (j + 1) * cfg.rxThreadNum by rw [Nat.succ_mul]; omega, seatOf_add, seatOf_add]
    rw [after, next]
    refine .store (seatOf p' workerIdx) (s.prg r' p').tag _ ?_
    simp only [view, viewStage, stage]
  · exact Or.inl after

theorem simulate_wrap {p : Prg cfg} {workerIdx : Nat} (inv : Inv s)
    (stage : (s.prg r p).stage = .wrap workerIdx)
    (eq : s' = { s with
      nextWorkerIdxes := put s.nextWorkerIdxes r p (wrapWorkerIdx cfg p (s.nextWorkerIdxes r p))
      prg := put s.prg r p { s.prg r p with stage := .bump workerIdx } })
    (r' : Rank cfg) (p' : Prg cfg) :
    view s' r' p' = view s r' p' ∨ Account.Step (plan cfg) (view s r' p') (view s' r' p') := by
  have after := view_dispatch _ { s.prg r p with stage := .bump workerIdx } rfl eq r' p'
  split_ifs at after with own
  · obtain ⟨rfl, rfl⟩ := own
    right
    have aligned := inv.aligned r' p'
    rw [stage] at aligned
    obtain ⟨j, -, cursor⟩ := aligned.1
    have next : seatOf p' (wrapWorkerIdx cfg p' (s.nextWorkerIdxes r' p')) =
        if cfg.perGroup ≤ (view s r' p').cursor then 0 else (view s r' p').cursor := by
      simp only [view, cursor, seatOf_add, wrapWorkerIdx, txThreadNum_le_iff]
      split_ifs
      · simp [seatOf]
      · rw [seatOf_add]
    rw [after, next]
    refine .wrap (seatOf p' workerIdx) (s.prg r' p').tag ?_
    simp only [view, viewStage, stage]
  · exact Or.inl after

theorem simulate_bump {p : Prg cfg} {workerIdx : Nat} (inv : Inv s)
    (stage : (s.prg r p).stage = .bump workerIdx)
    (eq : s' = { s with
      syncs := put s.syncs r workerIdx (s.syncs r workerIdx + 1)
      given := put s.given r workerIdx (s.given r workerIdx + 1)
      prg := put s.prg r p { s.prg r p with stage := .read, batch := (s.prg r p).batch.tail } })
    (r' : Rank cfg) (p' : Prg cfg) :
    view s' r' p' = view s r' p' ∨ Account.Step (plan cfg) (view s r' p') (view s' r' p') := by
  have aligned := inv.aligned r p
  rw [stage] at aligned
  obtain ⟨below, index⟩ := aligned.2.seatOf_spec
  by_cases own : r' = r ∧ p' = p
  · obtain ⟨rfl, rfl⟩ := own
    right
    have step : Account.Step (plan cfg) (view s r' p') _ :=
      .bump (seatOf p' workerIdx) (s.prg r' p').tag (by simp only [view, viewStage, stage])
    convert step using 1
    have worker : ∀ j : Fin cfg.perGroup,
        (groupWorker p' j).val = workerIdx ↔ j.val = seatOf p' workerIdx := by
      intro j
      constructor
      · intro same
        rw [← same]
        exact (seatOf_add p' j).symm
      · intro same
        rw [index, ← same]
        rfl
    refine Ledger.ext ?_ (by rw [eq]; rfl) ?_ (by rw [eq]; rfl) ?_ ?_ (by rw [eq]; rfl)
      (by rw [eq]; rfl) (by rw [eq]; rfl) (by rw [eq]; rfl)
    · funext j
      simp only [view, eq, put, worker, true_and]
      split_ifs with same
      · rw [(worker j).mpr same]
      · rfl
    · funext j
      simp only [view, eq, put, worker, true_and]
      split_ifs with same
      · rw [(worker j).mpr same]
      · rfl
    · simp only [view, eq, put_same, viewStage]
    · obtain ⟨head, tail, batch⟩ := List.exists_cons_of_ne_nil
        ((inv.credit r' p').holding (by simp [stage]) (by simp [stage]))
      funext l
      simp only [view, eq, State.underway, put_same, batch, PrgThread.tag, List.countP_append,
        List.map_cons, List.countP_cons, List.tail_cons, List.head?_cons, Option.map_some,
        Option.getD_some, decide_eq_true_eq]
      by_cases same : l = head.msg.tag
      · simp [same]
      · simp [same, Ne.symm same]
  · left
    have other : ∀ j : Fin cfg.perGroup, ¬ (r' = r ∧ (groupWorker p' j).val = workerIdx) := by
      rintro j ⟨sameRank, sameIndex⟩
      have both : groupWorker p' j = groupWorker p ⟨_, below⟩ :=
        Fin.ext (sameIndex.trans index)
      rw [groupWorker_eq_iff, route_groupWorker] at both
      exact own ⟨sameRank, both.1⟩
    refine Ledger.ext ?_ (by rw [eq]; rfl) ?_ (by rw [eq]; rfl) ?_ ?_ (by rw [eq]; rfl)
      (by rw [eq]; rfl) (by rw [eq]; rfl) (by rw [eq]; rfl)
    · funext j
      simp only [view, eq, put_of_ne _ _ (other j)]
    · funext j
      simp only [view, eq, put_of_ne _ _ (other j)]
    · simp only [view, eq, put_of_ne _ _ own]
    · funext l
      simp only [view, eq, State.underway, put_of_ne _ _ own]

end Dispatch

/-! ## All moves -/

/-- Every move of the job is a step of each group's account or leaves it alone. -/
theorem view_simulates (inv : Inv s) (move : Move s s') (r : Rank cfg) (p : Prg cfg) :
    view s' r p = view s r p ∨ Account.Step (plan cfg) (view s r p) (view s' r p) := by
  cases move with
  | sync r₀ t point move =>
      have same : put s.loc r₀ t (Local.start (firstStage (sender r₀))) = s.loc :=
        (congrArg Team.loc (inv.team.sync_eq move)).symm
      have moved : { s with control := s.control.set r₀ t point } = s.goTo r₀ t point := by
        rw [State.goTo, same]
      rw [moved]
      exact simulate_goTo inv (.sync point move) r p
  | finish r₀ t instr here done => exact simulate_goTo inv (.finish instr here done) r p
  | send r₀ t iters msgSize here more stage => exact simulate_send inv here more stage rfl r p
  | observe r₀ t iters msgSize here more stage token =>
      exact simulate_observe inv here more stage token rfl r p
  | consume r₀ t iters msgSize here more stage =>
      exact simulate_consume inv here more stage rfl r p
  | storeSync r₀ syncCount i here iter below => exact simulate_storeSync here iter below rfl r p
  | storeCursor r₀ syncCount i here iter below =>
      exact simulate_storeCursor here iter below rfl r p
  | deliver r₀ p₀ k msg buf rest found posted => exact Or.inl (view_deliver found rfl r p)
  | poll r₀ p₀ count stage positive few available => exact Or.inl (view_poll inv stage rfl r p)
  | refill r₀ p₀ stage batch => exact Or.inl (view_refill stage batch rfl r p)
  | read r₀ p₀ head tail stage batch => exact simulate_read stage batch rfl r p
  | fetch r₀ p₀ workerIdx stage => exact simulate_fetch stage rfl r p
  | store r₀ p₀ workerIdx cursor stage => exact simulate_store inv stage rfl r p
  | wrap r₀ p₀ workerIdx stage => exact simulate_wrap inv stage rfl r p
  | bump r₀ p₀ workerIdx stage => exact simulate_bump inv stage rfl r p

end FabricBench.PingpongPrg
