import FabricBench.CommExp.Beats
import FabricBench.PingpongSymUcx.Model

/-!
`pingpong_sym_ucx` runs in lockstep: its invariant, and what follows for the
counters and the buffers that the callbacks write.
-/

namespace FabricBench.PingpongSymUcx

open FabricBench.Lib

variable {cfg : Config}

/-! ## Definitions -/

/-- What the team runs. -/
def job (cfg : Config) : Job (Rank cfg) (Worker cfg) Stage where
  params := cfg.params
  report r t := decide (r.val = 0 ∧ t.val = 0)
  leader := leader cfg
  first r := firstStage (sender r)
  stores := stores

/-- The message is taken with the decrement of the counter. -/
def Stage.beat : Stage → Beat
  | .send => .send
  | .flush => .sent
  | .wait => .wait
  | .consume => .take

def rhythm (cfg : Config) : Rhythm (Rank cfg) Stage where
  partner := partner
  pings := sender
  beat := Stage.beat
  partner_partner := partnerRank_partnerRank
  pings_partner := sendsFirst_partnerRank
  beat_injective := by
    intro stage stage' same
    cases stage <;> cases stage' <;> simp_all [Stage.beat]

def State.team (s : State cfg) : Team (Rank cfg) (Worker cfg) Stage := ⟨s.control, s.loc⟩

/-- A counter is never negative, and not zero when its worker is about to decrement
it. -/
structure Tokens (stage : Stage) (sync : Int) : Prop where
  nonneg : 0 ≤ sync
  seen : stage = .consume → 1 ≤ sync

/-- Holds in every reachable state. -/
structure Inv (s : State cfg) : Prop where
  team : s.team.Ok (job cfg)
  balanced : Balanced (job cfg) (rhythm cfg).exchange s.team s.unconsumed
  tokens : ∀ r t, Tokens (s.loc r t).stage (s.syncs r t)

/-! ## The stages of the body -/

theorem starts (cfg : Config) : (rhythm cfg).Starts (job cfg) := by
  intro r
  change Stage.beat (firstStage (sender r)) = Beat.first (sender r)
  cases sender r <;> rfl

theorem leader_stores : stores (leader cfg) = cfg.txThreadNum := if_pos rfl

section Body

variable {r : Rank cfg} {l : Local Stage}

theorem goes_send (stage : l.stage = .send) : (rhythm cfg).Goes r l ⟨l.iter, .flush⟩ 1 0 3 :=
  .send (congrArg Stage.beat stage) rfl rfl

theorem goes_afterFlush (stage : l.stage = .flush) :
    (rhythm cfg).Goes r l (afterFlush (sender r) l) 0 0 1 := by
  have there : (afterFlush (sender r) l).stage = .wait := by cases sender r <;> rfl
  refine .sent (congrArg Stage.beat stage) (congrArg Stage.beat there) ?_
  change _ = l.iter + if sender r = true then 0 else 1
  cases sender r <;> rfl

theorem goes_observe (stage : l.stage = .wait) : (rhythm cfg).Goes r l ⟨l.iter, .consume⟩ 0 0 1 :=
  .wait (congrArg Stage.beat stage) rfl rfl

theorem goes_afterConsume (stage : l.stage = .consume) :
    (rhythm cfg).Goes r l (afterConsume (sender r) l) 0 1 1 := by
  have there : (afterConsume (sender r) l).stage = .send := by cases sender r <;> rfl
  refine .take (congrArg Stage.beat stage) (congrArg Stage.beat there) ?_
  change _ = l.iter + if sender r = true then 1 else 0
  cases sender r <;> rfl

end Body

/-! ## Consequences of the invariant -/

section Consequences

variable {s : State cfg} {r : Rank cfg} {t : Worker cfg}

theorem Inv.unconsumed_nonneg (inv : Inv s) (r : Rank cfg) (t : Worker cfg) :
    0 ≤ s.unconsumed r t := by
  have := (inv.tokens r t).nonneg
  unfold State.unconsumed
  omega

theorem Inv.unconsumed_le_one (inv : Inv s) (r : Rank cfg) (t : Worker cfg) :
    s.unconsumed r t ≤ 1 := by
  have pair := inv.balanced.pair_le_one r t
  have partnerNonneg := inv.unconsumed_nonneg (partner r) t
  change s.unconsumed r t + s.unconsumed (partner r) t ≤ 1 at pair
  omega

/-- The counters are 0 or 1. -/
theorem Inv.sync_cases (inv : Inv s) (r : Rank cfg) (t : Worker cfg) :
    s.syncs r t = 0 ∨ s.syncs r t = 1 := by
  have nonneg := (inv.tokens r t).nonneg
  have few := inv.unconsumed_le_one r t
  unfold State.unconsumed at few
  omega

/-- A message that its callback starts on comes alone: the one before is consumed. -/
theorem Inv.sync_of_inFlight (inv : Inv s) {k size : Nat} (found : (s.net r t)[k]? = some size) :
    s.syncs r t = 0 := by
  have some_inFlight : k < (s.net r t).length := (List.getElem?_eq_some_iff.mp found).1
  have nonneg := (inv.tokens r t).nonneg
  have few := inv.unconsumed_le_one r t
  unfold State.unconsumed at few
  omega

/-- `reset_counters` stores the zero that is there. -/
theorem Inv.store_same (inv : Inv s) {syncCount : Int}
    (here : s.instr r (leader cfg) = some (.resetCounters syncCount)) (t : Worker cfg) :
    syncCount = s.syncs r t := by
  have settled := inv.balanced.pending_at_reset (starts cfg).exchange inv.team here t
  have nonneg := (inv.tokens r t).nonneg
  obtain ⟨e, -, -, base⟩ := reset_position here
  have zero : cfg.params.base e = 0 := by
    unfold RunParams.base
    rw [cfg.no_prefill]
    exact ite_self _
  unfold State.unconsumed at settled
  rw [base, zero]
  omega

end Consequences

/-! ## The moves keep the invariant -/

theorem team_store {s : State cfg} {r : Rank cfg} {t : Worker cfg} {syncCount : Int}
    (ok : s.team.Ok (job cfg)) (here : s.instr r (leader cfg) = some (.resetCounters syncCount)) :
    (s.team.work r (leader cfg) ⟨t + 1, (s.loc r (leader cfg)).stage⟩).Ok (job cfg) := by
  refine ok.work (ok.localOk_store here ?_)
  change t.val < stores (leader cfg)
  rw [leader_stores]
  exact t.isLt

theorem team_step {s s' : State cfg} (ok : s.team.Ok (job cfg)) (move : Move s s') :
    s'.team.Ok (job cfg) := by
  cases move with
  | sync r t point move => exact ok.sync move
  | finish r t instr here done => exact ok.goTo (.finish instr here done)
  | send r t iters msgSize here more stage =>
      exact ok.beat (goes_send stage) (starts cfg) here more
  | flush r t iters msgSize here more stage =>
      exact ok.beat (goes_afterFlush stage) (starts cfg) here more
  | receive r t k size found idle => exact ok
  | bump r t size running => exact ok
  | observe r t iters msgSize here more stage token =>
      exact ok.beat (goes_observe stage) (starts cfg) here more
  | consume r t iters msgSize here more stage =>
      exact ok.beat (goes_afterConsume stage) (starts cfg) here more
  | store r syncCount t here iter => exact team_store ok here

theorem balanced_step {s s' : State cfg} (inv : Inv s) (move : Move s s') :
    Balanced (job cfg) (rhythm cfg).exchange s'.team s'.unconsumed := by
  cases move with
  | sync r t point move => exact inv.balanced.sync inv.team move
  | finish r t instr here done => exact inv.balanced.goTo inv.team (.finish instr here done)
  | send r t iters msgSize here more stage =>
      refine inv.balanced.beat (goes_send stage) here fun r' t' => ?_
      simp only [State.unconsumed]
      by_cases same : r' = partner r ∧ t' = t
      · obtain ⟨rfl, rfl⟩ := same
        simp [rhythm]
        omega
      · simp [put_of_ne _ _ same, rhythm, same]
  | flush r t iters msgSize here more stage =>
      refine inv.balanced.beat (goes_afterFlush stage) here fun r' t' => ?_
      simp only [State.unconsumed, ite_self]
  | receive r t k size found idle =>
      have below : k < (s.net r t).length := (List.getElem?_eq_some_iff.mp found).1
      have same : State.unconsumed { s with
          net := put s.net r t ((s.net r t).eraseIdx k)
          bufs := put s.bufs r t size
          callback := put s.callback r t (some size) } = s.unconsumed := by
        funext r' t'
        simp only [State.unconsumed]
        by_cases same : r' = r ∧ t' = t
        · obtain ⟨rfl, rfl⟩ := same
          simp [List.length_eraseIdx, below, idle]
          omega
        · simp only [put_of_ne _ _ same]
      rw [same]
      exact inv.balanced
  | bump r t size running =>
      have same : State.unconsumed { s with
          callback := put s.callback r t none
          syncs := put s.syncs r t (s.syncs r t + 1) } = s.unconsumed := by
        funext r' t'
        simp only [State.unconsumed]
        by_cases same : r' = r ∧ t' = t
        · obtain ⟨rfl, rfl⟩ := same
          simp [running]
          omega
        · simp only [put_of_ne _ _ same]
      rw [same]
      exact inv.balanced
  | observe r t iters msgSize here more stage token =>
      refine inv.balanced.beat (goes_observe stage) here fun r' t' => ?_
      simp only [State.unconsumed, ite_self]
  | consume r t iters msgSize here more stage =>
      refine inv.balanced.beat (goes_afterConsume stage) here fun r' t' => ?_
      simp only [State.unconsumed, ite_self]
      by_cases same : r' = r ∧ t' = t
      · obtain ⟨rfl, rfl⟩ := same
        simp
        omega
      · simp [put_of_ne _ _ same, same]
  | store r syncCount t here iter =>
      rw [inv.store_same here t, put_self]
      exact inv.balanced.store here rfl

theorem tokens_step {s s' : State cfg} (inv : Inv s) (move : Move s s') (r' : Rank cfg)
    (t' : Worker cfg) : Tokens (s'.loc r' t').stage (s'.syncs r' t') := by
  have old := inv.tokens r' t'
  cases move with
  | sync r t point move => exact old
  | finish r t instr here done =>
      have next : s.team.Next (job cfg) r t (s.control r t).next := .finish instr here done
      have stage := next.goTo_stage inv.team r' t'
      change ((s.advance r t).loc r' t').stage = (s.loc r' t').stage at stage
      rw [stage]
      exact old
  | send r t iters msgSize here more stage =>
      by_cases same : r' = r ∧ t' = t
      · obtain ⟨rfl, rfl⟩ := same
        simp only [put_same]
        exact ⟨old.nonneg, by simp⟩
      · simp only [put_of_ne _ _ same]
        exact old
  | flush r t iters msgSize here more stage =>
      by_cases same : r' = r ∧ t' = t
      · obtain ⟨rfl, rfl⟩ := same
        simp only [put_same, afterFlush]
        exact ⟨old.nonneg, by split_ifs <;> simp⟩
      · simp only [put_of_ne _ _ same]
        exact old
  | receive r t k size found idle => exact old
  | bump r t size running =>
      by_cases same : r' = r ∧ t' = t
      · obtain ⟨rfl, rfl⟩ := same
        have nonneg := old.nonneg
        simp only [put_same]
        exact ⟨by omega, fun _ => by omega⟩
      · simp only [put_of_ne _ _ same]
        exact old
  | observe r t iters msgSize here more stage token =>
      by_cases same : r' = r ∧ t' = t
      · obtain ⟨rfl, rfl⟩ := same
        have nonneg := old.nonneg
        simp only [put_same]
        exact ⟨nonneg, fun _ => by omega⟩
      · simp only [put_of_ne _ _ same]
        exact old
  | consume r t iters msgSize here more stage =>
      by_cases same : r' = r ∧ t' = t
      · obtain ⟨rfl, rfl⟩ := same
        have seen := old.seen stage
        simp only [put_same, afterConsume]
        exact ⟨by omega, by split_ifs <;> simp⟩
      · simp only [put_of_ne _ _ same]
        exact old
  | store r syncCount t here iter =>
      rw [inv.store_same here t, put_self]
      by_cases same : r' = r ∧ t' = leader cfg
      · obtain ⟨rfl, rfl⟩ := same
        simp only [put_same]
        exact old
      · simp only [put_of_ne _ _ same]
        exact old

theorem inv_init (cfg : Config) : Inv (State.init cfg) where
  team := Team.ok_start (job cfg)
  balanced := balanced_start (starts cfg).exchange
  tokens := fun r t => by
    refine ⟨le_refl 0, fun stage => ?_⟩
    cases role : sender r <;> simp [State.init, Local.start, firstStage, role] at stage

theorem Inv.move {s s' : State cfg} (inv : Inv s) (move : Move s s') : Inv s' where
  team := team_step inv.team move
  balanced := balanced_step inv move
  tokens := tokens_step inv move

theorem Reachable.inv {s : State cfg} (reachable : Reachable s) : Inv s :=
  reachable.invariant Inv (inv_init cfg) Inv.move

/-- The callback only starts when the message before it is consumed. -/
theorem Inv.receive_after_consume {s s' : State cfg} {r : Rank cfg} {t : Worker cfg} {k : Nat}
    (inv : Inv s) (taken : step s (.receive r t k) = some s') : s.syncs r t = 0 := by
  simp only [step] at taken
  split at taken
  · next iters msgSize size here found => exact inv.sync_of_inFlight found
  · exact absurd taken (by simp)

end FabricBench.PingpongSymUcx
