import FabricBench.PingpongPrg.Resets

/-!
`pingpong_prg` with a reset that may leave a cursor at another worker of its group.

In `pingpong_prg_ucx` a callback may be about to move its cursor while `reset_counters`
stores it, so that the cursor stands one further afterwards, or where it would have been
without the store. `Late` has the moves of `pingpong_prg` and such stores.

Owns: that the bookkeeping of `pingpong_prg` and the soundness and the fairness of its
accounts do not depend on where a reset leaves the cursors (`LateReachable.inv`,
`LateReachable.fair`).
-/

namespace FabricBench.PingpongPrgUcx

open FabricBench.Lib FabricBench.Account FabricBench.PingpongPrg

variable {cfg : Config} {x x' : PingpongPrg.State cfg}

/-- The state after a store of `reset_counters` that leaves the cursor of progress thread
`p` at `cursor`. -/
def lateStore (x : PingpongPrg.State cfg) (r : Rank cfg) (p : Prg cfg) (cursor : Nat) :
    PingpongPrg.State cfg :=
  { x with
    nextWorkerIdxes := put x.nextWorkerIdxes r p cursor
    loc := put x.loc r (leader cfg) ⟨cfg.txThreadNum + p + 1, (x.loc r (leader cfg)).stage⟩ }

inductive Late : PingpongPrg.State cfg → PingpongPrg.State cfg → Prop where
  | move {x x' : PingpongPrg.State cfg} (move : PingpongPrg.Move x x') : Late x x'
  | store {x : PingpongPrg.State cfg} (r : Rank cfg) (syncCount : Int) (p : Prg cfg) (cursor : Nat)
      (here : x.instr r (leader cfg) = some (.resetCounters syncCount))
      (iter : (x.loc r (leader cfg)).iter = cfg.txThreadNum + p) (group : InGroup p cursor) :
      Late x (lateStore x r p cursor)

def LateReachable (x : PingpongPrg.State cfg) : Prop :=
  Relation.ReflTransGen Late (PingpongPrg.State.init cfg) x

/-! ## Bookkeeping -/

theorem aligned_of_inGroup {p : Prg cfg} {cursor old : Nat} {stage : PrgStage}
    (group : InGroup p cursor) (aligned : Aligned p old stage) : Aligned p cursor stage := by
  cases stage with
  | poll => exact group
  | read => exact group
  | fetch workerIdx => exact ⟨group, aligned.2⟩
  | store workerIdx loaded => exact ⟨group, aligned.2⟩
  | wrap workerIdx =>
      obtain ⟨j, below, same⟩ := group
      exact ⟨⟨j, below.le, same⟩, aligned.2⟩
  | bump workerIdx => exact ⟨group, aligned.2⟩

theorem inv_late (inv : Inv x) (late : Late x x') : Inv x' := by
  cases late with
  | move move => exact inv.move move
  | store r syncCount p cursor here iter group =>
      refine ⟨?_, ?_, inv.credit⟩
      · have below : cfg.txThreadNum + p.val < cfg.txThreadNum + cfg.rxThreadNum :=
          Nat.add_lt_add_left p.isLt _
        exact inv.team.work (localOk_store inv.team here below)
      · refine forall_entries r p ?_ ?_
        · simp only [lateStore, put_same]
          exact aligned_of_inGroup group (inv.aligned r p)
        · intro r' p' different
          simp only [lateStore, put_cursor_of_ne _ _ different]
          exact inv.aligned r' p'

/-! ## Accounts -/

/-- For the account of the group it is a change of the cursor during a reset, for the
others it is nothing. -/
theorem view_lateStore {r : Rank cfg} {syncCount : Int} {p : Prg cfg} {cursor : Nat}
    (here : x.instr r (leader cfg) = some (.resetCounters syncCount))
    (iter : (x.loc r (leader cfg)).iter = cfg.txThreadNum + p) (r' : Rank cfg) (p' : Prg cfg) :
    view (lateStore x r p cursor) r' p' = view x r' p' ∨
      ∃ loop, (view x r' p').mode = .resetting loop ∧ (r' = r ∧ p' = p) ∧
        view (lateStore x r p cursor) r' p' = { view x r' p' with cursor := seatOf p cursor } := by
  obtain ⟨e, below, atReset, rfl⟩ := reset_of_instr here
  have team : (lateStore x r p cursor).team = x.team.work r (leader cfg)
      ⟨cfg.txThreadNum + p + 1, (x.loc r (leader cfg)).stage⟩ := rfl
  obtain ⟨armed, sent, taken⟩ := view_store atReset team r' p'
  have fresh : (view (lateStore x r p cursor) r' p').fresh = (view x r' p').fresh := by
    funext j
    have worker := (groupWorker p' j).isLt
    by_cases same : r' = r
    · subst same
      simp only [view, lateStore, put_same, iter]
      congr 1
      rw [decide_eq_decide]
      omega
    · simp only [view, lateStore, put_row_ne _ _ _ _ same]
      rfl
  by_cases own : r' = r ∧ p' = p
  · refine .inr ⟨e, ?_, own, ?_⟩
    · simp only [view, own.1, atReset]
      exact modeAt_reset below
    · refine Ledger.ext rfl armed rfl ?_ rfl rfl sent taken rfl fresh
      obtain ⟨rfl, rfl⟩ := own
      simp only [view, lateStore, put_same]
  · refine .inl (Ledger.ext rfl armed rfl ?_ rfl rfl sent taken rfl fresh)
    simp only [view, lateStore, put_cursor_of_ne _ _ own]

/-- What holds of the empty account and is kept by the steps of a sound account, and by
a change of the cursor during a reset, holds of all accounts. -/
theorem LateReachable.account (property : Ledger cfg.perGroup → Prop)
    (empty : property (Ledger.empty cfg.perGroup (modeAt cfg.params 0)))
    (step : ∀ {before after : Ledger cfg.perGroup}, Sound (plan cfg) before → property before →
      Account.Step (plan cfg) before after → property after)
    (late : ∀ {led : Ledger cfg.perGroup} {loop cursor : Nat}, led.mode = .resetting loop →
      property led → property { led with cursor := cursor })
    (reachable : LateReachable x) :
    Inv x ∧ ∀ r p, Sound (plan cfg) (view x r p) ∧ property (view x r p) := by
  induction reachable with
  | refl =>
      refine ⟨inv_init cfg, fun r p => ?_⟩
      rw [view_init]
      exact ⟨sound_start cfg, empty⟩
  | tail _ last inductionHypothesis =>
      obtain ⟨inv, holds⟩ := inductionHypothesis
      refine ⟨inv_late inv last, fun r p => ?_⟩
      obtain ⟨sound, here⟩ := holds r p
      cases last with
      | move move =>
          rcases view_simulates inv move r p with same | stepped
          · rw [same]
            exact ⟨sound, here⟩
          · exact ⟨sound.step cfg.perGroup_pos stepped, step sound here stepped⟩
      | store r₀ syncCount p₀ cursor atReset iter group =>
          rcases view_lateStore atReset iter r p with same | ⟨loop, resetting, -, stored⟩
          · rw [same]
            exact ⟨sound, here⟩
          · rw [stored]
            exact ⟨sound.storeCursor group.seatOf_spec.1, late resetting here⟩

theorem LateReachable.inv (reachable : LateReachable x) : Inv x :=
  (reachable.account (fun _ => True) trivial (fun _ _ _ => trivial) fun _ _ => trivial).1

/-- Where a loop begins to deal makes no difference to its fairness. -/
theorem LateReachable.fair (reachable : LateReachable x) (r : Rank cfg) (p : Prg cfg) :
    Fair (view x r p) := by
  refine ((reachable.account Fair (fair_empty _ _) Fair.step ?_).2 r p).2
  intro led loop cursor resetting _ current active
  exact absurd (resetting.symm.trans active) (by simp)

/-- Nor does it to what is under way, if only the last loop is prefilled. -/
theorem LateReachable.quiet (last : cfg.PrefillsLast) (late : LateReachable x) (r : Rank cfg)
    (p : Prg cfg) : Sound (plan cfg) (view x r p) ∧ Quiet (plan cfg) (view x r p) := by
  refine (late.account (Quiet (plan cfg)) (quiet_empty _ (modeAt_zero cfg.params)) ?_ ?_).2 r p
  · exact fun sound quiet step => quiet.step (plan_settles cfg last) sound step
  · exact fun _ quiet => quiet.cursor _

end FabricBench.PingpongPrgUcx
