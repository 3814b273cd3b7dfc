import FabricBench.Account.Flow

/-!
The account when every loop is settled before the next one opens, wherever the resets
leave the cursor.

`Plan.Settles` says that a loop another one follows either starts without prefilled
tokens or has no iterations. How many messages are under way then does not depend on the
cursor: there are none whenever the counters are reset, and the counters to be stored
hold what the loop before began with (`Quiet.step`).
-/

namespace FabricBench.Account

open FabricBench.Lib

variable {K : Nat} {plan : Plan} {led : Ledger K}

/-- A loop that another one follows leaves nothing behind. -/
def Plan.Settles (plan : Plan) : Prop :=
  ∀ loop, loop + 1 < plan.loops → plan.base loop = 0 ∨ plan.iters loop = 0

/-- Nothing pending means that the dispatcher holds no message. -/
theorem ready_of_drained (sound : StageOk led) (drained : ∀ l, led.pending l = 0) :
    led.stage = .ready := by
  unfold StageOk at sound
  split at sound
  · assumption
  all_goals
    have holding := sound.2.2
    rw [drained] at holding
    exact absurd holding (by simp)

/-- The account while the counters are reset: nothing under way, and each counter is
stored or holds what is left of a settled loop. -/
structure QuietReset (plan : Plan) (led : Ledger K) (loop : Nat) : Prop where
  drained : ∀ l, led.pending l = 0
  past : ∀ l, l < loop → ∀ j, led.sent j l = plan.iters l
  stored : ∀ j, led.fresh j = true → led.given j = 0
  kept : ∀ j, led.fresh j = false → 0 < loop →
    led.sync j = plan.base (loop - 1) ∧ led.given j = plan.iters (loop - 1)
  first : loop = 0 → ∀ j, led.sync j = 0 ∨ led.fresh j = true

/-- The account of a run in which nothing is under way during a reset. -/
structure Quiet (plan : Plan) (led : Ledger K) : Prop where
  loop : ∀ loop, led.mode = .active loop → Flow plan led loop 0
  reset : ∀ loop, led.mode = .resetting loop → QuietReset plan led loop

/-- A run starts quietly, at the reset for loop zero, or in loop zero if there is none. -/
theorem quiet_empty (plan : Plan) {mode : Mode} (start : mode = .resetting 0 ∨ mode = .active 0) :
    Quiet plan (Ledger.empty K mode) where
  loop := by
    intro loop active
    change mode = _ at active
    obtain rfl : loop = 0 := by
      rcases start with rfl | rfl
      · exact absurd active (by simp)
      · exact (Mode.active.inj active).symm
    exact {
      flow := by simp [Ledger.empty, Ledger.givenTotal, Ledger.sentTotal]
      only := fun _ _ => rfl
      past := fun _ before => absurd before (by simp) }
  reset := by
    intro loop resetting
    change mode = _ at resetting
    obtain rfl : loop = 0 := by
      rcases start with rfl | rfl
      · exact (Mode.resetting.inj resetting).symm
      · exact absurd resetting (by simp)
    exact {
      drained := fun _ => rfl
      past := fun _ before => absurd before (by simp)
      stored := fun _ _ => rfl
      kept := fun _ _ later => absurd later (by simp)
      first := fun _ _ => Or.inl rfl }

/-- When all workers are through with a loop that settles, nothing is under way, the
peers have sent everything, and each worker was given one token for each iteration. -/
theorem Flow.closed {loop : Nat} (sound : Sound plan led) (active : led.mode = .active loop)
    (account : Flow plan led loop 0) (settles : plan.base loop = 0 ∨ plan.iters loop = 0)
    (through : ∀ j, led.taken j loop = plan.iters loop) :
    (∀ l, led.pending l = 0) ∧ ∀ j, led.sent j loop = plan.iters loop ∧
      led.sync j = plan.base loop ∧ led.given j = plan.iters loop := by
  have balance : ∀ j, (plan.iters loop : Int) + led.sync j = plan.base loop + led.given j := by
    have balance := sound.balance
    simp only [BalanceOk, active, through] at balance
    exact balance
  -- what a worker holds beyond its prefill, and what its peer has not sent
  have excess : ∀ j, 0 ≤ led.sync j - plan.base loop := by
    intro j
    have own := balance j
    have nonneg := sound.nonneg j
    rcases settles with noBase | noIters <;> omega
  have deficit : ∀ j, 0 ≤ (plan.iters loop : Int) - led.sent j loop := fun j =>
    Int.sub_nonneg.mpr (Int.ofNat_le.mpr (sound.sentLe j loop))
  have sum : ∑ j, (led.sync j - plan.base loop) +
      ∑ j, ((plan.iters loop : Int) - led.sent j loop) + led.pending loop = 0 := by
    have total := account.total sound active
    simp only [through, Finset.sum_sub_distrib, Finset.sum_const, Finset.card_univ,
      Fintype.card_fin, nsmul_eq_mul] at total ⊢
    omega
  have excessTotal := Finset.sum_nonneg fun j (_ : j ∈ Finset.univ) => excess j
  have deficitTotal := Finset.sum_nonneg fun j (_ : j ∈ Finset.univ) => deficit j
  have noExcess := (Finset.sum_eq_zero_iff_of_nonneg fun j _ => excess j).mp
    (by omega : ∑ j, (led.sync j - plan.base loop) = 0)
  have noDeficit := (Finset.sum_eq_zero_iff_of_nonneg fun j _ => deficit j).mp
    (by omega : ∑ j, ((plan.iters loop : Int) - led.sent j loop) = 0)
  refine ⟨fun l => ?_, fun j => ?_⟩
  · by_cases same : l = loop
    · subst same
      omega
    · exact account.only l same
  · have own := balance j
    have sync := noExcess j (Finset.mem_univ j)
    have sent := noDeficit j (Finset.mem_univ j)
    omega

/-- While the counters are reset the dispatcher holds no message. -/
theorem QuietReset.ready {loop : Nat} (account : QuietReset plan led loop)
    (sound : Sound plan led) : led.stage = .ready :=
  ready_of_drained sound.stage account.drained

theorem QuietReset.storeSync {loop : Nat} (account : QuietReset plan led loop) (j : Fin K) :
    QuietReset plan { led with
      sync := fun i => if i = j then plan.base loop else led.sync i
      given := fun i => if i = j then 0 else led.given i
      fresh := fun i => if i = j then true else led.fresh i } loop where
  drained := account.drained
  past := account.past
  stored := by
    intro i now
    by_cases same : i = j
    · simp [same]
    · simp only [same, if_false] at now ⊢
      exact account.stored i now
  kept := by
    intro i now later
    by_cases same : i = j
    · simp [same] at now
    · simp only [same, if_false] at now ⊢
      exact account.kept i now later
  first := by
    intro zero i
    by_cases same : i = j
    · simp [same]
    · simpa [same] using account.first zero i

/-- Without prefill every counter is zero during a reset. -/
theorem QuietReset.sync_eq_zero {loop : Nat} (account : QuietReset plan led loop)
    (sound : Sound plan led) (resetting : led.mode = .resetting loop)
    (noBase : ∀ loop, plan.base loop = 0) (j : Fin K) : led.sync j = 0 := by
  cases fresh : led.fresh j with
  | true =>
      have balance := sound.balance
      simp only [BalanceOk, resetting] at balance
      rw [balance j fresh, noBase, account.stored j fresh]
      rfl
  | false =>
      rcases Nat.eq_zero_or_pos loop with first | later
      · exact (account.first first j).resolve_right (by simp [fresh])
      · rw [(account.kept j fresh later).1, noBase]

/-- A loop begins with nothing sent, given or under way. -/
theorem QuietReset.endReset {loop : Nat} (sound : Sound plan led)
    (resetting : led.mode = .resetting loop) (account : QuietReset plan led loop)
    (stored : ∀ j, led.fresh j = true) :
    Flow plan { led with mode := .active loop, fresh := fun _ => false } loop 0 := by
  have given : ∀ j, led.given j = 0 := fun j => account.stored j (stored j)
  have untouched := (sound.unopened loop (by simp [resetting, Mode.Opened])).2
  refine ⟨?_, fun l _ => account.drained l, account.past⟩
  simp [Ledger.givenTotal, Ledger.sentTotal, given, account.drained, untouched]

/-- A change of the cursor is nothing to this account. -/
theorem Quiet.cursor (account : Quiet plan led) (cursor : Nat) :
    Quiet plan { led with cursor := cursor } where
  loop loop active := by
    have flow := account.loop loop active
    exact ⟨flow.flow, flow.only, flow.past⟩
  reset loop resetting := by
    have reset := account.reset loop resetting
    exact ⟨reset.drained, reset.past, reset.stored, reset.kept, reset.first⟩

theorem Quiet.step {before after : Ledger K} (settles : plan.Settles)
    (sound : Sound plan before) (account : Quiet plan before) (step : Step plan before after) :
    Quiet plan after := by
  -- in a loop, the flow goes on until the next reset
  have flows : ∀ current, before.mode = .active current → after.mode = .active current →
      Flow plan after current 0 := by
    intro current active still
    have followed : FlowUntil plan after current 0 :=
      FlowUntil.step sound (.inl ⟨active, account.loop current active⟩) step
    rcases followed with ⟨-, flow⟩ | past
    · exact flow
    · rw [still] at past
      exact absurd past (Nat.lt_irrefl current)
  refine ⟨fun current active => ?_, fun current resetting => ?_⟩
  · cases step with
    | endReset loop resetting stored =>
        obtain rfl := Mode.active.inj active
        exact (account.reset loop resetting).endReset sound resetting stored
    | beginReset loop now another through calm => exact absurd active (by simp)
    | _ => exact flows current active active
  · cases step with
    | post j loop opened more =>
        have reset := account.reset current resetting
        change before.mode = _ at resetting
        rw [resetting] at opened
        have all := reset.past loop opened j
        omega
    | arm j loop active more token =>
        exact absurd (active.symm.trans resetting) (by simp)
    | take j loop active more armed =>
        exact absurd (active.symm.trans resetting) (by simp)
    | read tag ready waiting =>
        have drained := (account.reset current resetting).drained tag
        omega
    | fetch worker tag stage =>
        have ready := (account.reset current resetting).ready sound
        exact absurd (stage.symm.trans ready) (by simp)
    | store worker tag loaded stage =>
        have ready := (account.reset current resetting).ready sound
        exact absurd (stage.symm.trans ready) (by simp)
    | wrap worker tag stage =>
        have ready := (account.reset current resetting).ready sound
        exact absurd (stage.symm.trans ready) (by simp)
    | bump worker tag stage =>
        have ready := (account.reset current resetting).ready sound
        exact absurd (stage.symm.trans ready) (by simp)
    | beginReset loop active another through calm =>
        obtain rfl := Mode.resetting.inj resetting
        have flow := account.loop loop active
        obtain ⟨drained, settled⟩ := flow.closed sound active (settles loop another) through
        refine ⟨drained, fun l earlier j => ?_, fun j now => absurd now (by simp),
          fun j _ _ => (settled j).2, fun zero => absurd zero (by omega)⟩
        rcases Nat.lt_succ_iff_lt_or_eq.mp earlier with before | same
        · exact flow.past l before j
        · exact same ▸ (settled j).1
    | storeSync j loop now =>
        obtain rfl := Mode.resetting.inj (now.symm.trans resetting)
        exact (account.reset loop now).storeSync j
    | storeCursor loop now => exact (account.cursor 0).reset current resetting
    | endReset loop now stored => exact absurd resetting (by simp)

end FabricBench.Account
