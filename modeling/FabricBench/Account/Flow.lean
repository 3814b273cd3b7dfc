import FabricBench.Account.Ledger

/-!
The flow of messages through one loop that began with nothing under way.

`Flow` says that the tokens handed out since then and the messages under way are
the messages the peers have sent in this loop, and that none of another loop is
under way. It needs no assumption on the prefill: it holds until the next reset
begins (`FlowUntil.step`).
-/

namespace FabricBench.Account

open FabricBench.Lib

variable {K : Nat} {plan : Plan} {led : Ledger K}

/-- The flow of a loop that began with `offset` tokens handed out. -/
structure Flow (plan : Plan) (led : Ledger K) (loop : Nat) (offset : Int) : Prop where
  flow : led.givenTotal + led.pending loop = offset + led.sentTotal loop
  only : ∀ l, l ≠ loop → led.pending l = 0
  past : ∀ l, l < loop → ∀ j, led.sent j l = plan.iters l

/-- The account serves a later loop. -/
def Mode.Past : Mode → Nat → Prop
  | .resetting current, loop => loop < current
  | .active current, loop => loop < current

/-- The flow holds until the loop is over for this account. -/
def FlowUntil (plan : Plan) (led : Ledger K) (loop : Nat) (offset : Int) : Prop :=
  (led.mode = .active loop ∧ Flow plan led loop offset) ∨ led.mode.Past loop

/-- What the workers hold and what is under way is the prefill and what the peers
sent, less what the workers took. -/
theorem Flow.total {loop : Nat} {offset : Int} (sound : Sound plan led)
    (active : led.mode = .active loop) (account : Flow plan led loop offset) :
    ∑ j, led.sync j + led.pending loop =
      K * plan.base loop + offset + ∑ j, (led.sent j loop - led.taken j loop : Int) := by
  have balance := sound.balance
  simp only [BalanceOk, active] at balance
  have sums : ∑ j, ((led.taken j loop : Int) + led.sync j) =
      ∑ j, (plan.base loop + (led.given j : Int)) :=
    Finset.sum_congr rfl fun j _ => balance j
  simp only [Finset.sum_add_distrib, Finset.sum_const, Finset.card_univ, Fintype.card_fin,
    nsmul_eq_mul] at sums
  have flow := account.flow
  simp only [Ledger.givenTotal, Ledger.sentTotal] at flow
  rw [Finset.sum_sub_distrib]
  linarith

/-- A message sent in an open loop is one of the loop the account is in: in the
earlier ones the peers have sent all they will. -/
theorem post_loop_eq {current loop : Nat} {j : Fin K} (opened : loop ≤ current)
    (past : ∀ l, l < current → ∀ j, led.sent j l = plan.iters l)
    (more : led.sent j loop < plan.iters loop) : loop = current := by
  by_contra different
  have := past loop (by omega) j
  omega

theorem Flow.post {loop : Nat} {offset : Int} (account : Flow plan led loop offset) (j : Fin K) :
    Flow plan { led with
      pending := fun l => if l = loop then led.pending l + 1 else led.pending l
      sent := tick led.sent j loop } loop offset where
  flow := by
    have flow := account.flow
    simp only [Ledger.sentTotal, Ledger.givenTotal, sum_tick, if_true] at flow ⊢
    push_cast
    omega
  only := by
    intro l different
    simp [different, account.only l different]
  past := by
    intro l earlier i
    simp [tick, Nat.ne_of_lt earlier, account.past l earlier i]

theorem Flow.bump {loop worker tag : Nat} {offset : Int} (sound : Sound plan led)
    (account : Flow plan led loop offset) (stage : led.stage = .bump worker tag) :
    Flow plan { led with
      sync := fun i => if i.val = worker then led.sync i + 1 else led.sync i
      given := fun i => if i.val = worker then led.given i + 1 else led.given i
      pending := fun l => if l = tag then led.pending l - 1 else led.pending l
      stage := .ready } loop offset := by
  have stageOk := sound.stage
  simp only [StageOk, stage] at stageOk
  -- the message in hand is pending, and only this loop has pending messages
  have same : tag = loop := by
    by_contra different
    have := account.only tag different
    omega
  subst same
  refine ⟨?_, ?_, account.past⟩
  · have flow := account.flow
    simp only [Ledger.sentTotal, Ledger.givenTotal, sum_bump led.given stageOk.2.1,
      if_true] at flow ⊢
    omega
  · intro l different
    simp [different, account.only l different]

/-- A later loop stays later. -/
theorem Mode.Past.step {before after : Ledger K} {loop : Nat} (past : before.mode.Past loop)
    (step : Step plan before after) : after.mode.Past loop := by
  cases step with
  | beginReset current active another through calm =>
      rw [active] at past
      exact Nat.lt_succ_of_lt past
  | endReset current resetting stored =>
      rw [resetting] at past
      exact past
  | _ => exact past

theorem FlowUntil.step {before after : Ledger K} {loop : Nat} {offset : Int}
    (sound : Sound plan before) (account : FlowUntil plan before loop offset)
    (step : Step plan before after) : FlowUntil plan after loop offset := by
  rcases account with ⟨active, account⟩ | past
  swap
  · exact Or.inr (past.step step)
  cases step with
  | post j other opened more =>
      rw [active] at opened
      obtain rfl := post_loop_eq opened account.past more
      exact Or.inl ⟨active, account.post j⟩
  | bump worker tag stage => exact Or.inl ⟨active, account.bump sound stage⟩
  | arm j other now more token =>
      exact Or.inl ⟨active, account.flow, account.only, account.past⟩
  | take j other now more armed =>
      exact Or.inl ⟨active, account.flow, account.only, account.past⟩
  | read tag ready waiting => exact Or.inl ⟨active, account.flow, account.only, account.past⟩
  | fetch worker tag stage => exact Or.inl ⟨active, account.flow, account.only, account.past⟩
  | store worker tag loaded stage =>
      exact Or.inl ⟨active, account.flow, account.only, account.past⟩
  | wrap worker tag stage => exact Or.inl ⟨active, account.flow, account.only, account.past⟩
  | beginReset current now another through calm =>
      obtain rfl := Mode.active.inj (active.symm.trans now)
      exact Or.inr (Nat.lt_succ_self _)
  | storeSync j current resetting =>
      exact absurd (active.symm.trans resetting) (by simp)
  | storeCursor current resetting =>
      exact absurd (active.symm.trans resetting) (by simp)
  | endReset current resetting stored =>
      exact absurd (active.symm.trans resetting) (by simp)

end FabricBench.Account
