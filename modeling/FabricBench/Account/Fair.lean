import FabricBench.Account.Settled

/-!
What dispatching guarantees without any assumption on what earlier loops left
behind: late messages, tokens that survive a reset and a cursor that a reset
found half way.

`Fair` says that since the loop was opened the dispatcher has dealt some amount
round robin from wherever its cursor stood, that every worker holds or has taken
at least its share, and that the messages of this loop the peers have sent are
covered by the shares and by what is still under way. `Fair.taken_ge` is its use:
once nothing of the loop is under way and a worker holds no token, it has taken
at least as many as every peer has sent.
-/

namespace FabricBench.Account

open FabricBench.Lib

variable {K : Nat} {plan : Plan} {led : Ledger K}

/-- The dispatcher holds a message of another loop, whose worker was chosen before
the loop was opened. -/
def Stray (led : Ledger K) (loop : Nat) : Prop :=
  match led.stage with
  | .ready => False
  | .fetch _ tag | .store _ tag _ | .wrap _ tag | .bump _ tag => tag ≠ loop

/-- The shares dealt since the loop was opened. -/
structure FairLoop (led : Ledger K) (loop : Nat) (amount : Fin K → Int) : Prop where
  held : ∀ j, amount j ≤ led.taken j loop + led.sync j
  covered : led.sentTotal loop ≤ ∑ j, amount j + led.pending loop
  dealt : (∃ first, Dealt led first amount) ∨ ((∀ j, amount j = 0) ∧ Stray led loop)

/-- In every loop the tokens are dealt evenly, starting when the loop is opened. -/
def Fair (led : Ledger K) : Prop :=
  ∀ loop, led.mode = .active loop → ∃ amount, FairLoop led loop amount

theorem fair_empty (K : Nat) (mode : Mode) : Fair (Ledger.empty K mode) := by
  intro loop _
  refine ⟨fun _ => 0, ?_, ?_, Or.inl ⟨0, 0, fun j => (RoundRobin.share_start 0 j).symm⟩⟩
  · simp [Ledger.empty]
  · simp [Ledger.empty, Ledger.sentTotal]

/-! ## Use -/

/-- Shares dealt round robin differ by at most one. -/
theorem Dealt.even {first : Nat} {amount : Fin K → Int} (dealt : Dealt led first amount)
    (i j : Fin K) : amount i ≤ amount j + 1 := by
  obtain ⟨rounds, shares⟩ := dealt
  split at shares
  · rw [shares i, shares j]
    exact RoundRobin.share_le_share_add_one ..
  all_goals
    rw [shares.2 i, shares.2 j]
    exact RoundRobin.share_le_share_add_one ..

/-- With nothing of the loop under way, a worker without a token has taken at
least what every peer has sent. -/
theorem Fair.taken_ge {loop least : Nat} (fair : Fair led) (active : led.mode = .active loop)
    (drained : led.pending loop = 0) (least_le : ∀ j, least ≤ led.sent j loop) (j : Fin K)
    (empty : led.sync j = 0) : least ≤ led.taken j loop := by
  obtain ⟨amount, account⟩ := fair loop active
  have total : (K : Int) * least ≤ ∑ j, amount j := by
    have le := Finset.sum_le_sum fun j (_ : j ∈ Finset.univ) => Int.ofNat_le.mpr (least_le j)
    have covered := account.covered
    simp only [Ledger.sentTotal, drained] at covered
    simp at le
    omega
  have held := account.held j
  rcases account.dealt with ⟨first, dealt⟩ | ⟨zero, -⟩
  · have own := RoundRobin.le_of_mul_le_sum j (fun i => dealt.even i j) total
    omega
  · have own := RoundRobin.le_of_mul_le_sum j (fun i => by simp [zero]) total
    omega

/-! ## Preservation -/

/-- A step that leaves the dispatcher alone keeps the way the shares were dealt. -/
theorem FairLoop.of_same_dispatcher {after : Ledger K} {loop : Nat} {amount : Fin K → Int}
    (account : FairLoop led loop amount) (stage : after.stage = led.stage)
    (cursor : after.cursor = led.cursor)
    (held : ∀ j, amount j ≤ after.taken j loop + after.sync j)
    (covered : after.sentTotal loop ≤ ∑ j, amount j + after.pending loop) :
    FairLoop after loop amount where
  held := held
  covered := covered
  dealt := by
    have dealt := account.dealt
    simpa only [Dealt, Stray, stage, cursor] using dealt

/-- When a loop is opened nothing was dealt for it yet, and a message in hand is
of an earlier one. -/
theorem fairLoop_endReset {loop : Nat} (sound : Sound plan led)
    (resetting : led.mode = .resetting loop) :
    FairLoop { led with mode := .active loop, fresh := fun _ => false } loop fun _ => 0 := by
  obtain ⟨drained, untouched⟩ := sound.unopened loop (by simp [resetting, Mode.Opened])
  refine ⟨fun j => ?_, ?_, ?_⟩
  · have nonneg := sound.nonneg j
    simp only
    omega
  · simp [Ledger.sentTotal, untouched]
  · have stageOk := sound.stage
    have other : ∀ tag, 0 < led.pending tag → tag ≠ loop := by
      rintro tag holding rfl
      omega
    unfold StageOk at stageOk
    split at stageOk <;> rename_i here
    · refine Or.inl ⟨led.cursor, 0, ?_⟩
      simp [here, RoundRobin.share_start]
    all_goals
      refine Or.inr ⟨fun _ => rfl, ?_⟩
      simp only [Stray, here]
      exact other _ stageOk.2.2

/-- Handing over a token: one more share for its worker if it was dealt in this
loop; a token of a stray message is extra, and dealing starts behind it. -/
theorem FairLoop.bump {loop worker tag : Nat} {amount : Fin K → Int} (sound : Sound plan led)
    (account : FairLoop led loop amount) (stage : led.stage = .bump worker tag) :
    ∃ amount', FairLoop { led with
      sync := fun i => if i.val = worker then led.sync i + 1 else led.sync i
      given := fun i => if i.val = worker then led.given i + 1 else led.given i
      pending := fun l => if l = tag then led.pending l - 1 else led.pending l
      stage := .ready } loop amount' := by
  have stageOk := sound.stage
  simp only [StageOk, stage] at stageOk
  have covered := account.covered
  rcases account.dealt with ⟨first, dealt⟩ | ⟨zero, stray⟩
  · refine ⟨fun j => amount j + if j.val = worker then 1 else 0, fun j => ?_, ?_,
      Or.inl ⟨first, ?_⟩⟩
    · have held := account.held j
      simp only
      split_ifs <;> omega
    · have total : ∑ j : Fin K, (amount j + if j.val = worker then 1 else 0) =
          ∑ j, amount j + 1 := by
        have each : ∀ j : Fin K, (amount j + if j.val = worker then 1 else 0) =
            if j = ⟨worker, stageOk.2.1⟩ then amount j + 1 else amount j := by
          intro j
          simp only [Fin.ext_iff]
          split_ifs <;> simp
        rw [Finset.sum_congr rfl fun j _ => each j, RoundRobin.sum_update_add]
      simp only [Ledger.sentTotal, total] at covered ⊢
      split_ifs <;> omega
    · exact dealt.bump sound.stage stage _ _ _
  · simp only [Stray, stage] at stray
    refine ⟨fun _ => 0, fun j => ?_, ?_, Or.inl ⟨led.cursor, 0, ?_⟩⟩
    · have held := account.held j
      rw [zero j] at held
      simp only
      split_ifs <;> omega
    · simp only [Ledger.sentTotal, zero] at covered ⊢
      rw [if_neg (Ne.symm stray)]
      exact covered
    · simp [RoundRobin.share_start]

theorem Fair.step {before after : Ledger K} (sound : Sound plan before) (fair : Fair before)
    (step : Step plan before after) : Fair after := by
  intro current active
  cases step with
  | post j loop opened more =>
      obtain ⟨amount, account⟩ := fair current active
      refine ⟨amount, account.of_same_dispatcher rfl rfl account.held ?_⟩
      have covered := account.covered
      simp only [Ledger.sentTotal, sum_tick] at covered ⊢
      split_ifs <;> push_cast <;> omega
  | arm j loop now more token =>
      obtain ⟨amount, account⟩ := fair current active
      exact ⟨amount, account.of_same_dispatcher rfl rfl account.held account.covered⟩
  | take j loop now more armed =>
      obtain ⟨amount, account⟩ := fair current active
      refine ⟨amount, account.of_same_dispatcher rfl rfl (fun i => ?_) account.covered⟩
      change before.mode = _ at active
      rw [now] at active
      obtain rfl := Mode.active.inj active
      have held := account.held i
      simp only [tick, and_true]
      split_ifs
      · push_cast; omega
      · exact held
  | read tag ready waiting =>
      obtain ⟨amount, account⟩ := fair current active
      refine ⟨amount, account.held, account.covered, ?_⟩
      rcases account.dealt with ⟨first, dealt⟩ | ⟨zero, stray⟩
      · exact Or.inl ⟨first, dealt.read ready tag⟩
      · simp [Stray, ready] at stray
  | fetch worker tag stage =>
      obtain ⟨amount, account⟩ := fair current active
      refine ⟨amount, account.held, account.covered, ?_⟩
      rcases account.dealt with ⟨first, dealt⟩ | ⟨zero, stray⟩
      · exact Or.inl ⟨first, dealt.fetch stage⟩
      · exact Or.inr ⟨zero, by simpa [Stray, stage] using stray⟩
  | store worker tag loaded stage =>
      obtain ⟨amount, account⟩ := fair current active
      refine ⟨amount, account.held, account.covered, ?_⟩
      rcases account.dealt with ⟨first, dealt⟩ | ⟨zero, stray⟩
      · exact Or.inl ⟨first, dealt.store stage⟩
      · exact Or.inr ⟨zero, by simpa [Stray, stage] using stray⟩
  | wrap worker tag stage =>
      obtain ⟨amount, account⟩ := fair current active
      refine ⟨amount, account.held, account.covered, ?_⟩
      rcases account.dealt with ⟨first, dealt⟩ | ⟨zero, stray⟩
      · exact Or.inl ⟨first, dealt.wrap stage⟩
      · exact Or.inr ⟨zero, by simpa [Stray, stage] using stray⟩
  | bump worker tag stage =>
      obtain ⟨amount, account⟩ := fair current active
      exact account.bump sound stage
  | beginReset loop now another through calm => exact absurd active (by simp)
  | storeSync j loop resetting =>
      change before.mode = _ at active
      rw [resetting] at active
      exact absurd active (by simp)
  | storeCursor loop resetting =>
      change before.mode = _ at active
      rw [resetting] at active
      exact absurd active (by simp)
  | endReset loop resetting stored =>
      obtain rfl := Mode.active.inj active
      exact ⟨fun _ => 0, fairLoop_endReset sound resetting⟩

end FabricBench.Account
