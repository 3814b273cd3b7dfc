import FabricBench.Account.Quiet

/-!
The account when every loop is settled before the next one opens and every reset finds
the cursor where the loop before has left it.

Under `Plan.Settles`, `Exact` is an invariant: besides what a quiet account keeps, the
dispatcher has dealt the tokens of a loop round robin from worker zero. When all workers
are through, everything was dispatched and taken, so that the cursor is back at zero and
the reset stores what is there.
-/

namespace FabricBench.Account

open FabricBench.Lib

variable {K : Nat} {plan : Plan} {led : Ledger K}

/-- The dispatcher deals `amount` round robin, started with the cursor at `first`.
The message in hand counts as dealt when the token is handed over, so until then
the shares are those of the worker it is for. -/
def Dealt (led : Ledger K) (first : Nat) (amount : Fin K → Int) : Prop :=
  ∃ rounds, match led.stage with
  | .ready => ∀ j : Fin K, amount j = RoundRobin.share rounds first led.cursor j
  | .fetch worker _ =>
      led.cursor = worker ∧ ∀ j : Fin K, amount j = RoundRobin.share rounds first worker j
  | .store worker _ loaded =>
      loaded = worker ∧ ∀ j : Fin K, amount j = RoundRobin.share rounds first worker j
  | .wrap worker _ =>
      led.cursor = worker + 1 ∧ ∀ j : Fin K, amount j = RoundRobin.share rounds first worker j
  | .bump worker _ =>
      led.cursor = RoundRobin.advance K worker ∧
        ∀ j : Fin K, amount j = RoundRobin.share rounds first worker j

/-! ## The dispatcher keeps dealing -/

theorem Dealt.read {first : Nat} {amount : Fin K → Int} (dealt : Dealt led first amount)
    (ready : led.stage = .ready) (tag : Nat) :
    Dealt { led with stage := .fetch led.cursor tag } first amount := by
  obtain ⟨rounds, shares⟩ := dealt
  simp only [ready] at shares
  exact ⟨rounds, rfl, shares⟩

theorem Dealt.fetch {first worker tag : Nat} {amount : Fin K → Int}
    (dealt : Dealt led first amount) (stage : led.stage = .fetch worker tag) :
    Dealt { led with stage := .store worker tag led.cursor } first amount := by
  obtain ⟨rounds, shares⟩ := dealt
  simp only [stage] at shares
  exact ⟨rounds, shares⟩

theorem Dealt.store {first worker tag loaded : Nat} {amount : Fin K → Int}
    (dealt : Dealt led first amount) (stage : led.stage = .store worker tag loaded) :
    Dealt { led with cursor := loaded + 1, stage := .wrap worker tag } first amount := by
  obtain ⟨rounds, shares⟩ := dealt
  simp only [stage] at shares
  exact ⟨rounds, by rw [shares.1], shares.2⟩

theorem Dealt.wrap {first worker tag : Nat} {amount : Fin K → Int}
    (dealt : Dealt led first amount) (stage : led.stage = .wrap worker tag) :
    Dealt { led with
      cursor := if K ≤ led.cursor then 0 else led.cursor
      stage := .bump worker tag } first amount := by
  obtain ⟨rounds, shares⟩ := dealt
  simp only [stage] at shares
  refine ⟨rounds, ?_, shares.2⟩
  simp only [shares.1, RoundRobin.advance]
  split_ifs <;> omega

/-- Handing over the token deals one to the worker in hand. -/
theorem Dealt.bump {first worker tag : Nat} {amount : Fin K → Int}
    (sound : StageOk led) (dealt : Dealt led first amount) (stage : led.stage = .bump worker tag)
    (sync : Fin K → Int) (given : Fin K → Nat) (pending : Nat → Nat) :
    Dealt { led with sync := sync, given := given, pending := pending, stage := .ready } first
      (fun j => amount j + if j.val = worker then 1 else 0) := by
  obtain ⟨rounds, shares⟩ := dealt
  simp only [stage] at shares
  simp only [StageOk, stage] at sound
  refine ⟨RoundRobin.advanceRounds K rounds worker, fun j => ?_⟩
  simp only
  rw [shares.1, RoundRobin.share_advance rounds first sound.2.1 j.isLt, shares.2 j]

/-- Equal shares bring the cursor back to worker zero. -/
theorem Dealt.cursor_eq_zero {share : Nat} (sound : StageOk led) (ready : led.stage = .ready)
    (dealt : Dealt led 0 fun j => led.given j) (equal : ∀ j, led.given j = share) :
    led.cursor = 0 := by
  obtain ⟨rounds, shares⟩ := dealt
  simp only [StageOk, ready] at shares sound
  have even : ∀ j, j < K → RoundRobin.share rounds 0 led.cursor j = share := by
    intro j below
    rw [← shares ⟨j, below⟩, equal]
  exact RoundRobin.cursor_eq_zero_of_even sound even

/-! ## The exact account -/

/-- The account of a run in which every loop is settled before the next and dealt from
worker zero. -/
structure Exact (plan : Plan) (led : Ledger K) : Prop extends Quiet plan led where
  dealt : ∀ loop, led.mode = .active loop → Dealt led 0 fun j => led.given j
  cursor : ∀ loop, led.mode = .resetting loop → led.cursor = 0

theorem exact_empty (plan : Plan) {mode : Mode} (start : mode = .resetting 0 ∨ mode = .active 0) :
    Exact plan (Ledger.empty K mode) where
  toQuiet := quiet_empty plan start
  dealt := fun _ _ => ⟨0, fun j => (RoundRobin.share_start 0 j).symm⟩
  cursor := fun _ _ => rfl

/-- The token that is handed over is given to the worker in hand. -/
theorem Dealt.bump_given {worker tag : Nat} (sound : Sound plan led)
    (dealt : Dealt led 0 fun j => led.given j) (stage : led.stage = .bump worker tag) :
    Dealt { led with
      sync := fun i => if i.val = worker then led.sync i + 1 else led.sync i
      given := fun i => if i.val = worker then led.given i + 1 else led.given i
      pending := fun l => if l = tag then led.pending l - 1 else led.pending l
      stage := .ready } 0
      (fun j => ((if j.val = worker then led.given j + 1 else led.given j : Nat) : Int)) := by
  have shape : (fun j : Fin K => ((if j.val = worker then led.given j + 1 else led.given j : Nat) :
      Int)) = fun j => (led.given j : Int) + if j.val = worker then 1 else 0 := by
    funext j
    split_ifs <;> simp
  rw [shape]
  exact dealt.bump sound.stage stage _ _ _

/-- At the end of a reset dealing starts from worker zero. -/
theorem Exact.endReset {loop : Nat} (account : Exact plan led) (sound : Sound plan led)
    (resetting : led.mode = .resetting loop) (stored : ∀ j, led.fresh j = true) :
    Dealt { led with mode := .active loop, fresh := fun _ => false } 0 fun j => led.given j := by
  have reset := account.reset loop resetting
  have given : ∀ j, led.given j = 0 := fun j => reset.stored j (stored j)
  refine ⟨0, ?_⟩
  simp [reset.ready sound, account.cursor loop resetting, given, RoundRobin.share_start]

theorem Exact.step {before after : Ledger K} (settles : plan.Settles)
    (sound : Sound plan before) (account : Exact plan before) (step : Step plan before after) :
    Exact plan after := by
  refine ⟨account.toQuiet.step settles sound step, fun current active => ?_,
    fun current resetting => ?_⟩
  · cases step with
    | post j loop opened more => exact account.dealt current active
    | arm j loop now more token => exact account.dealt current active
    | take j loop now more armed => exact account.dealt current active
    | read tag ready waiting => exact (account.dealt current active).read ready tag
    | fetch worker tag stage => exact (account.dealt current active).fetch stage
    | store worker tag loaded stage => exact (account.dealt current active).store stage
    | wrap worker tag stage => exact (account.dealt current active).wrap stage
    | bump worker tag stage => exact (account.dealt current active).bump_given sound stage
    | beginReset loop now another through calm => exact absurd active (by simp)
    | storeSync j loop now => exact absurd (now.symm.trans active) (by simp)
    | storeCursor loop now => exact absurd (now.symm.trans active) (by simp)
    | endReset loop now stored => exact account.endReset sound now stored
  · cases step with
    | beginReset loop active another through calm =>
        obtain ⟨drained, settled⟩ :=
          (account.loop loop active).closed sound active (settles loop another) through
        exact (account.dealt loop active).cursor_eq_zero sound.stage
          (ready_of_drained sound.stage drained) fun j => (settled j).2.2
    | store worker tag loaded stage =>
        have ready := (account.reset current resetting).ready sound
        exact absurd (stage.symm.trans ready) (by simp)
    | wrap worker tag stage =>
        have ready := (account.reset current resetting).ready sound
        exact absurd (stage.symm.trans ready) (by simp)
    | storeCursor loop now => rfl
    | endReset loop now stored => exact absurd resetting (by simp)
    | _ => exact account.cursor current resetting

end FabricBench.Account
