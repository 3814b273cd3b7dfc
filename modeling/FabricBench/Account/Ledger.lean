import FabricBench.Lib.RoundRobin

/-!
The token account of one dispatch group: `K` workers of one process, the
dispatcher that hands them tokens, and the peer workers whose messages become
those tokens.

Owns: the account `Ledger`, its transitions `Step`, and the invariant `Sound`
that every run keeps, whatever is in flight: counters never go negative, a
worker's tokens are the prefill plus what it was given less what it took, and a
loop that is not open yet has left no trace.

The work is cut into loops `0, 1, 2, ...`. Before loop `e` the counters are
reset, one store at a time (`Mode.resetting e`); afterwards the account is in
`Mode.active e` until the next reset begins. A message carries the loop it was
sent in as its tag, and may be dispatched in any later one.

It does not own processes, barriers or the code: the models of the programs map
their states to ledgers and their steps to `Step`.
-/

namespace FabricBench.Account

open FabricBench.Lib

/-- Where the dispatcher stands with the message it holds: the chosen worker, the
message's loop and, in front of the store of the sum, the cursor as it was read for it. -/
inductive Stage where
  | ready
  | fetch (worker tag : Nat)
  | store (worker tag loaded : Nat)
  | wrap (worker tag : Nat)
  | bump (worker tag : Nat)
deriving DecidableEq, Repr

/-- Which loop the account serves. -/
inductive Mode where
  | resetting (loop : Nat)
  | active (loop : Nat)
deriving DecidableEq, Repr

/-- Work of `loop` may already have happened. -/
def Mode.Opened : Mode → Nat → Prop
  | .resetting current, loop => loop < current
  | .active current, loop => loop ≤ current

/-- The account of one group. `sent` and `taken` count per worker and loop: what
the peer worker sent, what the own worker took. `given` counts the tokens handed
out since the worker's counter was last reset, `pending` the messages of a loop
that are under way. `armed` marks a worker that has seen a token and not taken
it, `fresh` a worker whose counter the current reset has stored. -/
@[ext]
structure Ledger (K : Nat) where
  sync : Fin K → Int
  armed : Fin K → Bool
  given : Fin K → Nat
  cursor : Nat
  stage : Stage
  pending : Nat → Nat
  sent : Fin K → Nat → Nat
  taken : Fin K → Nat → Nat
  mode : Mode
  fresh : Fin K → Bool

/-- What the loops are: their number, the iterations of each and the tokens each
starts with. -/
structure Plan where
  loops : Nat
  iters : Nat → Nat
  base : Nat → Int
  base_nonneg : ∀ loop, 0 ≤ base loop

variable {K : Nat}

/-- One more in cell `(j, loop)`. -/
def tick (count : Fin K → Nat → Nat) (j : Fin K) (loop : Nat) : Fin K → Nat → Nat :=
  fun i l => if i = j ∧ l = loop then count i l + 1 else count i l

/-- The transitions of the account. -/
inductive Step (plan : Plan) : Ledger K → Ledger K → Prop where
  /-- The peer worker `j` sends a message of `loop`. -/
  | post {led : Ledger K} (j : Fin K) (loop : Nat) (opened : led.mode.Opened loop)
      (more : led.sent j loop < plan.iters loop) :
      Step plan led { led with
        pending := fun l => if l = loop then led.pending l + 1 else led.pending l
        sent := tick led.sent j loop }
  /-- Worker `j` sees a token. -/
  | arm {led : Ledger K} (j : Fin K) (loop : Nat) (active : led.mode = .active loop)
      (more : led.taken j loop < plan.iters loop) (token : led.sync j ≠ 0) :
      Step plan led { led with armed := fun i => if i = j then true else led.armed i }
  /-- Worker `j` takes the token it has seen. -/
  | take {led : Ledger K} (j : Fin K) (loop : Nat) (active : led.mode = .active loop)
      (more : led.taken j loop < plan.iters loop) (armed : led.armed j = true) :
      Step plan led { led with
        sync := fun i => if i = j then led.sync i - 1 else led.sync i
        armed := fun i => if i = j then false else led.armed i
        taken := tick led.taken j loop }
  /-- The dispatcher picks up a message and reads the cursor. -/
  | read {led : Ledger K} (tag : Nat) (ready : led.stage = .ready)
      (waiting : 0 < led.pending tag) :
      Step plan led { led with stage := .fetch led.cursor tag }
  | fetch {led : Ledger K} (worker tag : Nat) (stage : led.stage = .fetch worker tag) :
      Step plan led { led with stage := .store worker tag led.cursor }
  | store {led : Ledger K} (worker tag loaded : Nat)
      (stage : led.stage = .store worker tag loaded) :
      Step plan led { led with cursor := loaded + 1, stage := .wrap worker tag }
  | wrap {led : Ledger K} (worker tag : Nat) (stage : led.stage = .wrap worker tag) :
      Step plan led { led with
        cursor := if K ≤ led.cursor then 0 else led.cursor
        stage := .bump worker tag }
  /-- The dispatcher hands the token over. -/
  | bump {led : Ledger K} (worker tag : Nat) (stage : led.stage = .bump worker tag) :
      Step plan led { led with
        sync := fun i => if i.val = worker then led.sync i + 1 else led.sync i
        given := fun i => if i.val = worker then led.given i + 1 else led.given i
        pending := fun l => if l = tag then led.pending l - 1 else led.pending l
        stage := .ready }
  /-- All workers are through with the loop and the reset for the next one begins. -/
  | beginReset {led : Ledger K} (loop : Nat) (active : led.mode = .active loop)
      (another : loop + 1 < plan.loops) (through : ∀ j, led.taken j loop = plan.iters loop)
      (calm : ∀ j, led.armed j = false) :
      Step plan led { led with mode := .resetting (loop + 1), fresh := fun _ => false }
  | storeSync {led : Ledger K} (j : Fin K) (loop : Nat) (resetting : led.mode = .resetting loop) :
      Step plan led { led with
        sync := fun i => if i = j then plan.base loop else led.sync i
        given := fun i => if i = j then 0 else led.given i
        fresh := fun i => if i = j then true else led.fresh i }
  | storeCursor {led : Ledger K} (loop : Nat) (resetting : led.mode = .resetting loop) :
      Step plan led { led with cursor := 0 }
  | endReset {led : Ledger K} (loop : Nat) (resetting : led.mode = .resetting loop)
      (stored : ∀ j, led.fresh j = true) :
      Step plan led { led with mode := .active loop, fresh := fun _ => false }

/-! ## Sums over the group -/

/-- The messages of `loop` the peers have sent. -/
def Ledger.sentTotal (led : Ledger K) (loop : Nat) : Int := ∑ j, (led.sent j loop : Int)

/-- The tokens handed out since the last reset. -/
def Ledger.givenTotal (led : Ledger K) : Int := ∑ j, (led.given j : Int)

theorem sum_tick (count : Fin K → Nat → Nat) (j : Fin K) (loop l : Nat) :
    ∑ i, (tick count j loop i l : Int) =
      ∑ i, (count i l : Int) + if l = loop then 1 else 0 := by
  by_cases same : l = loop
  · have each : ∀ i, (tick count j loop i l : Int) =
        if i = j then (count i l : Int) + 1 else count i l := by
      intro i
      unfold tick
      split_ifs <;> simp_all
    rw [Finset.sum_congr rfl fun i _ => each i, RoundRobin.sum_update_add, if_pos same]
  · simp [tick, same]

theorem sum_bump (count : Fin K → Nat) {worker : Nat} (below : worker < K) :
    ∑ i, ((if i.val = worker then count i + 1 else count i : Nat) : Int) =
      ∑ i, (count i : Int) + 1 := by
  have each : ∀ i : Fin K, ((if i.val = worker then count i + 1 else count i : Nat) : Int) =
      if i = ⟨worker, below⟩ then (count i : Int) + 1 else count i := by
    intro i
    simp only [Fin.ext_iff]
    split_ifs <;> simp
  simp only [each, RoundRobin.sum_update_add]

/-! ## What every run keeps -/

/-- The cursor is a worker's, one past the last at most while it is wrapped, and a
message in hand is still counted as pending. -/
def StageOk (led : Ledger K) : Prop :=
  match led.stage with
  | .ready => led.cursor < K
  | .fetch worker tag => led.cursor < K ∧ worker < K ∧ 0 < led.pending tag
  | .store worker tag loaded =>
      (led.cursor < K ∧ loaded < K) ∧ worker < K ∧ 0 < led.pending tag
  | .wrap worker tag => led.cursor ≤ K ∧ worker < K ∧ 0 < led.pending tag
  | .bump worker tag => led.cursor < K ∧ worker < K ∧ 0 < led.pending tag

/-- The balance of one worker: in a loop, what it holds and took is what it
started with and was given; after its store in a reset nothing is taken yet. -/
def BalanceOk (plan : Plan) (led : Ledger K) : Prop :=
  match led.mode with
  | .active loop => ∀ j, (led.taken j loop : Int) + led.sync j = plan.base loop + led.given j
  | .resetting loop => ∀ j, led.fresh j = true → led.sync j = plan.base loop + led.given j

/-- Holds in every reachable account. -/
structure Sound (plan : Plan) (led : Ledger K) : Prop where
  stage : StageOk led
  nonneg : ∀ j, 0 ≤ led.sync j
  armed : ∀ j, led.armed j = true → 1 ≤ led.sync j ∧ ∃ loop, led.mode = .active loop
  unopened : ∀ loop, ¬ led.mode.Opened loop →
    led.pending loop = 0 ∧ ∀ j, led.sent j loop = 0 ∧ led.taken j loop = 0
  sentLe : ∀ j loop, led.sent j loop ≤ plan.iters loop
  takenLe : ∀ j loop, led.taken j loop ≤ plan.iters loop
  balance : BalanceOk plan led

/-- The account before anything has happened. -/
def Ledger.empty (K : Nat) (mode : Mode) : Ledger K where
  sync _ := 0
  armed _ := false
  given _ := 0
  cursor := 0
  stage := .ready
  pending _ := 0
  sent _ _ := 0
  taken _ _ := 0
  mode := mode
  fresh _ := false

theorem sound_empty (positive : 0 < K) {plan : Plan} {mode : Mode}
    (base : ∀ loop, mode = .active loop → plan.base loop = 0) :
    Sound plan (Ledger.empty K mode) where
  stage := positive
  nonneg := fun _ => le_refl _
  armed := fun _ now => absurd now (by simp [Ledger.empty])
  unopened := fun _ _ => ⟨rfl, fun _ => ⟨rfl, rfl⟩⟩
  sentLe := fun _ _ => Nat.zero_le _
  takenLe := fun _ _ => Nat.zero_le _
  balance := by
    unfold BalanceOk
    split
    · next loop active =>
      intro j
      rw [base loop active]
      simp [Ledger.empty]
    · intro j stored
      exact absurd stored (by simp [Ledger.empty])

theorem tick_le {count : Fin K → Nat → Nat} {bound : Nat → Nat} {j : Fin K} {loop : Nat}
    (le : ∀ i l, count i l ≤ bound l) (more : count j loop < bound loop) (i : Fin K) (l : Nat) :
    tick count j loop i l ≤ bound l := by
  unfold tick
  split_ifs with same
  · obtain ⟨rfl, rfl⟩ := same
    exact more
  · exact le i l

theorem sound_post {plan : Plan} {led : Ledger K} (sound : Sound plan led) (j : Fin K) (loop : Nat)
    (opened : led.mode.Opened loop) (more : led.sent j loop < plan.iters loop) :
    Sound plan { led with
      pending := fun l => if l = loop then led.pending l + 1 else led.pending l
      sent := tick led.sent j loop } where
  stage := by
    have grows : ∀ tag, 0 < led.pending tag →
        0 < (if tag = loop then led.pending tag + 1 else led.pending tag) := by
      intro tag positive
      split_ifs <;> omega
    have stage := sound.stage
    unfold StageOk at stage ⊢
    split at stage <;> rename_i here <;> simp only [here]
    · exact stage
    all_goals exact ⟨stage.1, stage.2.1, grows _ stage.2.2⟩
  nonneg := sound.nonneg
  armed := sound.armed
  unopened := by
    intro l closed
    have different : l ≠ loop := fun same => closed (same ▸ opened)
    obtain ⟨noPending, none⟩ := sound.unopened l closed
    exact ⟨by simp [different, noPending], fun i => ⟨by simp [tick, different, (none i).1],
      (none i).2⟩⟩
  sentLe := tick_le sound.sentLe more
  takenLe := sound.takenLe
  balance := sound.balance

theorem sound_take {plan : Plan} {led : Ledger K} (sound : Sound plan led) (j : Fin K) (loop : Nat)
    (active : led.mode = .active loop) (more : led.taken j loop < plan.iters loop)
    (armed : led.armed j = true) :
    Sound plan { led with
      sync := fun i => if i = j then led.sync i - 1 else led.sync i
      armed := fun i => if i = j then false else led.armed i
      taken := tick led.taken j loop } where
  stage := sound.stage
  nonneg := by
    intro i
    have token := (sound.armed j armed).1
    have nonneg := sound.nonneg i
    simp only
    split_ifs with same
    · subst same; omega
    · exact nonneg
  armed := by
    intro i now
    simp only at now ⊢
    split_ifs at now ⊢ with same
    exact sound.armed i now
  unopened := by
    intro l closed
    have different : l ≠ loop := by
      rintro rfl
      exact closed (by simp [active, Mode.Opened])
    obtain ⟨noPending, none⟩ := sound.unopened l closed
    exact ⟨noPending, fun i => ⟨(none i).1, by simp [tick, different, (none i).2]⟩⟩
  sentLe := sound.sentLe
  takenLe := tick_le sound.takenLe more
  balance := by
    have balance := sound.balance
    simp only [BalanceOk, active] at balance ⊢
    intro i
    have own := balance i
    unfold tick
    split_ifs <;> simp_all

theorem sound_bump {plan : Plan} {led : Ledger K} (sound : Sound plan led) (worker tag : Nat)
    (stage : led.stage = .bump worker tag) :
    Sound plan { led with
      sync := fun i => if i.val = worker then led.sync i + 1 else led.sync i
      given := fun i => if i.val = worker then led.given i + 1 else led.given i
      pending := fun l => if l = tag then led.pending l - 1 else led.pending l
      stage := .ready } where
  stage := by
    have stageOk := sound.stage
    simp only [StageOk, stage] at stageOk ⊢
    exact stageOk.1
  nonneg := by
    intro i
    have nonneg := sound.nonneg i
    simp only
    split_ifs <;> omega
  armed := by
    intro i now
    obtain ⟨token, mode⟩ := sound.armed i now
    refine ⟨?_, mode⟩
    simp only
    split_ifs <;> omega
  unopened := by
    intro l closed
    obtain ⟨noPending, none⟩ := sound.unopened l closed
    exact ⟨by simp [noPending], none⟩
  sentLe := sound.sentLe
  takenLe := sound.takenLe
  balance := by
    have balance := sound.balance
    unfold BalanceOk at balance ⊢
    simp only
    split at balance
    · intro i
      have own := balance i
      split_ifs <;> push_cast <;> omega
    · intro i stored
      have own := balance i stored
      split_ifs <;> push_cast <;> omega

theorem sound_beginReset {plan : Plan} {led : Ledger K} (sound : Sound plan led) (loop : Nat)
    (active : led.mode = .active loop) (calm : ∀ j, led.armed j = false) :
    Sound plan { led with mode := .resetting (loop + 1), fresh := fun _ => false } where
  stage := sound.stage
  nonneg := sound.nonneg
  armed := by
    intro j now
    rw [calm j] at now
    exact absurd now (by simp)
  unopened := by
    intro l closed
    apply sound.unopened l
    simp only [Mode.Opened, active] at closed ⊢
    omega
  sentLe := sound.sentLe
  takenLe := sound.takenLe
  balance := by
    intro j stored
    exact absurd stored (by simp)

theorem sound_storeSync {plan : Plan} {led : Ledger K} (sound : Sound plan led) (j : Fin K)
    (loop : Nat) (resetting : led.mode = .resetting loop) :
    Sound plan { led with
      sync := fun i => if i = j then plan.base loop else led.sync i
      given := fun i => if i = j then 0 else led.given i
      fresh := fun i => if i = j then true else led.fresh i } where
  stage := sound.stage
  nonneg := by
    intro i
    simp only
    split_ifs
    · exact plan.base_nonneg loop
    · exact sound.nonneg i
  armed := by
    intro i now
    obtain ⟨-, current, active⟩ := sound.armed i now
    rw [resetting] at active
    exact absurd active (by simp)
  unopened := sound.unopened
  sentLe := sound.sentLe
  takenLe := sound.takenLe
  balance := by
    have balance := sound.balance
    simp only [BalanceOk, resetting] at balance ⊢
    intro i stored
    split_ifs at stored ⊢
    · simp
    · exact balance i stored

theorem sound_endReset {plan : Plan} {led : Ledger K} (sound : Sound plan led) (loop : Nat)
    (resetting : led.mode = .resetting loop) (stored : ∀ j, led.fresh j = true) :
    Sound plan { led with mode := .active loop, fresh := fun _ => false } where
  stage := sound.stage
  nonneg := sound.nonneg
  armed := fun j now => ⟨(sound.armed j now).1, loop, rfl⟩
  unopened := by
    intro l closed
    apply sound.unopened l
    simp only [Mode.Opened, resetting] at closed ⊢
    omega
  sentLe := sound.sentLe
  takenLe := sound.takenLe
  balance := by
    have balance := sound.balance
    simp only [BalanceOk, resetting] at balance ⊢
    intro j
    have nothing := ((sound.unopened loop (by simp [resetting, Mode.Opened])).2 j).2
    rw [nothing, balance j (stored j)]
    simp

/-- A step that changes only the dispatcher keeps everything but its own stage
condition to prove. -/
theorem Sound.dispatch {plan : Plan} {led : Ledger K} (sound : Sound plan led) (cursor : Nat)
    (stage : Stage) (stageOk : StageOk { led with cursor := cursor, stage := stage }) :
    Sound plan { led with cursor := cursor, stage := stage } where
  stage := stageOk
  nonneg := sound.nonneg
  armed := sound.armed
  unopened := sound.unopened
  sentLe := sound.sentLe
  takenLe := sound.takenLe
  balance := sound.balance

/-- Another cursor of the group may be stored at every stage. -/
theorem Sound.storeCursor {plan : Plan} {led : Ledger K} (sound : Sound plan led) {cursor : Nat}
    (below : cursor < K) : Sound plan { led with cursor := cursor } := by
  refine sound.dispatch cursor led.stage ?_
  have stageOk := sound.stage
  unfold StageOk at stageOk ⊢
  split at stageOk <;> rename_i here <;> simp only [here]
  · exact below
  · exact ⟨below, stageOk.2⟩
  · exact ⟨⟨below, stageOk.1.2⟩, stageOk.2⟩
  · exact ⟨below.le, stageOk.2⟩
  · exact ⟨below, stageOk.2⟩

theorem Sound.step {plan : Plan} {before after : Ledger K} (positive : 0 < K)
    (sound : Sound plan before) (step : Step plan before after) : Sound plan after := by
  have stageOk := sound.stage
  cases step with
  | post j loop opened more => exact sound_post sound j loop opened more
  | arm j loop active more token =>
      refine ⟨sound.stage, sound.nonneg, ?_, sound.unopened, sound.sentLe, sound.takenLe,
        sound.balance⟩
      intro i now
      by_cases same : i = j
      · subst same
        have nonneg := sound.nonneg i
        exact ⟨by simp only; omega, loop, active⟩
      · exact sound.armed i (by simpa [same] using now)
  | take j loop active more armed => exact sound_take sound j loop active more armed
  | read tag ready waiting =>
      simp only [StageOk, ready] at stageOk
      exact sound.dispatch _ _ ⟨stageOk, stageOk, waiting⟩
  | fetch worker tag stage =>
      simp only [StageOk, stage] at stageOk
      exact sound.dispatch _ _ ⟨⟨stageOk.1, stageOk.1⟩, stageOk.2⟩
  | store worker tag loaded stage =>
      simp only [StageOk, stage] at stageOk
      exact sound.dispatch _ _ ⟨stageOk.1.2, stageOk.2⟩
  | wrap worker tag stage =>
      simp only [StageOk, stage] at stageOk
      refine sound.dispatch _ _ ⟨?_, stageOk.2⟩
      simp only
      split_ifs <;> omega
  | bump worker tag stage => exact sound_bump sound worker tag stage
  | beginReset loop active another through calm => exact sound_beginReset sound loop active calm
  | storeSync j loop resetting => exact sound_storeSync sound j loop resetting
  | storeCursor loop resetting => exact sound.storeCursor positive
  | endReset loop resetting stored => exact sound_endReset sound loop resetting stored

end FabricBench.Account
