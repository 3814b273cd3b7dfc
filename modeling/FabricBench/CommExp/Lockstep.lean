import FabricBench.CommExp.Rounds

/-!
Two processes that exchange one message and one answer in every iteration, for
any benchmark whose loop body does that.

Owns: `Exchange`, which says who is whose partner, who pings, and what the stages
of a body have sent and taken; `Balanced`, by which the messages not taken yet are
those the partner sent and the thread did not take; and its two consequences. A
pair never has more than one message between its two threads (`pair_le_one`), and
none is left over when the counters are reset (`pending_at_reset`).
-/

namespace FabricBench

open FabricBench.Lib

variable {ι τ σ : Type}

/-- A pinging process sends and then takes the answer; its partner takes the
message and then answers. The extras count what the current iteration has sent and
taken so far. -/
structure Exchange (ι σ : Type) where
  partner : ι → ι
  pings : ι → Bool
  sentExtra : ι → σ → Nat
  takenExtra : ι → σ → Nat
  partner_partner : ∀ i, partner (partner i) = i
  pings_partner : ∀ i, pings (partner i) = !pings i
  pinger_sent : ∀ i stage, pings i = true → sentExtra i stage ≤ 1
  pinger_taken : ∀ i stage, pings i = true → takenExtra i stage = 0
  answer_sent : ∀ i stage, pings i = false → sentExtra i stage ≤ takenExtra i stage
  answer_taken : ∀ i stage, pings i = false → takenExtra i stage ≤ 1

variable {job : Job ι τ σ} {ex : Exchange ι σ} {team : Team ι τ σ} {pending : ι → τ → Int}
  {i : ι} {t : τ}

theorem Exchange.sentExtra_le (ex : Exchange ι σ) (i : ι) (stage : σ) :
    ex.sentExtra i stage ≤ 1 := by
  cases role : ex.pings i with
  | true => exact ex.pinger_sent i stage role
  | false => exact (ex.answer_sent i stage role).trans (ex.answer_taken i stage role)

theorem Exchange.takenExtra_le (ex : Exchange ι σ) (i : ι) (stage : σ) :
    ex.takenExtra i stage ≤ 1 := by
  cases role : ex.pings i with
  | true => exact (ex.pinger_taken i stage role).le.trans (Nat.zero_le 1)
  | false => exact ex.answer_taken i stage role

theorem Exchange.partner_eq_iff (ex : Exchange ι σ) {i i' : ι} :
    ex.partner i' = i ↔ i' = ex.partner i := by
  constructor
  · rintro rfl
    exact (ex.partner_partner i').symm
  · rintro rfl
    exact ex.partner_partner i

/-- What a thread has sent in the current loop. -/
def Exchange.sent (ex : Exchange ι σ) (i : ι) (l : Local σ) : Nat := l.iter + ex.sentExtra i l.stage

def Exchange.taken (ex : Exchange ι σ) (i : ι) (l : Local σ) : Nat :=
  l.iter + ex.takenExtra i l.stage

/-- A body starts with nothing sent or taken. -/
structure Exchange.Fresh (ex : Exchange ι σ) (job : Job ι τ σ) : Prop where
  sent : ∀ i, ex.sentExtra i (job.first i) = 0
  taken : ∀ i, ex.takenExtra i (job.first i) = 0

/-- What is pending for a thread is what its partner sent and it did not take. -/
def Balanced (job : Job ι τ σ) (ex : Exchange ι σ) (team : Team ι τ σ) (pending : ι → τ → Int) :
    Prop :=
  ∀ i t, pending i t + team.count job ex.takenExtra i t =
    team.count job ex.sentExtra (ex.partner i) t

theorem balanced_start (fresh : ex.Fresh job) :
    Balanced job ex (Team.start job) fun (_ : ι) (_ : τ) => 0 := by
  intro i t
  rw [Team.count_start job fresh.taken, Team.count_start job fresh.sent]
  rfl

/-! ## Consequences -/

/-- The pinger's side of `Balanced.pair_le_one`. -/
theorem Balanced.pair_le_one_of_pings (balanced : Balanced job ex team pending)
    (role : ex.pings i = true) : pending i t + pending (ex.partner i) t ≤ 1 := by
  have toPinger := balanced i t
  have toPartner := balanced (ex.partner i) t
  have answers : ex.pings (ex.partner i) = false := by rw [ex.pings_partner, role]; rfl
  have sent := ex.pinger_sent i (team.loc i t).stage role
  have taken := ex.pinger_taken i (team.loc i t).stage role
  have answered := ex.answer_sent (ex.partner i) (team.loc (ex.partner i) t).stage answers
  rw [ex.partner_partner] at toPartner
  unfold Team.count at toPinger toPartner
  omega

/-- A pair never has more than one message on the way or waiting. -/
theorem Balanced.pair_le_one (balanced : Balanced job ex team pending) (i : ι) (t : τ) :
    pending i t + pending (ex.partner i) t ≤ 1 := by
  cases role : ex.pings i with
  | true => exact balanced.pair_le_one_of_pings role
  | false =>
      have partnerPings : ex.pings (ex.partner i) = true := by rw [ex.pings_partner, role]; rfl
      have pair := balanced.pair_le_one_of_pings (t := t) partnerPings
      rw [ex.partner_partner] at pair
      omega

/-- While the leader of a process resets the counters, nothing is pending for the
threads of the process that its partner could have sent. -/
theorem Balanced.pending_at_reset (balanced : Balanced job ex team pending)
    (fresh : ex.Fresh job) (ok : team.Ok job) {syncCount : Int}
    (here : team.instr job i job.leader = some (.resetCounters syncCount)) (t : τ) :
    pending i t ≤ 0 := by
  obtain ⟨e, below, position, -⟩ := reset_position here
  have before : (team.control (ex.partner i) t).pc < 8 * e + 4 := by
    -- a thread in loop `e` or later would have seen this leader past the reset
    by_contra inLoop
    rcases reached_of_loop ok.synced below (Nat.not_lt.mp inLoop) i job.leader with past | entered
    · omega
    · omega
  have behind : ∀ e', e' < e → 8 * e' + 4 < (team.control i t).pc := by
    intro e' earlier
    have left := left_of_past ok.synced (i := i) (t := job.leader)
      (show e' < job.params.loops by omega) (by omega) t
    omega
  have sent := ok.count_le fresh.sent ex.sentExtra_le below.le before
  have taken := le_rounds (team.loc i t).iter below.le behind
  have equal := balanced i t
  unfold Team.count at equal sent
  omega

/-! ## Moves -/

variable [DecidableEq ι] [DecidableEq τ]

/-- Going on sends and takes nothing. -/
theorem Balanced.goTo [Fintype ι] [Fintype τ] {point : Spmd.Point}
    (balanced : Balanced job ex team pending) (ok : team.Ok job) (next : team.Next job i t point) :
    Balanced job ex (team.goTo job i t point) pending := by
  intro i' t'
  rw [Team.count_goTo ok next, Team.count_goTo ok next]
  exact balanced i' t'

theorem Balanced.sync [Fintype ι] [Fintype τ] {point : Spmd.Point}
    (balanced : Balanced job ex team pending) (ok : team.Ok job)
    (move : Spmd.syncMove (controlProgram job.params) job.leader team.control i t = some point) :
    Balanced job ex { team with control := team.control.set i t point } pending := by
  rw [ok.sync_eq move]
  exact balanced.goTo ok (.sync point move)

/-- Neither does a store of `reset_counters`. -/
theorem Balanced.store {l : Local σ} {syncCount : Int} (balanced : Balanced job ex team pending)
    (here : team.instr job i t = some (.resetCounters syncCount))
    (stage : l.stage = (team.loc i t).stage) : Balanced job ex (team.work i t l) pending := by
  obtain ⟨e, -, position, -⟩ := reset_position here
  have outside : ∀ e', (team.control i t).pc ≠ 8 * e' + 4 := by
    intro e'
    rw [position]
    omega
  intro i' t'
  rw [Team.count_work_outside outside stage, Team.count_work_outside outside stage]
  exact balanced i' t'

/-- Work inside a loop is balanced if what is pending changes by what the thread
sends and takes. -/
theorem Balanced.work {l : Local σ} {iters msgSize : Nat} {pending' : ι → τ → Int}
    (balanced : Balanced job ex team pending)
    (here : team.instr job i t = some (.loop iters msgSize)) (sends takes : Nat)
    (sent : ex.sent i l = ex.sent i (team.loc i t) + sends)
    (taken : ex.taken i l = ex.taken i (team.loc i t) + takes)
    (change : ∀ i' t', pending' i' t' + (if i' = i ∧ t' = t then takes else 0) =
      pending i' t' + if i' = ex.partner i ∧ t' = t then sends else 0) :
    Balanced job ex (team.work i t l) pending' := by
  have takenCount : ∀ i' t', (team.work i t l).count job ex.takenExtra i' t' =
      team.count job ex.takenExtra i' t' + if i' = i ∧ t' = t then takes else 0 := by
    intro i' t'
    by_cases same : i' = i ∧ t' = t
    · obtain ⟨rfl, rfl⟩ := same
      have counted := Team.count_work_same ex.takenExtra l here
      unfold Exchange.taken at taken
      rw [if_pos ⟨rfl, rfl⟩]
      omega
    · rw [Team.count_work_of_ne same, if_neg same, Nat.add_zero]
  have sentCount : ∀ i' t', (team.work i t l).count job ex.sentExtra i' t' =
      team.count job ex.sentExtra i' t' + if i' = i ∧ t' = t then sends else 0 := by
    intro i' t'
    by_cases same : i' = i ∧ t' = t
    · obtain ⟨rfl, rfl⟩ := same
      have counted := Team.count_work_same ex.sentExtra l here
      unfold Exchange.sent at sent
      rw [if_pos ⟨rfl, rfl⟩]
      omega
    · rw [Team.count_work_of_ne same, if_neg same, Nat.add_zero]
  intro i' t'
  have old := balanced i' t'
  have changed := change i' t'
  rw [takenCount, sentCount]
  simp only [ex.partner_eq_iff]
  push_cast at changed ⊢
  omega

end FabricBench
