import FabricBench.CommExp.Turns
import FabricBench.CommExp.Work

/-!
The loop body of the two symmetric benchmarks: a thread sends and sees its send through,
and it waits for the message of its partner and takes it. `send_thread` begins with the
send and `recv_thread` with the wait.

Owns: the four beats of such a body, what a thread has sent, taken and spent at each of
them (`Rhythm.exchange`, `Rhythm.cost`), and what it means for the team, for the balance of
the messages and for what is left that a thread goes on by a beat (`Rhythm.Goes`).
-/

namespace FabricBench

open FabricBench.Lib

/-- In front of the send, behind it and in front of its end, in front of the wait, and
behind it and in front of the message. -/
inductive Beat where
  | send
  | sent
  | wait
  | take
deriving DecidableEq, Repr

def Beat.first (pings : Bool) : Beat := if pings then .send else .wait

/-- What the current iteration has sent. -/
def Beat.sentExtra (pings : Bool) : Beat → Nat
  | .send => 0
  | .sent => 1
  | .wait | .take => if pings then 1 else 0

def Beat.takenExtra (pings : Bool) : Beat → Nat
  | .send | .sent => if pings then 0 else 1
  | .wait | .take => 0

/-- Each beat is a step, and a message that is sent leaves two more. -/
def Beat.spent (pings : Bool) : Beat → Nat
  | .send => if pings then 0 else 2
  | .sent => if pings then 3 else 5
  | .wait => if pings then 4 else 0
  | .take => if pings then 5 else 1

variable {ι τ σ : Type}

/-- Partners, of whom one pings, and the beats of the stages of their bodies. -/
structure Rhythm (ι σ : Type) where
  partner : ι → ι
  pings : ι → Bool
  beat : σ → Beat
  partner_partner : ∀ i, partner (partner i) = i
  pings_partner : ∀ i, pings (partner i) = !pings i
  beat_injective : Function.Injective beat

def Rhythm.exchange (rhythm : Rhythm ι σ) : Exchange ι σ where
  partner := rhythm.partner
  pings := rhythm.pings
  sentExtra i stage := (rhythm.beat stage).sentExtra (rhythm.pings i)
  takenExtra i stage := (rhythm.beat stage).takenExtra (rhythm.pings i)
  partner_partner := rhythm.partner_partner
  pings_partner := rhythm.pings_partner
  pinger_sent i stage role := by cases rhythm.beat stage <;> simp [Beat.sentExtra, role]
  pinger_taken i stage role := by cases rhythm.beat stage <;> simp [Beat.takenExtra, role]
  answer_sent i stage role := by
    cases rhythm.beat stage <;> simp [Beat.sentExtra, Beat.takenExtra, role]
  answer_taken i stage role := by cases rhythm.beat stage <;> simp [Beat.takenExtra, role]

def Rhythm.cost (rhythm : Rhythm ι σ) : Cost ι σ where
  round := 6
  spent i stage := (rhythm.beat stage).spent (rhythm.pings i)
  spent_le := by
    intro i stage
    cases rhythm.beat stage <;> cases rhythm.pings i <;> simp [Beat.spent]

/-- The thread goes on by a beat, which may end an iteration, and sends, takes and spends as
much. -/
inductive Rhythm.Goes (rhythm : Rhythm ι σ) (i : ι) (l l' : Local σ) : Nat → Nat → Nat → Prop where
  | send (here : rhythm.beat l.stage = .send) (there : rhythm.beat l'.stage = .sent)
      (iter : l'.iter = l.iter) : Goes rhythm i l l' 1 0 3
  | sent (here : rhythm.beat l.stage = .sent) (there : rhythm.beat l'.stage = .wait)
      (iter : l'.iter = l.iter + if rhythm.pings i then 0 else 1) : Goes rhythm i l l' 0 0 1
  | wait (here : rhythm.beat l.stage = .wait) (there : rhythm.beat l'.stage = .take)
      (iter : l'.iter = l.iter) : Goes rhythm i l l' 0 0 1
  | take (here : rhythm.beat l.stage = .take) (there : rhythm.beat l'.stage = .send)
      (iter : l'.iter = l.iter + if rhythm.pings i then 1 else 0) : Goes rhythm i l l' 0 1 1

/-- The bodies of the job begin with the first beat. -/
def Rhythm.Starts (rhythm : Rhythm ι σ) (job : Job ι τ σ) : Prop :=
  ∀ i, rhythm.beat (job.first i) = Beat.first (rhythm.pings i)

variable {rhythm : Rhythm ι σ} {job : Job ι τ σ} {team : Team ι τ σ} {i : ι} {t : τ}
  {l l' : Local σ} {sends takes spends iters msgSize : Nat}

/-! ## Starting -/

theorem Rhythm.Starts.exchange (starts : rhythm.Starts job) : rhythm.exchange.Fresh job where
  sent i := by
    simp only [Rhythm.exchange, starts i]
    cases rhythm.pings i <;> rfl
  taken i := by
    simp only [Rhythm.exchange, starts i]
    cases rhythm.pings i <;> rfl

theorem Rhythm.Starts.cost (starts : rhythm.Starts job) : rhythm.cost.Fresh job := by
  intro i
  simp only [Rhythm.cost, starts i]
  cases rhythm.pings i <;> rfl

/-! ## Going on -/

theorem Rhythm.Goes.sent_eq (goes : rhythm.Goes i l l' sends takes spends) :
    rhythm.exchange.sent i l' = rhythm.exchange.sent i l + sends := by
  cases goes with
  | send here there iter => simp [Exchange.sent, Rhythm.exchange, Beat.sentExtra, here, there, iter]
  | sent here there iter =>
      cases role : rhythm.pings i <;>
        simp [Exchange.sent, Rhythm.exchange, Beat.sentExtra, here, there, iter, role]
  | wait here there iter => simp [Exchange.sent, Rhythm.exchange, Beat.sentExtra, here, there, iter]
  | take here there iter =>
      cases role : rhythm.pings i <;>
        simp [Exchange.sent, Rhythm.exchange, Beat.sentExtra, here, there, iter, role]

theorem Rhythm.Goes.taken_eq (goes : rhythm.Goes i l l' sends takes spends) :
    rhythm.exchange.taken i l' = rhythm.exchange.taken i l + takes := by
  cases goes with
  | send here there iter =>
      simp [Exchange.taken, Rhythm.exchange, Beat.takenExtra, here, there, iter]
  | sent here there iter =>
      cases role : rhythm.pings i <;>
        simp [Exchange.taken, Rhythm.exchange, Beat.takenExtra, here, there, iter, role]
  | wait here there iter =>
      simp [Exchange.taken, Rhythm.exchange, Beat.takenExtra, here, there, iter]
  | take here there iter =>
      cases role : rhythm.pings i <;>
        simp [Exchange.taken, Rhythm.exchange, Beat.takenExtra, here, there, iter, role]

theorem Rhythm.Goes.spentIn_eq (goes : rhythm.Goes i l l' sends takes spends) :
    rhythm.cost.spentIn i l' = rhythm.cost.spentIn i l + spends := by
  cases role : rhythm.pings i with
  | true =>
      cases goes with
      | send here there iter | sent here there iter | wait here there iter | take here there iter =>
          simp [Cost.spentIn, Rhythm.cost, Beat.spent, here, there, iter, role, Nat.succ_mul]
  | false =>
      cases goes with
      | send here there iter | sent here there iter | wait here there iter | take here there iter =>
          simp [Cost.spentIn, Rhythm.cost, Beat.spent, here, there, iter, role, Nat.succ_mul]

/-- Only the beat that ends an iteration comes to the first stage again. -/
theorem Rhythm.Goes.localOk (goes : rhythm.Goes i l l' sends takes spends)
    (starts : rhythm.Starts job) (stores : Nat) (more : l.iter < iters) :
    LocalOk (job.first i) stores (some (.loop iters msgSize)) l' := by
  have first : ∀ {pings : Bool}, rhythm.pings i = pings →
      rhythm.beat l'.stage = Beat.first pings → l'.stage = job.first i := by
    intro pings role there
    exact rhythm.beat_injective (there.trans (role ▸ starts i).symm)
  cases role : rhythm.pings i with
  | true =>
      cases goes with
      | send here there iter | wait here there iter => exact ⟨by omega, fun last => by omega⟩
      | sent here there iter =>
          rw [role, if_pos rfl] at iter
          exact ⟨by omega, fun last => by omega⟩
      | take here there iter =>
          rw [role, if_pos rfl] at iter
          exact ⟨by omega, fun _ => first role there⟩
  | false =>
      cases goes with
      | send here there iter | wait here there iter => exact ⟨by omega, fun last => by omega⟩
      | take here there iter =>
          rw [role, if_neg (by simp)] at iter
          exact ⟨by omega, fun last => by omega⟩
      | sent here there iter =>
          rw [role, if_neg (by simp)] at iter
          exact ⟨by omega, fun _ => first role there⟩

section Team

variable [DecidableEq ι] [DecidableEq τ]

theorem Team.Ok.beat (ok : team.Ok job) (goes : rhythm.Goes i (team.loc i t) l' sends takes spends)
    (starts : rhythm.Starts job) (here : team.instr job i t = some (.loop iters msgSize))
    (more : (team.loc i t).iter < iters) : (team.work i t l').Ok job :=
  ok.work_loop here (goes.localOk starts (job.stores t) more)

theorem Balanced.beat {pending pending' : ι → τ → Int}
    (balanced : Balanced job rhythm.exchange team pending)
    (goes : rhythm.Goes i (team.loc i t) l' sends takes spends)
    (here : team.instr job i t = some (.loop iters msgSize))
    (change : ∀ i' t', pending' i' t' + (if i' = i ∧ t' = t then takes else 0) =
      pending i' t' + if i' = rhythm.partner i ∧ t' = t then sends else 0) :
    Balanced job rhythm.exchange (team.work i t l') pending' :=
  balanced.work here sends takes goes.sent_eq goes.taken_eq change

theorem Team.leftAll_beat [Fintype ι] [Fintype τ] (team : Team ι τ σ)
    (goes : rhythm.Goes i (team.loc i t) l' sends takes spends) (starts : rhythm.Starts job)
    (here : team.instr job i t = some (.loop iters msgSize)) (more : (team.loc i t).iter < iters) :
    (team.work i t l').leftAll job rhythm.cost + spends = team.leftAll job rhythm.cost :=
  team.leftAll_body (job.stores t) starts.cost here goes.spentIn_eq
    (goes.localOk starts (job.stores t) more)

end Team

/-- In front of a message that has not come, a thread waits. -/
theorem Rhythm.waits {stage : σ} (late : rhythm.beat stage = .wait ∨ rhythm.beat stage = .take) :
    rhythm.exchange.Waits i stage := by
  constructor
  · change Beat.takenExtra _ (rhythm.beat stage) = 0
    rcases late with late | late <;> rw [late] <;> rfl
  · change Beat.sentExtra _ (rhythm.beat stage) = _
    rcases late with late | late <;> rw [late] <;> rfl

end FabricBench
