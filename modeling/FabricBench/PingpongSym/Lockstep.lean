import FabricBench.CommExp.Beats
import FabricBench.PingpongSym.Model

/-!
`pingpong_sym` runs in lockstep: its invariant, and what follows for the
completion queues and the receive queue of every context.
-/

namespace FabricBench.PingpongSym

open FabricBench.Lib

variable {cfg : Config}

/-! ## Definitions -/

/-- What the team runs. `reset_counters` stores nothing. -/
def job (cfg : Config) : Job (Rank cfg) (Thread cfg) Stage where
  params := cfg.params
  report r t := decide (r.val = 0 ∧ t.val = 0)
  leader := leader cfg
  first r := firstStage (sender r)
  stores _ := 0

/-- Waiting for a message begins with a receive that is posted. -/
def Stage.beat : Stage → Beat
  | .send => .send
  | .waitSend => .sent
  | .post => .wait
  | .waitRecv => .take

def rhythm (cfg : Config) : Rhythm (Rank cfg) Stage where
  partner := partner
  pings := sender
  beat := Stage.beat
  partner_partner := partnerRank_partnerRank
  pings_partner := sendsFirst_partnerRank
  beat_injective := by
    intro stage stage' same
    cases stage <;> cases stage' <;> simp_all [Stage.beat]

def State.team (s : State cfg) : Team (Rank cfg) (Thread cfg) Stage := ⟨s.control, s.loc⟩

/-- One if a send is posted that the thread waits for. -/
def sendsPosted : Stage → Nat
  | .waitSend => 1
  | _ => 0

/-- One if the receive of the current iteration is posted. -/
def recvsPosted : Stage → Nat
  | .waitRecv => 1
  | _ => 0

/-- The queues of a context, by the stage of its thread: posted sends are reported
once, and posted receives are reported once. -/
structure Queues (stage : Stage) (sendCq unacked posted arrived : Nat) : Prop where
  sends : sendCq + unacked = sendsPosted stage
  receives : posted + arrived = numPrepostRecv + recvsPosted stage

/-- Holds in every reachable state. -/
structure Inv (s : State cfg) : Prop where
  team : s.team.Ok (job cfg)
  balanced : Balanced (job cfg) (rhythm cfg).exchange s.team fun r t => s.unconsumed r t
  queues : ∀ r t, Queues (s.loc r t).stage (s.sendCq r t) (s.unacked r t) (s.rq r t).length
    (s.recvCq r t).length

/-! ## The stages of the body -/

theorem starts (cfg : Config) : (rhythm cfg).Starts (job cfg) := by
  intro r
  change Stage.beat (firstStage (sender r)) = Beat.first (sender r)
  cases sender r <;> rfl

theorem queues_first (sends : Bool) : Queues (firstStage sends) 0 0 numPrepostRecv 0 := by
  cases sends <;> exact ⟨rfl, rfl⟩

section Queues

variable {stage : Stage} {sendCq unacked posted arrived count : Nat}

theorem Queues.isend (old : Queues .send sendCq unacked posted arrived) :
    Queues .waitSend sendCq (unacked + 1) posted arrived where
  sends := congrArg Nat.succ old.sends
  receives := old.receives

theorem Queues.pollSend (old : Queues .waitSend sendCq unacked posted arrived)
    (positive : 0 < count)
    (available : count ≤ sendCq) : Queues .post (sendCq - count) unacked posted arrived where
  sends := by
    have sends := old.sends
    simp only [sendsPosted] at sends ⊢
    omega
  receives := old.receives

theorem Queues.irecv (old : Queues .post sendCq unacked posted arrived) :
    Queues .waitRecv sendCq unacked (posted + 1) arrived where
  sends := old.sends
  receives := by
    have receives := old.receives
    simp only [recvsPosted] at receives ⊢
    omega

/-- A poll takes the only completion. -/
theorem Queues.pollRecv (old : Queues .waitRecv sendCq unacked posted arrived) (few : arrived ≤ 1)
    (positive : 0 < count) (available : count ≤ arrived) :
    Queues .send sendCq unacked posted (arrived - count) where
  sends := old.sends
  receives := by
    have receives := old.receives
    simp only [recvsPosted] at receives ⊢
    omega

theorem Queues.deliver (old : Queues stage sendCq unacked (posted + 1) arrived) :
    Queues stage sendCq unacked posted (arrived + 1) where
  sends := old.sends
  receives := by
    have receives := old.receives
    omega

theorem Queues.ack (old : Queues stage sendCq unacked posted arrived) (waiting : 0 < unacked) :
    Queues stage (sendCq + 1) (unacked - 1) posted arrived where
  sends := by
    have sends := old.sends
    omega
  receives := old.receives

end Queues

section Body

variable {r : Rank cfg} {l : Local Stage}

theorem afterSendDone_stage (sends : Bool) : (afterSendDone sends l).stage = .post := by
  cases sends <;> rfl

theorem afterRecvDone_stage (sends : Bool) : (afterRecvDone sends l).stage = .send := by
  cases sends <;> rfl

theorem goes_isend (stage : l.stage = .send) :
    (rhythm cfg).Goes r l ⟨l.iter, .waitSend⟩ 1 0 3 :=
  .send (congrArg Stage.beat stage) rfl rfl

theorem goes_afterSendDone (stage : l.stage = .waitSend) :
    (rhythm cfg).Goes r l (afterSendDone (sender r) l) 0 0 1 := by
  refine .sent (congrArg Stage.beat stage) (congrArg Stage.beat (afterSendDone_stage _)) ?_
  change _ = l.iter + if sender r = true then 0 else 1
  cases sender r <;> rfl

theorem goes_irecv (stage : l.stage = .post) :
    (rhythm cfg).Goes r l ⟨l.iter, .waitRecv⟩ 0 0 1 :=
  .wait (congrArg Stage.beat stage) rfl rfl

theorem goes_afterRecvDone (stage : l.stage = .waitRecv) :
    (rhythm cfg).Goes r l (afterRecvDone (sender r) l) 0 1 1 := by
  refine .take (congrArg Stage.beat stage) (congrArg Stage.beat (afterRecvDone_stage _)) ?_
  change _ = l.iter + if sender r = true then 1 else 0
  cases sender r <;> rfl

end Body

/-! ## Consequences of the invariant -/

section Consequences

variable {s : State cfg} {r : Rank cfg} {t : Thread cfg}

theorem Inv.pair_le_one (inv : Inv s) (r : Rank cfg) (t : Thread cfg) :
    s.unconsumed r t + s.unconsumed (partner r) t ≤ 1 := by
  have pair := inv.balanced.pair_le_one r t
  change (s.unconsumed r t : Int) + s.unconsumed (partner r) t ≤ 1 at pair
  omega

/-- No more than one receive waits to be polled. -/
theorem Inv.recvCq_le_one (inv : Inv s) (r : Rank cfg) (t : Thread cfg) :
    (s.recvCq r t).length ≤ 1 := by
  have pair := inv.pair_le_one r t
  unfold State.unconsumed at pair
  omega

theorem Inv.sendCq_le_one (inv : Inv s) (r : Rank cfg) (t : Thread cfg) : s.sendCq r t ≤ 1 := by
  have sends := (inv.queues r t).sends
  have posted : sendsPosted (s.loc r t).stage ≤ 1 := by
    cases (s.loc r t).stage <;> simp [sendsPosted]
  omega

/-- The posted receives stay within one of the preposted ones. -/
theorem Inv.rq_bounds (inv : Inv s) (r : Rank cfg) (t : Thread cfg) :
    numPrepostRecv - 1 ≤ (s.rq r t).length ∧ (s.rq r t).length ≤ numPrepostRecv + 1 := by
  have receives := (inv.queues r t).receives
  have arrived := inv.recvCq_le_one r t
  have posted : recvsPosted (s.loc r t).stage ≤ 1 := by
    cases (s.loc r t).stage <;> simp [recvsPosted]
  omega

end Consequences

/-! ## The moves keep the invariant -/

theorem team_step {s s' : State cfg} (ok : s.team.Ok (job cfg)) (move : Move s s') :
    s'.team.Ok (job cfg) := by
  cases move with
  | sync r t point move => exact ok.sync move
  | finish r t instr here done => exact ok.goTo (.finish instr here done)
  | isend r t iters msgSize here more stage =>
      exact ok.beat (goes_isend stage) (starts cfg) here more
  | pollSend r t iters msgSize count here more stage positive available =>
      exact ok.beat (goes_afterSendDone stage) (starts cfg) here more
  | irecv r t iters msgSize here more stage =>
      exact ok.beat (goes_irecv stage) (starts cfg) here more
  | pollRecv r t iters msgSize count here more stage positive available =>
      exact ok.beat (goes_afterRecvDone stage) (starts cfg) here more
  | deliver r t k size buf rest found posted => exact ok
  | ack r t posted => exact ok

theorem balanced_step {s s' : State cfg} (inv : Inv s) (move : Move s s') :
    Balanced (job cfg) (rhythm cfg).exchange s'.team fun r t => s'.unconsumed r t := by
  cases move with
  | sync r t point move => exact inv.balanced.sync inv.team move
  | finish r t instr here done => exact inv.balanced.goTo inv.team (.finish instr here done)
  | isend r t iters msgSize here more stage =>
      refine inv.balanced.beat (goes_isend stage) here fun r' t' => ?_
      simp only [State.unconsumed]
      by_cases same : r' = partner r ∧ t' = t
      · obtain ⟨rfl, rfl⟩ := same
        simp [rhythm]
        omega
      · simp [put_of_ne _ _ same, rhythm, same]
  | pollSend r t iters msgSize count here more stage positive available =>
      refine inv.balanced.beat (goes_afterSendDone stage) here fun r' t' => ?_
      simp only [State.unconsumed, ite_self]
  | irecv r t iters msgSize here more stage =>
      refine inv.balanced.beat (goes_irecv stage) here fun r' t' => ?_
      simp only [State.unconsumed, ite_self]
  | pollRecv r t iters msgSize count here more stage positive available =>
      -- only one completion can be there, so the poll returned one
      have arrived := inv.recvCq_le_one r t
      refine inv.balanced.beat (goes_afterRecvDone stage) here fun r' t' => ?_
      simp only [State.unconsumed, ite_self]
      by_cases same : r' = r ∧ t' = t
      · obtain ⟨rfl, rfl⟩ := same
        simp
        omega
      · simp [put_of_ne _ _ same, same]
  | deliver r t k size buf rest found posted =>
      have below : k < (s.net r t).length := (List.getElem?_eq_some_iff.mp found).1
      have same : ∀ r' t', State.unconsumed { s with
          net := put s.net r t ((s.net r t).eraseIdx k)
          rq := put s.rq r t rest
          recvCq := put s.recvCq r t (s.recvCq r t ++ [⟨size, buf⟩]) } r' t' =
            s.unconsumed r' t' := by
        intro r' t'
        simp only [State.unconsumed]
        by_cases same : r' = r ∧ t' = t
        · obtain ⟨rfl, rfl⟩ := same
          simp [List.length_eraseIdx, below]
          omega
        · simp only [put_of_ne _ _ same]
      simp only [same]
      exact inv.balanced
  | ack r t posted => exact inv.balanced

theorem queues_step {s s' : State cfg} (inv : Inv s) (move : Move s s') :
    ∀ r t, Queues (s'.loc r t).stage (s'.sendCq r t) (s'.unacked r t) (s'.rq r t).length
      (s'.recvCq r t).length := by
  cases move with
  | sync r t point move => exact inv.queues
  | finish r t instr here done =>
      intro r' t'
      have next : s.team.Next (job cfg) r t (s.control r t).next := .finish instr here done
      have stage := next.goTo_stage inv.team r' t'
      change ((s.advance r t).loc r' t').stage = (s.loc r' t').stage at stage
      rw [stage]
      exact inv.queues r' t'
  | isend r t iters msgSize here more stage =>
      refine forall_entries r t ?_ ?_
      · have old := inv.queues r t
        rw [stage] at old
        simp only [put_same]
        exact old.isend
      · intro r' t' different
        simp only [put_of_ne _ _ different]
        exact inv.queues r' t'
  | pollSend r t iters msgSize count here more stage positive available =>
      refine forall_entries r t ?_ ?_
      · have old := inv.queues r t
        rw [stage] at old
        simp only [put_same, afterSendDone_stage]
        exact old.pollSend positive available
      · intro r' t' different
        simp only [put_of_ne _ _ different]
        exact inv.queues r' t'
  | irecv r t iters msgSize here more stage =>
      refine forall_entries r t ?_ ?_
      · have old := inv.queues r t
        rw [stage] at old
        simp only [put_same, List.length_append, List.length_singleton]
        exact old.irecv
      · intro r' t' different
        simp only [put_of_ne _ _ different]
        exact inv.queues r' t'
  | pollRecv r t iters msgSize count here more stage positive available =>
      refine forall_entries r t ?_ ?_
      · have old := inv.queues r t
        rw [stage] at old
        simp only [put_same, afterRecvDone_stage, List.length_drop]
        exact old.pollRecv (inv.recvCq_le_one r t) positive available
      · intro r' t' different
        simp only [put_of_ne _ _ different]
        exact inv.queues r' t'
  | deliver r t k size buf rest found posted =>
      refine forall_entries r t ?_ ?_
      · have old := inv.queues r t
        rw [posted, List.length_cons] at old
        simp only [put_same, List.length_append, List.length_singleton]
        exact old.deliver
      · intro r' t' different
        simp only [put_of_ne _ _ different]
        exact inv.queues r' t'
  | ack r t posted =>
      refine forall_entries r t ?_ ?_
      · simp only [put_same]
        exact (inv.queues r t).ack posted
      · intro r' t' different
        simp only [put_of_ne _ _ different]
        exact inv.queues r' t'

theorem inv_init (cfg : Config) : Inv (State.init cfg) where
  team := Team.ok_start (job cfg)
  balanced := balanced_start (starts cfg).exchange
  queues := fun r t => by
    simp only [State.init, Local.start, List.length_replicate, List.length_nil]
    exact queues_first _

theorem Inv.move {s s' : State cfg} (inv : Inv s) (move : Move s s') : Inv s' where
  team := team_step inv.team move
  balanced := balanced_step inv move
  queues := queues_step inv move

theorem Reachable.inv {s : State cfg} (reachable : Reachable s) : Inv s :=
  reachable.invariant Inv (inv_init cfg) Inv.move

/-! ## Polls -/

section Polls

variable {s s' : State cfg} {r : Rank cfg} {t : Thread cfg} {count : Nat}

/-- A poll that ends the wait for a send returns its one completion. -/
theorem Inv.pollSend_one (inv : Inv s) (taken : step s (.pollSend r t count) = some s') :
    count = 1 ∧ s'.sendCq r t = 0 := by
  have few := inv.sendCq_le_one r t
  simp only [step] at taken
  split at taken
  · split_ifs at taken with guard
    obtain rfl := Option.some.inj taken
    simp only [put_same]
    omega
  · exact absurd taken (by simp)

theorem Inv.pollRecv_one (inv : Inv s) (taken : step s (.pollRecv r t count) = some s') :
    count = 1 ∧ s'.recvCq r t = [] := by
  have few := inv.recvCq_le_one r t
  simp only [step] at taken
  split at taken
  · split_ifs at taken with guard
    obtain rfl := Option.some.inj taken
    simp only [put_same]
    exact ⟨by omega, List.drop_eq_nil_of_le (by omega)⟩
  · exact absurd taken (by simp)

end Polls

end FabricBench.PingpongSym
