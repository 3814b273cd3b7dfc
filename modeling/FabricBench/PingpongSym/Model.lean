import FabricBench.CommExp.Lockstep
import FabricBench.Config
import FabricBench.Lib.Machine

/-!
The benchmark `pingpong_sym` on the verbs backend: every thread has its own
context with a send and a receive completion queue, and polls them itself.

Owns: the state of a job, `step`, which performs one action of one thread or of
the transport, and `Move`, the inversion of `step`.

A poll takes any number of completions up to `numToPoll` of those that are there,
and the thread leaves its polling loop whatever that number is. A poll that
returns nothing changes nothing and is no action. Not modelled: the exits on
transport errors, timers and their accumulators.
-/

namespace FabricBench.PingpongSym

open FabricBench.Lib

/-- `NUM_PREPOST_RECV` of `pingpong_sym.cpp`. -/
def numPrepostRecv : Nat := rxQueueLen - 3

structure Config where
  half : Nat
  threadNum : Nat
  maxSize : Nat
  params : RunParams
  thread_pos : 0 < threadNum

/-- Two ranks with a thread each and one size. -/
def twoRanks : Config where
  half := 1
  threadNum := 1
  maxSize := 8
  params := ⟨0, 1, 2, [8]⟩
  thread_pos := Nat.one_pos

variable (cfg : Config)

abbrev Rank := Fin (2 * cfg.half)

abbrev Thread := Fin cfg.threadNum

def leader : Thread cfg := ⟨0, cfg.thread_pos⟩

variable {cfg}

def partner (r : Rank cfg) : Rank cfg := partnerRank r

def sender (r : Rank cfg) : Bool := sendsFirst r

/-! ## The body of the loop -/

/-- Where a thread is in the body. `send_thread` goes through `send`, `waitSend`,
`post`, `waitRecv`, and `recv_thread` through `post`, `waitRecv`, `send`,
`waitSend`. -/
inductive Stage where
  | send
  | waitSend
  | post
  | waitRecv
deriving DecidableEq, Repr

def firstStage (sends : Bool) : Stage := if sends then .send else .post

/-- Leaving `while (!progress(send_cq))` ends an iteration of `recv_thread`. -/
def afterSendDone (sends : Bool) (l : Local Stage) : Local Stage :=
  if sends then ⟨l.iter, .post⟩ else ⟨l.iter + 1, .post⟩

/-- Leaving `while (!progress(recv_cq))` ends an iteration of `send_thread`. -/
def afterRecvDone (sends : Bool) (l : Local Stage) : Local Stage :=
  if sends then ⟨l.iter + 1, .send⟩ else ⟨l.iter, .send⟩

/-! ## State -/

/-- A completed receive: the size of the message and the heap offset of the buffer
it is in. -/
structure Completion where
  size : Nat
  buf : Nat
deriving DecidableEq, Repr

variable (cfg) in
/-- A state of the job. For the context of each thread: the sizes of the messages
in flight to it, the buffers of its posted receives, its two completion queues,
and the sends posted and not reported yet. -/
structure State where
  control : Spmd.Control (Rank cfg) (Thread cfg)
  loc : Rank cfg → Thread cfg → Local Stage
  net : Rank cfg → Thread cfg → List Nat
  rq : Rank cfg → Thread cfg → List Nat
  recvCq : Rank cfg → Thread cfg → List Completion
  sendCq : Rank cfg → Thread cfg → Nat
  unacked : Rank cfg → Thread cfg → Nat

/-- The heap offset of a thread's buffer. -/
def threadBuf (t : Thread cfg) : Nat := t * cfg.maxSize

variable (cfg) in
/-- All contexts have their receives preposted and the teams start. -/
def State.init : State cfg where
  control := Spmd.Control.start
  loc r _ := Local.start (firstStage (sender r))
  net _ _ := []
  rq _ t := List.replicate numPrepostRecv (threadBuf t)
  recvCq _ _ := []
  sendCq _ _ := 0
  unacked _ _ := 0

/-- Messages to a thread that are in flight or that it did not poll yet. -/
def State.unconsumed (s : State cfg) (r : Rank cfg) (t : Thread cfg) : Nat :=
  (s.net r t).length + (s.recvCq r t).length

/-! ## Actions -/

def State.instr (s : State cfg) (r : Rank cfg) (t : Thread cfg) : Option Instr :=
  (threadCode cfg.params r t)[(s.control r t).pc]?

/-- Go on to the next instruction. -/
def State.advance (s : State cfg) (r : Rank cfg) (t : Thread cfg) : State cfg :=
  { s with
    control := s.control.set r t (s.control r t).next
    loc := put s.loc r t (Local.start (firstStage (sender r))) }

variable (cfg) in
inductive Action where
  /-- A move at a barrier or at `pmi_barrier`. -/
  | sync (r : Rank cfg) (t : Thread cfg)
  /-- The current stretch of work is over. `reset_counters` has nothing to do. -/
  | finish (r : Rank cfg) (t : Thread cfg)
  | isend (r : Rank cfg) (t : Thread cfg)
  /-- `progress(send_cq)` returns `count`. -/
  | pollSend (r : Rank cfg) (t : Thread cfg) (count : Nat)
  | irecv (r : Rank cfg) (t : Thread cfg)
  /-- `progress(recv_cq)` returns `count`. -/
  | pollRecv (r : Rank cfg) (t : Thread cfg) (count : Nat)
  /-- The transport delivers message number `k` in flight to a context. -/
  | deliver (r : Rank cfg) (t : Thread cfg) (k : Nat)
  /-- The transport reports a send. -/
  | ack (r : Rank cfg) (t : Thread cfg)

/-- Perform one action, if it is possible. -/
def step (s : State cfg) : Action cfg → Option (State cfg)
  | .sync r t =>
      (Spmd.syncMove ((threadCode cfg.params r t).map Instr.op) (leader cfg) s.control r t).map
        fun point => { s with control := s.control.set r t point }
  | .finish r t =>
      match s.instr r t with
      | some instr => if workDone 0 (s.loc r t) instr then some (s.advance r t) else none
      | none => none
  | .isend r t =>
      match s.instr r t with
      | some (.loop iters msgSize) =>
          if (s.loc r t).iter < iters ∧ (s.loc r t).stage = .send then
            some { s with
              net := put s.net (partner r) t (s.net (partner r) t ++ [msgSize])
              unacked := put s.unacked r t (s.unacked r t + 1)
              loc := put s.loc r t ⟨(s.loc r t).iter, .waitSend⟩ }
          else none
      | _ => none
  | .pollSend r t count =>
      match s.instr r t with
      | some (.loop iters _) =>
          if (s.loc r t).iter < iters ∧ (s.loc r t).stage = .waitSend ∧
              0 < count ∧ count ≤ numToPoll ∧ count ≤ s.sendCq r t then
            some { s with
              sendCq := put s.sendCq r t (s.sendCq r t - count)
              loc := put s.loc r t (afterSendDone (sender r) (s.loc r t)) }
          else none
      | _ => none
  | .irecv r t =>
      match s.instr r t with
      | some (.loop iters _) =>
          if (s.loc r t).iter < iters ∧ (s.loc r t).stage = .post then
            some { s with
              rq := put s.rq r t (s.rq r t ++ [threadBuf t])
              loc := put s.loc r t ⟨(s.loc r t).iter, .waitRecv⟩ }
          else none
      | _ => none
  | .pollRecv r t count =>
      match s.instr r t with
      | some (.loop iters _) =>
          if (s.loc r t).iter < iters ∧ (s.loc r t).stage = .waitRecv ∧
              0 < count ∧ count ≤ numToPoll ∧ count ≤ (s.recvCq r t).length then
            some { s with
              recvCq := put s.recvCq r t ((s.recvCq r t).drop count)
              loc := put s.loc r t (afterRecvDone (sender r) (s.loc r t)) }
          else none
      | _ => none
  | .deliver r t k =>
      match (s.net r t)[k]?, s.rq r t with
      | some size, buf :: rest =>
          some { s with
            net := put s.net r t ((s.net r t).eraseIdx k)
            rq := put s.rq r t rest
            recvCq := put s.recvCq r t (s.recvCq r t ++ [⟨size, buf⟩]) }
      | _, _ => none
  | .ack r t =>
      if 0 < s.unacked r t then
        some { s with
          unacked := put s.unacked r t (s.unacked r t - 1)
          sendCq := put s.sendCq r t (s.sendCq r t + 1) }
      else none

/-- The states of all runs, whatever the order of the actions. -/
def Reachable (s : State cfg) : Prop := Machine.Run step (State.init cfg) s

/-! ## Inversion of `step` -/

/-- The steps of the job. -/
inductive Move : State cfg → State cfg → Prop where
  | sync {s : State cfg} (r : Rank cfg) (t : Thread cfg) (point : Spmd.Point)
      (move : Spmd.syncMove (controlProgram cfg.params) (leader cfg) s.control r t = some point) :
      Move s { s with control := s.control.set r t point }
  | finish {s : State cfg} (r : Rank cfg) (t : Thread cfg) (instr : Instr)
      (here : s.instr r t = some instr) (done : workDone 0 (s.loc r t) instr = true) :
      Move s (s.advance r t)
  | isend {s : State cfg} (r : Rank cfg) (t : Thread cfg) (iters msgSize : Nat)
      (here : s.instr r t = some (.loop iters msgSize)) (more : (s.loc r t).iter < iters)
      (stage : (s.loc r t).stage = .send) :
      Move s { s with
        net := put s.net (partner r) t (s.net (partner r) t ++ [msgSize])
        unacked := put s.unacked r t (s.unacked r t + 1)
        loc := put s.loc r t ⟨(s.loc r t).iter, .waitSend⟩ }
  | pollSend {s : State cfg} (r : Rank cfg) (t : Thread cfg) (iters msgSize count : Nat)
      (here : s.instr r t = some (.loop iters msgSize)) (more : (s.loc r t).iter < iters)
      (stage : (s.loc r t).stage = .waitSend) (positive : 0 < count)
      (available : count ≤ s.sendCq r t) :
      Move s { s with
        sendCq := put s.sendCq r t (s.sendCq r t - count)
        loc := put s.loc r t (afterSendDone (sender r) (s.loc r t)) }
  | irecv {s : State cfg} (r : Rank cfg) (t : Thread cfg) (iters msgSize : Nat)
      (here : s.instr r t = some (.loop iters msgSize)) (more : (s.loc r t).iter < iters)
      (stage : (s.loc r t).stage = .post) :
      Move s { s with
        rq := put s.rq r t (s.rq r t ++ [threadBuf t])
        loc := put s.loc r t ⟨(s.loc r t).iter, .waitRecv⟩ }
  | pollRecv {s : State cfg} (r : Rank cfg) (t : Thread cfg) (iters msgSize count : Nat)
      (here : s.instr r t = some (.loop iters msgSize)) (more : (s.loc r t).iter < iters)
      (stage : (s.loc r t).stage = .waitRecv) (positive : 0 < count)
      (available : count ≤ (s.recvCq r t).length) :
      Move s { s with
        recvCq := put s.recvCq r t ((s.recvCq r t).drop count)
        loc := put s.loc r t (afterRecvDone (sender r) (s.loc r t)) }
  | deliver {s : State cfg} (r : Rank cfg) (t : Thread cfg) (k size buf : Nat) (rest : List Nat)
      (found : (s.net r t)[k]? = some size) (posted : s.rq r t = buf :: rest) :
      Move s { s with
        net := put s.net r t ((s.net r t).eraseIdx k)
        rq := put s.rq r t rest
        recvCq := put s.recvCq r t (s.recvCq r t ++ [⟨size, buf⟩]) }
  | ack {s : State cfg} (r : Rank cfg) (t : Thread cfg) (posted : 0 < s.unacked r t) :
      Move s { s with
        unacked := put s.unacked r t (s.unacked r t - 1)
        sendCq := put s.sendCq r t (s.sendCq r t + 1) }

theorem move_of_step {s s' : State cfg} {action : Action cfg} (taken : step s action = some s') :
    Move s s' := by
  cases action with
  | sync r t =>
      simp only [step, threadCode, controlProgram_eq, Option.map_eq_some_iff] at taken
      obtain ⟨point, move, rfl⟩ := taken
      exact .sync r t point move
  | finish r t =>
      simp only [step] at taken
      split at taken
      · next instr here =>
        split_ifs at taken with done
        obtain rfl := Option.some.inj taken
        exact .finish r t instr here done
      · exact absurd taken (by simp)
  | isend r t =>
      simp only [step] at taken
      split at taken
      · next iters msgSize here =>
        split_ifs at taken with guard
        obtain rfl := Option.some.inj taken
        exact .isend r t iters msgSize here guard.1 guard.2
      · exact absurd taken (by simp)
  | pollSend r t count =>
      simp only [step] at taken
      split at taken
      · next iters msgSize here =>
        split_ifs at taken with guard
        obtain ⟨more, stage, positive, -, available⟩ := guard
        obtain rfl := Option.some.inj taken
        exact .pollSend r t iters msgSize count here more stage positive available
      · exact absurd taken (by simp)
  | irecv r t =>
      simp only [step] at taken
      split at taken
      · next iters msgSize here =>
        split_ifs at taken with guard
        obtain rfl := Option.some.inj taken
        exact .irecv r t iters msgSize here guard.1 guard.2
      · exact absurd taken (by simp)
  | pollRecv r t count =>
      simp only [step] at taken
      split at taken
      · next iters msgSize here =>
        split_ifs at taken with guard
        obtain ⟨more, stage, positive, -, available⟩ := guard
        obtain rfl := Option.some.inj taken
        exact .pollRecv r t iters msgSize count here more stage positive available
      · exact absurd taken (by simp)
  | deliver r t k =>
      simp only [step] at taken
      split at taken
      · next size buf rest found posted =>
        obtain rfl := Option.some.inj taken
        exact .deliver r t k size buf rest found posted
      · exact absurd taken (by simp)
  | ack r t =>
      simp only [step] at taken
      split_ifs at taken with posted
      obtain rfl := Option.some.inj taken
      exact .ack r t posted

/-- A property of the initial state that every move keeps holds in every reachable
state. -/
theorem Reachable.invariant (inv : State cfg → Prop) (init : inv (State.init cfg))
    (move : ∀ {s s' : State cfg}, inv s → Move s s' → inv s') {s : State cfg}
    (reachable : Reachable s) : inv s := by
  refine Machine.Run.invariant reachable init fun holds step => ?_
  obtain ⟨action, taken⟩ := step
  exact move holds (move_of_step taken)

end FabricBench.PingpongSym
