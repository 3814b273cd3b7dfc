import FabricBench.Config
import FabricBench.CommExp.Worker
import FabricBench.Lib.Machine

/-!
The benchmark `pingpong_prg`: worker threads that ping and answer, and progress
threads that hand every completed receive to a worker round robin.

Owns: the state of a job, and `step`, which performs one action of one thread or
of the transport. Each shared memory access of the code is an action of its own:
a worker's test of its `sync` and its decrement, each store of `reset_counters`, and of
a progress thread the read of its cursor for the worker, the read for the sum, the store
of the sum, the comparison with the store behind it, and `++sync`. The transport may
deliver any message in flight, in any order, whenever a receive is posted.

A poll that returns nothing and a test of a zero `sync` change nothing and are no
actions. The machine begins when all progress threads have started and the teams are let
go; what `main` does when its team has ended is in `PingpongPrg.Lifecycle`. Not modelled:
timers and their accumulators, the progress counters, core binding, send completions (the
workers never wait for them) and the exits on transport errors.
-/

namespace FabricBench.PingpongPrg

open FabricBench.Lib

/-- `NUM_PREPOST_RECV` of `pingpong_prg.cpp`. -/
def numPrepostRecv : Nat := 2048

/-- A job of `2 * half` ranks that `main` lets through: `rx_thread_num` divides
`tx_thread_num`. OpenMP needs a positive team. -/
structure Config where
  half : Nat
  txThreadNum : Nat
  rxThreadNum : Nat
  maxSize : Nat
  params : RunParams
  tx_pos : 0 < txThreadNum
  rx_pos : 0 < rxThreadNum
  dvd : rxThreadNum ∣ txThreadNum

/-- Two ranks with four workers and two progress threads each, the shipped
iteration counts and two sizes. -/
def smallJob : Config where
  half := 1
  txThreadNum := 4
  rxThreadNum := 2
  maxSize := 16
  params := ⟨1, skip, total, [8, 16]⟩
  tx_pos := by decide
  rx_pos := by decide
  dvd := by decide

/-- One progress thread can serve one worker, or two. -/
theorem one_serves_one : 1 ∣ 1 := Nat.one_dvd 1

theorem one_serves_two : 1 ∣ 2 := Nat.one_dvd 2

/-- Progress threads are no more than workers. -/
theorem Config.rxThreadNum_le (cfg : Config) : cfg.rxThreadNum ≤ cfg.txThreadNum :=
  Nat.le_of_dvd cfg.tx_pos cfg.dvd

theorem Config.residue_lt (cfg : Config) (i : Nat) : i % cfg.rxThreadNum < cfg.rxThreadNum :=
  Nat.mod_lt _ cfg.rx_pos

variable (cfg : Config)

abbrev Config.size : Nat := 2 * cfg.half

abbrev Rank := Fin cfg.size

abbrev Worker := Fin cfg.txThreadNum

abbrev Prg := Fin cfg.rxThreadNum

def leader : Worker cfg := ⟨0, cfg.tx_pos⟩

variable {cfg}

def partner (r : Rank cfg) : Rank cfg := partnerRank r

def sender (r : Rank cfg) : Bool := sendsFirst r

/-! ## State -/

/-- A message: the worker that sent it, its size and the position of the loop it
was sent in. The position is not on the wire; it is kept to tell the messages of
different loops apart. -/
structure Msg where
  src : Nat
  size : Nat
  loop : Nat
deriving DecidableEq, Repr

/-- A completed receive: the message and the heap offset of the buffer it is in. -/
structure Completion where
  msg : Msg
  buf : Nat
deriving DecidableEq, Repr

/-- Where a progress thread is: polling, at the head of its loop over the
completions, or in one of the steps for the completion in hand, with the worker
index it read and, in front of the store of the sum, the cursor that was read for it. -/
inductive PrgStage where
  | poll
  | read
  | fetch (workerIdx : Nat)
  | store (workerIdx cursor : Nat)
  | wrap (workerIdx : Nat)
  | bump (workerIdx : Nat)
deriving DecidableEq, Repr

/-- `batch` are the completions of the last poll not dispatched yet, `completed`
is `numRecvCompleted`. -/
structure PrgThread where
  stage : PrgStage
  batch : List Completion
  completed : Nat
deriving DecidableEq, Repr

variable (cfg) in
/-- A state of the job. The tables have a row per rank. `given` counts the tokens
handed to a worker since its `sync` was last stored by `reset_counters`; the code
has no such counter. -/
structure State where
  control : Spmd.Control (Rank cfg) (Worker cfg)
  loc : Rank cfg → Worker cfg → Local BodyStage
  syncs : Rank cfg → Nat → Int
  nextWorkerIdxes : Rank cfg → Nat → Nat
  net : Rank cfg → Prg cfg → List Msg
  rq : Rank cfg → Prg cfg → List Nat
  cq : Rank cfg → Prg cfg → List Completion
  prg : Rank cfg → Prg cfg → PrgThread
  given : Rank cfg → Nat → Nat

variable (cfg) in
/-- The heap offset of the receive buffer of worker `workerIdx`. -/
def recvSlot (workerIdx : Nat) : Nat := (2 * workerIdx + 1) * cfg.maxSize

variable (cfg) in
/-- All progress threads have preposted their receives and the teams start. -/
def State.init : State cfg where
  control := Spmd.Control.start
  loc r _ := Local.start (firstStage (sender r))
  syncs _ _ := 0
  nextWorkerIdxes _ p := p
  net _ _ := []
  rq _ p := List.replicate numPrepostRecv (recvSlot cfg p)
  cq _ _ := []
  prg _ _ := ⟨.poll, [], 0⟩
  given _ _ := 0

/-! ## Actions -/

/-- The progress thread of the partner that worker `t` sends to. -/
def route (t : Worker cfg) : Prg cfg := ⟨t % cfg.rxThreadNum, cfg.residue_lt t⟩

/-- The instruction a worker stands at. -/
def State.instr (s : State cfg) (r : Rank cfg) (t : Worker cfg) : Option Instr :=
  (threadCode cfg.params r t)[(s.control r t).pc]?

/-- Go on to the next instruction. -/
def State.advance (s : State cfg) (r : Rank cfg) (t : Worker cfg) : State cfg :=
  { s with
    control := s.control.set r t (s.control r t).next
    loc := put s.loc r t (Local.start (firstStage (sender r))) }

variable (cfg) in
/-- The second half of `incrementWorkerIdx`: back to the first worker of the group. -/
def wrapWorkerIdx (id workerIdx : Nat) : Nat :=
  if cfg.txThreadNum ≤ workerIdx then id else workerIdx

variable (cfg) in
def incrementWorkerIdx (id workerIdx : Nat) : Nat :=
  wrapWorkerIdx cfg id (workerIdx + cfg.rxThreadNum)

variable (cfg) in
inductive Action where
  /-- A move at a barrier or at `pmi_barrier`. -/
  | sync (r : Rank cfg) (t : Worker cfg)
  /-- The current stretch of work is over. -/
  | finish (r : Rank cfg) (t : Worker cfg)
  | send (r : Rank cfg) (t : Worker cfg)
  /-- The worker finds its `sync` nonzero. -/
  | observe (r : Rank cfg) (t : Worker cfg)
  | consume (r : Rank cfg) (t : Worker cfg)
  /-- The next store of `reset_counters` by thread 0. -/
  | store (r : Rank cfg)
  /-- The transport delivers message number `k` in flight to a progress thread. -/
  | deliver (r : Rank cfg) (p : Prg cfg) (k : Nat)
  /-- `progress` returns `count` completions. -/
  | poll (r : Rank cfg) (p : Prg cfg) (count : Nat)
  /-- The next step of a progress thread that is not polling. -/
  | progress (r : Rank cfg) (p : Prg cfg)

/-- The stores of `reset_counters`: thread 0 resets all workers and cursors, the
others return at once. -/
def stores (t : Worker cfg) : Nat :=
  if t = leader cfg then cfg.txThreadNum + cfg.rxThreadNum else 0

/-- A store of `reset_counters`: first all counters, then all cursors. -/
def State.storeNext (s : State cfg) (r : Rank cfg) (syncCount : Int) : Option (State cfg) :=
  let i := (s.loc r (leader cfg)).iter
  if i < cfg.txThreadNum then
    some { s with
      syncs := put s.syncs r i syncCount
      given := put s.given r i 0
      loc := put s.loc r (leader cfg) ⟨i + 1, (s.loc r (leader cfg)).stage⟩ }
  else if i < cfg.txThreadNum + cfg.rxThreadNum then
    some { s with
      nextWorkerIdxes := put s.nextWorkerIdxes r (i - cfg.txThreadNum) (i - cfg.txThreadNum)
      loc := put s.loc r (leader cfg) ⟨i + 1, (s.loc r (leader cfg)).stage⟩ }
  else none

/-- One step of `progress_thread` between two polls. Of the comparison and the store
behind it there is one step: a reset between them stores what is to be stored. -/
def State.progressNext (s : State cfg) (r : Rank cfg) (p : Prg cfg) : Option (State cfg) :=
  let thread := s.prg r p
  match thread.stage with
  | .poll => none
  | .read =>
      match thread.batch with
      | [] =>
          -- refill the receive queue with receive requests
          some { s with
            rq := put s.rq r p (s.rq r p ++
              List.replicate thread.completed (recvSlot cfg (s.nextWorkerIdxes r p)))
            prg := put s.prg r p ⟨.poll, [], 0⟩ }
      | _ :: _ =>
          some { s with
            prg := put s.prg r p { thread with stage := .fetch (s.nextWorkerIdxes r p) } }
  | .fetch workerIdx =>
      some { s with
        prg := put s.prg r p { thread with stage := .store workerIdx (s.nextWorkerIdxes r p) } }
  | .store workerIdx cursor =>
      some { s with
        nextWorkerIdxes := put s.nextWorkerIdxes r p (cursor + cfg.rxThreadNum)
        prg := put s.prg r p { thread with stage := .wrap workerIdx } }
  | .wrap workerIdx =>
      some { s with
        nextWorkerIdxes := put s.nextWorkerIdxes r p
          (wrapWorkerIdx cfg p (s.nextWorkerIdxes r p))
        prg := put s.prg r p { thread with stage := .bump workerIdx } }
  | .bump workerIdx =>
      some { s with
        syncs := put s.syncs r workerIdx (s.syncs r workerIdx + 1)
        given := put s.given r workerIdx (s.given r workerIdx + 1)
        prg := put s.prg r p { thread with stage := .read, batch := thread.batch.tail } }

/-- Perform one action, if it is possible. -/
def step (s : State cfg) : Action cfg → Option (State cfg)
  | .sync r t =>
      (Spmd.syncMove ((threadCode cfg.params r t).map Instr.op) (leader cfg) s.control r t).map
        fun point => { s with control := s.control.set r t point }
  | .finish r t =>
      match s.instr r t with
      | some instr => if workDone (stores t) (s.loc r t) instr then some (s.advance r t) else none
      | none => none
  | .send r t =>
      match s.instr r t with
      | some (.loop iters msgSize) =>
          if (s.loc r t).iter < iters ∧ (s.loc r t).stage = .send then
            some { s with
              net := put s.net (partner r) (route t) (s.net (partner r) (route t) ++
                [⟨t, msgSize, (s.control r t).pc⟩])
              loc := put s.loc r t (afterSend (sender r) (s.loc r t)) }
          else none
      | _ => none
  | .observe r t =>
      match s.instr r t with
      | some (.loop iters _) =>
          if (s.loc r t).iter < iters ∧ (s.loc r t).stage = .wait ∧ s.syncs r t ≠ 0 then
            some { s with loc := put s.loc r t ⟨(s.loc r t).iter, .consume⟩ }
          else none
      | _ => none
  | .consume r t =>
      match s.instr r t with
      | some (.loop iters _) =>
          if (s.loc r t).iter < iters ∧ (s.loc r t).stage = .consume then
            some { s with
              syncs := put s.syncs r t (s.syncs r t - 1)
              loc := put s.loc r t (afterConsume (sender r) (s.loc r t)) }
          else none
      | _ => none
  | .store r =>
      match s.instr r (leader cfg) with
      | some (.resetCounters syncCount) => s.storeNext r syncCount
      | _ => none
  | .deliver r p k =>
      match (s.net r p)[k]?, s.rq r p with
      | some msg, buf :: rest =>
          some { s with
            net := put s.net r p ((s.net r p).eraseIdx k)
            rq := put s.rq r p rest
            cq := put s.cq r p (s.cq r p ++ [⟨msg, buf⟩]) }
      | _, _ => none
  | .poll r p count =>
      if (s.prg r p).stage = .poll ∧ 0 < count ∧ count ≤ numToPoll ∧ count ≤ (s.cq r p).length then
        some { s with
          cq := put s.cq r p ((s.cq r p).drop count)
          prg := put s.prg r p ⟨.read, (s.cq r p).take count, count⟩ }
      else none
  | .progress r p => s.progressNext r p

/-- Some action leads from one state to the other. -/
def Step (s s' : State cfg) : Prop := Machine.Step step s s'

/-- The states of all runs, whatever the order of the actions. -/
def Reachable (s : State cfg) : Prop := Machine.Run step (State.init cfg) s

/-! ## Runs of small jobs -/

/-- The two ranks of a small job. -/
def ping : Fin 2 := ⟨0, Nat.two_pos⟩

def pong : Fin 2 := ⟨1, Nat.one_lt_two⟩

/-- The progress threads of `smallJob`: that of workers 0 and 2, and that of 1 and 3. -/
def evens : Fin 2 := ⟨0, Nat.two_pos⟩

def odds : Fin 2 := ⟨1, Nat.one_lt_two⟩

/-- The only worker, or progress thread, of a rank of `quickJob`. -/
def only : Fin 1 := ⟨0, Nat.one_pos⟩

/-- Rank `r` of `smallJob` comes to the collective of its first `proc_barrier`. -/
def smallEnter (r : Fin 2) : List (Action smallJob) :=
  let others : List (Fin 4) := [1, 2, 3]
  others.flatMap (fun t => [.finish r t, .sync r t]) ++ List.replicate 6 (.store r) ++
    [.finish r (0 : Fin 4)] ++ List.replicate 3 (.sync r (0 : Fin 4)) ++
    others.flatMap fun t => List.replicate 3 (.sync r t)

/-- The rank comes to its first loop. -/
def smallLeave (r : Fin 2) : List (Action smallJob) :=
  List.replicate 3 (.sync r (0 : Fin 4)) ++ [1, 2, 3].map fun (t : Fin 4) => .sync r t

/-- The four workers of rank 0 ping. Of the messages to the first progress thread of rank 1
one is dispatched and its receive posted again, the other one is polled; of those to the
second one has arrived and one is in flight. -/
def smallRun : List (Action smallJob) :=
  smallEnter ping ++ smallEnter pong ++ smallLeave ping ++
    [0, 2, 1, 3].map (fun (t : Fin 4) => .send ping t) ++
    [.deliver pong evens 0, .poll pong evens 1] ++ List.replicate 6 (.progress pong evens) ++
    [.deliver pong evens 0, .poll pong evens 1, .deliver pong odds 0]

/-- Where the messages of `smallRun` are, with a token handed out, the cursor moved and a
receive posted behind it. -/
def SmallRunEnd (s : State smallJob) : Prop :=
  s.net pong odds = [⟨3, 8, 4⟩] ∧
  s.cq pong odds = [⟨⟨1, 8, 4⟩, recvSlot smallJob 1⟩] ∧
  s.prg pong evens = ⟨.read, [⟨⟨2, 8, 4⟩, recvSlot smallJob 0⟩], 1⟩ ∧
  s.syncs pong 0 = 1 ∧ s.nextWorkerIdxes pong 0 = 2 ∧
  (s.rq pong evens).getLast? = some (recvSlot smallJob 2)

instance (s : State smallJob) : Decidable (SmallRunEnd s) := by
  unfold SmallRunEnd
  infer_instance

theorem smallRun_ends :
    ∃ s, Machine.runActions step (State.init smallJob) smallRun = some s ∧ SmallRunEnd s :=
  Machine.exists_of_runActions (by decide +kernel)

/-- Two ranks of one worker and one progress thread each, with one measured iteration. -/
def quickJob (prefilledWork : Nat) : Config where
  half := 1
  txThreadNum := 1
  rxThreadNum := 1
  maxSize := 8
  params := ⟨prefilledWork, 0, 1, [8]⟩
  tx_pos := Nat.one_pos
  rx_pos := Nat.one_pos
  dvd := one_serves_one

section Quick

variable (prefilledWork : Nat)

/-- The worker of a rank goes up to a collective, or from one to the end of its barrier. -/
def quickSync (r : Fin 2) : List (Action (quickJob prefilledWork)) :=
  List.replicate 3 (.sync r only)

def quickReset (r : Fin 2) : List (Action (quickJob prefilledWork)) :=
  [.store r, .store r, .finish r only]

/-- The ranks come to their measured loop. -/
def quickEnter : List (Action (quickJob prefilledWork)) :=
  let sync := quickSync prefilledWork
  let reset := quickReset prefilledWork
  [ping, pong].flatMap (fun r => reset r ++ sync r) ++
  [ping, pong].flatMap (fun r => sync r ++ [.finish r only] ++ sync r) ++
  [ping, pong].flatMap (fun r => sync r ++ reset r ++ sync r) ++ [ping, pong].flatMap sync

/-- From the measured loop they come to the end of their programs. -/
def quickLeave : List (Action (quickJob prefilledWork)) :=
  let sync := quickSync prefilledWork
  [ping, pong].flatMap (fun r =>
    [.finish r only, .finish r only, .sync r only, .sync r only, .finish r only] ++ sync r) ++
  [ping, pong].flatMap sync

end Quick

end FabricBench.PingpongPrg
