import FabricBench.PingpongPrg.Model

/-!
The benchmark `pingpong_prg_ucx` from the start of the teams on: workers that ping and
answer as those of `pingpong_prg` do, and progress threads in which an active-message
callback copies every message into the buffer of a worker and hands it a token.

Owns: the state of a job, `step`, which performs one action of one thread or of the
transport, and `Move`, the inversion of `step`.

`recv_msg_cb` has a reference to the cursor of its progress thread and goes back to it
each time: for the buffer, for the counter, for the addition and for the comparison.
Each of these is an action of its own, and so is the store of the sum, so that the
stores of `reset_counters` may fall between any two of them. The counter is incremented
before the cursor is moved, where `pingpong_prg` does it afterwards.

A progress call without a message and a test of a zero `sync` change nothing and are no
actions. The machine begins when all progress threads have started and the teams are let
go; what `main` does when its team has ended is in `PingpongPrgUcx.Lifecycle`. Not
modelled: the attempts of `isend_tag` that the transport refuses for want of resources (the
UCX workers of the senders have no callback), and sends that fail otherwise, whose status
the code prints or ignores before it goes on; the bytes of a message, timers, progress
counters and core binding.
-/

namespace FabricBench.PingpongPrgUcx

open FabricBench.Lib FabricBench.PingpongPrg

variable (cfg : Config)

/-! ## State -/

/-- Where a progress thread is: outside of the callback, or in front of one of its
accesses. The message is needed up to its token; `bump` has the worker whose counter is
to be incremented and `store` the value of the cursor that was read for the sum. -/
inductive Callback where
  | idle
  | copy (msg : Msg)
  | token (msg : Msg)
  | bump (msg : Msg) (workerNum : Nat)
  | fetch
  | store (workerNum : Nat)
  | wrap
deriving DecidableEq, Repr

/-- A state of the job. The tables have a row per rank; a buffer holds the message that
was copied last. `given` counts the tokens handed to a worker since its `sync` was last
stored by `reset_counters`; the code has no such counter. -/
structure State where
  control : Spmd.Control (Rank cfg) (Worker cfg)
  loc : Rank cfg → Worker cfg → Local BodyStage
  syncs : Rank cfg → Nat → Int
  nextWorkerIdxes : Rank cfg → Nat → Nat
  bufs : Rank cfg → Nat → Option Msg
  net : Rank cfg → Prg cfg → List Msg
  callback : Rank cfg → Prg cfg → Callback
  given : Rank cfg → Nat → Nat

/-- All progress threads are started and the teams start. -/
def State.init : State cfg where
  control := Spmd.Control.start
  loc r _ := Local.start (firstStage (sender r))
  syncs _ _ := 0
  nextWorkerIdxes _ p := p
  bufs _ _ := none
  net _ _ := []
  callback _ _ := .idle
  given _ _ := 0

/-! ## Actions -/

inductive Action where
  /-- A move at a barrier or at `pmi_barrier`. -/
  | sync (r : Rank cfg) (t : Worker cfg)
  /-- The current stretch of work is over. -/
  | finish (r : Rank cfg) (t : Worker cfg)
  /-- The transport accepts the message of `isend_tag`. -/
  | send (r : Rank cfg) (t : Worker cfg)
  /-- The worker finds its `sync` nonzero. -/
  | observe (r : Rank cfg) (t : Worker cfg)
  | consume (r : Rank cfg) (t : Worker cfg)
  /-- The next store of `reset_counters` by thread 0. -/
  | store (r : Rank cfg)
  /-- `uct_worker_progress` calls `recv_msg_cb` for message number `k` in flight. -/
  | receive (r : Rank cfg) (p : Prg cfg) (k : Nat)
  /-- The next step of a callback. -/
  | callback (r : Rank cfg) (p : Prg cfg)

variable {cfg}

def State.instr (s : State cfg) (r : Rank cfg) (t : Worker cfg) : Option Instr :=
  (threadCode cfg.params r t)[(s.control r t).pc]?

/-- Go on to the next instruction. -/
def State.advance (s : State cfg) (r : Rank cfg) (t : Worker cfg) : State cfg :=
  { s with
    control := s.control.set r t (s.control r t).next
    loc := put s.loc r t (Local.start (firstStage (sender r))) }

/-- A store of `reset_counters`: first all counters, then all cursors. -/
def State.storeNext (s : State cfg) (r : Rank cfg) (syncCount : Int) : Option (State cfg) :=
  let i := (s.loc r (leader cfg)).iter
  if i < cfg.txThreadNum then
    some { s with
      syncs := put s.syncs r i syncCount
      given := put s.given r i 0
      loc := put s.loc r (leader cfg) ⟨i + 1, (s.loc r (leader cfg)).stage⟩ }
  else if i < cfg.txThreadNum + cfg.rxThreadNum then
    some { s with
      nextWorkerIdxes := put s.nextWorkerIdxes r (i - cfg.txThreadNum) (i - cfg.txThreadNum)
      loc := put s.loc r (leader cfg) ⟨i + 1, (s.loc r (leader cfg)).stage⟩ }
  else none

/-- One step of `recv_msg_cb`. Of the comparison and the store behind it there is one
step: a reset between them stores what is to be stored. -/
def State.callbackNext (s : State cfg) (r : Rank cfg) (p : Prg cfg) : Option (State cfg) :=
  match s.callback r p with
  | .idle => none
  | .copy msg =>
      some { s with
        bufs := put s.bufs r (s.nextWorkerIdxes r p) (some msg)
        callback := put s.callback r p (.token msg) }
  | .token msg =>
      some { s with callback := put s.callback r p (.bump msg (s.nextWorkerIdxes r p)) }
  | .bump _ workerNum =>
      some { s with
        syncs := put s.syncs r workerNum (s.syncs r workerNum + 1)
        given := put s.given r workerNum (s.given r workerNum + 1)
        callback := put s.callback r p .fetch }
  | .fetch => some { s with callback := put s.callback r p (.store (s.nextWorkerIdxes r p)) }
  | .store workerNum =>
      some { s with
        nextWorkerIdxes := put s.nextWorkerIdxes r p (workerNum + cfg.rxThreadNum)
        callback := put s.callback r p .wrap }
  | .wrap =>
      some { s with
        nextWorkerIdxes := put s.nextWorkerIdxes r p
          (wrapWorkerIdx cfg p (s.nextWorkerIdxes r p))
        callback := put s.callback r p .idle }

/-- Perform one action, if it is possible. -/
def step (s : State cfg) : Action cfg → Option (State cfg)
  | .sync r t =>
      (Spmd.syncMove ((threadCode cfg.params r t).map Instr.op) (leader cfg) s.control r t).map
        fun point => { s with control := s.control.set r t point }
  | .finish r t =>
      match s.instr r t with
      | some instr => if workDone (stores t) (s.loc r t) instr then some (s.advance r t) else none
      | none => none
  | .send r t =>
      match s.instr r t with
      | some (.loop iters msgSize) =>
          if (s.loc r t).iter < iters ∧ (s.loc r t).stage = .send then
            some { s with
              net := put s.net (partner r) (route t) (s.net (partner r) (route t) ++
                [⟨t, msgSize, (s.control r t).pc⟩])
              loc := put s.loc r t (afterSend (sender r) (s.loc r t)) }
          else none
      | _ => none
  | .observe r t =>
      match s.instr r t with
      | some (.loop iters _) =>
          if (s.loc r t).iter < iters ∧ (s.loc r t).stage = .wait ∧ s.syncs r t ≠ 0 then
            some { s with loc := put s.loc r t ⟨(s.loc r t).iter, .consume⟩ }
          else none
      | _ => none
  | .consume r t =>
      match s.instr r t with
      | some (.loop iters _) =>
          if (s.loc r t).iter < iters ∧ (s.loc r t).stage = .consume then
            some { s with
              syncs := put s.syncs r t (s.syncs r t - 1)
              loc := put s.loc r t (afterConsume (sender r) (s.loc r t)) }
          else none
      | _ => none
  | .store r =>
      match s.instr r (leader cfg) with
      | some (.resetCounters syncCount) => s.storeNext r syncCount
      | _ => none
  | .receive r p k =>
      match (s.net r p)[k]?, s.callback r p with
      | some msg, .idle =>
          some { s with
            net := put s.net r p ((s.net r p).eraseIdx k)
            callback := put s.callback r p (.copy msg) }
      | _, _ => none
  | .callback r p => s.callbackNext r p

/-- The states of all runs, whatever the order of the actions. -/
def Reachable (s : State cfg) : Prop := Machine.Run step (State.init cfg) s

/-! ## Inversion of `step` -/

/-- The steps of the job. -/
inductive Move : State cfg → State cfg → Prop where
  | sync {s : State cfg} (r : Rank cfg) (t : Worker cfg) (point : Spmd.Point)
      (move : Spmd.syncMove (controlProgram cfg.params) (leader cfg) s.control r t = some point) :
      Move s { s with control := s.control.set r t point }
  | finish {s : State cfg} (r : Rank cfg) (t : Worker cfg) (instr : Instr)
      (here : s.instr r t = some instr) (done : workDone (stores t) (s.loc r t) instr = true) :
      Move s (s.advance r t)
  | send {s : State cfg} (r : Rank cfg) (t : Worker cfg) (iters msgSize : Nat)
      (here : s.instr r t = some (.loop iters msgSize)) (more : (s.loc r t).iter < iters)
      (stage : (s.loc r t).stage = .send) :
      Move s { s with
        net := put s.net (partner r) (route t) (s.net (partner r) (route t) ++
          [⟨t, msgSize, (s.control r t).pc⟩])
        loc := put s.loc r t (afterSend (sender r) (s.loc r t)) }
  | observe {s : State cfg} (r : Rank cfg) (t : Worker cfg) (iters msgSize : Nat)
      (here : s.instr r t = some (.loop iters msgSize)) (more : (s.loc r t).iter < iters)
      (stage : (s.loc r t).stage = .wait) (token : s.syncs r t ≠ 0) :
      Move s { s with loc := put s.loc r t ⟨(s.loc r t).iter, .consume⟩ }
  | consume {s : State cfg} (r : Rank cfg) (t : Worker cfg) (iters msgSize : Nat)
      (here : s.instr r t = some (.loop iters msgSize)) (more : (s.loc r t).iter < iters)
      (stage : (s.loc r t).stage = .consume) :
      Move s { s with
        syncs := put s.syncs r t (s.syncs r t - 1)
        loc := put s.loc r t (afterConsume (sender r) (s.loc r t)) }
  | storeSync {s : State cfg} (r : Rank cfg) (syncCount : Int) (i : Nat)
      (here : s.instr r (leader cfg) = some (.resetCounters syncCount))
      (iter : (s.loc r (leader cfg)).iter = i) (below : i < cfg.txThreadNum) :
      Move s { s with
        syncs := put s.syncs r i syncCount
        given := put s.given r i 0
        loc := put s.loc r (leader cfg) ⟨i + 1, (s.loc r (leader cfg)).stage⟩ }
  | storeCursor {s : State cfg} (r : Rank cfg) (syncCount : Int) (p : Prg cfg)
      (here : s.instr r (leader cfg) = some (.resetCounters syncCount))
      (iter : (s.loc r (leader cfg)).iter = cfg.txThreadNum + p) :
      Move s { s with
        nextWorkerIdxes := put s.nextWorkerIdxes r p p
        loc := put s.loc r (leader cfg)
          ⟨cfg.txThreadNum + p + 1, (s.loc r (leader cfg)).stage⟩ }
  | receive {s : State cfg} (r : Rank cfg) (p : Prg cfg) (k : Nat) (msg : Msg)
      (found : (s.net r p)[k]? = some msg) (idle : s.callback r p = .idle) :
      Move s { s with
        net := put s.net r p ((s.net r p).eraseIdx k)
        callback := put s.callback r p (.copy msg) }
  | copy {s : State cfg} (r : Rank cfg) (p : Prg cfg) (msg : Msg)
      (stage : s.callback r p = .copy msg) :
      Move s { s with
        bufs := put s.bufs r (s.nextWorkerIdxes r p) (some msg)
        callback := put s.callback r p (.token msg) }
  | token {s : State cfg} (r : Rank cfg) (p : Prg cfg) (msg : Msg)
      (stage : s.callback r p = .token msg) :
      Move s { s with callback := put s.callback r p (.bump msg (s.nextWorkerIdxes r p)) }
  | bump {s : State cfg} (r : Rank cfg) (p : Prg cfg) (msg : Msg) (workerNum : Nat)
      (stage : s.callback r p = .bump msg workerNum) :
      Move s { s with
        syncs := put s.syncs r workerNum (s.syncs r workerNum + 1)
        given := put s.given r workerNum (s.given r workerNum + 1)
        callback := put s.callback r p .fetch }
  | fetch {s : State cfg} (r : Rank cfg) (p : Prg cfg) (stage : s.callback r p = .fetch) :
      Move s { s with callback := put s.callback r p (.store (s.nextWorkerIdxes r p)) }
  | store {s : State cfg} (r : Rank cfg) (p : Prg cfg) (workerNum : Nat)
      (stage : s.callback r p = .store workerNum) :
      Move s { s with
        nextWorkerIdxes := put s.nextWorkerIdxes r p (workerNum + cfg.rxThreadNum)
        callback := put s.callback r p .wrap }
  | wrap {s : State cfg} (r : Rank cfg) (p : Prg cfg) (stage : s.callback r p = .wrap) :
      Move s { s with
        nextWorkerIdxes := put s.nextWorkerIdxes r p
          (wrapWorkerIdx cfg p (s.nextWorkerIdxes r p))
        callback := put s.callback r p .idle }

theorem move_of_store {s s' : State cfg} {r : Rank cfg} {syncCount : Int}
    (here : s.instr r (leader cfg) = some (.resetCounters syncCount))
    (taken : s.storeNext r syncCount = some s') : Move s s' := by
  simp only [State.storeNext] at taken
  split_ifs at taken with counters cursors
  · obtain rfl := Option.some.inj taken
    exact .storeSync r syncCount _ here rfl counters
  · obtain rfl := Option.some.inj taken
    have iter : (s.loc r (leader cfg)).iter =
        cfg.txThreadNum + ((s.loc r (leader cfg)).iter - cfg.txThreadNum) := by omega
    have move := Move.storeCursor r syncCount
      ⟨(s.loc r (leader cfg)).iter - cfg.txThreadNum, by omega⟩ here iter
    simp only [← iter] at move
    exact move

theorem move_of_callback {s s' : State cfg} {r : Rank cfg} {p : Prg cfg}
    (taken : s.callbackNext r p = some s') : Move s s' := by
  unfold State.callbackNext at taken
  cases stage : s.callback r p with
  | idle => simp [stage] at taken
  | copy msg =>
      simp only [stage, Option.some.injEq] at taken
      exact taken ▸ .copy r p msg stage
  | token msg =>
      simp only [stage, Option.some.injEq] at taken
      exact taken ▸ .token r p msg stage
  | bump msg workerNum =>
      simp only [stage, Option.some.injEq] at taken
      exact taken ▸ .bump r p msg workerNum stage
  | fetch =>
      simp only [stage, Option.some.injEq] at taken
      exact taken ▸ .fetch r p stage
  | store workerNum =>
      simp only [stage, Option.some.injEq] at taken
      exact taken ▸ .store r p workerNum stage
  | wrap =>
      simp only [stage, Option.some.injEq] at taken
      exact taken ▸ .wrap r p stage

theorem move_of_step {s s' : State cfg} {action : Action cfg} (taken : step s action = some s') :
    Move s s' := by
  cases action with
  | sync r t =>
      simp only [step, threadCode, controlProgram_eq, Option.map_eq_some_iff] at taken
      obtain ⟨point, move, rfl⟩ := taken
      exact .sync r t point move
  | finish r t =>
      simp only [step] at taken
      split at taken
      · next instr here =>
        split_ifs at taken with done
        obtain rfl := Option.some.inj taken
        exact .finish r t instr here done
      · exact absurd taken (by simp)
  | send r t =>
      simp only [step] at taken
      split at taken
      · next iters msgSize here =>
        split_ifs at taken with guard
        obtain rfl := Option.some.inj taken
        exact .send r t iters msgSize here guard.1 guard.2
      · exact absurd taken (by simp)
  | observe r t =>
      simp only [step] at taken
      split at taken
      · next iters msgSize here =>
        split_ifs at taken with guard
        obtain rfl := Option.some.inj taken
        exact .observe r t iters msgSize here guard.1 guard.2.1 guard.2.2
      · exact absurd taken (by simp)
  | consume r t =>
      simp only [step] at taken
      split at taken
      · next iters msgSize here =>
        split_ifs at taken with guard
        obtain rfl := Option.some.inj taken
        exact .consume r t iters msgSize here guard.1 guard.2
      · exact absurd taken (by simp)
  | store r =>
      simp only [step] at taken
      split at taken
      · next syncCount here => exact move_of_store here taken
      · exact absurd taken (by simp)
  | receive r p k =>
      simp only [step] at taken
      split at taken
      · next msg found idle =>
        obtain rfl := Option.some.inj taken
        exact .receive r p k msg found idle
      · exact absurd taken (by simp)
  | callback r p => exact move_of_callback taken

/-- Every move is a step. -/
theorem Move.step {s s' : State cfg} (move : Move s s') : ∃ action, step s action = some s' := by
  cases move with
  | sync r t point move =>
      exact ⟨.sync r t, by simp [PingpongPrgUcx.step, threadCode, controlProgram_eq, move]⟩
  | finish r t instr here done => exact ⟨.finish r t, by simp [PingpongPrgUcx.step, here, done]⟩
  | send r t iters msgSize here more stage =>
      exact ⟨.send r t, by simp [PingpongPrgUcx.step, here, more, stage]⟩
  | observe r t iters msgSize here more stage token =>
      exact ⟨.observe r t, by simp [PingpongPrgUcx.step, here, more, stage, token]⟩
  | consume r t iters msgSize here more stage =>
      exact ⟨.consume r t, by simp [PingpongPrgUcx.step, here, more, stage]⟩
  | storeSync r syncCount i here iter below =>
      exact ⟨.store r, by simp [PingpongPrgUcx.step, here, State.storeNext, iter, below]⟩
  | storeCursor r syncCount p here iter =>
      exact ⟨.store r, by simp [PingpongPrgUcx.step, here, State.storeNext, iter]⟩
  | receive r p k msg found idle =>
      exact ⟨.receive r p k, by simp [PingpongPrgUcx.step, found, idle]⟩
  | copy r p msg stage =>
      exact ⟨.callback r p, by simp [PingpongPrgUcx.step, State.callbackNext, stage]⟩
  | token r p msg stage =>
      exact ⟨.callback r p, by simp [PingpongPrgUcx.step, State.callbackNext, stage]⟩
  | bump r p msg workerNum stage =>
      exact ⟨.callback r p, by simp [PingpongPrgUcx.step, State.callbackNext, stage]⟩
  | fetch r p stage =>
      exact ⟨.callback r p, by simp [PingpongPrgUcx.step, State.callbackNext, stage]⟩
  | store r p workerNum stage =>
      exact ⟨.callback r p, by simp [PingpongPrgUcx.step, State.callbackNext, stage]⟩
  | wrap r p stage =>
      exact ⟨.callback r p, by simp [PingpongPrgUcx.step, State.callbackNext, stage]⟩

/-! ## Runs of small jobs -/

/-- Two ranks with two workers and one progress thread each, one iteration of warm-up and
one measured. -/
def pairJob : Config where
  half := 1
  txThreadNum := 2
  rxThreadNum := 1
  maxSize := 8
  params := ⟨0, 1, 1, [8]⟩
  tx_pos := Nat.two_pos
  rx_pos := Nat.one_pos
  dvd := one_serves_two

def pinger : Rank pairJob := ⟨0, Nat.two_pos⟩

def ponger : Rank pairJob := ⟨1, Nat.one_lt_two⟩

def first : Worker pairJob := ⟨0, Nat.two_pos⟩

def second : Worker pairJob := ⟨1, Nat.one_lt_two⟩

def dealer : Prg pairJob := ⟨0, Nat.one_pos⟩

/-- Both ranks reset their counters and meet, the first worker pings, and the callback of
the message goes as far as its token. -/
def toFirstToken : List (Action pairJob) :=
  [.store pinger, .store pinger, .store pinger, .store ponger, .store ponger, .store ponger,
    .finish pinger first, .sync pinger first, .finish pinger second, .sync pinger second,
    .sync pinger first, .sync pinger first, .sync pinger second, .sync pinger second,
    .sync pinger second, .finish ponger first, .sync ponger first, .finish ponger second,
    .sync ponger second, .sync ponger first, .sync ponger first, .sync pinger first,
    .sync pinger first, .sync pinger first, .send pinger first, .receive ponger dealer 0,
    .callback ponger dealer, .callback ponger dealer]

/-- The first worker is answered, and so is the second one; the callback of the second
answer goes no further than its token, and the worker of that token brings its rank to the
next reset. -/
def toReset : List (Action pairJob) :=
  List.flatten [toFirstToken, List.replicate 4 (.callback ponger dealer),
    [.sync pinger second, .send pinger second, .receive ponger dealer 0],
    List.replicate 6 (.callback ponger dealer),
    [.sync ponger first, .sync ponger first, .sync ponger second, .sync ponger second,
      .sync ponger second, .sync ponger first, .observe ponger first, .consume ponger first,
      .send ponger first, .receive pinger dealer 0],
    List.replicate 6 (.callback pinger dealer),
    [.observe pinger first, .consume pinger first, .finish pinger first, .sync pinger first,
      .finish ponger first, .sync ponger first, .sync ponger second, .observe ponger second,
      .consume ponger second, .send ponger second, .receive pinger dealer 0],
    List.replicate 3 (.callback pinger dealer),
    [.observe pinger second, .consume pinger second, .finish pinger second, .sync pinger second,
      .sync pinger first, .sync pinger first, .sync pinger second, .sync pinger second,
      .sync pinger second, .finish ponger second, .sync ponger second, .sync ponger first,
      .sync ponger first, .sync pinger first, .sync pinger first, .sync pinger first]]

/-- What a worker of `pingpong_prg` does a worker does here. -/
def Action.ofTeam : PingpongPrg.Action cfg → Option (Action cfg)
  | .sync r t => some (.sync r t)
  | .finish r t => some (.finish r t)
  | .send r t => some (.send r t)
  | .observe r t => some (.observe r t)
  | .consume r t => some (.consume r t)
  | .store r => some (.store r)
  | .deliver _ _ _ | .poll _ _ _ | .progress _ _ => none

/-- A ping and its answer in `quickJob`. -/
def quickExchange : List (Action (quickJob 0)) :=
  let receive (r : Fin 2) : List (Action (quickJob 0)) :=
    [.receive r only 0] ++ List.replicate 6 (.callback r only) ++
      [.observe r only, .consume r only]
  [.send ping only] ++ receive pong ++ [.send pong only] ++ receive ping

end FabricBench.PingpongPrgUcx
