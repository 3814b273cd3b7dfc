import FabricBench.CommExp.Lockstep
import FabricBench.Config
import FabricBench.Lib.Machine

/-!
The benchmark `pingpong_sym_ucx`: every worker has its own UCX worker and
progresses it itself, and the active-message callback hands it a token.

Owns: the state of a job, `step`, which performs one action of one worker, `definedStep`,
which has only those whose behaviour the language defines, and `Move`, the inversion of
`step`.

The callback runs inside `uct_worker_progress`. That is called while a worker waits
for its `sync`, but also inside `isend_tag`: after every attempt to send, whether
the message was accepted or not. Its copy into the buffer and its `sync++` are two
actions. A failed attempt and a progress call without a message change nothing and
are no actions. `isend_am_short` and `isend_am_bcopy` have the same loop around
different calls of the transport and are one action. Not modelled: sends that fail for
another reason than want of resources, whose status the code prints or ignores before it
goes on; timers and their accumulators. `step` goes past a report of thread 0 of rank 0 as
past any other one.
-/

namespace FabricBench.PingpongSymUcx

open FabricBench.Lib

/-- `prefilled_work` is 0 in this benchmark and no argument sets it. -/
structure Config where
  half : Nat
  txThreadNum : Nat
  params : RunParams
  tx_pos : 0 < txThreadNum
  no_prefill : params.prefilledWork = 0

/-- Two ranks with a worker each and one size. -/
def twoRanks : Config where
  half := 1
  txThreadNum := 1
  params := ⟨0, 1, 2, [8]⟩
  tx_pos := Nat.one_pos
  no_prefill := rfl

variable (cfg : Config)

abbrev Rank := Fin (2 * cfg.half)

abbrev Worker := Fin cfg.txThreadNum

def leader : Worker cfg := ⟨0, cfg.tx_pos⟩

variable {cfg}

def partner (r : Rank cfg) : Rank cfg := partnerRank r

def sender (r : Rank cfg) : Bool := sendsFirst r

/-! ## The body of the loop -/

/-- Where a worker is in the body. `send_thread` goes through `send`, `flush`,
`wait`, `consume`, and `recv_thread` through `wait`, `consume`, `send`, `flush`. At
`flush` the message is accepted and `isend_tag` makes its last progress call. -/
inductive Stage where
  | send
  | flush
  | wait
  | consume
deriving DecidableEq, Repr

/-- The worker is in a loop around `uct_worker_progress`. -/
def Stage.progresses : Stage → Bool
  | .consume => false
  | _ => true

def firstStage (sends : Bool) : Stage := if sends then .send else .wait

/-- The return of `isend_tag` ends an iteration of `recv_thread`. -/
def afterFlush (sends : Bool) (l : Local Stage) : Local Stage :=
  if sends then ⟨l.iter, .wait⟩ else ⟨l.iter + 1, .wait⟩

/-- `--sync` ends an iteration of `send_thread`. -/
def afterConsume (sends : Bool) (l : Local Stage) : Local Stage :=
  if sends then ⟨l.iter + 1, .send⟩ else ⟨l.iter, .send⟩

/-! ## State -/

variable (cfg) in
/-- A state of the job. For each worker: the sizes of the messages in flight to it,
the message its callback has copied and not counted yet, what is in its buffer, and
its counter. -/
structure State where
  control : Spmd.Control (Rank cfg) (Worker cfg)
  loc : Rank cfg → Worker cfg → Local Stage
  net : Rank cfg → Worker cfg → List Nat
  callback : Rank cfg → Worker cfg → Option Nat
  bufs : Rank cfg → Worker cfg → Nat
  syncs : Rank cfg → Worker cfg → Int

variable (cfg) in
def State.init : State cfg where
  control := Spmd.Control.start
  loc r _ := Local.start (firstStage (sender r))
  net _ _ := []
  callback _ _ := none
  bufs _ _ := 0
  syncs _ _ := 0

/-- Messages to a worker that are in flight, in its callback or not consumed yet. -/
def State.unconsumed (s : State cfg) (r : Rank cfg) (t : Worker cfg) : Int :=
  (s.net r t).length + (s.callback r t).toList.length + s.syncs r t

/-! ## Actions -/

def State.instr (s : State cfg) (r : Rank cfg) (t : Worker cfg) : Option Instr :=
  (threadCode cfg.params r t)[(s.control r t).pc]?

/-- Go on to the next instruction. -/
def State.advance (s : State cfg) (r : Rank cfg) (t : Worker cfg) : State cfg :=
  { s with
    control := s.control.set r t (s.control r t).next
    loc := put s.loc r t (Local.start (firstStage (sender r))) }

/-- The stores of `reset_counters`: thread 0 resets all workers. -/
def stores (t : Worker cfg) : Nat := if t = leader cfg then cfg.txThreadNum else 0

variable (cfg) in
inductive Action where
  /-- A move at a barrier or at `pmi_barrier`. -/
  | sync (r : Rank cfg) (t : Worker cfg)
  /-- The current stretch of work is over. -/
  | finish (r : Rank cfg) (t : Worker cfg)
  /-- The transport accepts the message of `isend_tag`. -/
  | send (r : Rank cfg) (t : Worker cfg)
  /-- The progress call after that is over. -/
  | flush (r : Rank cfg) (t : Worker cfg)
  /-- `recv_msg_cb` starts on message number `k` in flight and copies it. -/
  | receive (r : Rank cfg) (t : Worker cfg) (k : Nat)
  /-- `recv_msg_cb` increments `sync` and returns. -/
  | bump (r : Rank cfg) (t : Worker cfg)
  /-- The worker finds its `sync` nonzero. -/
  | observe (r : Rank cfg) (t : Worker cfg)
  | consume (r : Rank cfg) (t : Worker cfg)
  /-- The next store of `reset_counters` by thread 0. -/
  | store (r : Rank cfg)

/-- Perform one action, if it is possible. A worker whose callback runs does
nothing else. -/
def step (s : State cfg) : Action cfg → Option (State cfg)
  | .sync r t =>
      (Spmd.syncMove ((threadCode cfg.params r t).map Instr.op) (leader cfg) s.control r t).map
        fun point => { s with control := s.control.set r t point }
  | .finish r t =>
      match s.instr r t with
      | some instr => if workDone (stores t) (s.loc r t) instr then some (s.advance r t) else none
      | none => none
  | .send r t =>
      match s.instr r t with
      | some (.loop iters msgSize) =>
          if (s.loc r t).iter < iters ∧ (s.loc r t).stage = .send ∧ s.callback r t = none then
            some { s with
              net := put s.net (partner r) t (s.net (partner r) t ++ [msgSize])
              loc := put s.loc r t ⟨(s.loc r t).iter, .flush⟩ }
          else none
      | _ => none
  | .flush r t =>
      match s.instr r t with
      | some (.loop iters _) =>
          if (s.loc r t).iter < iters ∧ (s.loc r t).stage = .flush ∧ s.callback r t = none then
            some { s with loc := put s.loc r t (afterFlush (sender r) (s.loc r t)) }
          else none
      | _ => none
  | .receive r t k =>
      match s.instr r t, (s.net r t)[k]? with
      | some (.loop iters _), some size =>
          if (s.loc r t).iter < iters ∧ (s.loc r t).stage.progresses ∧ s.callback r t = none then
            some { s with
              net := put s.net r t ((s.net r t).eraseIdx k)
              bufs := put s.bufs r t size
              callback := put s.callback r t (some size) }
          else none
      | _, _ => none
  | .bump r t =>
      match s.callback r t with
      | some _ =>
          some { s with
            callback := put s.callback r t none
            syncs := put s.syncs r t (s.syncs r t + 1) }
      | none => none
  | .observe r t =>
      match s.instr r t with
      | some (.loop iters _) =>
          if (s.loc r t).iter < iters ∧ (s.loc r t).stage = .wait ∧ s.callback r t = none ∧
              s.syncs r t ≠ 0 then
            some { s with loc := put s.loc r t ⟨(s.loc r t).iter, .consume⟩ }
          else none
      | _ => none
  | .consume r t =>
      match s.instr r t with
      | some (.loop iters _) =>
          if (s.loc r t).iter < iters ∧ (s.loc r t).stage = .consume ∧ s.callback r t = none then
            some { s with
              syncs := put s.syncs r t (s.syncs r t - 1)
              loc := put s.loc r t (afterConsume (sender r) (s.loc r t)) }
          else none
      | _ => none
  | .store r =>
      match s.instr r (leader cfg) with
      | some (.resetCounters syncCount) =>
          if more : (s.loc r (leader cfg)).iter < cfg.txThreadNum then
            some { s with
              syncs := put s.syncs r ⟨(s.loc r (leader cfg)).iter, more⟩ syncCount
              loc := put s.loc r (leader cfg)
                ⟨(s.loc r (leader cfg)).iter + 1, (s.loc r (leader cfg)).stage⟩ }
          else none
      | _ => none

/-- The steps up to a report of thread 0 of rank 0. With `show_extra_stats`, which is set in
this benchmark, the report calls `get_additional_stats`; that has no `return`, and what the
program does from there on is undefined. -/
def definedStep (s : State cfg) : Action cfg → Option (State cfg)
  | .finish r t => if s.instr r t = some (.report true) then none else step s (.finish r t)
  | action => step s action

/-- The states of all runs, whatever the order of the actions. -/
def Reachable (s : State cfg) : Prop := Machine.Run step (State.init cfg) s

/-! ## Inversion of `step` -/

/-- The steps of the job. -/
inductive Move : State cfg → State cfg → Prop where
  | sync {s : State cfg} (r : Rank cfg) (t : Worker cfg) (point : Spmd.Point)
      (move : Spmd.syncMove (controlProgram cfg.params) (leader cfg) s.control r t = some point) :
      Move s { s with control := s.control.set r t point }
  | finish {s : State cfg} (r : Rank cfg) (t : Worker cfg) (instr : Instr)
      (here : s.instr r t = some instr) (done : workDone (stores t) (s.loc r t) instr = true) :
      Move s (s.advance r t)
  | send {s : State cfg} (r : Rank cfg) (t : Worker cfg) (iters msgSize : Nat)
      (here : s.instr r t = some (.loop iters msgSize)) (more : (s.loc r t).iter < iters)
      (stage : (s.loc r t).stage = .send) :
      Move s { s with
        net := put s.net (partner r) t (s.net (partner r) t ++ [msgSize])
        loc := put s.loc r t ⟨(s.loc r t).iter, .flush⟩ }
  | flush {s : State cfg} (r : Rank cfg) (t : Worker cfg) (iters msgSize : Nat)
      (here : s.instr r t = some (.loop iters msgSize)) (more : (s.loc r t).iter < iters)
      (stage : (s.loc r t).stage = .flush) :
      Move s { s with loc := put s.loc r t (afterFlush (sender r) (s.loc r t)) }
  | receive {s : State cfg} (r : Rank cfg) (t : Worker cfg) (k size : Nat)
      (found : (s.net r t)[k]? = some size) (idle : s.callback r t = none) :
      Move s { s with
        net := put s.net r t ((s.net r t).eraseIdx k)
        bufs := put s.bufs r t size
        callback := put s.callback r t (some size) }
  | bump {s : State cfg} (r : Rank cfg) (t : Worker cfg) (size : Nat)
      (running : s.callback r t = some size) :
      Move s { s with
        callback := put s.callback r t none
        syncs := put s.syncs r t (s.syncs r t + 1) }
  | observe {s : State cfg} (r : Rank cfg) (t : Worker cfg) (iters msgSize : Nat)
      (here : s.instr r t = some (.loop iters msgSize)) (more : (s.loc r t).iter < iters)
      (stage : (s.loc r t).stage = .wait) (token : s.syncs r t ≠ 0) :
      Move s { s with loc := put s.loc r t ⟨(s.loc r t).iter, .consume⟩ }
  | consume {s : State cfg} (r : Rank cfg) (t : Worker cfg) (iters msgSize : Nat)
      (here : s.instr r t = some (.loop iters msgSize)) (more : (s.loc r t).iter < iters)
      (stage : (s.loc r t).stage = .consume) :
      Move s { s with
        syncs := put s.syncs r t (s.syncs r t - 1)
        loc := put s.loc r t (afterConsume (sender r) (s.loc r t)) }
  | store {s : State cfg} (r : Rank cfg) (syncCount : Int) (t : Worker cfg)
      (here : s.instr r (leader cfg) = some (.resetCounters syncCount))
      (iter : (s.loc r (leader cfg)).iter = t) :
      Move s { s with
        syncs := put s.syncs r t syncCount
        loc := put s.loc r (leader cfg) ⟨t + 1, (s.loc r (leader cfg)).stage⟩ }

theorem move_of_step {s s' : State cfg} {action : Action cfg} (taken : step s action = some s') :
    Move s s' := by
  cases action with
  | sync r t =>
      simp only [step, threadCode, controlProgram_eq, Option.map_eq_some_iff] at taken
      obtain ⟨point, move, rfl⟩ := taken
      exact .sync r t point move
  | finish r t =>
      simp only [step] at taken
      split at taken
      · next instr here =>
        split_ifs at taken with done
        obtain rfl := Option.some.inj taken
        exact .finish r t instr here done
      · exact absurd taken (by simp)
  | send r t =>
      simp only [step] at taken
      split at taken
      · next iters msgSize here =>
        split_ifs at taken with guard
        obtain rfl := Option.some.inj taken
        exact .send r t iters msgSize here guard.1 guard.2.1
      · exact absurd taken (by simp)
  | flush r t =>
      simp only [step] at taken
      split at taken
      · next iters msgSize here =>
        split_ifs at taken with guard
        obtain rfl := Option.some.inj taken
        exact .flush r t iters msgSize here guard.1 guard.2.1
      · exact absurd taken (by simp)
  | receive r t k =>
      simp only [step] at taken
      split at taken
      · next iters msgSize size here found =>
        split_ifs at taken with guard
        obtain rfl := Option.some.inj taken
        exact .receive r t k size found guard.2.2
      · exact absurd taken (by simp)
  | bump r t =>
      simp only [step] at taken
      split at taken
      · next size running =>
        obtain rfl := Option.some.inj taken
        exact .bump r t size running
      · exact absurd taken (by simp)
  | observe r t =>
      simp only [step] at taken
      split at taken
      · next iters msgSize here =>
        split_ifs at taken with guard
        obtain ⟨more, stage, -, token⟩ := guard
        obtain rfl := Option.some.inj taken
        exact .observe r t iters msgSize here more stage token
      · exact absurd taken (by simp)
  | consume r t =>
      simp only [step] at taken
      split at taken
      · next iters msgSize here =>
        split_ifs at taken with guard
        obtain rfl := Option.some.inj taken
        exact .consume r t iters msgSize here guard.1 guard.2.1
      · exact absurd taken (by simp)
  | store r =>
      simp only [step] at taken
      split at taken
      · next syncCount here =>
        split_ifs at taken with more
        obtain rfl := Option.some.inj taken
        exact .store r syncCount ⟨_, more⟩ here rfl
      · exact absurd taken (by simp)

theorem step_of_definedStep {s s' : State cfg} {action : Action cfg}
    (taken : definedStep s action = some s') : step s action = some s' := by
  cases action with
  | finish r t =>
      simp only [definedStep] at taken
      split_ifs at taken
      exact taken
  | sync r t | send r t | flush r t | receive r t k | bump r t | observe r t | consume r t
  | store r => exact taken

/-- A defined step is a move, and leaves a worker at such a report where it is. -/
theorem move_of_definedStep {s s' : State cfg} {action : Action cfg}
    (taken : definedStep s action = some s') : Move s s' ∧
      ∀ r t, s.instr r t = some (.report true) → s'.control r t = s.control r t := by
  cases action with
  | finish r t =>
      simp only [definedStep] at taken
      split_ifs at taken with reports
      refine ⟨move_of_step taken, fun r' t' here => ?_⟩
      have different : ¬ (r' = r ∧ t' = t) := by
        rintro ⟨rfl, rfl⟩
        exact reports here
      simp only [step] at taken
      split at taken
      · split_ifs at taken
        obtain rfl := Option.some.inj taken
        simp [State.advance, Spmd.Control.set_apply, different]
      · exact absurd taken (by simp)
  | sync r t =>
      refine ⟨move_of_step (step_of_definedStep taken), fun r' t' here => ?_⟩
      simp only [definedStep, step, threadCode, controlProgram_eq, Option.map_eq_some_iff] at taken
      obtain ⟨point, move, rfl⟩ := taken
      have different : ¬ (r' = r ∧ t' = t) := by
        rintro ⟨rfl, rfl⟩
        -- a report is no synchronising call
        obtain ⟨op, found, sync⟩ := Spmd.syncMove_op move
        rw [controlProgram_getElem? cfg.params (decide (r'.val = 0 ∧ t'.val = 0))] at found
        change (s.instr r' t').map Instr.op = some op at found
        rw [here] at found
        exact sync (Option.some.inj found).symm
      simp [Spmd.Control.set_apply, different]
  | send r t | flush r t | receive r t k | bump r t | observe r t | consume r t | store r =>
      refine ⟨move_of_step (step_of_definedStep taken), fun r' t' _ => ?_⟩
      simp only [definedStep, step] at taken
      split at taken
      · first
        | split_ifs at taken
          obtain rfl := Option.some.inj taken
          rfl
        | obtain rfl := Option.some.inj taken
          rfl
      · exact absurd taken (by simp)

/-- A property of the initial state that every move keeps holds in every reachable
state. -/
theorem Reachable.invariant (inv : State cfg → Prop) (init : inv (State.init cfg))
    (move : ∀ {s s' : State cfg}, inv s → Move s s' → inv s') {s : State cfg}
    (reachable : Reachable s) : inv s := by
  refine Machine.Run.invariant reachable init fun holds step => ?_
  obtain ⟨action, taken⟩ := step
  exact move holds (move_of_step taken)

end FabricBench.PingpongSymUcx
