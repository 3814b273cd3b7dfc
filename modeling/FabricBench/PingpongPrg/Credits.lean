import FabricBench.Backend.Receive
import FabricBench.PingpongPrg.Invariant

/-!
The receives of one progress thread of `pingpong_prg`, call by call.

Owns: `RecvSide`, a machine that preposts, polls and refills through the functions of a
backend while messages arrive at any time, also between two receives of one `irecv`; that
its receives are conserved; and that what a job does to the receives of a progress thread
is a run of this machine (`Reachable.recvSide`).
-/

namespace FabricBench.PingpongPrg

open FabricBench.Lib
open FabricBench.Lib.Calls

/-- Where a progress thread is: before its prepost, in an `irecv` that has yet to post
some receives, at a poll, or in the loop over the completions of a poll. -/
inductive RecvStage where
  | starting
  | posting (todo : List RecvRequest)
  | polling
  | dispatching (numRecvCompleted : Nat)
deriving DecidableEq, Repr

/-- The receives posted and not matched yet, the completions waiting in `rx_cqs[id]`, and
the thread. -/
structure RecvSide where
  rq : List RecvRequest
  cq : Nat
  stage : RecvStage
deriving DecidableEq, Repr

def RecvSide.init : RecvSide := ⟨[], 0, .starting⟩

/-- Calls come with the results that the transport gives. -/
inductive RecvAction where
  | prepost (buf : Nat) (results : List Int)
  | refill (buf : Nat) (results : List Int)
  /-- The transport takes the next receive of an `irecv`. -/
  | post
  /-- `irecv` returns. -/
  | posted
  | poll (result : Int) (success : Bool)
  /-- A message matches the first posted receive. -/
  | arrive

variable (backend : QueueBackend) (maxSize : Nat)

/-- Call `irecv` for `count` receives into `buf`. -/
def RecvSide.irecv (s : RecvSide) (buf count : Nat) (results : List Int) : Option RecvSide :=
  match backend.irecv ⟨buf, maxSize⟩ count ⟨[], results⟩ with
  | .ok (posted, _) => some { s with stage := .posting posted }
  | .error _ => none

/-- One step. A process that has exited makes none. -/
def RecvSide.step (s : RecvSide) : RecvAction → Option RecvSide
  | .prepost buf results =>
      match s.stage with
      | .starting => s.irecv backend maxSize buf numPrepostRecv results
      | _ => none
  | .refill buf results =>
      match s.stage with
      | .dispatching numRecvCompleted => s.irecv backend maxSize buf numRecvCompleted results
      | _ => none
  | .post =>
      match s.stage with
      | .posting (request :: todo) =>
          some { s with rq := s.rq ++ [request], stage := .posting todo }
      | _ => none
  | .posted =>
      match s.stage with
      | .posting [] => some { s with stage := .polling }
      | _ => none
  | .poll result success =>
      if s.stage = .polling ∧ result.toNat ≤ numToPoll ∧ result.toNat ≤ s.cq then
        match backend.progress result success with
        | .ok numRecvCompleted =>
            some { s with cq := s.cq - result.toNat, stage := .dispatching numRecvCompleted }
        | .error _ => none
      else none
  | .arrive =>
      match s.rq with
      | _ :: rest => some { s with rq := rest, cq := s.cq + 1 }
      | [] => none

/-- Receives that the thread has in hand: it is going to post them. -/
def RecvStage.pending : RecvStage → Nat
  | .starting => numPrepostRecv
  | .posting todo => todo.length
  | .polling => 0
  | .dispatching numRecvCompleted => numRecvCompleted

/-- Posted, waiting and pending receives add up. -/
def RecvSide.Conserved (s : RecvSide) : Prop :=
  s.rq.length + s.cq + s.stage.pending = numPrepostRecv

/-! ## Conservation -/

section Conserved

variable {backend maxSize} {s s' : RecvSide}

theorem RecvSide.irecv_eq {buf count : Nat} {results : List Int}
    (taken : s.irecv backend maxSize buf count results = some s') :
    s' = { s with stage := .posting (List.replicate count ⟨buf, maxSize⟩) } := by
  unfold RecvSide.irecv at taken
  split at taken
  · next posted script ran =>
    rw [← backend.irecv_exact ran]
    exact (Option.some.inj taken).symm
  · cases taken

theorem RecvSide.Conserved.step (old : s.Conserved)
    (step : Machine.Step (RecvSide.step backend maxSize) s s') : s'.Conserved := by
  obtain ⟨action, taken⟩ := step
  unfold RecvSide.Conserved at old ⊢
  cases action with
  | prepost buf results =>
      simp only [RecvSide.step] at taken
      split at taken
      · next stage =>
        rw [RecvSide.irecv_eq taken]
        rw [stage] at old
        simpa [RecvStage.pending] using old
      · cases taken
  | refill buf results =>
      simp only [RecvSide.step] at taken
      split at taken
      · next numRecvCompleted stage =>
        rw [RecvSide.irecv_eq taken]
        rw [stage] at old
        simpa [RecvStage.pending] using old
      · cases taken
  | post =>
      simp only [RecvSide.step] at taken
      split at taken
      · next request todo stage =>
        obtain rfl := Option.some.inj taken
        rw [stage] at old
        simp only [RecvStage.pending, List.length_append, List.length_cons, List.length_nil]
          at old ⊢
        omega
      · cases taken
  | posted =>
      simp only [RecvSide.step] at taken
      split at taken
      · next stage =>
        obtain rfl := Option.some.inj taken
        rw [stage] at old
        exact old
      · cases taken
  | poll result success =>
      simp only [RecvSide.step] at taken
      split_ifs at taken with guard
      split at taken
      · next numRecvCompleted returned =>
        obtain rfl := Option.some.inj taken
        rw [guard.1] at old
        have count := QueueBackend.progress_eq_ok returned
        simp only [RecvStage.pending] at old ⊢
        omega
      · cases taken
  | arrive =>
      simp only [RecvSide.step] at taken
      split at taken
      · next request rest posted =>
        obtain rfl := Option.some.inj taken
        rw [posted] at old
        simp only [List.length_cons] at old ⊢
        omega
      · cases taken

theorem RecvSide.conserved (reachable : Machine.Run (RecvSide.step backend maxSize) .init s) :
    s.Conserved :=
  reachable.invariant rfl RecvSide.Conserved.step

end Conserved

/-! ## The receives of a job -/

section Job

variable {backend maxSize} {cfg : Config}

/-- A whole `irecv` without an arrival in between. -/
theorem RecvSide.run_posts (rq todo : List RecvRequest) (cq : Nat) :
    Machine.Run (RecvSide.step backend maxSize) ⟨rq, cq, .posting todo⟩
      ⟨rq ++ todo, cq, .polling⟩ := by
  induction todo generalizing rq with
  | nil =>
      rw [List.append_nil]
      exact .single ⟨.posted, rfl⟩
  | cons request todo inductionHypothesis =>
      have rest := inductionHypothesis (rq ++ [request])
      rw [List.append_assoc] at rest
      exact .head ⟨.post, rfl⟩ rest

theorem RecvSide.exists_irecv (s : RecvSide) (buf count : Nat) :
    ∃ results, s.irecv backend maxSize buf count results =
      some { s with stage := .posting (List.replicate count ⟨buf, maxSize⟩) } := by
  obtain ⟨results, accepts⟩ := backend.exists_accepts count
  obtain ⟨script, ran⟩ := backend.irecv_returns ⟨buf, maxSize⟩ accepts
  refine ⟨results, ?_⟩
  rw [RecvSide.irecv, ran]

theorem RecvSide.run_prepost (buf : Nat) :
    Machine.Run (RecvSide.step backend maxSize) .init
      ⟨List.replicate numPrepostRecv ⟨buf, maxSize⟩, 0, .polling⟩ := by
  obtain ⟨results, taken⟩ := RecvSide.exists_irecv .init buf numPrepostRecv
  exact .head ⟨.prepost buf results, taken⟩ (RecvSide.run_posts [] _ 0)

theorem RecvSide.run_refill (rq : List RecvRequest) (cq buf numRecvCompleted : Nat) :
    Machine.Run (RecvSide.step backend maxSize) ⟨rq, cq, .dispatching numRecvCompleted⟩
      ⟨rq ++ List.replicate numRecvCompleted ⟨buf, maxSize⟩, cq, .polling⟩ := by
  obtain ⟨results, taken⟩ := RecvSide.exists_irecv ⟨rq, cq, .dispatching numRecvCompleted⟩ buf
    numRecvCompleted
  exact .head ⟨.refill buf results, taken⟩ (RecvSide.run_posts rq _ cq)

/-- The stage of a progress thread of the job. -/
def PrgThread.recvStage (thread : PrgThread) : RecvStage :=
  if thread.stage = .poll then .polling else .dispatching thread.completed

/-- The receives of a progress thread of the job. -/
def PrgSide.recvSide (a : PrgSide) (maxSize : Nat) : RecvSide where
  rq := a.rq.map (RecvRequest.mk · maxSize)
  cq := a.cq.length
  stage := a.thread.recvStage

def State.recvSide (s : State cfg) (r : Rank cfg) (p : Prg cfg) : RecvSide :=
  (s.prgSide r p).recvSide cfg.maxSize

/-- A thread that dispatches has its receives in hand. -/
theorem PrgThread.recvStage_of_ne {thread : PrgThread} (dispatches : thread.stage ≠ .poll) :
    thread.recvStage = .dispatching thread.completed :=
  if_neg dispatches

/-- A step between two polls leaves the receives alone. -/
theorem recvSide_dispatch {a : PrgSide} {cursor : Nat} {thread : PrgThread}
    (before : a.thread.stage ≠ .poll) (after : thread.stage ≠ .poll)
    (completed : thread.completed = a.thread.completed) :
    Machine.Run (RecvSide.step backend cfg.maxSize) (a.recvSide cfg.maxSize)
      (PrgSide.recvSide ⟨cursor, a.rq, a.cq, thread⟩ cfg.maxSize) := by
  rw [PrgSide.recvSide, PrgSide.recvSide, PrgThread.recvStage_of_ne before,
    PrgThread.recvStage_of_ne after, completed]
  exact .refl

/-- What a step of the job does to a progress thread is a run of its receives. -/
theorem PrgMove.recvSide (backend : QueueBackend) {p : Prg cfg} {a b : PrgSide}
    (move : PrgMove p a b) :
    Machine.Run (RecvSide.step backend cfg.maxSize) (a.recvSide cfg.maxSize)
      (b.recvSide cfg.maxSize) := by
  cases move with
  | other => exact .refl
  | storeCursor => exact .refl
  | deliver msg buf rest posted =>
      refine .single ⟨.arrive, ?_⟩
      simp [RecvSide.step, PrgSide.recvSide, posted]
  | poll count stage positive few available =>
      have returned : backend.progress count true = .ok count := by
        cases backend with
        | verbs stack => simp [QueueBackend.progress, Verbs.progress]
        | libfabric => simp [QueueBackend.progress, Libfabric.progress, positive]
      refine .single ⟨.poll count true, ?_⟩
      simp [RecvSide.step, PrgSide.recvSide, PrgThread.recvStage, stage, few, available, returned]
  | refill stage batch =>
      have run := @RecvSide.run_refill backend cfg.maxSize (a.rq.map (RecvRequest.mk · cfg.maxSize))
        a.cq.length (recvSlot cfg a.cursor) a.thread.completed
      simpa [PrgSide.recvSide, PrgThread.recvStage, stage] using run
  | read head tail stage batch => exact recvSide_dispatch (by simp [stage]) (by simp) rfl
  | fetch workerIdx stage => exact recvSide_dispatch (by simp [stage]) (by simp) rfl
  | store workerIdx cursor stage => exact recvSide_dispatch (by simp [stage]) (by simp) rfl
  | wrap workerIdx stage => exact recvSide_dispatch (by simp [stage]) (by simp) rfl
  | bump workerIdx stage => exact recvSide_dispatch (by simp [stage]) (by simp) rfl

/-- In every reachable state of a job the receives of a progress thread are those of a
run of the machine. -/
theorem Reachable.recvSide (backend : QueueBackend) {s : State cfg} (reachable : Reachable s)
    (r : Rank cfg) (p : Prg cfg) :
    Machine.Run (RecvSide.step backend cfg.maxSize) .init (s.recvSide r p) := by
  apply reachable.invariant fun s =>
    Machine.Run (RecvSide.step backend cfg.maxSize) .init (s.recvSide r p)
  · have start := @RecvSide.run_prepost backend cfg.maxSize (recvSlot cfg p)
    simpa [State.recvSide, PrgSide.recvSide, State.prgSide, State.init, PrgThread.recvStage] using
      start
  · intro s s' run move
    exact run.trans ((move.prgSide r p).recvSide backend)

end Job

/-! ## Main theorem -/

/-- `NUM_PREPOST_RECV` receives are posted, waiting or in hand, in every state of a
progress thread after its prepost on both backends, and so in every reachable state of a
job. The queues are long enough for them. `irecv` posts as many receives as it is asked
for: if it returns, and it returns unless the transport refuses a receive. -/
theorem receive_credits_conserved :
    (∀ (backend : QueueBackend) (maxSize : Nat) (s : RecvSide),
      Machine.Run (RecvSide.step backend maxSize) .init s → s.stage ≠ .starting →
        s.rq.length + s.cq + s.stage.pending = numPrepostRecv ∧
        s.rq.length ≤ rxQueueLen ∧ s.cq ≤ rxQueueLen + 1) ∧
    (∀ (cfg : Config) (s : State cfg), Reachable s → ∀ (r : Rank cfg) (p : Prg cfg),
      (s.rq r p).length + (s.cq r p).length + (s.prg r p).completed = numPrepostRecv ∧
      (s.rq r p).length ≤ rxQueueLen ∧ (s.cq r p).length ≤ rxQueueLen + 1) ∧
    (∀ (backend : QueueBackend) (request : RecvRequest) (count : Nat) (results : List Int)
      (posted : List RecvRequest) (script : Script Int),
      backend.irecv request count ⟨[], results⟩ = .ok (posted, script) →
        posted = List.replicate count request) ∧
    (∀ (backend : QueueBackend) (request : RecvRequest) (count : Nat) (results : List Int),
      backend.Accepts count results →
        ∃ script, backend.irecv request count ⟨[], results⟩ =
          .ok (List.replicate count request, script)) := by
  have enough : numPrepostRecv ≤ rxQueueLen := by decide
  refine ⟨?_, ?_, ?_, ?_⟩
  · intro backend maxSize s run _
    have sum := RecvSide.conserved run
    unfold RecvSide.Conserved at sum
    exact ⟨sum, by omega, by omega⟩
  · intro cfg s reachable r p
    have pending : (s.prg r p).recvStage.pending = (s.prg r p).completed := by
      unfold PrgThread.recvStage
      split_ifs with polling
      · exact ((reachable.inv.credit r p).poll polling).2.symm
      · rfl
    have sum := RecvSide.conserved (reachable.recvSide .libfabric r p)
    simp only [RecvSide.Conserved, State.recvSide, PrgSide.recvSide, State.prgSide, List.length_map,
      pending] at sum
    exact ⟨sum, by omega, by omega⟩
  · intro backend request count results posted script ran
    exact backend.irecv_exact ran
  · intro backend request count results accepts
    exact backend.irecv_returns request accepts

/-- Work requests that point at the first one, as they may be on the stack. -/
def dirtyStack : Nat → Verbs.RecvWr := fun _ => ⟨some 0, ⟨0, 0⟩⟩

/-- Three messages arrive, two are polled, and of the chain that refills them one receive is
posted when the next message arrives. -/
def refillRun : List RecvAction :=
  [.arrive, .arrive, .arrive, .poll 2 true, .refill 24 [0], .post, .arrive]

/-- A progress thread in the middle of a refill over verbs; a job with a completion waiting at
one progress thread and one in hand at another; an `irecv` of three receives that is one
chain; and one of two receives whose first call has to be repeated. -/
theorem receive_credits_conserved_in_use :
    (∃ s : RecvSide, Machine.Run (RecvSide.step (.verbs dirtyStack) 8) .init s ∧
      (s.cq = 2 ∧ s.stage = .posting [⟨24, 8⟩] ∧ s.rq.getLast? = some ⟨24, 8⟩) ∧
      s.rq.length + 2 + 1 = numPrepostRecv) ∧
    (∃ s : State smallJob, Reachable s ∧ SmallRunEnd s ∧
      (s.rq pong evens).length + (s.cq pong evens).length + 1 =
        numPrepostRecv ∧
      (s.rq pong odds).length + 1 + (s.prg pong odds).completed =
        numPrepostRecv) ∧
    (∃ script, Verbs.irecv dirtyStack ⟨0, 8⟩ 3 ⟨[], [0]⟩ = .ok (List.replicate 3 ⟨0, 8⟩, script)) ∧
    (∃ script, Libfabric.irecv ⟨0, 8⟩ 2 ⟨[], [fiAgain, 0, 0]⟩ = .ok ([⟨0, 8⟩, ⟨0, 8⟩], script) ∧
      ([⟨0, 8⟩, ⟨0, 8⟩] : List RecvRequest) = List.replicate 2 ⟨0, 8⟩) := by
  obtain ⟨onRuns, onJobs, exact_of_irecv, returns⟩ := receive_credits_conserved
  refine ⟨?_, ?_, ?_, ?_⟩
  · have prepost := @RecvSide.run_prepost (.verbs dirtyStack) 8 8
    obtain ⟨s, taken, there⟩ : ∃ s, Machine.runActions (RecvSide.step (.verbs dirtyStack) 8)
        ⟨List.replicate numPrepostRecv ⟨8, 8⟩, 0, .polling⟩ refillRun = some s ∧
          s.cq = 2 ∧ s.stage = .posting [⟨24, 8⟩] ∧ s.rq.getLast? = some ⟨24, 8⟩ :=
      Machine.exists_of_runActions (by decide +kernel)
    have run := prepost.trans (Machine.run_of_actions refillRun taken)
    have sum := (onRuns _ _ s run (by rw [there.2.1]; simp)).1
    rw [there.1, there.2.1] at sum
    exact ⟨s, run, there, sum⟩
  · obtain ⟨s, taken, there⟩ := smallRun_ends
    have reachable : Reachable s := Machine.run_of_actions smallRun taken
    have inHand := (onJobs smallJob s reachable pong evens).1
    have waiting := (onJobs smallJob s reachable pong odds).1
    rw [there.2.2.1] at inHand
    rw [there.2.1] at waiting
    exact ⟨s, reachable, there, inHand, waiting⟩
  · exact returns (.verbs dirtyStack) ⟨0, 8⟩ 3 [0] fun _ => ⟨[], rfl⟩
  · obtain ⟨script, ran⟩ := returns .libfabric ⟨0, 8⟩ 2 [fiAgain, 0, 0] ⟨[1, 0], [], rfl, rfl⟩
    exact ⟨script, ran, exact_of_irecv _ _ _ _ _ _ ran⟩

end FabricBench.PingpongPrg
