import FabricBench.Lib.ForLoop
import FabricBench.Lib.RoundRobin
import FabricBench.PingpongPrg.Invariant

/-!
The dispatch loop of `progress_thread`, as a function of its cursor and the workers'
counters.

Owns: `dispatch`, one pass of the loop; `DealtRoundRobin`, the closed form of any number of
passes; that the loop keeps to it however the completions are split into polls; and that
a progress thread of the job computes this function between two polls.
-/

namespace FabricBench.PingpongPrg

open FabricBench.Lib

/-- The variables of the dispatch loop: `next_worker_idxes[id]` and `syncs`. -/
structure Dispatcher where
  nextWorkerIdx : Nat
  syncs : Nat → Int

variable (cfg : Config)

/-- One pass of the loop. -/
def dispatch (id : Nat) (d : Dispatcher) : Dispatcher :=
  let workerIdx := d.nextWorkerIdx
  { nextWorkerIdx := incrementWorkerIdx cfg id d.nextWorkerIdx
    syncs := Function.update d.syncs workerIdx (d.syncs workerIdx + 1) }

/-- The loop over the completions of one poll. -/
def dispatchBatch (id numRecvCompleted : Nat) (d : Dispatcher) : Dispatcher :=
  forLoop numRecvCompleted (fun d _ => dispatch cfg id d) d

/-- Poll after poll, with the numbers of completions that `progress` returned. -/
def dispatchPolls (id : Nat) (polls : List Nat) (d : Dispatcher) : Dispatcher :=
  polls.foldl (fun d numRecvCompleted => dispatchBatch cfg id numRecvCompleted d) d

/-- After `m` dispatches from the first worker of its group on, progress thread `p` has
given every worker of the group its share, and nobody else anything. -/
structure DealtRoundRobin (p : Prg cfg) (start : Nat → Int) (m : Nat) (cursor : Nat)
    (syncs : Nat → Int) : Prop where
  cursor_eq : cursor = p + cfg.rxThreadNum * (m % cfg.perGroup)
  own : ∀ j, j < cfg.perGroup →
    syncs (p + j * cfg.rxThreadNum) =
      start (p + j * cfg.rxThreadNum) + ((m + cfg.perGroup - 1 - j) / cfg.perGroup : Nat)
  others : ∀ w, ¬ InGroup p w → syncs w = start w

variable {cfg}

/-! ## One dispatch -/

theorem incrementWorkerIdx_group (p : Prg cfg) {j : Nat} (below : j < cfg.perGroup) :
    incrementWorkerIdx cfg p (p + j * cfg.rxThreadNum) =
      p + RoundRobin.advance cfg.perGroup j * cfg.rxThreadNum := by
  have next : p.val + j * cfg.rxThreadNum + cfg.rxThreadNum = p + (j + 1) * cfg.rxThreadNum := by
    rw [Nat.succ_mul]
    omega
  have past_iff := txThreadNum_le_iff p (j + 1)
  rw [incrementWorkerIdx, wrapWorkerIdx, next, RoundRobin.advance]
  split_ifs with past inside inside
  · omega
  · simp
  · rfl
  · omega

theorem DealtRoundRobin.start (p : Prg cfg) (syncs : Nat → Int) :
    DealtRoundRobin cfg p syncs 0 p syncs where
  cursor_eq := by simp
  own := by
    intro j below
    rw [RoundRobin.dealt_zero]
    simp
  others := fun _ _ => rfl

/-- The worker at the cursor gets a token, and the cursor moves on. -/
theorem DealtRoundRobin.next {p : Prg cfg} {start syncs : Nat → Int} {m cursor : Nat}
    (old : DealtRoundRobin cfg p start m cursor syncs) :
    DealtRoundRobin cfg p start (m + 1) (incrementWorkerIdx cfg p cursor)
      (Function.update syncs cursor (syncs cursor + 1)) := by
  have position : m % cfg.perGroup < cfg.perGroup := Nat.mod_lt m cfg.perGroup_pos
  have cursor_eq : cursor = p + m % cfg.perGroup * cfg.rxThreadNum := by
    rw [old.cursor_eq, Nat.mul_comm]
  constructor
  case cursor_eq =>
    rw [cursor_eq, incrementWorkerIdx_group p position, RoundRobin.advance_mod cfg.perGroup_pos,
      Nat.mul_comm]
  case own =>
    intro j below
    rw [RoundRobin.dealt_succ m below]
    by_cases here : j = m % cfg.perGroup
    · rw [if_pos here, here, ← cursor_eq, Function.update_self]
      have share := old.own j below
      rw [here, ← cursor_eq] at share
      rw [share]
      push_cast
      omega
    · have other : p.val + j * cfg.rxThreadNum ≠ cursor := by
        intro same
        rw [cursor_eq] at same
        exact here (Nat.eq_of_mul_eq_mul_right cfg.rx_pos (Nat.add_left_cancel same))
      rw [if_neg here, Function.update_of_ne other, old.own j below]
      rfl
  case others =>
    intro w outside
    have other : w ≠ cursor := by
      rintro rfl
      exact outside ⟨_, position, cursor_eq⟩
    rw [Function.update_of_ne other, old.others w outside]

/-- The closed form determines the cursor and the counters. -/
theorem DealtRoundRobin.unique {p : Prg cfg} {start syncs syncs' : Nat → Int}
    {m cursor cursor' : Nat}
    (dealt : DealtRoundRobin cfg p start m cursor syncs)
    (dealt' : DealtRoundRobin cfg p start m cursor' syncs') :
    cursor = cursor' ∧ syncs = syncs' := by
  constructor
  · rw [dealt.cursor_eq, dealt'.cursor_eq]
  · funext w
    by_cases inside : InGroup p w
    · obtain ⟨j, below, rfl⟩ := inside
      rw [dealt.own j below, dealt'.own j below]
    · rw [dealt.others w inside, dealt'.others w inside]

/-! ## Many dispatches -/

theorem DealtRoundRobin.batch {p : Prg cfg} {start : Nat → Int} {m : Nat} {d : Dispatcher} (n : Nat)
    (old : DealtRoundRobin cfg p start m d.nextWorkerIdx d.syncs) :
    DealtRoundRobin cfg p start (m + n) (dispatchBatch cfg p n d).nextWorkerIdx
      (dispatchBatch cfg p n d).syncs := by
  apply forLoop_invariant fun i (d : Dispatcher) =>
    DealtRoundRobin cfg p start (m + i) d.nextWorkerIdx d.syncs
  · exact old
  · intro i d _ here
    exact here.next

theorem DealtRoundRobin.polls {p : Prg cfg} {start : Nat → Int} {m : Nat} {d : Dispatcher}
    (polls : List Nat) (old : DealtRoundRobin cfg p start m d.nextWorkerIdx d.syncs) :
    DealtRoundRobin cfg p start (m + polls.sum) (dispatchPolls cfg p polls d).nextWorkerIdx
      (dispatchPolls cfg p polls d).syncs := by
  induction polls generalizing m d with
  | nil => exact old
  | cons n polls inductionHypothesis =>
      rw [List.sum_cons, ← Nat.add_assoc]
      exact inductionHypothesis (old.batch n)

/-! ## The progress thread of the job -/

/-- The loop, unrolled at its start. -/
theorem dispatchBatch_succ (id n : Nat) (d : Dispatcher) :
    dispatchBatch cfg id (n + 1) d = dispatchBatch cfg id n (dispatch cfg id d) := by
  induction n with
  | zero => rfl
  | succ n inductionHypothesis =>
      calc dispatchBatch cfg id (n + 2) d
          = dispatch cfg id (dispatchBatch cfg id (n + 1) d) := forLoop_succ (n + 1) _ d
        _ = dispatch cfg id (dispatchBatch cfg id n (dispatch cfg id d)) := by
            rw [inductionHypothesis]
        _ = dispatchBatch cfg id (n + 1) (dispatch cfg id d) :=
            (forLoop_succ n (fun d _ => dispatch cfg id d) _).symm

/-- The cursor of a progress thread and the counters of its rank. -/
def State.dispatcher (s : State cfg) (r : Rank cfg) (p : Prg cfg) : Dispatcher where
  nextWorkerIdx := s.nextWorkerIdxes r p
  syncs := s.syncs r

/-- The state behind a pass of the dispatch loop. -/
def State.dispatched (s : State cfg) (r : Rank cfg) (p : Prg cfg) : State cfg :=
  { s with
    nextWorkerIdxes := put s.nextWorkerIdxes r p (incrementWorkerIdx cfg p (s.nextWorkerIdxes r p))
    syncs := put s.syncs r (s.nextWorkerIdxes r p) (s.syncs r (s.nextWorkerIdxes r p) + 1)
    given := put s.given r (s.nextWorkerIdxes r p) (s.given r (s.nextWorkerIdxes r p) + 1)
    prg := put s.prg r p { s.prg r p with batch := (s.prg r p).batch.tail } }

theorem dispatcher_dispatched (s : State cfg) (r : Rank cfg) (p : Prg cfg) :
    (s.dispatched r p).dispatcher r p = dispatch cfg p (s.dispatcher r p) := by
  simp [State.dispatcher, State.dispatched, dispatch, put_row_same]

/-- The five steps for a completion are one pass of the loop. -/
theorem runActions_dispatch {s : State cfg} {r : Rank cfg} {p : Prg cfg} {head : Completion}
    {tail : List Completion} {completed : Nat}
    (thread : s.prg r p = ⟨.read, head :: tail, completed⟩) :
    Machine.runActions step s (List.replicate 5 (.progress r p)) = some (s.dispatched r p) := by
  simp [Machine.runActions, step, State.progressNext, thread, State.dispatched, incrementWorkerIdx]

/-- The steps for all completions in hand are the whole loop. -/
theorem runActions_dispatchBatch {r : Rank cfg} {p : Prg cfg} {completed : Nat}
    (batch : List Completion) {s : State cfg} (thread : s.prg r p = ⟨.read, batch, completed⟩) :
    ∃ s', Machine.runActions step s (List.replicate (5 * batch.length) (.progress r p)) = some s' ∧
      s'.dispatcher r p = dispatchBatch cfg p batch.length (s.dispatcher r p) ∧
      s'.prg r p = ⟨.read, [], completed⟩ := by
  induction batch generalizing s with
  | nil => exact ⟨s, rfl, rfl, thread⟩
  | cons head tail inductionHypothesis =>
      have after : (s.dispatched r p).prg r p = ⟨.read, tail, completed⟩ := by
        simp [State.dispatched, thread]
      obtain ⟨s', taken, dispatcher, idle⟩ := inductionHypothesis after
      refine ⟨s', ?_, ?_, idle⟩
      · rw [List.length_cons, Nat.mul_succ, Nat.add_comm, ← List.replicate_append_replicate,
          Machine.runActions_append, runActions_dispatch thread]
        exact taken
      · rw [dispatcher, dispatcher_dispatched, List.length_cons, dispatchBatch_succ]

/-- A poll of `count` completions, their dispatch and the refill: what a progress thread
of the job does between two polls is `dispatchBatch`. -/
theorem runActions_poll {s : State cfg} {r : Rank cfg} {p : Prg cfg} {count : Nat}
    (idle : (s.prg r p).stage = .poll) (positive : 0 < count) (few : count ≤ numToPoll)
    (available : count ≤ (s.cq r p).length) :
    ∃ s', Machine.runActions step s
        (.poll r p count :: (List.replicate (5 * count) (.progress r p) ++ [.progress r p])) =
          some s' ∧
      s'.dispatcher r p = dispatchBatch cfg p count (s.dispatcher r p) ∧
      s'.prg r p = ⟨.poll, [], 0⟩ := by
  have length : ((s.cq r p).take count).length = count := List.length_take_of_le available
  obtain ⟨middle, taken, dispatcher, thread⟩ := runActions_dispatchBatch ((s.cq r p).take count)
    (s := { s with
      cq := put s.cq r p ((s.cq r p).drop count)
      prg := put s.prg r p ⟨.read, (s.cq r p).take count, count⟩ }) (put_same ..)
  rw [length] at taken dispatcher
  refine ⟨{ middle with
    rq := put middle.rq r p (middle.rq r p ++
      List.replicate count (recvSlot cfg (middle.nextWorkerIdxes r p)))
    prg := put middle.prg r p ⟨.poll, [], 0⟩ }, ?_, dispatcher, put_same ..⟩
  have first : step s (.poll r p count) = some _ := if_pos ⟨idle, positive, few, available⟩
  rw [Machine.runActions, first, Option.bind_some, Machine.runActions_append, taken]
  simp [Machine.runActions, step, State.progressNext, thread]

end FabricBench.PingpongPrg
