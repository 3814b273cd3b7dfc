import FabricBench.Lib.Memory
import FabricBench.PingpongPrg.Dispatch
import FabricBench.PingpongPrgUcx.Model

/-!
The active-message callback of `pingpong_prg_ucx`, which copies a message out and hands
its token to a worker.

Owns: `recvMsgCb`, that its cursor and its tokens are those of the dispatch loop of
`pingpong_prg`, and that it is what the steps of a callback come to when nobody else
changes the variables between them (`callback_recvMsgCb`).
-/

namespace FabricBench.PingpongPrgUcx

open FabricBench.Lib
open FabricBench.Lib.Memory

/-- The variables of the callback: `next_worker_idxes[prg_thread_id]`, `syncs`, and the
buffers of the workers, each an allocation of its own. -/
structure Receiver where
  nextWorkerIdx : Nat
  syncs : Nat → Int
  bufs : Nat → Mem

/-- `recv_msg_cb` on progress thread `prgThreadId`, for a message of the bytes `data`. -/
def recvMsgCb (txThreadNum rxThreadNum prgThreadId : Nat) (data : List Byte) (s : Receiver) :
    Receiver :=
  let workerNum := s.nextWorkerIdx
  let next := workerNum + rxThreadNum
  { bufs := Function.update s.bufs workerNum (writeBytes (s.bufs workerNum) 0 data)
    syncs := Function.update s.syncs workerNum (s.syncs workerNum + 1)
    nextWorkerIdx := if txThreadNum ≤ next then prgThreadId else next }

/-- The callback is called for the messages number `0` to `m - 1`. -/
def recvMsgs (txThreadNum rxThreadNum prgThreadId : Nat) (messages : Nat → List Byte) (m : Nat)
    (s : Receiver) : Receiver :=
  forLoop m (fun s i => recvMsgCb txThreadNum rxThreadNum prgThreadId (messages i) s) s

variable {cfg : PingpongPrg.Config}

/-! ## The steps of a callback -/

/-- The variables of the callback in a state of the job, where a buffer holds the bytes of
the message that was copied into it last. -/
structure Receiver.Of (payload : PingpongPrg.Msg → List Byte) (s : State cfg)
    (r : PingpongPrg.Rank cfg) (p : PingpongPrg.Prg cfg) (v : Receiver) : Prop where
  cursor : v.nextWorkerIdx = s.nextWorkerIdxes r p
  syncs : v.syncs = s.syncs r
  bufs : ∀ w msg, s.bufs r w = some msg →
    readBytes (v.bufs w) 0 (payload msg).length = payload msg

/-- The steps of a callback, if nothing comes between them. -/
theorem runActions_callback {s : State cfg} {r : PingpongPrg.Rank cfg} {p : PingpongPrg.Prg cfg}
    {msg : PingpongPrg.Msg} (stage : s.callback r p = .copy msg) :
    let workerNum := s.nextWorkerIdxes r p
    Machine.runActions step s (List.replicate 6 (.callback r p)) = some { s with
      bufs := put s.bufs r workerNum (some msg)
      syncs := put s.syncs r workerNum (s.syncs r workerNum + 1)
      given := put s.given r workerNum (s.given r workerNum + 1)
      nextWorkerIdxes := put s.nextWorkerIdxes r p (PingpongPrg.incrementWorkerIdx cfg p workerNum)
      callback := put s.callback r p .idle } := by
  simp [List.replicate, Machine.runActions, step, State.callbackNext, stage,
    PingpongPrg.incrementWorkerIdx]

/-- They come to one call of `recv_msg_cb`. -/
theorem callback_recvMsgCb (payload : PingpongPrg.Msg → List Byte) {s : State cfg}
    {r : PingpongPrg.Rank cfg} {p : PingpongPrg.Prg cfg} {msg : PingpongPrg.Msg} {v : Receiver}
    (stage : s.callback r p = .copy msg) (here : v.Of payload s r p) :
    ∃ s', Machine.runActions step s (List.replicate 6 (.callback r p)) = some s' ∧
      s'.callback r p = .idle ∧
      (recvMsgCb cfg.txThreadNum cfg.rxThreadNum p (payload msg) v).Of payload s' r p := by
  refine ⟨_, runActions_callback stage, put_same _ _ _ _, ?_, ?_, fun w copied last => ?_⟩
  · change _ = put s.nextWorkerIdxes r p _ r p
    rw [put_same, recvMsgCb, here.cursor]
    rfl
  · change _ = put s.syncs r _ _ r
    rw [put_row_same, recvMsgCb, here.cursor, here.syncs]
  · change put s.bufs r _ _ r w = _ at last
    rw [put_row_same] at last
    rw [recvMsgCb, here.cursor]
    by_cases own : w = s.nextWorkerIdxes r p
    · subst own
      rw [Function.update_self, Option.some.injEq] at last
      subst last
      dsimp only
      rw [Function.update_self, readBytes_writeBytes]
    · rw [Function.update_of_ne own] at last
      dsimp only
      rw [Function.update_of_ne own]
      exact here.bufs w copied last

/-! ## Dealing -/

/-- The callback moves the cursor as `incrementWorkerIdx` does. -/
theorem dealtRoundRobin_recvMsgs (p : PingpongPrg.Prg cfg) (start : Nat → Int) (bufs : Nat → Mem)
    (messages : Nat → List Byte) (m : Nat) :
    PingpongPrg.DealtRoundRobin cfg p start m
      (recvMsgs cfg.txThreadNum cfg.rxThreadNum p messages m ⟨p, start, bufs⟩).nextWorkerIdx
      (recvMsgs cfg.txThreadNum cfg.rxThreadNum p messages m ⟨p, start, bufs⟩).syncs := by
  apply forLoop_invariant fun i (s : Receiver) =>
    PingpongPrg.DealtRoundRobin cfg p start i s.nextWorkerIdx s.syncs
  · exact PingpongPrg.DealtRoundRobin.start p start
  · intro i s _ here
    exact here.next

/-! ## Main theorem -/

/-- Dispatching is round robin, exactly: however `progress_thread` splits the completions
into polls, and for as many calls of `recv_msg_cb`, which deal in the same way. -/
theorem dispatch_roundRobin (cfg : PingpongPrg.Config) (p : PingpongPrg.Prg cfg)
    (start : Nat → Int) (polls : List Nat) (bufs : Nat → Mem) (messages : Nat → List Byte) :
    let d := PingpongPrg.dispatchPolls cfg p polls ⟨p, start⟩
    let s := recvMsgs cfg.txThreadNum cfg.rxThreadNum p messages polls.sum ⟨p, start, bufs⟩
    PingpongPrg.DealtRoundRobin cfg p start polls.sum d.nextWorkerIdx d.syncs ∧
      PingpongPrg.DealtRoundRobin cfg p start polls.sum s.nextWorkerIdx s.syncs ∧
      s.nextWorkerIdx = d.nextWorkerIdx ∧ s.syncs = d.syncs := by
  intro d s
  have loop : PingpongPrg.DealtRoundRobin cfg p start polls.sum d.nextWorkerIdx d.syncs := by
    have dealt := (PingpongPrg.DealtRoundRobin.start p start).polls (d := ⟨p, start⟩) polls
    rw [Nat.zero_add] at dealt
    exact dealt
  have callback := dealtRoundRobin_recvMsgs p start bufs messages polls.sum
  exact ⟨loop, callback, callback.unique loop⟩

end FabricBench.PingpongPrgUcx
