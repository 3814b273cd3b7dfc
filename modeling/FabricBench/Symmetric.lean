import FabricBench.PingpongSym.Lockstep
import FabricBench.PingpongSymUcx.Lockstep

/-!
Both symmetric ping-pongs run in lockstep, in every reachable state of every job.
-/

namespace FabricBench

open FabricBench.Lib

/-- A pair of threads never has more than one message in flight or unconsumed. So
in `pingpong_sym` a wait ends by a poll of exactly one completion that leaves the
queue empty, and the posted receives stay within one of the preposted ones and
below the length of the queue. In `pingpong_sym_ucx` a counter is 0 or 1, and it is
0 whenever the callback starts to copy a message. -/
theorem symmetric_pingpongs_in_lockstep :
    (∀ (cfg : PingpongSym.Config) (s : PingpongSym.State cfg), PingpongSym.Reachable s →
      ∀ (r : PingpongSym.Rank cfg) (t : PingpongSym.Thread cfg),
        s.unconsumed r t + s.unconsumed (PingpongSym.partner r) t ≤ 1 ∧
        (∀ count s', PingpongSym.step s (.pollSend r t count) = some s' →
          count = 1 ∧ s'.sendCq r t = 0) ∧
        (∀ count s', PingpongSym.step s (.pollRecv r t count) = some s' →
          count = 1 ∧ s'.recvCq r t = []) ∧
        PingpongSym.numPrepostRecv - 1 ≤ (s.rq r t).length ∧
        (s.rq r t).length ≤ PingpongSym.numPrepostRecv + 1 ∧
        (s.rq r t).length ≤ rxQueueLen) ∧
    (∀ (cfg : PingpongSymUcx.Config) (s : PingpongSymUcx.State cfg), PingpongSymUcx.Reachable s →
      ∀ (r : PingpongSymUcx.Rank cfg) (t : PingpongSymUcx.Worker cfg),
        s.unconsumed r t + s.unconsumed (PingpongSymUcx.partner r) t ≤ 1 ∧
        (s.syncs r t = 0 ∨ s.syncs r t = 1) ∧
        (∀ k s', PingpongSymUcx.step s (.receive r t k) = some s' → s.syncs r t = 0)) := by
  constructor
  · intro cfg s reachable r t
    have inv := reachable.inv
    have bounds := inv.rq_bounds r t
    have fits : PingpongSym.numPrepostRecv + 1 ≤ rxQueueLen := by decide
    exact ⟨inv.pair_le_one r t, fun _ _ => inv.pollSend_one, fun _ _ => inv.pollRecv_one,
      bounds.1, bounds.2, bounds.2.trans fits⟩
  · intro cfg s reachable r t
    have inv := reachable.inv
    exact ⟨inv.balanced.pair_le_one r t, inv.sync_cases r t,
      fun _ _ => inv.receive_after_consume⟩

/-- Rank 0 has sent its first message. It is in flight in the one benchmark; in the
other the callback of rank 1 has counted it. -/
theorem symmetric_pingpongs_in_lockstep_first_message :
    (∃ s : PingpongSym.State PingpongSym.twoRanks, PingpongSym.Reachable s ∧
      s.unconsumed ⟨1, by decide⟩ ⟨0, by decide⟩ = 1 ∧
      s.unconsumed ⟨1, by decide⟩ ⟨0, by decide⟩ +
        s.unconsumed (PingpongSym.partner ⟨1, by decide⟩) ⟨0, by decide⟩ ≤ 1) ∧
    (∃ s : PingpongSymUcx.State PingpongSymUcx.twoRanks, PingpongSymUcx.Reachable s ∧
      s.syncs ⟨1, by decide⟩ ⟨0, by decide⟩ = 1 ∧
      s.unconsumed ⟨1, by decide⟩ ⟨0, by decide⟩ +
        s.unconsumed (PingpongSymUcx.partner ⟨1, by decide⟩) ⟨0, by decide⟩ ≤ 1) := by
  constructor
  · let ping : PingpongSym.Rank PingpongSym.twoRanks := ⟨0, by decide⟩
    let pong : PingpongSym.Rank PingpongSym.twoRanks := ⟨1, by decide⟩
    let only : PingpongSym.Thread PingpongSym.twoRanks := ⟨0, by decide⟩
    let actions : List (PingpongSym.Action PingpongSym.twoRanks) :=
      [.finish ping only, .sync ping only, .sync ping only, .sync ping only,
        .finish pong only, .sync pong only, .sync pong only, .sync pong only,
        .sync ping only, .sync ping only, .sync ping only, .isend ping only]
    have counted : ((Machine.runActions PingpongSym.step (PingpongSym.State.init _) actions).map
        fun s => s.unconsumed pong only) = some 1 := by
      decide
    obtain ⟨s, run, inFlight⟩ := Option.map_eq_some_iff.mp counted
    have reachable : PingpongSym.Reachable s := Machine.run_of_actions actions run
    exact ⟨s, reachable, inFlight, (symmetric_pingpongs_in_lockstep.1 _ s reachable pong only).1⟩
  · let ping : PingpongSymUcx.Rank PingpongSymUcx.twoRanks := ⟨0, by decide⟩
    let pong : PingpongSymUcx.Rank PingpongSymUcx.twoRanks := ⟨1, by decide⟩
    let only : PingpongSymUcx.Worker PingpongSymUcx.twoRanks := ⟨0, by decide⟩
    let actions : List (PingpongSymUcx.Action PingpongSymUcx.twoRanks) :=
      [.store ping, .finish ping only, .sync ping only, .sync ping only, .sync ping only,
        .store pong, .finish pong only, .sync pong only, .sync pong only, .sync pong only,
        .sync ping only, .sync ping only, .sync ping only, .send ping only,
        .sync pong only, .sync pong only, .sync pong only, .receive pong only 0, .bump pong only]
    have counted : ((Machine.runActions PingpongSymUcx.step (PingpongSymUcx.State.init _)
        actions).map fun s => s.syncs pong only) = some 1 := by
      decide
    obtain ⟨s, run, token⟩ := Option.map_eq_some_iff.mp counted
    have reachable : PingpongSymUcx.Reachable s := Machine.run_of_actions actions run
    exact ⟨s, reachable, token, (symmetric_pingpongs_in_lockstep.2 _ s reachable pong only).1⟩

end FabricBench
