import FabricBench.Account.Fair
import FabricBench.PingpongPrg.Simulation

/-!
What the accounts of all groups satisfy in every reachable state of
`pingpong_prg`: they are sound and fair always, and exact when no loop but the
last starts with prefilled tokens.
-/

namespace FabricBench.PingpongPrg

open FabricBench.Lib FabricBench.Account

variable {cfg : Config}

/-- The accounts start empty. -/
theorem view_init (r : Rank cfg) (p : Prg cfg) :
    view (State.init cfg) r p = Ledger.empty cfg.perGroup (modeAt cfg.params 0) := by
  refine Ledger.ext rfl ?_ rfl ?_ rfl rfl ?_ ?_ rfl ?_
  · funext j
    simp [view, State.init, Local.start, Ledger.empty, firstStage_ne_consume]
  · simp [view, State.init, seatOf, Ledger.empty]
  · funext j e
    exact Team.done_start (job cfg) (Local.sent (sender (partner r))) (partner r)
      (groupWorker p j) e
  · funext j e
    exact Team.done_start (job cfg) (Local.taken (sender r)) r (groupWorker p j) e
  · funext j
    simp [view, State.init, Local.start, Ledger.empty]

theorem modeAt_zero (params : RunParams) :
    modeAt params 0 = .resetting 0 ∨ modeAt params 0 = .active 0 := by
  unfold modeAt
  split_ifs
  · exact Or.inl rfl
  · exact Or.inr (by simp)

theorem sound_start (cfg : Config) :
    Sound (plan cfg) (Ledger.empty cfg.perGroup (modeAt cfg.params 0)) := by
  refine sound_empty cfg.perGroup_pos fun loop active => ?_
  rcases modeAt_zero cfg.params with start | start <;> rw [start] at active
  · exact absurd active (by simp)
  · obtain rfl := Mode.active.inj active
    rfl

/-- A property of the empty account that every step of a sound account keeps holds
of all accounts of a reachable state. -/
theorem Reachable.account (property : Ledger cfg.perGroup → Prop)
    (empty : property (Ledger.empty cfg.perGroup (modeAt cfg.params 0)))
    (step : ∀ {before after : Ledger cfg.perGroup}, Sound (plan cfg) before → property before →
      Account.Step (plan cfg) before after → property after)
    {s : State cfg} (reachable : Reachable s) (r : Rank cfg) (p : Prg cfg) :
    Sound (plan cfg) (view s r p) ∧ property (view s r p) := by
  have all : Inv s ∧ ∀ r p, Sound (plan cfg) (view s r p) ∧ property (view s r p) := by
    refine reachable.invariant
      (fun s => Inv s ∧ ∀ r p, Sound (plan cfg) (view s r p) ∧ property (view s r p))
      ⟨inv_init cfg, fun r p => ?_⟩ ?_
    · rw [view_init]
      exact ⟨sound_start cfg, empty⟩
    · rintro s s' ⟨inv, holds⟩ move
      refine ⟨inv.move move, fun r p => ?_⟩
      obtain ⟨sound, here⟩ := holds r p
      rcases view_simulates inv move r p with same | stepped
      · rw [same]
        exact ⟨sound, here⟩
      · exact ⟨sound.step cfg.perGroup_pos stepped, step sound here stepped⟩
  exact all.2 r p

section Reachable

variable {s : State cfg} (reachable : Reachable s) (r : Rank cfg) (p : Prg cfg)

include reachable

theorem Reachable.sound : Sound (plan cfg) (view s r p) :=
  (reachable.account (fun _ => True) trivial (fun _ _ _ => trivial) r p).1

theorem Reachable.fair : Fair (view s r p) :=
  (reachable.account Fair (fair_empty _ _) Fair.step r p).2

theorem Reachable.exactAccount (settles : (plan cfg).Settles) : Exact (plan cfg) (view s r p) :=
  (reachable.account (Exact (plan cfg)) (exact_empty _ (modeAt_zero cfg.params))
    (Exact.step settles) r p).2

end Reachable

end FabricBench.PingpongPrg
