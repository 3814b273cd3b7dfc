import FabricBench.PingpongPrg.Accounts

/-!
The start of a loop of `pingpong_prg`: everybody has entered the `proc_barrier`
before it and nobody has begun.

Owns: `State.AtLoopStart`, what the counts are then, and how an account goes on
from there.
-/

namespace FabricBench.PingpongPrg

open FabricBench.Lib FabricBench.Account

variable {cfg : Config}

/-- All threads of the job have entered the `proc_barrier` before loop `e` and none
has done anything of the loop. -/
def State.AtLoopStart (s : State cfg) (e : Nat) : Prop :=
  ∀ r t, (s.control r t).Reached (8 * e + 1) ∧
    ((s.control r t).pc < 8 * e + 4 ∨
      ((s.control r t).pc = 8 * e + 4 ∧ s.loc r t = Local.start (firstStage (sender r))))

section Start

variable {s : State cfg} {e : Nat} (start : s.AtLoopStart e)

include start

theorem State.AtLoopStart.pc_bounds (r : Rank cfg) (t : Worker cfg) :
    8 * e + 1 ≤ (s.control r t).pc ∧ (s.control r t).pc ≤ 8 * e + 4 := by
  obtain ⟨reached, notBegun⟩ := start r t
  constructor
  · rcases reached with after | ⟨here, -⟩ <;> omega
  · rcases notBegun with before | ⟨here, -⟩ <;> omega

theorem State.AtLoopStart.mode_eq (below : e < cfg.params.loops) (r : Rank cfg) (p : Prg cfg) :
    (view s r p).mode = .active e := by
  obtain ⟨low, high⟩ := start.pc_bounds r (leader cfg)
  exact modeAt_active below low (by omega)

theorem State.AtLoopStart.sent_eq_zero (r : Rank cfg) (t : Worker cfg) : s.sentIn r t e = 0 := by
  rcases (start r t).2 with before | ⟨here, fresh⟩
  · exact loopDone_before _ _ before
  · rw [sentIn_at here, fresh]
    exact sent_start (sender r)

theorem State.AtLoopStart.taken_eq_zero (r : Rank cfg) (t : Worker cfg) :
    s.takenIn r t e = 0 := by
  rcases (start r t).2 with before | ⟨here, fresh⟩
  · exact loopDone_before _ _ before
  · rw [takenIn_at here, fresh]
    exact taken_start (sender r)

/-- The earlier loops are over everywhere. -/
theorem State.AtLoopStart.sent_earlier (r : Rank cfg) (t : Worker cfg) {l : Nat} (earlier : l < e) :
    s.sentIn r t l = cfg.params.iters l := by
  have low := (start.pc_bounds r t).1
  exact loopDone_after _ _ (show 8 * l + 4 < (s.control r t).pc by omega)

end Start

/-- A property of accounts that every step keeps holds on along a run. -/
theorem account_of_run (property : Ledger cfg.perGroup → Prop)
    (step : ∀ {before after : Ledger cfg.perGroup}, Sound (plan cfg) before → property before →
      Account.Step (plan cfg) before after → property after)
    {s₀ s : State cfg} (reachable : Reachable s₀) (run : Relation.ReflTransGen Step s₀ s)
    (r : Rank cfg) (p : Prg cfg) (holds : property (view s₀ r p)) : property (view s r p) := by
  induction run with
  | refl => exact holds
  | tail before last inductionHypothesis =>
      have middle : Reachable _ := Relation.ReflTransGen.trans reachable before
      rcases view_simulates middle.inv (step_iff_move.mp last) r p with same | stepped
      · rw [same]
        exact inductionHypothesis
      · exact step (middle.sound r p) inductionHypothesis stepped

theorem not_past_of_lt {params : RunParams} {pc e : Nat} (before : pc < 8 * (e + 1)) :
    ¬ (modeAt params pc).Past e := by
  unfold modeAt
  split_ifs <;> simp only [Mode.Past] <;> omega

/-- Outside of the loop its process serves a worker is in no body. -/
theorem stage_first_of_ne {s : State cfg} (inv : Inv s) {r : Rank cfg} {p : Prg cfg} {e : Nat}
    (active : (view s r p).mode = .active e) {t : Worker cfg}
    (outside : (s.control r t).pc ≠ 8 * e + 4) :
    (s.loc r t).stage = firstStage (sender r) := by
  refine (inv.team.loc r t).stage_eq fun iters msgSize atLoop => ?_
  obtain ⟨e', below, inLoop, -⟩ := loop_position atLoop
  have other := view_mode_of_loop inv below inLoop p
  obtain rfl := Mode.active.inj (active.symm.trans other)
  exact absurd inLoop outside

end FabricBench.PingpongPrg
