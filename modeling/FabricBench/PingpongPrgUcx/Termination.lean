import FabricBench.PingpongPrg.Termination
import FabricBench.PingpongPrgUcx.Refinement

/-!
How long the teams of `pingpong_prg_ucx` can go on, and that they go on to their end.

A job that cannot go on corresponds to one of `pingpong_prg` that cannot go on, and the
circle of waiting workers leads to the same contradiction: dealing is fair wherever a
reset has left the cursor. What is left to do is what is left for the corresponding job,
and the steps that a callback has before and behind those of a progress thread.
-/

namespace FabricBench.PingpongPrgUcx

open FabricBench.Lib FabricBench.Account FabricBench.PingpongPrg

variable {cfg : Config} {s s' : State cfg} {x x' : PingpongPrg.State cfg}

/-! ## Jobs that cannot go on -/

section Final

variable (final : Machine.Final step s)

include final

theorem no_move_of_final (move : Move s s') : False := by
  obtain ⟨action, taken⟩ := move.step
  rw [final action] at taken
  exact absurd taken (by simp)

/-- A callback that has begun can go on. -/
theorem idle_of_final (r : Rank cfg) (p : Prg cfg) : s.callback r p = .idle := by
  cases stage : s.callback r p with
  | idle => rfl
  | copy msg => exact (no_move_of_final final (.copy r p msg stage)).elim
  | token msg => exact (no_move_of_final final (.token r p msg stage)).elim
  | bump msg workerNum => exact (no_move_of_final final (.bump r p msg workerNum stage)).elim
  | fetch => exact (no_move_of_final final (.fetch r p stage)).elim
  | store workerNum => exact (no_move_of_final final (.store r p workerNum stage)).elim
  | wrap => exact (no_move_of_final final (.wrap r p stage)).elim

theorem net_of_final (r : Rank cfg) (p : Prg cfg) : s.net r p = [] := by
  by_contra some
  obtain ⟨msg, rest, messages⟩ := List.exists_cons_of_ne_nil some
  exact no_move_of_final final (.receive r p 0 msg (by simp [messages]) (idle_of_final final r p))

/-- The corresponding job of `pingpong_prg` cannot go on either. -/
theorem Image.stuck (image : Image s x) : Stuck x := by
  have polls : ∀ r p, x.prg r p = ⟨.poll, [], 0⟩ := by
    intro r p
    have held := image.held r p
    rw [idle_of_final final r p] at held
    exact held
  have noStage : ∀ {r p stage}, (x.prg r p).stage = stage → stage ≠ .poll → False := by
    intro r p stage here other
    rw [polls r p] at here
    exact other here.symm
  have noMessage : ∀ r p, x.net r p = [] := by
    intro r p
    rw [image.net]
    exact net_of_final final r p
  obtain ⟨control, loc, syncs, next, net, rq, cq, prg, given⟩ := x
  obtain ⟨rfl, rfl, rfl, rfl, rfl, cqNil, -, -⟩ := image
  intro x' step
  cases step_iff_move.mp step with
  | sync r t point move => exact no_move_of_final final (.sync r t point move)
  | finish r t instr here done => exact no_move_of_final final (.finish r t instr here done)
  | send r t iters msgSize here more stage =>
      exact no_move_of_final final (.send r t iters msgSize here more stage)
  | observe r t iters msgSize here more stage token =>
      exact no_move_of_final final (.observe r t iters msgSize here more stage token)
  | consume r t iters msgSize here more stage =>
      exact no_move_of_final final (.consume r t iters msgSize here more stage)
  | storeSync r syncCount i here iter below =>
      exact no_move_of_final final (.storeSync r syncCount i here iter below)
  | storeCursor r syncCount i here iter below =>
      exact no_move_of_final final (.storeCursor r syncCount ⟨i, below⟩ here iter)
  | deliver r p k msg buf rest found posted =>
      rw [noMessage r p] at found
      exact absurd found (by simp)
  | poll r p count stage positive few available =>
      rw [cqNil r p] at available
      exact absurd available (by simp only [List.length_nil]; omega)
  | refill r p stage batch => exact noStage stage (by simp)
  | read r p head tail stage batch => exact noStage stage (by simp)
  | fetch r p workerIdx stage => exact noStage stage (by simp)
  | store r p workerIdx cursor stage => exact noStage stage (by simp)
  | wrap r p workerIdx stage => exact noStage stage (by simp)
  | bump r p workerIdx stage => exact noStage stage (by simp)

/-- Without a step there is no worker left. -/
theorem Reachable.finished (reachable : Reachable s) (r : Rank cfg) (t : Worker cfg) :
    (threadCode cfg.params r t).length ≤ (s.control r t).pc := by
  obtain ⟨x, late, image⟩ := reachable.image
  rw [← image.control]
  exact (image.stuck final).finished late.inv late.fair r t

end Final

/-! ## What is left -/

/-- At least the steps until the callback returns. Before its token it counts as many as
the progress thread of `pingpong_prg` has left, which posts its receive again. -/
def Callback.left : Callback → Nat
  | .idle => 0
  | .copy _ => 7
  | .token _ => 6
  | .bump _ _ => 5
  | .fetch => 3
  | .store _ => 2
  | .wrap => 1

/-- A message takes its callback and its steps. -/
def State.pipeLeft (s : State cfg) (r : Rank cfg) (p : Prg cfg) : Nat :=
  8 * (s.net r p).length + (s.callback r p).left

def State.team (s : State cfg) : Team (Rank cfg) (Worker cfg) BodyStage := ⟨s.control, s.loc⟩

def State.left (s : State cfg) : Nat :=
  s.team.leftAll (job cfg) (workCost cfg) + tableSum s.pipeLeft

/-- The steps of a callback that are none of `pingpong_prg`. -/
def Callback.extra : Callback → Nat
  | .copy _ => 1
  | .fetch => 3
  | .store _ => 2
  | .wrap => 1
  | _ => 0

theorem Callback.Held.left {thread : PrgThread} {c : Callback} (held : c.Held thread) :
    c.left = thread.left + c.extra := by
  cases c with
  | copy msg =>
      obtain ⟨buf, rfl⟩ := held
      rfl
  | token msg =>
      obtain ⟨buf, rfl⟩ := held
      rfl
  | bump msg workerNum =>
      obtain ⟨buf, rfl⟩ := held
      rfl
  | idle =>
      obtain rfl := held
      rfl
  | fetch =>
      obtain rfl := held
      rfl
  | store workerNum =>
      obtain rfl := held
      rfl
  | wrap =>
      obtain rfl := held
      rfl

/-- What is left is what is left for the corresponding job, and the extra steps. -/
theorem Image.left_eq (image : Image s x) :
    s.left = x.left + tableSum fun r p => (s.callback r p).extra := by
  have each : s.pipeLeft = fun r p => x.pipeLeft r p + (s.callback r p).extra := by
    funext r p
    rw [State.pipeLeft, PingpongPrg.State.pipeLeft, image.net, image.cq r p,
      (image.held r p).left, List.length_nil]
    omega
  have team : s.team = x.team := by
    rw [State.team, PingpongPrg.State.team, image.control, image.loc]
  rw [State.left, PingpongPrg.State.left, each, team, Nat.add_assoc]
  simp only [tableSum, Finset.sum_add_distrib]

/-- A move of a worker leaves less to do because it does so in `pingpong_prg`. -/
theorem left_lt_of_image (image : Image s x) (inv : Inv x) (move : PingpongPrg.Move x x')
    (image' : Image s' x') (same : s'.callback = s.callback) : s'.left < s.left := by
  rw [image.left_eq, image'.left_eq, same]
  exact Nat.add_lt_add_right (move.left_lt inv) _

/-- A step of the transport or of a callback leaves less to do if it does so there. -/
theorem left_lt_of_pipeLeft (r : Rank cfg) (p : Prg cfg) (team : s'.team = s.team)
    (others : ∀ r' p', ¬ (r' = r ∧ p' = p) →
      s'.net r' p' = s.net r' p' ∧ s'.callback r' p' = s.callback r' p')
    (own : s'.pipeLeft r p < s.pipeLeft r p) : s'.left < s.left := by
  have change := tableSum_change s.pipeLeft s'.pipeLeft r p fun r' p' different => by
    obtain ⟨net, callback⟩ := others r' p' different
    rw [State.pipeLeft, State.pipeLeft, net, callback]
  rw [State.left, State.left, team]
  omega

/-- Every step leaves less to do. -/
theorem Move.left_lt (move : Move s s') (image : Image s x) (inv : Inv x) : s'.left < s.left := by
  -- A step of a callback that touches no message.
  have callback : ∀ {r : Rank cfg} {p : Prg cfg} {c : Callback}, s'.team = s.team →
      s'.net = s.net → s'.callback = put s.callback r p c → c.left < (s.callback r p).left →
      s'.left < s.left := by
    intro r p c team net put_callback lower
    refine left_lt_of_pipeLeft r p team (fun r' p' different => ⟨by rw [net], ?_⟩) ?_
    · rw [put_callback, put_of_ne _ _ different]
    · rw [State.pipeLeft, State.pipeLeft, net, put_callback, put_same]
      exact Nat.add_lt_add_left lower _
  obtain ⟨control, loc, syncs, next, net, rq, cq, prg, given⟩ := x
  obtain ⟨rfl, rfl, rfl, rfl, rfl, cqNil, held, cursor⟩ := image
  have image : Image s ⟨s.control, s.loc, s.syncs, next, s.net, rq, cq, prg, s.given⟩ :=
    ⟨rfl, rfl, rfl, rfl, rfl, cqNil, held, cursor⟩
  cases move with
  | receive r p k msg found idle =>
      refine left_lt_of_pipeLeft r p rfl
        (fun r' p' different => ⟨put_of_ne _ _ different, put_of_ne _ _ different⟩) ?_
      have below : k < (s.net r p).length := (List.getElem?_eq_some_iff.mp found).1
      simp only [State.pipeLeft, put_same, Callback.left, idle, List.length_eraseIdx_of_lt below]
      omega
  | copy r p msg stage => exact callback rfl rfl rfl (by simp [stage, Callback.left])
  | token r p msg stage => exact callback rfl rfl rfl (by simp [stage, Callback.left])
  | bump r p msg workerNum stage => exact callback rfl rfl rfl (by simp [stage, Callback.left])
  | fetch r p stage => exact callback rfl rfl rfl (by simp [stage, Callback.left])
  | store r p workerNum stage => exact callback rfl rfl rfl (by simp [stage, Callback.left])
  | wrap r p stage => exact callback rfl rfl rfl (by simp [stage, Callback.left])
  | storeCursor r syncCount p here iter =>
      have lower := leftAll_store
        (s := ⟨s.control, s.loc, s.syncs, next, s.net, rq, cq, prg, s.given⟩) here iter
        (Nat.add_lt_add_left p.isLt _)
      exact Nat.add_lt_add_right (Nat.lt_of_succ_le lower.le) _
  | sync r t point move =>
      exact left_lt_of_image image inv (.sync r t point move)
        ⟨rfl, rfl, rfl, rfl, rfl, image.cq, image.held, image.cursor⟩ rfl
  | finish r t instr here done =>
      exact left_lt_of_image image inv (.finish r t instr here done)
        ⟨rfl, rfl, rfl, rfl, rfl, image.cq, image.held, image.cursor⟩ rfl
  | send r t iters msgSize here more stage =>
      exact left_lt_of_image image inv (.send r t iters msgSize here more stage)
        ⟨rfl, rfl, rfl, rfl, rfl, image.cq, image.held, image.cursor⟩ rfl
  | observe r t iters msgSize here more stage token =>
      exact left_lt_of_image image inv (.observe r t iters msgSize here more stage token)
        ⟨rfl, rfl, rfl, rfl, rfl, image.cq, image.held, image.cursor⟩ rfl
  | consume r t iters msgSize here more stage =>
      exact left_lt_of_image image inv (.consume r t iters msgSize here more stage)
        ⟨rfl, rfl, rfl, rfl, rfl, image.cq, image.held, image.cursor⟩ rfl
  | storeSync r syncCount i here iter below =>
      exact left_lt_of_image image inv (.storeSync r syncCount i here iter below)
        ⟨rfl, rfl, rfl, rfl, rfl, image.cq, image.held, image.cursor⟩ rfl

/-- Over the reachable states, what is left is a variant of the steps. -/
theorem variant_left (cfg : Config) : Machine.Variant (@step cfg) Reachable State.left where
  keeps := fun reachable taken => reachable.tail taken
  lowers := fun reachable ⟨_, taken⟩ => by
    obtain ⟨x, late, image⟩ := reachable.image
    exact (move_of_step taken).left_lt image late.inv

theorem left_start (cfg : Config) : (State.init cfg).left = workload cfg := by
  rw [(image_init cfg).left_eq, left_init]
  simp [tableSum, State.init, Callback.extra]

end FabricBench.PingpongPrgUcx
