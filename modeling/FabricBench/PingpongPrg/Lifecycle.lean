import FabricBench.CommExp.Sweep
import FabricBench.Lib.Lifecycle
import FabricBench.PingpongPrg.Resets
import FabricBench.PingpongPrg.Termination

/-!
`pingpong_prg` from the start of its teams to the return of every `main`.

When its team has ended, a main thread sets `thread_stop` and joins the progress threads,
which look at the flag between two polls. It then frees its contexts, and leaves the
`pmi_barrier` of `comm_free` together with the others. Messages that are still on their
way are not waited for.

Owns: this life of a job (`lifecycle`, `lawful_lifecycle`), what is left in the queues of
a job without prefill when its teams have ended (`underway_of_ended`), and the main
theorem, `pingpongPrg_completes`.
-/

namespace FabricBench.PingpongPrg

open FabricBench.Lib FabricBench.Lib.Lifecycle FabricBench.Account

variable {cfg : Config} {s s' : State cfg}

/-- All workers of the rank are at the end of their programs. -/
def teamEnded (control : Spmd.Control (Rank cfg) (Worker cfg)) (r : Rank cfg) : Bool :=
  decide (∀ t : Worker cfg, (threadCode cfg.params r t).length ≤ (control r t).pc)

/-- A poll is the beginning of a round of a progress thread. -/
def Action.role : Action cfg → Role (Rank cfg) (Prg cfg)
  | .deliver r _ _ => .transport r
  | .poll r p _ => .enter r p
  | .progress r p => .round r p
  | .sync _ _ | .finish _ _ | .send _ _ | .observe _ _ | .consume _ _ | .store _ => .team

/-- `main` of `pingpong_prg` behind the start of its threads. Each round has one poll. -/
def lifecycle (cfg : Config) : System (Rank cfg) (Prg cfg) (State cfg) (Action cfg) where
  step := step
  role := Action.role
  ended s := teamEnded s.control
  idle s r p := decide ((s.prg r p).stage = .poll)
  again := false

/-! ## The teams -/

section Teams

variable {control control' : Spmd.Control (Rank cfg) (Worker cfg)} {r r' : Rank cfg}

theorem teamEnded_iff : teamEnded control r = true ↔
    ∀ t : Worker cfg, 8 * cfg.params.loops + 3 ≤ (control r t).pc := by
  simp [teamEnded, threadCode, runVaryMsg_length]

theorem teamEnded_mono (le : ∀ t, (control r t).pc ≤ (control' r t).pc)
    (ended : teamEnded control r = true) : teamEnded control' r = true :=
  teamEnded_iff.mpr fun t => (teamEnded_iff.mp ended t).trans (le t)

theorem getElem?_of_teamEnded (ended : teamEnded control r = true) (t : Worker cfg) :
    (threadCode cfg.params r t)[(control r t).pc]? = none :=
  List.getElem?_eq_none (of_decide_eq_true ended t)

theorem syncMove_of_teamEnded (ended : teamEnded control r = true) (t : Worker cfg) :
    Spmd.syncMove ((threadCode cfg.params r t).map Instr.op) (leader cfg) control r t = none := by
  simp [Spmd.syncMove, getElem?_of_teamEnded ended t]

/-- Once a team has ended, the others have their last barrier left and can leave it. -/
theorem exists_sync_of_teamEnded
    (synced : Spmd.Synchronised (controlProgram cfg.params) (leader cfg) control)
    (ended : teamEnded control r = true) (unfinished : teamEnded control r' = false) :
    ∃ r t point, Spmd.syncMove (controlProgram cfg.params) (leader cfg) control r t =
      some point := by
  obtain ⟨t', before⟩ : ∃ t', (control r' t').pc < 8 * cfg.params.loops + 3 := by
    by_contra none
    have all : teamEnded control r' = true := teamEnded_iff.mpr fun t =>
      Nat.le_of_not_lt fun before => none ⟨t, before⟩
    exact absurd (all.symm.trans unfinished) (by simp)
  exact exists_sync_of_end synced (teamEnded_iff.mp ended (leader cfg)) before

end Teams

/-- Nobody goes back. -/
theorem Move.pc_le (move : Move s s') (r : Rank cfg) (t : Worker cfg) :
    (s.control r t).pc ≤ (s'.control r t).pc := by
  cases move with
  | sync r' t' point move => exact Spmd.Control.pc_le_set (Spmd.syncMove_pc_le move) r t
  | finish r' t' instr here done => exact Spmd.Control.pc_le_set (Nat.le_succ _) r t
  | _ => exact le_refl _

/-- A team that has ended does nothing more. -/
theorem step_of_ended {action : Action cfg} (ended : ∀ r, teamEnded s.control r = true)
    (team : action.role = .team) : step s action = none := by
  have past : ∀ r t, s.instr r t = none := fun r => getElem?_of_teamEnded (ended r)
  cases action with
  | sync r t => simp [step, syncMove_of_teamEnded (ended r) t]
  | finish r t => simp [step, past r t]
  | send r t => simp [step, past r t]
  | observe r t => simp [step, past r t]
  | consume r t => simp [step, past r t]
  | store r => simp [step, past r (leader cfg)]
  | deliver r p k => simp [Action.role] at team
  | poll r p count => simp [Action.role] at team
  | progress r p => simp [Action.role] at team

/-! ## The progress threads -/

/-- Between two polls a progress thread always has a step. -/
theorem exists_progress {r : Rank cfg} {p : Prg cfg} (busy : (s.prg r p).stage ≠ .poll) :
    ∃ s', step s (.progress r p) = some s' := by
  simp only [step, State.progressNext]
  cases stage : (s.prg r p).stage with
  | poll => exact absurd stage busy
  | read => cases batch : (s.prg r p).batch <;> exact ⟨_, rfl⟩
  | fetch workerIdx => exact ⟨_, rfl⟩
  | store workerIdx cursor => exact ⟨_, rfl⟩
  | wrap workerIdx => exact ⟨_, rfl⟩
  | bump workerIdx => exact ⟨_, rfl⟩

/-- Only its own polls and steps change a progress thread. -/
theorem prg_of_step {action : Action cfg} {r : Rank cfg} {p : Prg cfg}
    (taken : step s action = some s') (noPoll : action.role ≠ .enter r p)
    (noStep : action.role ≠ .round r p) : s'.prg r p = s.prg r p := by
  have others : ∀ {r' p'}, ¬ (r' = r ∧ p' = p) → ∀ thread,
      put s.prg r' p' thread r p = s.prg r p := by
    intro r' p' different thread
    exact put_of_ne _ _ fun same => different ⟨same.1.symm, same.2.symm⟩
  cases action with
  | poll r' p' count =>
      have different : ¬ (r' = r ∧ p' = p) := by
        rintro ⟨rfl, rfl⟩
        exact noPoll rfl
      simp only [step] at taken
      split_ifs at taken
      obtain rfl := Option.some.inj taken
      exact others different _
  | progress r' p' =>
      have different : ¬ (r' = r ∧ p' = p) := by
        rintro ⟨rfl, rfl⟩
        exact noStep rfl
      simp only [step, State.progressNext] at taken
      split at taken
      · exact absurd taken (by simp)
      · split at taken <;> obtain rfl := Option.some.inj taken <;> exact others different _
      all_goals
        obtain rfl := Option.some.inj taken
        exact others different _
  | sync r' t =>
      obtain ⟨point, -, rfl⟩ := Option.map_eq_some_iff.mp taken
      rfl
  | finish r' t | send r' t | observe r' t | consume r' t =>
      simp only [step] at taken
      split at taken
      · split_ifs at taken
        obtain rfl := Option.some.inj taken
        rfl
      · exact absurd taken (by simp)
  | store r' =>
      simp only [step, State.storeNext] at taken
      split at taken
      · split_ifs at taken <;> obtain rfl := Option.some.inj taken <;> rfl
      · exact absurd taken (by simp)
  | deliver r' p' k =>
      simp only [step] at taken
      split at taken
      · obtain rfl := Option.some.inj taken
        rfl
      · exact absurd taken (by simp)

/-! ## The life of a job -/

theorem lawful_lifecycle (cfg : Config) : (lifecycle cfg).Lawful Reachable State.left where
  variant := {
    keeps := fun reachable taken => reachable.tail taken
    lowers := fun reachable taken => (variant_left cfg).lowers reachable.inv taken }
  ended_step := by
    intro s s' action r _ taken ended
    have move : Move s s' := step_iff_move.mp ⟨action, taken⟩
    exact teamEnded_mono (move.pc_le r) ended
  idle_step := by
    intro s s' action r p taken noPoll noStep idle
    have same := prg_of_step taken noPoll noStep
    simpa only [lifecycle, same] using idle
  round := by
    intro s r p _ busy
    obtain ⟨s', taken⟩ := exists_progress (by simpa [lifecycle] using busy)
    exact ⟨.progress r p, s', rfl, taken⟩
  team := by
    intro s r r' reachable ended unfinished
    obtain ⟨r₀, t₀, point, move⟩ :=
      exists_sync_of_teamEnded reachable.inv.team.synced ended unfinished
    have taken : step s (.sync r₀ t₀) =
        some { s with control := s.control.set r₀ t₀ point } := by
      rw [step, threadCode, controlProgram_eq]
      exact congrArg (Option.map _) move
    exact ⟨.sync r₀ t₀, _, rfl, taken⟩
  silent := fun ended team => step_of_ended ended team
  final := by
    intro s reachable final r
    have stuck : Stuck s := by
      rintro s' ⟨action, taken⟩
      have impossible : step s action = none := final action
      rw [impossible] at taken
      exact absurd taken (by simp)
    exact decide_eq_true (stuck.finished reachable.inv (fun r p => reachable.fair r p) r)

/-! ## What is left at the end -/

/-- Without prefill nothing is under way to a process whose workers are at the end. -/
theorem underway_of_ended {r : Rank cfg} {p : Prg cfg} (inv : Inv s)
    (sound : Sound (plan cfg) (view s r p)) (quiet : Quiet (plan cfg) (view s r p))
    (none : cfg.params.prefilledWork = 0)
    (ended : ∀ t, 8 * cfg.params.loops + 3 ≤ (s.control r t).pc) : s.underway r p = [] := by
  have active : (view s r p).mode = .active (cfg.params.loops - 1) := by
    have leaderEnded := ended (leader cfg)
    change modeAt cfg.params (s.control r (leader cfg)).pc = _
    rw [modeAt, if_neg (by unfold AtReset; omega)]
    congr 1
    omega
  have flow := quiet.loop _ active
  refine underway_eq_nil fun l => ?_
  rcases Nat.eq_zero_or_pos cfg.params.loops with zero | positive
  · -- no loop was run, so nothing was sent
    have noneSent : (view s r p).sentTotal (cfg.params.loops - 1) = 0 := by
      refine Finset.sum_eq_zero fun j _ => ?_
      have low : (s.control (partner r) (groupWorker p j)).pc ≤ 8 * cfg.params.loops + 3 :=
        inv.team.bounded (partner r) (groupWorker p j)
      have before : (s.control (partner r) (groupWorker p j)).pc <
          8 * (cfg.params.loops - 1) + 4 := by omega
      exact_mod_cast loopDone_before cfg.params _ before
    have given : 0 ≤ (view s r p).givenTotal := Finset.sum_nonneg fun j _ => Int.natCast_nonneg _
    by_cases same : l = cfg.params.loops - 1
    · have balance := flow.flow
      rw [same]
      omega
    · exact flow.only l same
  · -- the last loop is settled
    refine (flow.closed sound active (.inl ?_) fun j => ?_).1 l
    · simp [plan, RunParams.base, none]
    · have after : 8 * (cfg.params.loops - 1) + 4 < (s.control r (groupWorker p j)).pc := by
        have atEnd := ended (groupWorker p j)
        omega
      exact loopDone_after cfg.params _ after

/-- All workers are at the end of their programs, nothing is on its way, and the progress
threads poll with all their receives posted. -/
structure Completed (s : State cfg) : Prop where
  workers : ∀ (r : Rank cfg) (t : Worker cfg),
    (threadCode cfg.params r t).length ≤ (s.control r t).pc
  net : ∀ r p, s.net r p = []
  cq : ∀ r p, s.cq r p = []
  prg : ∀ r p, s.prg r p = ⟨.poll, [], 0⟩
  posted : ∀ r p, (s.rq r p).length = numPrepostRecv

theorem completed_of_ended (none : cfg.params.prefilledWork = 0) (reachable : Reachable s)
    (ended : ∀ r, teamEnded s.control r = true) (polls : ∀ r p, (s.prg r p).stage = .poll) :
    Completed s := by
  have inv := reachable.inv
  have idle : ∀ r p, s.prg r p = ⟨.poll, [], 0⟩ := by
    intro r p
    obtain ⟨batch, completed⟩ := (inv.credit r p).poll (polls r p)
    rw [← polls r p, ← batch, ← completed]
  have drained : ∀ r p, s.net r p = [] ∧ s.cq r p = [] := by
    intro r p
    have account := reachable.exactAccount r p (plan_settles cfg (.inl none))
    have nothing := underway_of_ended inv (reachable.sound r p) account.toQuiet none
      (teamEnded_iff.mp (ended r))
    simp only [State.underway, List.append_eq_nil_iff, List.map_eq_nil_iff] at nothing
    exact nothing.1
  refine ⟨fun r => of_decide_eq_true (ended r), fun r p => (drained r p).1,
    fun r p => (drained r p).2, idle, fun r p => ?_⟩
  have sum := (inv.credit r p).sum
  rw [(drained r p).2, idle r p] at sum
  exact sum

/-! ## Main theorem -/

/-- Two main threads stop their progress threads, the first of which has looked at the flag
before, and return. -/
def quickReturn {A : Type} (cfg : Config) (r r' : Rank cfg) (p : Prg cfg) :
    List (Event (Rank cfg) (Prg cfg) A) :=
  [.stop r fun _ => true, .stop r' fun _ => false, .exit r' p, .exit r p, .join r, .join r',
    .leave r', .leave r]

/-- A ping and its answer. -/
def quickExchange : List (Action (quickJob 0)) :=
  let receive (r : Fin 2) : List (Action (quickJob 0)) :=
    [.deliver r only 0, .poll r only 1] ++ List.replicate 6 (.progress r only) ++
      [.observe r only, .consume r only]
  [.send ping only] ++ receive pong ++ [.send pong only] ++ receive ping

/-- The whole life of the job. -/
def quickLife (prefilledWork : Nat) (body : List (Action (quickJob prefilledWork))) :
    List (Event (Rank (quickJob prefilledWork)) (Prg (quickJob prefilledWork))
      (Action (quickJob prefilledWork))) :=
  (quickEnter prefilledWork ++ body ++ quickLeave prefilledWork).map .job ++
    quickReturn (quickJob prefilledWork) ping pong only

-- With a prefill the workers may be through before their messages are received.
example :
    let body : List (Action (quickJob 1)) :=
      [.send ping only, .observe ping only, .consume ping only, .observe pong only,
        .consume pong only, .send pong only]
    ∃ life, Machine.runActions (lifeStep (lifecycle (quickJob 1)))
        (Life.start (State.init (quickJob 1))) (quickLife 1 body) = some life ∧
      life.Returned ∧ life.job.net pong only = [⟨0, 8, 12⟩] :=
  Machine.exists_of_runActions (by decide +kernel)

end FabricBench.PingpongPrg
