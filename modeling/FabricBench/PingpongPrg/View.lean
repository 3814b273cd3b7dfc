import FabricBench.Account.Ledger
import FabricBench.PingpongPrg.Invariant

/-!
The account of a dispatch group in a state of `pingpong_prg`.

Progress thread `p` of rank `r` serves the workers `p`, `p + R`, `p + 2 * R`, ...
of its process, and gets the messages of the workers of the same numbers of the
partner. `view s r p` reads their account off the state. `view_simulates` is the
step theorem: a move of the job is a step of each group's account or leaves it
alone.
-/

namespace FabricBench.PingpongPrg

open FabricBench.Lib FabricBench.Account

variable {cfg : Config}

/-! ## Workers and groups -/

/-- Worker `j` of the group of progress thread `p`. -/
def groupWorker (p : Prg cfg) (j : Fin cfg.perGroup) : Worker cfg :=
  ⟨p.val + j.val * cfg.rxThreadNum, groupWorker_lt p j.isLt⟩

/-- The number of a worker in its group. -/
def seat (t : Worker cfg) : Fin cfg.perGroup :=
  ⟨t.val / cfg.rxThreadNum, Nat.div_lt_of_lt_mul (by
    rw [Nat.mul_comm, cfg.perGroup_mul]; exact t.isLt)⟩

theorem groupWorker_route_seat (t : Worker cfg) : groupWorker (route t) (seat t) = t := by
  apply Fin.ext
  change t.val % cfg.rxThreadNum + t.val / cfg.rxThreadNum * cfg.rxThreadNum = t.val
  rw [Nat.mul_comm]
  exact Nat.mod_add_div _ _

theorem route_groupWorker (p : Prg cfg) (j : Fin cfg.perGroup) : route (groupWorker p j) = p := by
  apply Fin.ext
  exact Stride.index_mod p.isLt j

theorem seat_groupWorker (p : Prg cfg) (j : Fin cfg.perGroup) : seat (groupWorker p j) = j := by
  apply Fin.ext
  exact Stride.index_div p.isLt j

/-- Two workers of one group are the same if their numbers are. -/
theorem groupWorker_eq_iff (p : Prg cfg) (j : Fin cfg.perGroup) (t : Worker cfg) :
    groupWorker p j = t ↔ p = route t ∧ j = seat t := by
  constructor
  · rintro rfl
    exact ⟨(route_groupWorker p j).symm, (seat_groupWorker p j).symm⟩
  · rintro ⟨rfl, rfl⟩
    exact groupWorker_route_seat t

/-- The number in the group of a worker index. -/
def seatOf (p : Prg cfg) (workerIdx : Nat) : Nat := (workerIdx - p.val) / cfg.rxThreadNum

theorem seatOf_add (p : Prg cfg) (j : Nat) : seatOf p (p.val + j * cfg.rxThreadNum) = j := by
  rw [seatOf, Nat.add_sub_cancel_left, Nat.mul_div_cancel _ cfg.rx_pos]

/-! ## The account -/

/-- The loop a message was sent in. -/
def Msg.tag (msg : Msg) : Nat := msg.loop / 8

def PrgThread.tag (thread : PrgThread) : Nat := (thread.batch.head?.map (·.msg.tag)).getD 0

/-- The messages under way to progress thread `p` of rank `r`: in flight, arrived,
or polled and not dispatched. -/
def State.underway (s : State cfg) (r : Rank cfg) (p : Prg cfg) : List Msg :=
  s.net r p ++ (s.cq r p).map (·.msg) ++ (s.prg r p).batch.map (·.msg)

/-- The messages worker `t` has sent in loop `e`. -/
def State.sentIn (s : State cfg) (r : Rank cfg) (t : Worker cfg) (e : Nat) : Nat :=
  s.team.done (job cfg) (Local.sent (sender r)) r t e

/-- The tokens worker `t` has taken in loop `e`. -/
def State.takenIn (s : State cfg) (r : Rank cfg) (t : Worker cfg) (e : Nat) : Nat :=
  s.team.done (job cfg) (Local.taken (sender r)) r t e

/-- Position `pc` is a reset. -/
def AtReset (params : RunParams) (pc : Nat) : Prop := pc % 8 = 0 ∧ pc < 8 * params.loops

instance (params : RunParams) (pc : Nat) : Decidable (AtReset params pc) := by
  unfold AtReset
  infer_instance

/-- The loop a process serves while its thread 0 is at `pc`. -/
def modeAt (params : RunParams) (pc : Nat) : Mode :=
  if AtReset params pc then .resetting (pc / 8)
  else .active (min ((pc - 1) / 8) (params.loops - 1))

def viewStage (p : Prg cfg) (thread : PrgThread) : Stage :=
  match thread.stage with
  | .poll => .ready
  | .read => .ready
  | .fetch workerIdx => .fetch (seatOf p workerIdx) thread.tag
  | .store workerIdx cursor => .store (seatOf p workerIdx) thread.tag (seatOf p cursor)
  | .wrap workerIdx => .wrap (seatOf p workerIdx) thread.tag
  | .bump workerIdx => .bump (seatOf p workerIdx) thread.tag

def view (s : State cfg) (r : Rank cfg) (p : Prg cfg) : Ledger cfg.perGroup where
  sync j := s.syncs r (groupWorker p j)
  armed j := decide ((s.loc r (groupWorker p j)).stage = .consume)
  given j := s.given r (groupWorker p j)
  cursor := seatOf p (s.nextWorkerIdxes r p)
  stage := viewStage p (s.prg r p)
  pending e := (s.underway r p).countP (fun msg => msg.tag = e)
  sent j e := s.sentIn (partner r) (groupWorker p j) e
  taken j e := s.takenIn r (groupWorker p j) e
  mode := modeAt cfg.params (s.control r (leader cfg)).pc
  fresh j := decide (AtReset cfg.params (s.control r (leader cfg)).pc) &&
    decide ((groupWorker p j).val < (s.loc r (leader cfg)).iter)

variable (cfg) in
/-- The loops of the run. -/
def plan : Plan where
  loops := cfg.params.loops
  iters := cfg.params.iters
  base := cfg.params.base
  base_nonneg := cfg.params.base_nonneg

/-! ## Modes -/

section Modes

variable {params : RunParams} {pc e : Nat}

theorem modeAt_reset (below : e < params.loops) : modeAt params (8 * e) = .resetting e := by
  have reset : AtReset params (8 * e) := ⟨by omega, by omega⟩
  rw [modeAt, if_pos reset]
  congr 1
  omega

theorem modeAt_active (below : e < params.loops) (low : 8 * e + 1 ≤ pc) (high : pc ≤ 8 * e + 7) :
    modeAt params pc = .active e := by
  have noReset : ¬ AtReset params pc := fun reset => by have := reset.1; omega
  rw [modeAt, if_neg noReset]
  congr 1
  omega

theorem modeAt_opened (below : e < params.loops) (low : 8 * e + 1 ≤ pc) :
    (modeAt params pc).Opened e := by
  unfold modeAt
  split_ifs with reset <;> simp only [Mode.Opened]
  · have := reset.1
    omega
  · omega

theorem not_atReset_loop (params : RunParams) (e : Nat) : ¬ AtReset params (8 * e + 4) :=
  fun reset => by have := reset.1; omega

/-- What moving on means for the process: its reset ends, its next reset begins, or
nothing. -/
theorem modeAt_succ (params : RunParams) (pc : Nat) :
    (∃ e, e < params.loops ∧ pc = 8 * e) ∨
      (∃ e, e + 1 < params.loops ∧ pc = 8 * e + 7) ∨
      (modeAt params (pc + 1) = modeAt params pc ∧ ¬ AtReset params pc ∧
        ¬ AtReset params (pc + 1)) := by
  by_cases reset : AtReset params pc
  · have := reset.1
    have := reset.2
    exact Or.inl ⟨pc / 8, by omega, by omega⟩
  · by_cases resetNext : AtReset params (pc + 1)
    · have := resetNext.1
      have := resetNext.2
      exact Or.inr (Or.inl ⟨pc / 8, by omega, by omega⟩)
    · refine Or.inr (Or.inr ⟨?_, reset, resetNext⟩)
      rw [modeAt, if_neg resetNext, modeAt, if_neg reset]
      congr 1
      unfold AtReset at reset resetNext
      omega

end Modes

end FabricBench.PingpongPrg
