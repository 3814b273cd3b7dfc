import FabricBench.CommExp.Team
import FabricBench.Lib.Stride
import FabricBench.PingpongPrg.Moves

/-!
The bookkeeping that holds in every reachable state of `pingpong_prg` for all
parameters: the team is in order (`Team.Ok`), a progress thread's cursor and the
worker it chose are of its own residue class (`Aligned`), and its receives are
never lost (`Credit`).
-/

namespace FabricBench.PingpongPrg

open FabricBench.Lib

variable {cfg : Config}

/-- `T / R`, the workers a progress thread serves. -/
def Config.perGroup (cfg : Config) : Nat := cfg.txThreadNum / cfg.rxThreadNum

theorem Config.perGroup_mul (cfg : Config) : cfg.perGroup * cfg.rxThreadNum = cfg.txThreadNum :=
  Nat.div_mul_cancel cfg.dvd

theorem Config.perGroup_pos (cfg : Config) : 0 < cfg.perGroup :=
  Nat.div_pos cfg.rxThreadNum_le cfg.rx_pos

/-- Worker `j` of the group of progress thread `p`. -/
theorem groupWorker_lt (p : Prg cfg) {j : Nat} (below : j < cfg.perGroup) :
    p.val + j * cfg.rxThreadNum < cfg.txThreadNum :=
  (Stride.index_lt_iff cfg.dvd p.isLt j).mpr below

/-! ## Definitions -/

/-- A worker index of the group of `p`. -/
def InGroup (p : Prg cfg) (workerIdx : Nat) : Prop :=
  ∃ j, j < cfg.perGroup ∧ workerIdx = p.val + j * cfg.rxThreadNum

/-- The cursor is of the group, except that between the two halves of
`incrementWorkerIdx` it may be one stride past it; so are the indices that were read. -/
def Aligned (p : Prg cfg) (cursor : Nat) : PrgStage → Prop
  | .poll => InGroup p cursor
  | .read => InGroup p cursor
  | .fetch workerIdx => InGroup p cursor ∧ InGroup p workerIdx
  | .store workerIdx loaded => InGroup p cursor ∧ InGroup p workerIdx ∧ InGroup p loaded
  | .wrap workerIdx =>
      (∃ j, j ≤ cfg.perGroup ∧ cursor = p.val + j * cfg.rxThreadNum) ∧ InGroup p workerIdx
  | .bump workerIdx => InGroup p cursor ∧ InGroup p workerIdx

/-- Posted receives, waiting completions and completions of the current poll add
up, and the progress thread holds a completion while it dispatches. -/
structure Credit (posted arrived : Nat) (thread : PrgThread) : Prop where
  sum : posted + arrived + thread.completed = numPrepostRecv
  poll : thread.stage = .poll → thread.batch = [] ∧ thread.completed = 0
  holding : thread.stage ≠ .poll → thread.stage ≠ .read → thread.batch ≠ []

/-- What the team runs: thread 0 of rank 0 reports, and thread 0 of a rank resets. -/
def job (cfg : Config) : Job (Rank cfg) (Worker cfg) BodyStage where
  params := cfg.params
  report r t := decide (r.val = 0 ∧ t.val = 0)
  leader := leader cfg
  first r := firstStage (sender r)
  stores := stores

def State.team (s : State cfg) : Team (Rank cfg) (Worker cfg) BodyStage := ⟨s.control, s.loc⟩

/-- Holds in every reachable state. -/
structure Inv (s : State cfg) : Prop where
  team : s.team.Ok (job cfg)
  aligned : ∀ r p, Aligned p (s.nextWorkerIdxes r p) (s.prg r p).stage
  credit : ∀ r p, Credit (s.rq r p).length (s.cq r p).length (s.prg r p)

/-! ## The team -/

/-- What a move does to the team: nothing, a thread goes on, or it makes progress
that fits its instruction. -/
inductive TeamMove (s s' : State cfg) : Prop where
  | idle (same : s'.team = s.team)
  | goTo (r : Rank cfg) (t : Worker cfg) (point : Spmd.Point)
      (next : s.team.Next (job cfg) r t point) (eq : s'.team = s.team.goTo (job cfg) r t point)
  | work (r : Rank cfg) (t : Worker cfg) (l : Local BodyStage)
      (ok : LocalOk (firstStage (sender r)) (stores t) (s.instr r t) l)
      (eq : s'.team = s.team.work r t l)

theorem leader_stores : stores (leader cfg) = cfg.txThreadNum + cfg.rxThreadNum := if_pos rfl

/-- A store of `reset_counters` fits the instruction. -/
theorem localOk_store {s : State cfg} (ok : s.team.Ok (job cfg)) {r : Rank cfg} {syncCount : Int}
    {i : Nat} (here : s.instr r (leader cfg) = some (.resetCounters syncCount))
    (below : i < cfg.txThreadNum + cfg.rxThreadNum) :
    LocalOk (firstStage (sender r)) (stores (leader cfg)) (s.instr r (leader cfg))
      ⟨i + 1, (s.loc r (leader cfg)).stage⟩ := by
  refine ok.localOk_store here ?_
  change i < stores (leader cfg)
  rw [leader_stores]
  exact below

theorem Move.team {s s' : State cfg} (move : Move s s') (ok : s.team.Ok (job cfg)) :
    TeamMove s s' := by
  cases move with
  | sync r t point move => exact .goTo r t point (.sync point move) (ok.sync_eq move)
  | finish r t instr here done => exact .goTo r t _ (.finish instr here done) rfl
  | send r t iters msgSize here more stage =>
      exact .work r t _ (by rw [here]; exact localOk_afterSend more) rfl
  | observe r t iters msgSize here more stage token =>
      exact .work r t _ (by rw [here]; exact localOk_middle more) rfl
  | consume r t iters msgSize here more stage =>
      exact .work r t _ (by rw [here]; exact localOk_afterConsume more) rfl
  | storeSync r syncCount i here iter below =>
      exact .work r (leader cfg) _ (localOk_store ok here (by omega)) rfl
  | storeCursor r syncCount i here iter below =>
      exact .work r (leader cfg) _ (localOk_store ok here (by omega)) rfl
  | deliver r p k msg buf rest found posted => exact .idle rfl
  | poll r p count stage positive few available => exact .idle rfl
  | refill r p stage batch => exact .idle rfl
  | read r p head tail stage batch => exact .idle rfl
  | fetch r p workerIdx stage => exact .idle rfl
  | store r p workerIdx cursor stage => exact .idle rfl
  | wrap r p workerIdx stage => exact .idle rfl
  | bump r p workerIdx stage => exact .idle rfl

theorem team_step {s s' : State cfg} (ok : s.team.Ok (job cfg)) (move : Move s s') :
    s'.team.Ok (job cfg) := by
  rcases move.team ok with same | ⟨r, t, point, next, same⟩ | ⟨r, t, l, own, same⟩
  · rw [same]
    exact ok
  · rw [same]
    exact ok.goTo next
  · rw [same]
    exact ok.work own

/-! ## Cursors -/

theorem inGroup_first (p : Prg cfg) : InGroup p p.val := ⟨0, cfg.perGroup_pos, by simp⟩

/-- Storing the first worker of the group is fine at every stage. -/
theorem Aligned.store {p : Prg cfg} {cursor : Nat} {stage : PrgStage}
    (aligned : Aligned p cursor stage) : Aligned p p.val stage := by
  cases stage with
  | poll => exact inGroup_first p
  | read => exact inGroup_first p
  | fetch workerIdx => exact ⟨inGroup_first p, aligned.2⟩
  | store workerIdx loaded => exact ⟨inGroup_first p, aligned.2⟩
  | wrap workerIdx => exact ⟨⟨0, Nat.zero_le _, by simp⟩, aligned.2⟩
  | bump workerIdx => exact ⟨inGroup_first p, aligned.2⟩

/-- Past the last worker of the group means past the last worker. -/
theorem txThreadNum_le_iff (p : Prg cfg) (j : Nat) :
    cfg.txThreadNum ≤ p.val + j * cfg.rxThreadNum ↔ cfg.perGroup ≤ j := by
  rw [← Nat.not_lt, Stride.index_lt_iff cfg.dvd p.isLt, Nat.not_lt]
  rfl

theorem PrgMove.aligned {p : Prg cfg} {a b : PrgSide} (move : PrgMove p a b)
    (old : Aligned p a.cursor a.thread.stage) : Aligned p b.cursor b.thread.stage := by
  cases move with
  | other => exact old
  | storeCursor => exact old.store
  | deliver msg buf rest posted => exact old
  | poll count stage positive few available =>
      rw [stage] at old
      exact old
  | refill stage batch =>
      rw [stage] at old
      exact old
  | read head tail stage batch =>
      rw [stage] at old
      exact ⟨old, old⟩
  | fetch workerIdx stage =>
      rw [stage] at old
      exact ⟨old.1, old.2, old.1⟩
  | store workerIdx cursor stage =>
      rw [stage] at old
      obtain ⟨-, worker, j, below, loaded⟩ := old
      refine ⟨⟨j + 1, below, ?_⟩, worker⟩
      rw [loaded, Nat.succ_mul]
      exact Nat.add_assoc _ _ _
  | wrap workerIdx stage =>
      rw [stage] at old
      obtain ⟨⟨j, below, cursor⟩, worker⟩ := old
      refine ⟨?_, worker⟩
      rw [cursor, wrapWorkerIdx]
      split_ifs with past
      · exact inGroup_first p
      · rw [txThreadNum_le_iff] at past
        exact ⟨j, by omega, rfl⟩
  | bump workerIdx stage =>
      rw [stage] at old
      exact old.1

/-! ## Receives -/

theorem PrgMove.credit {p : Prg cfg} {a b : PrgSide} (move : PrgMove p a b)
    (old : Credit a.rq.length a.cq.length a.thread) : Credit b.rq.length b.cq.length b.thread := by
  have sum := old.sum
  cases move with
  | other => exact old
  | storeCursor => exact old
  | deliver msg buf rest posted =>
      refine ⟨?_, old.poll, old.holding⟩
      rw [posted] at sum
      simp only [List.length_append, List.length_cons, List.length_nil] at sum ⊢
      omega
  | poll count stage positive few available =>
      have idle := (old.poll stage).2
      refine ⟨?_, by simp, by simp⟩
      simp only [List.length_drop]
      omega
  | refill stage batch =>
      refine ⟨?_, by simp, by simp⟩
      simp only [List.length_append, List.length_replicate]
      omega
  | read head tail stage batch => exact ⟨sum, by simp, by simp [batch]⟩
  | fetch workerIdx stage =>
      have holding := old.holding (by simp [stage]) (by simp [stage])
      exact ⟨sum, by simp, fun _ _ => holding⟩
  | store workerIdx cursor stage =>
      have holding := old.holding (by simp [stage]) (by simp [stage])
      exact ⟨sum, by simp, fun _ _ => holding⟩
  | wrap workerIdx stage =>
      have holding := old.holding (by simp [stage]) (by simp [stage])
      exact ⟨sum, by simp, fun _ _ => holding⟩
  | bump workerIdx stage => exact ⟨sum, by simp, by simp⟩

/-! ## All of it -/

theorem inv_init (cfg : Config) : Inv (State.init cfg) where
  team := Team.ok_start (job cfg)
  aligned := fun _ p => inGroup_first p
  credit := fun _ _ => ⟨by simp [State.init], by simp [State.init], by simp [State.init]⟩

theorem Inv.move {s s' : State cfg} (inv : Inv s) (move : Move s s') : Inv s' where
  team := team_step inv.team move
  aligned := fun r p => (move.prgSide r p).aligned (inv.aligned r p)
  credit := fun r p => (move.prgSide r p).credit (inv.credit r p)

theorem Reachable.inv {s : State cfg} (reachable : Reachable s) : Inv s :=
  reachable.invariant Inv (inv_init cfg) Inv.move

end FabricBench.PingpongPrg
