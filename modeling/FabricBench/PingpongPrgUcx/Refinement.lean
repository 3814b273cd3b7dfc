import FabricBench.PingpongPrgUcx.Late
import FabricBench.PingpongPrgUcx.Model

/-!
`pingpong_prg_ucx` refines `pingpong_prg` with late resets.

Owns: the correspondence `Image` of a state of `pingpong_prg_ucx` with one of
`pingpong_prg`, in which the cursors stand where the callbacks will leave them, the
moves of `pingpong_prg` that match a move (`Image.move`), and the refinement
(`Reachable.image`). A progress thread that serves a single worker has nowhere else to
leave its cursor, and then `pingpong_prg_ucx` refines `pingpong_prg` itself
(`prgUcx_refines`).
-/

namespace FabricBench.PingpongPrgUcx

open FabricBench.Lib FabricBench.PingpongPrg

variable {cfg : Config} {s s' : State cfg} {x : PingpongPrg.State cfg}

/-! ## The correspondence -/

variable (cfg) in
/-- Where the callback leaves the cursor, if it is not stored meanwhile. -/
def Callback.settled (p : Nat) (cursor : Nat) : Callback → Nat
  | .fetch => incrementWorkerIdx cfg p cursor
  | .store workerNum => incrementWorkerIdx cfg p workerNum
  | .wrap => wrapWorkerIdx cfg p cursor
  | _ => cursor

/-- What a progress thread of `pingpong_prg` does while the callback runs: it has polled
the message and is about to read its worker, or has read it. After the token it polls
again. -/
def Callback.Held (thread : PrgThread) : Callback → Prop
  | .copy msg => ∃ buf, thread = ⟨.read, [⟨msg, buf⟩], 1⟩
  | .token msg => ∃ buf, thread = ⟨.read, [⟨msg, buf⟩], 1⟩
  | .bump msg workerNum => ∃ buf, thread = ⟨.fetch workerNum, [⟨msg, buf⟩], 1⟩
  | _ => thread = ⟨.poll, [], 0⟩

structure Image (s : State cfg) (x : PingpongPrg.State cfg) : Prop where
  control : x.control = s.control
  loc : x.loc = s.loc
  syncs : x.syncs = s.syncs
  given : x.given = s.given
  net : x.net = s.net
  cq : ∀ r p, x.cq r p = []
  held : ∀ r p, (s.callback r p).Held (x.prg r p)
  cursor : ∀ r (p : Prg cfg),
    x.nextWorkerIdxes r p = (s.callback r p).settled cfg p (s.nextWorkerIdxes r p)

theorem image_init (cfg : Config) : Image (State.init cfg) (PingpongPrg.State.init cfg) where
  control := rfl
  loc := rfl
  syncs := rfl
  given := rfl
  net := rfl
  cq _ _ := rfl
  held _ _ := rfl
  cursor _ _ := rfl

theorem Image.instr (image : Image s x) (r : Rank cfg) (t : Worker cfg) :
    x.instr r t = s.instr r t := by
  rw [PingpongPrg.State.instr, State.instr, image.control]

/-- Threads and callbacks change together. -/
theorem held_put {callback : Rank cfg → Prg cfg → Callback} {prg : Rank cfg → Prg cfg → PrgThread}
    (held : ∀ r p, (callback r p).Held (prg r p)) {r : Rank cfg} {p : Prg cfg} {c : Callback}
    {thread : PrgThread} (own : c.Held thread) (r' : Rank cfg) (p' : Prg cfg) :
    (put callback r p c r' p').Held (put prg r p thread r' p') := by
  refine forall_entries (motive := fun r' p' => (put callback r p c r' p').Held
    (put prg r p thread r' p')) r p ?_ ?_ r' p'
  · simpa using own
  · intro r' p' different
    simpa only [put_of_ne _ _ different] using held r' p'

/-- A thread that goes on as it was held may stay. -/
theorem held_put_same {callback : Rank cfg → Prg cfg → Callback}
    {prg : Rank cfg → Prg cfg → PrgThread} (held : ∀ r p, (callback r p).Held (prg r p))
    {r : Rank cfg} {p : Prg cfg} {c : Callback} (own : c.Held (prg r p)) (r' : Rank cfg)
    (p' : Prg cfg) : (put callback r p c r' p').Held (prg r' p') := by
  have both := held_put held (r := r) (p := p) own r' p'
  rwa [put_self] at both

/-- The cursors where the callbacks leave them, after a change to one of them. -/
theorem settled_put {callback callback' : Rank cfg → Prg cfg → Callback}
    {next next' cursors cursors' : Rank cfg → Nat → Nat}
    (settled : ∀ r (p : Prg cfg), next r p = (callback r p).settled cfg p (cursors r p))
    (r : Rank cfg) (p : Prg cfg)
    (others : ∀ r' p', ¬ (r' = r ∧ p' = p) → callback' r' p' = callback r' p' ∧
      next' r' p'.val = next r' p'.val ∧ cursors' r' p'.val = cursors r' p'.val)
    (own : next' r p = (callback' r p).settled cfg p (cursors' r p)) (r' : Rank cfg)
    (p' : Prg cfg) : next' r' p' = (callback' r' p').settled cfg p' (cursors' r' p') := by
  refine forall_entries (motive := fun r' (p' : Prg cfg) =>
    next' r' p' = (callback' r' p').settled cfg p' (cursors' r' p')) r p own ?_ r' p'
  intro r' p' different
  obtain ⟨same, nextSame, cursorSame⟩ := others r' p' different
  rw [same, nextSame, cursorSame]
  exact settled r' p'

/-! ## Groups -/

theorem inGroup_wrap (p : Prg cfg) (j : Nat) :
    InGroup p (wrapWorkerIdx cfg p (p.val + j * cfg.rxThreadNum)) := by
  rw [wrapWorkerIdx]
  split_ifs with past
  · exact inGroup_first p
  · rw [txThreadNum_le_iff] at past
    exact ⟨j, Nat.lt_of_not_le past, rfl⟩

theorem inGroup_increment {p : Prg cfg} {cursor : Nat} (group : InGroup p cursor) :
    InGroup p (incrementWorkerIdx cfg p cursor) := by
  obtain ⟨j, -, rfl⟩ := group
  rw [incrementWorkerIdx, Nat.add_assoc, ← Nat.succ_mul]
  exact inGroup_wrap p (j + 1)

theorem wrap_first (p : Prg cfg) : wrapWorkerIdx cfg p p = p.val := by
  have below : p.val < cfg.txThreadNum :=
    Nat.lt_of_lt_of_le p.isLt cfg.rxThreadNum_le
  rw [wrapWorkerIdx, if_neg (Nat.not_le_of_lt below)]

/-- Wherever the callback stands when its cursor is stored, it leaves it in the group. -/
theorem Image.inGroup_settled (image : Image s x) (inv : Inv x) (r : Rank cfg) (p : Prg cfg) :
    InGroup p ((s.callback r p).settled cfg p p) := by
  cases stage : s.callback r p with
  | fetch => exact inGroup_increment (inGroup_first p)
  | store workerNum =>
      -- The thread polls, with its cursor where the sum will leave it.
      have held := image.held r p
      have cursor := image.cursor r p
      have aligned := inv.aligned r p
      rw [stage] at held cursor
      rw [held, cursor] at aligned
      exact aligned
  | wrap =>
      rw [Callback.settled, wrap_first]
      exact inGroup_first p
  | _ => exact inGroup_first p

/-! ## Moves -/

/-- Every move is matched by moves of `pingpong_prg`, or by a late store. -/
theorem Image.move (image : Image s x) (inv : Inv x) (move : Move s s') :
    ∃ x', Relation.ReflTransGen Late x x' ∧ Image s' x' := by
  have group := image.inGroup_settled inv
  have credit := inv.credit
  obtain ⟨control, loc, syncs, next, net, rq, cq, prg, given⟩ := x
  obtain ⟨rfl, rfl, rfl, rfl, rfl, cqNil, held, cursor⟩ := image
  dsimp only at credit cqNil held cursor
  cases move with
  | sync r t point move =>
      exact ⟨_, .single (.move (.sync r t point move)), rfl, rfl, rfl, rfl, rfl, cqNil, held,
        cursor⟩
  | finish r t instr here done =>
      exact ⟨_, .single (.move (.finish r t instr here done)), rfl, rfl, rfl, rfl, rfl, cqNil, held,
        cursor⟩
  | send r t iters msgSize here more stage =>
      exact ⟨_, .single (.move (.send r t iters msgSize here more stage)), rfl, rfl, rfl, rfl, rfl,
        cqNil, held, cursor⟩
  | observe r t iters msgSize here more stage token =>
      exact ⟨_, .single (.move (.observe r t iters msgSize here more stage token)), rfl, rfl, rfl,
        rfl, rfl, cqNil, held, cursor⟩
  | consume r t iters msgSize here more stage =>
      exact ⟨_, .single (.move (.consume r t iters msgSize here more stage)), rfl, rfl, rfl, rfl,
        rfl, cqNil, held, cursor⟩
  | storeSync r syncCount i here iter below =>
      exact ⟨_, .single (.move (.storeSync r syncCount i here iter below)), rfl, rfl, rfl, rfl, rfl,
        cqNil, held, cursor⟩
  | storeCursor r syncCount p here iter =>
      refine ⟨_, .single (.store r syncCount p _ here iter (group r p)), rfl, rfl, rfl, rfl, rfl,
        cqNil, held, settled_put cursor r p ?_ ?_⟩
      · intro r' p' different
        exact ⟨rfl, put_cursor_of_ne _ _ different, put_cursor_of_ne _ _ different⟩
      · simp only [lateStore, put_same]
  | receive r p k msg found idle =>
      -- The message is delivered to a posted receive, and polled alone.
      have polls : prg r p = ⟨.poll, [], 0⟩ := by
        have own := held r p
        rw [idle] at own
        exact own
      obtain ⟨buf, rest, posted⟩ : ∃ buf rest, rq r p = buf :: rest := by
        have sum := (credit r p).sum
        simp only [polls, cqNil r p, List.length_nil] at sum
        refine List.exists_cons_of_ne_nil fun none => ?_
        rw [none] at sum
        exact absurd sum (by decide)
      refine ⟨_, .head (.move (.deliver r p k msg buf rest found posted)) (.single (.move
        (.poll r p 1 (congrArg PrgThread.stage polls) Nat.one_pos (by decide) (by simp)))),
        rfl, rfl, rfl, rfl, rfl, ?_, held_put held ?_, settled_put cursor r p ?_ ?_⟩
      · refine forall_entries r p ?_ ?_
        · simp [cqNil r p]
        · intro r' p' different
          simp only [put_of_ne _ _ different, cqNil]
      · exact ⟨buf, by simp [cqNil r p]⟩
      · exact fun r' p' different => ⟨put_of_ne _ _ different, rfl, rfl⟩
      · have own := cursor r p
        rw [idle] at own
        simpa [Callback.settled] using own
  | copy r p msg stage =>
      have own := held r p
      have place := cursor r p
      rw [stage] at own place
      refine ⟨_, .refl, rfl, rfl, rfl, rfl, rfl, cqNil, held_put_same held own,
        settled_put cursor r p ?_ ?_⟩
      · exact fun r' p' different => ⟨put_of_ne _ _ different, rfl, rfl⟩
      · simpa [Callback.settled] using place
  | token r p msg stage =>
      have own := held r p
      have place := cursor r p
      rw [stage] at own place
      obtain ⟨buf, thread⟩ := own
      refine ⟨_, .single (.move (.read r p ⟨msg, buf⟩ [] (congrArg PrgThread.stage thread)
        (congrArg PrgThread.batch thread))), rfl, rfl, rfl, rfl, rfl, cqNil, held_put held ?_,
        settled_put cursor r p ?_ ?_⟩
      · refine ⟨buf, ?_⟩
        simp only [thread]
        rw [show next r p = s.nextWorkerIdxes r p from place]
      · exact fun r' p' different => ⟨put_of_ne _ _ different, rfl, rfl⟩
      · simpa [Callback.settled] using place
  | bump r p msg workerNum stage =>
      have own := held r p
      have place := cursor r p
      rw [stage] at own place
      obtain ⟨buf, thread⟩ := own
      -- The cursor is moved, the token handed over and the receive posted again.
      refine ⟨_, .head (.move (.fetch r p workerNum (congrArg PrgThread.stage thread)))
        (.head (.move (.store r p workerNum (next r p) (by simp)))
        (.head (.move (.wrap r p workerNum (by simp)))
        (.head (.move (.bump r p workerNum (by simp)))
        (.single (.move (.refill r p (by simp) (by simp [thread]))))))),
        rfl, rfl, rfl, rfl, rfl, cqNil, ?_, settled_put cursor r p ?_ ?_⟩
      · simp only [put_put]
        exact held_put held rfl
      · intro r' p' different
        refine ⟨put_of_ne _ _ different, ?_, rfl⟩
        simp only [put_put]
        exact put_cursor_of_ne _ _ different
      · simp only [put_same, Callback.settled, incrementWorkerIdx]
        rw [show next r p = s.nextWorkerIdxes r p from place]
  | fetch r p stage =>
      have own := held r p
      have place := cursor r p
      rw [stage] at own place
      refine ⟨_, .refl, rfl, rfl, rfl, rfl, rfl, cqNil, held_put_same held own,
        settled_put cursor r p ?_ ?_⟩
      · exact fun r' p' different => ⟨put_of_ne _ _ different, rfl, rfl⟩
      · simpa [Callback.settled] using place
  | store r p workerNum stage =>
      have own := held r p
      have place := cursor r p
      rw [stage] at own place
      refine ⟨_, .refl, rfl, rfl, rfl, rfl, rfl, cqNil, held_put_same held own,
        settled_put cursor r p ?_ ?_⟩
      · exact fun r' p' different =>
          ⟨put_of_ne _ _ different, rfl, put_cursor_of_ne _ _ different⟩
      · simpa [Callback.settled, incrementWorkerIdx] using place
  | wrap r p stage =>
      have own := held r p
      have place := cursor r p
      rw [stage] at own place
      refine ⟨_, .refl, rfl, rfl, rfl, rfl, rfl, cqNil, held_put_same held own,
        settled_put cursor r p ?_ ?_⟩
      · exact fun r' p' different =>
          ⟨put_of_ne _ _ different, rfl, put_cursor_of_ne _ _ different⟩
      · simpa [Callback.settled] using place

/-! ## Runs -/

theorem Reachable.image (reachable : Reachable s) : ∃ x, LateReachable x ∧ Image s x := by
  have matched : ∀ {before after : State cfg} {x}, Image before x ∧ LateReachable x →
      Machine.Step step before after →
      ∃ x', Relation.ReflTransGen Late x x' ∧ Image after x' ∧ LateReachable x' := by
    rintro before after x ⟨image, late⟩ ⟨action, taken⟩
    obtain ⟨x', steps, image'⟩ := image.move late.inv (move_of_step taken)
    exact ⟨x', steps, image', late.trans steps⟩
  obtain ⟨x, late, image, -⟩ := Machine.Run.matched
    (fun s x => Image s x ∧ LateReachable x) reachable ⟨image_init cfg, .refl⟩ matched
  exact ⟨x, late, image⟩

/-- In a group of one there are no late stores. -/
theorem LateReachable.of_single (single : cfg.perGroup = 1) (late : LateReachable x) :
    PingpongPrg.Reachable x := by
  induction late with
  | refl => exact .refl
  | tail _ last inductionHypothesis =>
      refine inductionHypothesis.tail (step_iff_move.mpr ?_)
      cases last with
      | move move => exact move
      | store r syncCount p cursor here iter group =>
          obtain ⟨j, below, rfl⟩ := group
          obtain rfl : j = 0 := by omega
          have move := PingpongPrg.Move.storeCursor r syncCount p.val here iter p.isLt
          simpa [lateStore] using move

/-- Every state of `pingpong_prg_ucx` corresponds to one that `pingpong_prg` comes to if a
reset may leave a cursor at another worker of its group; and, if the progress threads
serve one worker each, to one that `pingpong_prg` comes to. -/
theorem prgUcx_refines (cfg : Config) (s : State cfg) (reachable : Reachable s) :
    ∃ x, LateReachable x ∧ Image s x ∧ (cfg.perGroup = 1 → PingpongPrg.Reachable x) := by
  obtain ⟨x, late, image⟩ := reachable.image
  exact ⟨x, late, image, fun single => late.of_single single⟩

/-- A cursor that is stored while its callback is about to move it: in `pingpong_prg` it is
left at the second worker. And a callback of a progress thread with one worker. -/
theorem prgUcx_refines_late :
    (∃ s x, Machine.runActions step (State.init pairJob)
        (toReset ++ List.replicate 3 (.store pinger)) = some s ∧
      s.callback pinger dealer = .fetch ∧ s.nextWorkerIdxes pinger dealer = 0 ∧
      LateReachable x ∧ Image s x ∧ x.nextWorkerIdxes pinger dealer = 1) ∧
    ∃ s x, Machine.runActions step (State.init (quickJob 0))
        ((quickEnter 0).filterMap Action.ofTeam ++ quickExchange.take 4) = some s ∧
      s.callback pong only = .bump ⟨0, 8, 12⟩ 0 ∧
      PingpongPrg.Reachable x ∧ Image s x := by
  constructor
  · obtain ⟨s, taken, fetching, stored⟩ : ∃ s : State pairJob,
        Machine.runActions step (State.init pairJob)
          (toReset ++ List.replicate 3 (.store pinger)) = some s ∧
        s.callback pinger dealer = .fetch ∧ s.nextWorkerIdxes pinger dealer = 0 :=
      Machine.exists_of_runActions (by decide +kernel)
    obtain ⟨x, late, image, -⟩ := prgUcx_refines pairJob s (Machine.run_of_actions _ taken)
    refine ⟨s, x, taken, fetching, stored, late, image, ?_⟩
    rw [image.cursor, fetching, stored]
    rfl
  · obtain ⟨s, taken, chosen⟩ : ∃ s : State (quickJob 0),
        Machine.runActions step (State.init (quickJob 0))
          ((quickEnter 0).filterMap Action.ofTeam ++ quickExchange.take 4) = some s ∧
        s.callback pong only = .bump ⟨0, 8, 12⟩ 0 :=
      Machine.exists_of_runActions (by decide +kernel)
    obtain ⟨x, -, image, single⟩ := prgUcx_refines (quickJob 0) s (Machine.run_of_actions _ taken)
    exact ⟨s, x, taken, chosen, single rfl, image⟩

end FabricBench.PingpongPrgUcx
