import FabricBench.PingpongPrg.Model

/-!
What one step of `pingpong_prg` can do, said once: `Move` lists the steps with
their guards and their effect, and `step_iff_move` is the inversion of `step`
that all invariants use. `PrgMove` is what a step can do to one progress thread, its
cursor and its queues.
-/

namespace FabricBench.PingpongPrg

open FabricBench.Lib

variable {cfg : Config}

/-- The steps of the job. -/
inductive Move : State cfg → State cfg → Prop where
  | sync {s : State cfg} (r : Rank cfg) (t : Worker cfg) (point : Spmd.Point)
      (move : Spmd.syncMove (controlProgram cfg.params) (leader cfg) s.control r t = some point) :
      Move s { s with control := s.control.set r t point }
  | finish {s : State cfg} (r : Rank cfg) (t : Worker cfg) (instr : Instr)
      (here : s.instr r t = some instr) (done : workDone (stores t) (s.loc r t) instr = true) :
      Move s (s.advance r t)
  | send {s : State cfg} (r : Rank cfg) (t : Worker cfg) (iters msgSize : Nat)
      (here : s.instr r t = some (.loop iters msgSize)) (more : (s.loc r t).iter < iters)
      (stage : (s.loc r t).stage = .send) :
      Move s { s with
        net := put s.net (partner r) (route t) (s.net (partner r) (route t) ++
          [⟨t, msgSize, (s.control r t).pc⟩])
        loc := put s.loc r t (afterSend (sender r) (s.loc r t)) }
  | observe {s : State cfg} (r : Rank cfg) (t : Worker cfg) (iters msgSize : Nat)
      (here : s.instr r t = some (.loop iters msgSize)) (more : (s.loc r t).iter < iters)
      (stage : (s.loc r t).stage = .wait) (token : s.syncs r t ≠ 0) :
      Move s { s with loc := put s.loc r t ⟨(s.loc r t).iter, .consume⟩ }
  | consume {s : State cfg} (r : Rank cfg) (t : Worker cfg) (iters msgSize : Nat)
      (here : s.instr r t = some (.loop iters msgSize)) (more : (s.loc r t).iter < iters)
      (stage : (s.loc r t).stage = .consume) :
      Move s { s with
        syncs := put s.syncs r t (s.syncs r t - 1)
        loc := put s.loc r t (afterConsume (sender r) (s.loc r t)) }
  | storeSync {s : State cfg} (r : Rank cfg) (syncCount : Int) (i : Nat)
      (here : s.instr r (leader cfg) = some (.resetCounters syncCount))
      (iter : (s.loc r (leader cfg)).iter = i) (below : i < cfg.txThreadNum) :
      Move s { s with
        syncs := put s.syncs r i syncCount
        given := put s.given r i 0
        loc := put s.loc r (leader cfg) ⟨i + 1, (s.loc r (leader cfg)).stage⟩ }
  | storeCursor {s : State cfg} (r : Rank cfg) (syncCount : Int) (i : Nat)
      (here : s.instr r (leader cfg) = some (.resetCounters syncCount))
      (iter : (s.loc r (leader cfg)).iter = cfg.txThreadNum + i) (below : i < cfg.rxThreadNum) :
      Move s { s with
        nextWorkerIdxes := put s.nextWorkerIdxes r i i
        loc := put s.loc r (leader cfg)
          ⟨cfg.txThreadNum + i + 1, (s.loc r (leader cfg)).stage⟩ }
  | deliver {s : State cfg} (r : Rank cfg) (p : Prg cfg) (k : Nat) (msg : Msg) (buf : Nat)
      (rest : List Nat) (found : (s.net r p)[k]? = some msg) (posted : s.rq r p = buf :: rest) :
      Move s { s with
        net := put s.net r p ((s.net r p).eraseIdx k)
        rq := put s.rq r p rest
        cq := put s.cq r p (s.cq r p ++ [⟨msg, buf⟩]) }
  | poll {s : State cfg} (r : Rank cfg) (p : Prg cfg) (count : Nat)
      (stage : (s.prg r p).stage = .poll) (positive : 0 < count) (few : count ≤ numToPoll)
      (available : count ≤ (s.cq r p).length) :
      Move s { s with
        cq := put s.cq r p ((s.cq r p).drop count)
        prg := put s.prg r p ⟨.read, (s.cq r p).take count, count⟩ }
  | refill {s : State cfg} (r : Rank cfg) (p : Prg cfg) (stage : (s.prg r p).stage = .read)
      (batch : (s.prg r p).batch = []) :
      Move s { s with
        rq := put s.rq r p (s.rq r p ++
          List.replicate (s.prg r p).completed (recvSlot cfg (s.nextWorkerIdxes r p)))
        prg := put s.prg r p ⟨.poll, [], 0⟩ }
  | read {s : State cfg} (r : Rank cfg) (p : Prg cfg) (head : Completion) (tail : List Completion)
      (stage : (s.prg r p).stage = .read) (batch : (s.prg r p).batch = head :: tail) :
      Move s { s with
        prg := put s.prg r p { s.prg r p with stage := .fetch (s.nextWorkerIdxes r p) } }
  | fetch {s : State cfg} (r : Rank cfg) (p : Prg cfg) (workerIdx : Nat)
      (stage : (s.prg r p).stage = .fetch workerIdx) :
      Move s { s with
        prg := put s.prg r p
          { s.prg r p with stage := .store workerIdx (s.nextWorkerIdxes r p) } }
  | store {s : State cfg} (r : Rank cfg) (p : Prg cfg) (workerIdx cursor : Nat)
      (stage : (s.prg r p).stage = .store workerIdx cursor) :
      Move s { s with
        nextWorkerIdxes := put s.nextWorkerIdxes r p (cursor + cfg.rxThreadNum)
        prg := put s.prg r p { s.prg r p with stage := .wrap workerIdx } }
  | wrap {s : State cfg} (r : Rank cfg) (p : Prg cfg) (workerIdx : Nat)
      (stage : (s.prg r p).stage = .wrap workerIdx) :
      Move s { s with
        nextWorkerIdxes := put s.nextWorkerIdxes r p
          (wrapWorkerIdx cfg p (s.nextWorkerIdxes r p))
        prg := put s.prg r p { s.prg r p with stage := .bump workerIdx } }
  | bump {s : State cfg} (r : Rank cfg) (p : Prg cfg) (workerIdx : Nat)
      (stage : (s.prg r p).stage = .bump workerIdx) :
      Move s { s with
        syncs := put s.syncs r workerIdx (s.syncs r workerIdx + 1)
        given := put s.given r workerIdx (s.given r workerIdx + 1)
        prg := put s.prg r p { s.prg r p with stage := .read, batch := (s.prg r p).batch.tail } }

/-! ## Inversion of `step` -/

theorem move_of_sync {s s' : State cfg} {r : Rank cfg} {t : Worker cfg}
    (taken : step s (.sync r t) = some s') : Move s s' := by
  simp only [step, threadCode, controlProgram_eq, Option.map_eq_some_iff] at taken
  obtain ⟨point, move, rfl⟩ := taken
  exact .sync r t point move

theorem move_of_finish {s s' : State cfg} {r : Rank cfg} {t : Worker cfg}
    (taken : step s (.finish r t) = some s') : Move s s' := by
  simp only [step] at taken
  split at taken
  · next instr here =>
    split_ifs at taken with done
    obtain rfl := Option.some.inj taken
    exact .finish r t instr here done
  · exact absurd taken (by simp)

theorem move_of_send {s s' : State cfg} {r : Rank cfg} {t : Worker cfg}
    (taken : step s (.send r t) = some s') : Move s s' := by
  simp only [step] at taken
  split at taken
  · next iters msgSize here =>
    split_ifs at taken with guard
    obtain rfl := Option.some.inj taken
    exact .send r t iters msgSize here guard.1 guard.2
  · exact absurd taken (by simp)

theorem move_of_observe {s s' : State cfg} {r : Rank cfg} {t : Worker cfg}
    (taken : step s (.observe r t) = some s') : Move s s' := by
  simp only [step] at taken
  split at taken
  · next iters msgSize here =>
    split_ifs at taken with guard
    obtain rfl := Option.some.inj taken
    exact .observe r t iters msgSize here guard.1 guard.2.1 guard.2.2
  · exact absurd taken (by simp)

theorem move_of_consume {s s' : State cfg} {r : Rank cfg} {t : Worker cfg}
    (taken : step s (.consume r t) = some s') : Move s s' := by
  simp only [step] at taken
  split at taken
  · next iters msgSize here =>
    split_ifs at taken with guard
    obtain rfl := Option.some.inj taken
    exact .consume r t iters msgSize here guard.1 guard.2
  · exact absurd taken (by simp)

theorem move_of_store {s s' : State cfg} {r : Rank cfg}
    (taken : step s (.store r) = some s') : Move s s' := by
  simp only [step] at taken
  split at taken
  · next syncCount here =>
    simp only [State.storeNext] at taken
    split_ifs at taken with counters cursors
    · obtain rfl := Option.some.inj taken
      exact .storeSync r syncCount _ here rfl counters
    · obtain rfl := Option.some.inj taken
      have iter : (s.loc r (leader cfg)).iter =
          cfg.txThreadNum + ((s.loc r (leader cfg)).iter - cfg.txThreadNum) := by omega
      have move := Move.storeCursor r syncCount _ here iter (by omega)
      rw [← iter] at move
      exact move
  · exact absurd taken (by simp)

theorem move_of_deliver {s s' : State cfg} {r : Rank cfg} {p : Prg cfg} {k : Nat}
    (taken : step s (.deliver r p k) = some s') : Move s s' := by
  simp only [step] at taken
  split at taken
  · next msg buf rest found posted =>
    obtain rfl := Option.some.inj taken
    exact .deliver r p k msg buf rest found posted
  · exact absurd taken (by simp)

theorem move_of_poll {s s' : State cfg} {r : Rank cfg} {p : Prg cfg} {count : Nat}
    (taken : step s (.poll r p count) = some s') : Move s s' := by
  simp only [step] at taken
  split_ifs at taken with guard
  obtain rfl := Option.some.inj taken
  exact .poll r p count guard.1 guard.2.1 guard.2.2.1 guard.2.2.2

theorem move_of_progress {s s' : State cfg} {r : Rank cfg} {p : Prg cfg}
    (taken : step s (.progress r p) = some s') : Move s s' := by
  simp only [step, State.progressNext] at taken
  split at taken
  · exact absurd taken (by simp)
  · next stage =>
    split at taken
    · next batch =>
      obtain rfl := Option.some.inj taken
      exact .refill r p stage batch
    · next head tail batch =>
      obtain rfl := Option.some.inj taken
      exact .read r p head tail stage batch
  · next workerIdx stage =>
    obtain rfl := Option.some.inj taken
    exact .fetch r p workerIdx stage
  · next workerIdx cursor stage =>
    obtain rfl := Option.some.inj taken
    exact .store r p workerIdx cursor stage
  · next workerIdx stage =>
    obtain rfl := Option.some.inj taken
    exact .wrap r p workerIdx stage
  · next workerIdx stage =>
    obtain rfl := Option.some.inj taken
    exact .bump r p workerIdx stage

/-- The steps of `step` are exactly the moves. -/
theorem step_iff_move {s s' : State cfg} : Step s s' ↔ Move s s' := by
  constructor
  · rintro ⟨action, taken⟩
    cases action with
    | sync r t => exact move_of_sync taken
    | finish r t => exact move_of_finish taken
    | send r t => exact move_of_send taken
    | observe r t => exact move_of_observe taken
    | consume r t => exact move_of_consume taken
    | store r => exact move_of_store taken
    | deliver r p k => exact move_of_deliver taken
    | poll r p count => exact move_of_poll taken
    | progress r p => exact move_of_progress taken
  · intro move
    cases move with
    | sync r t point move =>
        exact ⟨.sync r t, by simp [step, threadCode, controlProgram_eq, move]⟩
    | finish r t instr here done => exact ⟨.finish r t, by simp [step, here, done]⟩
    | send r t iters msgSize here more stage => exact ⟨.send r t, by simp [step, here, more, stage]⟩
    | observe r t iters msgSize here more stage token =>
        exact ⟨.observe r t, by simp [step, here, more, stage, token]⟩
    | consume r t iters msgSize here more stage =>
        exact ⟨.consume r t, by simp [step, here, more, stage]⟩
    | storeSync r syncCount i here iter below =>
        exact ⟨.store r, by simp [step, here, State.storeNext, iter, below]⟩
    | storeCursor r syncCount i here iter below =>
        exact ⟨.store r, by simp [step, here, State.storeNext, iter, below]⟩
    | deliver r p k msg buf rest found posted =>
        exact ⟨.deliver r p k, by simp [step, found, posted]⟩
    | poll r p count stage positive few available =>
        exact ⟨.poll r p count, by simp [step, stage, positive, few, available]⟩
    | refill r p stage batch =>
        exact ⟨.progress r p, by simp [step, State.progressNext, stage, batch]⟩
    | read r p head tail stage batch =>
        exact ⟨.progress r p, by simp [step, State.progressNext, stage, batch]⟩
    | fetch r p workerIdx stage => exact ⟨.progress r p, by simp [step, State.progressNext, stage]⟩
    | store r p workerIdx cursor stage =>
        exact ⟨.progress r p, by simp [step, State.progressNext, stage]⟩
    | wrap r p workerIdx stage => exact ⟨.progress r p, by simp [step, State.progressNext, stage]⟩
    | bump r p workerIdx stage => exact ⟨.progress r p, by simp [step, State.progressNext, stage]⟩

/-- A message arrives at an idle progress thread, and its token is handed to the
worker at the cursor. -/
theorem run_dispatch {s : State cfg} {r : Rank cfg} {p : Prg cfg} {k : Nat} {msg : Msg} {buf : Nat}
    {rest : List Nat} (idle : s.prg r p = ⟨.poll, [], 0⟩) (none : s.cq r p = [])
    (posted : s.rq r p = buf :: rest) (found : (s.net r p)[k]? = some msg) :
    Relation.ReflTransGen Step s { s with
      net := put s.net r p ((s.net r p).eraseIdx k)
      rq := put s.rq r p
        (rest ++ [recvSlot cfg (incrementWorkerIdx cfg p (s.nextWorkerIdxes r p))])
      cq := put s.cq r p []
      prg := put s.prg r p ⟨.poll, [], 0⟩
      nextWorkerIdxes := put s.nextWorkerIdxes r p
        (incrementWorkerIdx cfg p (s.nextWorkerIdxes r p))
      syncs := put s.syncs r (s.nextWorkerIdxes r p) (s.syncs r (s.nextWorkerIdxes r p) + 1)
      given := put s.given r (s.nextWorkerIdxes r p)
        (s.given r (s.nextWorkerIdxes r p) + 1) } := by
  refine Machine.run_of_actions [.deliver r p k, .poll r p 1, .progress r p, .progress r p,
    .progress r p, .progress r p, .progress r p, .progress r p] ?_
  simp [Machine.runActions, step, State.progressNext, incrementWorkerIdx, idle, none, posted, found,
    numToPoll]

/-- A property of the initial state that every move keeps holds in every reachable
state. -/
theorem Reachable.invariant (inv : State cfg → Prop) (init : inv (State.init cfg))
    (move : ∀ {s s' : State cfg}, inv s → Move s s' → inv s') {s : State cfg}
    (reachable : Reachable s) : inv s := by
  refine Machine.Run.invariant reachable init fun holds step => ?_
  exact move holds (step_iff_move.mp step)

/-! ## One progress thread -/

/-- What a state has for one progress thread: its cursor, its posted receives, its
completions and the thread. -/
structure PrgSide where
  cursor : Nat
  rq : List Nat
  cq : List Completion
  thread : PrgThread

def State.prgSide (s : State cfg) (r : Rank cfg) (p : Prg cfg) : PrgSide :=
  ⟨s.nextWorkerIdxes r p, s.rq r p, s.cq r p, s.prg r p⟩

/-- What a step does to progress thread `p`. -/
inductive PrgMove (p : Prg cfg) (a : PrgSide) : PrgSide → Prop where
  | other : PrgMove p a a
  | storeCursor : PrgMove p a { a with cursor := p }
  | deliver (msg : Msg) (buf : Nat) (rest : List Nat) (posted : a.rq = buf :: rest) :
      PrgMove p a { a with rq := rest, cq := a.cq ++ [⟨msg, buf⟩] }
  | poll (count : Nat) (stage : a.thread.stage = .poll) (positive : 0 < count)
      (few : count ≤ numToPoll) (available : count ≤ a.cq.length) :
      PrgMove p a { a with cq := a.cq.drop count, thread := ⟨.read, a.cq.take count, count⟩ }
  | refill (stage : a.thread.stage = .read) (batch : a.thread.batch = []) :
      PrgMove p a { a with
        rq := a.rq ++ List.replicate a.thread.completed (recvSlot cfg a.cursor)
        thread := ⟨.poll, [], 0⟩ }
  | read (head : Completion) (tail : List Completion) (stage : a.thread.stage = .read)
      (batch : a.thread.batch = head :: tail) :
      PrgMove p a { a with thread := { a.thread with stage := .fetch a.cursor } }
  | fetch (workerIdx : Nat) (stage : a.thread.stage = .fetch workerIdx) :
      PrgMove p a { a with thread := { a.thread with stage := .store workerIdx a.cursor } }
  | store (workerIdx cursor : Nat) (stage : a.thread.stage = .store workerIdx cursor) :
      PrgMove p a { a with
        cursor := cursor + cfg.rxThreadNum
        thread := { a.thread with stage := .wrap workerIdx } }
  | wrap (workerIdx : Nat) (stage : a.thread.stage = .wrap workerIdx) :
      PrgMove p a { a with
        cursor := wrapWorkerIdx cfg p a.cursor
        thread := { a.thread with stage := .bump workerIdx } }
  | bump (workerIdx : Nat) (stage : a.thread.stage = .bump workerIdx) :
      PrgMove p a { a with
        thread := { a.thread with stage := .read, batch := a.thread.batch.tail } }

/-- If the entries of all other threads are as before, a move of thread `p` of rank `r` is
one of every thread. -/
theorem prgMove_of_own {s s' : State cfg} {r : Rank cfg} {p : Prg cfg}
    (own : PrgMove p (s.prgSide r p) (s'.prgSide r p))
    (others : ∀ r' p', ¬ (r' = r ∧ p' = p) → s'.prgSide r' p' = s.prgSide r' p') :
    ∀ r' p', PrgMove p' (s.prgSide r' p') (s'.prgSide r' p') := by
  refine forall_entries r p own ?_
  intro r' p' different
  rw [others r' p' different]
  exact .other

/-- Cursors are in a table by number. -/
theorem put_cursor_of_ne (table : Rank cfg → Nat → Nat) {r r' : Rank cfg} {p p' : Prg cfg}
    (value : Nat) (different : ¬ (r' = r ∧ p' = p)) :
    put table r p value r' p' = table r' p' := by
  apply put_of_ne
  intro both
  exact different ⟨both.1, Fin.ext both.2⟩

theorem Move.prgSide {s s' : State cfg} (move : Move s s') (r' : Rank cfg) (p' : Prg cfg) :
    PrgMove p' (s.prgSide r' p') (s'.prgSide r' p') := by
  cases move with
  | storeCursor r syncCount i here iter below =>
      apply prgMove_of_own (r := r) (p := ⟨i, below⟩)
      · simp only [State.prgSide, put_same]
        exact .storeCursor
      · intro r' p' different
        simp only [State.prgSide, put_cursor_of_ne (p := ⟨i, below⟩) _ _ different]
  | deliver r p k msg buf rest found posted =>
      apply prgMove_of_own (r := r) (p := p)
      · simp only [State.prgSide, put_same]
        exact .deliver msg buf rest posted
      · intro r' p' different
        simp only [State.prgSide, put_of_ne _ _ different]
  | poll r p count stage positive few available =>
      apply prgMove_of_own (r := r) (p := p)
      · simp only [State.prgSide, put_same]
        exact .poll count stage positive few available
      · intro r' p' different
        simp only [State.prgSide, put_of_ne _ _ different]
  | refill r p stage batch =>
      apply prgMove_of_own (r := r) (p := p)
      · simp only [State.prgSide, put_same]
        exact .refill stage batch
      · intro r' p' different
        simp only [State.prgSide, put_of_ne _ _ different]
  | read r p head tail stage batch =>
      apply prgMove_of_own (r := r) (p := p)
      · simp only [State.prgSide, put_same]
        exact .read head tail stage batch
      · intro r' p' different
        simp only [State.prgSide, put_of_ne _ _ different]
  | fetch r p workerIdx stage =>
      apply prgMove_of_own (r := r) (p := p)
      · simp only [State.prgSide, put_same]
        exact .fetch workerIdx stage
      · intro r' p' different
        simp only [State.prgSide, put_of_ne _ _ different]
  | store r p workerIdx cursor stage =>
      apply prgMove_of_own (r := r) (p := p)
      · simp only [State.prgSide, put_same]
        exact .store workerIdx cursor stage
      · intro r' p' different
        simp only [State.prgSide, put_of_ne _ _ different, put_cursor_of_ne _ _ different]
  | wrap r p workerIdx stage =>
      apply prgMove_of_own (r := r) (p := p)
      · simp only [State.prgSide, put_same]
        exact .wrap workerIdx stage
      · intro r' p' different
        simp only [State.prgSide, put_of_ne _ _ different, put_cursor_of_ne _ _ different]
  | bump r p workerIdx stage =>
      apply prgMove_of_own (r := r) (p := p)
      · simp only [State.prgSide, put_same]
        exact .bump workerIdx stage
      · intro r' p' different
        simp only [State.prgSide, put_of_ne _ _ different]
  | sync r t point move => exact .other
  | finish r t instr here done => exact .other
  | send r t iters msgSize here more stage => exact .other
  | observe r t iters msgSize here more stage token => exact .other
  | consume r t iters msgSize here more stage => exact .other
  | storeSync r syncCount i here iter below => exact .other

end FabricBench.PingpongPrg
