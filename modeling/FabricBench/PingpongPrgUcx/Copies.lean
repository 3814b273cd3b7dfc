import FabricBench.PingpongPrg.Buffers
import FabricBench.PingpongPrgUcx.Refinement

/-!
What a callback of `pingpong_prg_ucx` hands over, and what a reset finds.

`recv_msg_cb` reads the cursor twice before it hands over a token: for the buffer that
the message is copied to and for the counter. A reset between the two would part them.

Owns: that no reset falls between them if only the last loop is prefilled
(`Reachable.quiet_in_reset`), so that the worker that gets a token has the message in its
buffer (`token_follows_copy`); and that without prefill a reset finds every counter used up
and no message without its token (`prgUcx_reset_loses_nothing`). Of the cursors this does
not hold: a callback that has handed over its token may move its cursor after the store.
-/

namespace FabricBench.PingpongPrgUcx

open FabricBench.Lib FabricBench.Account FabricBench.PingpongPrg

variable {cfg : Config} {s s' : State cfg} {x : PingpongPrg.State cfg}

/-! ## Resets without a message under way -/

/-- The message of the callback, up to its token. -/
def Callback.message : Callback → List Msg
  | .copy msg => [msg]
  | .token msg => [msg]
  | .bump msg _ => [msg]
  | _ => []

/-- Under way are the messages in flight and the one in the callback. -/
theorem Image.underway (image : Image s x) (r : Rank cfg) (p : Prg cfg) :
    x.underway r p = s.net r p ++ (s.callback r p).message := by
  have held := image.held r p
  rw [PingpongPrg.State.underway, image.net, image.cq r p, List.map_nil, List.append_nil]
  congr 1
  cases stage : s.callback r p with
  | copy msg =>
      rw [stage] at held
      obtain ⟨buf, held⟩ := held
      rw [held]
      rfl
  | token msg =>
      rw [stage] at held
      obtain ⟨buf, held⟩ := held
      rw [held]
      rfl
  | bump msg workerNum =>
      rw [stage] at held
      obtain ⟨buf, held⟩ := held
      rw [held]
      rfl
  | idle =>
      rw [stage] at held
      rw [held]
      rfl
  | fetch =>
      rw [stage] at held
      rw [held]
      rfl
  | store workerNum =>
      rw [stage] at held
      rw [held]
      rfl
  | wrap =>
      rw [stage] at held
      rw [held]
      rfl

/-- The account while thread 0 is in the reset for loop `e`. -/
theorem LateReachable.quiet_reset (last : cfg.PrefillsLast) (late : LateReachable x) {r : Rank cfg}
    {e : Nat} (below : e < cfg.params.loops) (atReset : (x.control r (leader cfg)).pc = 8 * e)
    (p : Prg cfg) :
    (view x r p).mode = .resetting e ∧ QuietReset (plan cfg) (view x r p) e := by
  have resetting : (view x r p).mode = .resetting e := by
    simp only [view, atReset]
    exact modeAt_reset below
  exact ⟨resetting, (late.quiet last r p).2.reset e resetting⟩

/-- If only the last loop is prefilled, nothing is on its way to a process that resets. -/
theorem Reachable.quiet_in_reset (last : cfg.PrefillsLast) (reachable : Reachable s)
    {r : Rank cfg} {syncCount : Int}
    (atReset : s.instr r (leader cfg) = some (.resetCounters syncCount)) (p : Prg cfg) :
    s.net r p = [] ∧ (s.callback r p).message = [] := by
  obtain ⟨x, late, image⟩ := reachable.image
  rw [← image.instr] at atReset
  obtain ⟨e, below, here, -⟩ := reset_of_instr atReset
  have nothing := underway_eq_nil (late.quiet_reset last below here p).2.drained
  rw [image.underway, List.append_eq_nil_iff] at nothing
  exact nothing

/-- Where the callback will leave the cursor is a worker of the group. -/
theorem Image.inGroup_reset (image : Image s x) (inv : Inv x) {r : Rank cfg} {p : Prg cfg}
    (through : (s.callback r p).message = []) :
    InGroup p ((s.callback r p).settled cfg p (s.nextWorkerIdxes r p)) := by
  have held := image.held r p
  have aligned := inv.aligned r p
  rw [← image.cursor r p]
  have polls : x.prg r p = ⟨.poll, [], 0⟩ := by
    cases stage : s.callback r p with
    | copy msg => exact absurd through (by simp [stage, Callback.message])
    | token msg => exact absurd through (by simp [stage, Callback.message])
    | bump msg workerNum => exact absurd through (by simp [stage, Callback.message])
    | idle => rwa [stage] at held
    | fetch => rwa [stage] at held
    | store workerNum => rwa [stage] at held
    | wrap => rwa [stage] at held
  rw [polls] at aligned
  exact aligned

/-! ## The worker of a message -/

/-- The worker that gets the token: the one at the cursor until the counter is chosen. -/
def Callback.worker (cursor : Nat) : Callback → Nat
  | .bump _ workerNum => workerNum
  | _ => cursor

/-- Up to the token, the worker is one of the group. -/
theorem Image.worker_inGroup (image : Image s x) (inv : Inv x) {r : Rank cfg} {p : Prg cfg}
    (holding : (s.callback r p).message ≠ []) :
    InGroup p ((s.callback r p).worker (s.nextWorkerIdxes r p)) := by
  have held := image.held r p
  have cursor := image.cursor r p
  have aligned := inv.aligned r p
  cases stage : s.callback r p with
  | copy msg =>
      rw [stage] at held cursor
      obtain ⟨buf, held⟩ := held
      rw [held, cursor] at aligned
      exact aligned
  | token msg =>
      rw [stage] at held cursor
      obtain ⟨buf, held⟩ := held
      rw [held, cursor] at aligned
      exact aligned
  | bump msg workerNum =>
      rw [stage] at held
      obtain ⟨buf, held⟩ := held
      rw [held] at aligned
      exact aligned.2
  | idle => exact absurd (by rw [stage]; rfl) holding
  | fetch => exact absurd (by rw [stage]; rfl) holding
  | store workerNum => exact absurd (by rw [stage]; rfl) holding
  | wrap => exact absurd (by rw [stage]; rfl) holding

/-- The message has been copied and its token has not been handed over. -/
def Callback.copied : Callback → Option Msg
  | .token msg => some msg
  | .bump msg _ => some msg
  | _ => none

theorem Callback.message_of_copied {c : Callback} {msg : Msg} (copied : c.copied = some msg) :
    c.message ≠ [] := by
  cases c with
  | token msg => simp [message]
  | bump msg workerNum => simp [message]
  | idle => exact absurd copied (by simp [Callback.copied])
  | copy msg => exact absurd copied (by simp [Callback.copied])
  | fetch => exact absurd copied (by simp [Callback.copied])
  | store workerNum => exact absurd copied (by simp [Callback.copied])
  | wrap => exact absurd copied (by simp [Callback.copied])

/-- A message that has been copied is in the buffer of the worker that gets its token. -/
def Copied (s : State cfg) : Prop :=
  ∀ r p msg, (s.callback r p).copied = some msg →
    s.bufs r ((s.callback r p).worker (s.nextWorkerIdxes r p)) = some msg

/-- A step that changes no buffer and of one callback and its cursor only. -/
theorem Copied.change (copied : Copied s) (r : Rank cfg) (p : Prg cfg) (bufs : s'.bufs = s.bufs)
    (others : ∀ r' (p' : Prg cfg), ¬ (r' = r ∧ p' = p) →
      s'.callback r' p' = s.callback r' p' ∧ s'.nextWorkerIdxes r' p' = s.nextWorkerIdxes r' p')
    (own : ∀ msg, (s'.callback r p).copied = some msg →
      s.bufs r ((s'.callback r p).worker (s'.nextWorkerIdxes r p)) = some msg) : Copied s' := by
  intro r'' p''
  refine forall_entries (motive := fun r' p' => ∀ msg, (s'.callback r' p').copied = some msg →
    s'.bufs r' ((s'.callback r' p').worker (s'.nextWorkerIdxes r' p')) = some msg) r p ?_ ?_ r'' p''
  · intro msg here
    rw [bufs]
    exact own msg here
  · intro r' p' different msg here
    obtain ⟨callback, cursor⟩ := others r' p' different
    rw [callback] at here
    rw [bufs, callback, cursor]
    exact copied r' p' msg here

theorem Copied.move (copied : Copied s) (image : Image s x) (inv : Inv x)
    (steady : ∀ {r : Rank cfg} {syncCount : Int} (p : Prg cfg),
      s.instr r (leader cfg) = some (.resetCounters syncCount) →
      (s.callback r p).message ≠ [] →
        (s.callback r p).worker p = (s.callback r p).worker (s.nextWorkerIdxes r p))
    (move : Move s s') : Copied s' := by
  -- A callback with a new stage that leaves the buffers and the cursors.
  have stays : ∀ {r : Rank cfg} {p : Prg cfg} {c : Callback} (r' : Rank cfg) (p' : Prg cfg),
      ¬ (r' = r ∧ p' = p) → put s.callback r p c r' p' = s.callback r' p' ∧
        s.nextWorkerIdxes r' p' = s.nextWorkerIdxes r' p' :=
    fun _ _ different => ⟨put_of_ne _ _ different, rfl⟩
  have moves : ∀ {r : Rank cfg} {p : Prg cfg} {c : Callback} {cursor : Nat} (r' : Rank cfg)
      (p' : Prg cfg), ¬ (r' = r ∧ p' = p) → put s.callback r p c r' p' = s.callback r' p' ∧
        put s.nextWorkerIdxes r p.val cursor r' p'.val = s.nextWorkerIdxes r' p' :=
    fun _ _ different => ⟨put_of_ne _ _ different, put_cursor_of_ne _ _ different⟩
  cases move with
  | sync r t point move => exact copied
  | finish r t instr here done => exact copied
  | send r t iters msgSize here more stage => exact copied
  | observe r t iters msgSize here more stage token => exact copied
  | consume r t iters msgSize here more stage => exact copied
  | storeSync r syncCount i here iter below => exact copied
  | storeCursor r syncCount p here iter =>
      refine copied.change r p rfl (fun r' p' different => ⟨rfl, put_cursor_of_ne _ _ different⟩) ?_
      intro msg holds
      have worker := steady p here (Callback.message_of_copied holds)
      simp only [put_same]
      rw [worker]
      exact copied r p msg holds
  | receive r p k msg found idle =>
      refine copied.change r p rfl stays ?_
      intro msg' holds
      simp only [put_same] at holds
      exact absurd holds (by simp [Callback.copied])
  | copy r p msg stage =>
      have group : InGroup p (s.nextWorkerIdxes r p) := by
        have group := image.worker_inGroup inv (r := r) (p := p) (by simp [stage, Callback.message])
        rw [stage] at group
        exact group
      intro r' p'
      refine forall_entries (motive := fun r' p' => ∀ msg',
        (put s.callback r p (.token msg) r' p').copied = some msg' →
          put s.bufs r (s.nextWorkerIdxes r p) (some msg) r'
            ((put s.callback r p (.token msg) r' p').worker (s.nextWorkerIdxes r' p')) = some msg')
        r p ?_ ?_ r' p'
      · intro msg' holds
        simp only [put_same, Callback.copied, Option.some.injEq] at holds
        simp only [put_same, Callback.worker, holds]
      · -- the other callbacks have their messages in buffers of other groups
        intro r' p' different msg' holds
        rw [put_of_ne _ _ different] at holds ⊢
        have other := image.worker_inGroup inv (Callback.message_of_copied holds)
        rw [put_of_ne]
        · exact copied r' p' msg' holds
        · rintro ⟨rfl, same⟩
          exact other.ne group (fun equal => different ⟨rfl, equal⟩) same
  | token r p msg stage =>
      refine copied.change r p rfl stays ?_
      intro msg' holds
      have old := copied r p msg (by rw [stage]; rfl)
      simp only [put_same, Callback.copied, Option.some.injEq] at holds
      simp only [stage, Callback.worker] at old
      simp only [put_same, Callback.worker, old, holds]
  | bump r p msg workerNum stage =>
      refine copied.change r p rfl stays ?_
      intro msg' holds
      simp only [put_same] at holds
      exact absurd holds (by simp [Callback.copied])
  | fetch r p stage =>
      refine copied.change r p rfl stays ?_
      intro msg' holds
      simp only [put_same] at holds
      exact absurd holds (by simp [Callback.copied])
  | store r p workerNum stage =>
      refine copied.change r p rfl moves ?_
      intro msg' holds
      simp only [put_same] at holds
      exact absurd holds (by simp [Callback.copied])
  | wrap r p stage =>
      refine copied.change r p rfl moves ?_
      intro msg' holds
      simp only [put_same] at holds
      exact absurd holds (by simp [Callback.copied])

/-- With one worker for each progress thread, a reset stores what is there. -/
theorem Image.worker_single (image : Image s x) (inv : Inv x) (single : cfg.perGroup = 1)
    {r : Rank cfg} {p : Prg cfg} (holding : (s.callback r p).message ≠ []) :
    (s.callback r p).worker p = (s.callback r p).worker (s.nextWorkerIdxes r p) := by
  have first : ∀ {c : Nat}, InGroup p c → p.val = c := by
    rintro c ⟨j, below, rfl⟩
    obtain rfl : j = 0 := by omega
    simp
  have group := image.worker_inGroup inv holding
  cases stage : s.callback r p with
  | copy msg =>
      rw [stage] at group
      exact first group
  | token msg =>
      rw [stage] at group
      exact first group
  | bump msg workerNum => rfl
  | idle => exact absurd (by rw [stage]; rfl) holding
  | fetch => exact absurd (by rw [stage]; rfl) holding
  | store workerNum => exact absurd (by rw [stage]; rfl) holding
  | wrap => exact absurd (by rw [stage]; rfl) holding

theorem Reachable.copied (apart : cfg.PrefillsLast ∨ cfg.perGroup = 1) (reachable : Reachable s) :
    Copied s := by
  induction reachable with
  | refl =>
      intro r p msg here
      exact absurd here (by simp [State.init, Callback.copied])
  | @tail s s' run last inductionHypothesis =>
      obtain ⟨action, taken⟩ := last
      have reachable : Reachable s := run
      obtain ⟨x, late, image⟩ := reachable.image
      refine inductionHypothesis.move image late.inv ?_ (move_of_step taken)
      intro r syncCount p atReset holding
      rcases apart with prefillsLast | single
      · exact absurd (reachable.quiet_in_reset prefillsLast atReset p).2 holding
      · exact image.worker_single late.inv single holding

/-! ## Main theorems -/

/-- If only the last loop is prefilled, or every progress thread serves a single worker:
when `recv_msg_cb` has chosen the counter that it increments, the message is in the buffer
of the same worker, and the worker is one that the progress thread serves. -/
theorem token_follows_copy (cfg : Config) (apart : cfg.PrefillsLast ∨ cfg.perGroup = 1)
    (s : State cfg) (reachable : Reachable s) (r : Rank cfg) (p : Prg cfg) (msg : Msg)
    (workerNum : Nat) (chosen : s.callback r p = .bump msg workerNum) :
    s.bufs r workerNum = some msg ∧ InGroup p workerNum := by
  obtain ⟨x, late, image⟩ := reachable.image
  have inBuffer := reachable.copied apart r p msg (by rw [chosen]; rfl)
  have group := image.worker_inGroup late.inv (r := r) (p := p) (by simp [chosen, Callback.message])
  rw [chosen] at inBuffer group
  exact ⟨inBuffer, group⟩

/-- The first token of the job: its worker has the message, and is one of the group. -/
theorem token_follows_copy_first : ∃ s : State pairJob, Reachable s ∧
    s.callback ponger dealer = .bump ⟨0, 8, 4⟩ 0 ∧ s.bufs ponger 0 = some ⟨0, 8, 4⟩ ∧
      InGroup dealer 0 := by
  have chosen : ((Machine.runActions step (State.init pairJob) toFirstToken).map fun s =>
      s.callback ponger dealer) = some (.bump ⟨0, 8, 4⟩ 0) := by
    decide +kernel
  obtain ⟨s, taken, chosen⟩ := Option.map_eq_some_iff.mp chosen
  have reachable : Reachable s := Machine.run_of_actions _ taken
  exact ⟨s, reachable, chosen, token_follows_copy pairJob (.inl (.inl rfl)) s reachable ponger
    dealer ⟨0, 8, 4⟩ 0 chosen⟩

/-- Without prefill, whenever thread 0 of a process is in `reset_counters`: nothing is on
its way to the process, and no callback has a message whose token is not handed over; the
workers whose counters are still to be stored were given one token for each iteration of
the loop before; all counters are zero and stay so; and each cursor is or will be left at a
worker of its group. -/
theorem prgUcx_reset_loses_nothing (cfg : Config) (noPrefill : cfg.params.prefilledWork = 0)
    (s : State cfg) (reachable : Reachable s) (r : Rank cfg) (syncCount : Int)
    (atReset : s.instr r (leader cfg) = some (.resetCounters syncCount)) :
    (∀ p, s.net r p = [] ∧ (s.callback r p).message = []) ∧
    (∀ e, (s.control r (leader cfg)).pc = 8 * (e + 1) → ∀ t : Worker cfg,
      (s.loc r (leader cfg)).iter ≤ t.val → s.given r t = cfg.params.iters e) ∧
    (∀ t : Worker cfg, s.syncs r t = 0) ∧
    (∀ s', step s (.store r) = some s' → s'.syncs = s.syncs) ∧
    ∀ p : Prg cfg, InGroup p ((s.callback r p).settled cfg p (s.nextWorkerIdxes r p)) := by
  have last : cfg.PrefillsLast := Or.inl noPrefill
  obtain ⟨x, late, image⟩ := reachable.image
  have quiet := reachable.quiet_in_reset last atReset
  have settled : ∀ p : Prg cfg,
      InGroup p ((s.callback r p).settled cfg p (s.nextWorkerIdxes r p)) :=
    fun p => image.inGroup_reset late.inv (quiet p).2
  have here := atReset
  rw [← image.instr] at here
  obtain ⟨e, below, atPc, value⟩ := reset_of_instr here
  have reset := late.quiet_reset last below atPc
  have zero : ∀ t : Worker cfg, s.syncs r t = 0 := by
    intro t
    obtain ⟨resetting, account⟩ := reset (route t)
    have noBase : ∀ e, (plan cfg).base e = 0 := by
      intro e
      simp [plan, RunParams.base, noPrefill]
    have zero := account.sync_eq_zero (late.quiet last r (route t)).1 resetting noBase (seat t)
    rw [← image.syncs]
    simpa only [view, groupWorker_route_seat] using zero
  refine ⟨quiet, ?_, zero, ?_, settled⟩
  · intro e' before t later
    rw [image.control, before] at atPc
    obtain rfl : e = e' + 1 := by omega
    have unstored : (view x r (route t)).fresh (seat t) = false := by
      simp only [view, groupWorker_route_seat, image.loc, Bool.and_eq_false_iff,
        decide_eq_false_iff_not]
      exact Or.inr (by omega)
    have given := ((reset (route t)).2.kept (seat t) unstored (by omega)).2
    simp only [view, groupWorker_route_seat, image.given] at given
    exact given
  · intro s' taken
    have stored : syncCount = 0 := by simp [value, RunParams.base, noPrefill]
    simp only [step, atReset, State.storeNext, stored] at taken
    split_ifs at taken with counters cursors
    · obtain rfl := Option.some.inj taken
      have same := put_self s.syncs r (s.loc r (leader cfg)).iter
      rw [zero ⟨_, counters⟩] at same
      exact same
    · obtain rfl := Option.some.inj taken
      rfl

/-- The reset after the warm-up of the small job finds a callback that has its cursor still
to move. -/
theorem prgUcx_reset_loses_nothing_after_warmup : ∃ s : State pairJob, Reachable s ∧
    s.instr pinger (leader pairJob) = some (.resetCounters 0) ∧
    s.callback pinger dealer = .fetch ∧ s.net pinger dealer = [] ∧
    ∀ t : Worker pairJob, s.syncs pinger t = 0 := by
  have arrived : ((Machine.runActions step (State.init pairJob) toReset).map fun s =>
      (s.instr pinger (leader pairJob), s.callback pinger dealer)) =
        some (some (.resetCounters 0), .fetch) := by
    decide +kernel
  obtain ⟨s, taken, arrived⟩ := Option.map_eq_some_iff.mp arrived
  obtain ⟨atReset, fetching⟩ := Prod.mk.inj arrived
  have reachable : Reachable s := Machine.run_of_actions _ taken
  have found := prgUcx_reset_loses_nothing pairJob rfl s reachable pinger 0 atReset
  exact ⟨s, reachable, atReset, fetching, (found.1 dealer).1, found.2.2.1⟩

/-- If the callback goes on after the stores, the cursor is left at the second worker. -/
example : ((Machine.runActions step (State.init pairJob) (toReset ++
    List.replicate 3 (.store pinger) ++ List.replicate 3 (.callback pinger dealer))).map fun s =>
      s.nextWorkerIdxes pinger dealer) = some 1 := by
  decide +kernel

end FabricBench.PingpongPrgUcx
