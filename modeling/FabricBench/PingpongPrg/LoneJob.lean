import FabricBench.PingpongPrg.LoopStart

/-!
Runs of the smallest job of `pingpong_prg`: two ranks with one worker and one
progress thread each, whose progress threads are polling with all receives posted
between the macro steps.

Owns: the reduced state of such a job (`Station`, a rank's share of it), the runs
between two reduced states (`Leads`), and the lockstep run in which each side keeps
the messages it was sent ahead of its needs in the network (`leads_to_loop`).
It is the source of concrete reachable states.
-/

namespace FabricBench.PingpongPrg

open FabricBench.Lib

/-- Two ranks, one worker and one progress thread each. -/
def loneJob (params : RunParams) : Config where
  half := 1
  txThreadNum := 1
  rxThreadNum := 1
  maxSize := 16
  params := params
  tx_pos := Nat.one_pos
  rx_pos := Nat.one_pos
  dvd := one_serves_one

/-- The sizes 8 and 16 with the iteration counts of the source. -/
def twoSizes (prefilledWork : Nat) : RunParams := ⟨prefilledWork, skip, total, [8, 16]⟩

/-- The size 8 alone. -/
def oneSize (prefilledWork : Nat) : RunParams := ⟨prefilledWork, skip, total, [8]⟩

variable {params : RunParams}

/-- The rank that runs `send_thread`. -/
def pinger : Rank (loneJob params) := ⟨0, Nat.two_pos⟩

/-- The rank that runs `recv_thread`. -/
def ponger : Rank (loneJob params) := ⟨1, Nat.one_lt_two⟩

theorem pinger_or_ponger (r : Rank (loneJob params)) : r = pinger ∨ r = ponger := by
  obtain ⟨value, below⟩ := r
  change value < 2 at below
  rcases Nat.lt_succ_iff_lt_or_eq.mp below with zero | one
  · exact Or.inl (Fin.ext (by simp [pinger]; omega))
  · exact Or.inr (Fin.ext (by simp [ponger]; omega))

theorem ponger_ne_pinger : (ponger : Rank (loneJob params)) ≠ pinger :=
  fun same => absurd (congrArg Fin.val same) Nat.one_ne_zero

@[simp] theorem partner_pinger : partner (pinger : Rank (loneJob params)) = ponger :=
  Fin.ext (show targetRank 2 0 = 1 by decide)

@[simp] theorem partner_ponger : partner (ponger : Rank (loneJob params)) = pinger :=
  Fin.ext (show targetRank 2 1 = 0 by decide)

@[simp] theorem sender_pinger : sender (pinger : Rank (loneJob params)) = true :=
  show isSender 2 0 = true by decide

@[simp] theorem sender_ponger : sender (ponger : Rank (loneJob params)) = false :=
  show isSender 2 1 = false by decide

theorem partner_ne (r : Rank (loneJob params)) : partner r ≠ r := by
  rcases pinger_or_ponger r with rfl | rfl
  · rw [partner_pinger]
    exact ponger_ne_pinger
  · rw [partner_ponger]
    exact ponger_ne_pinger.symm

instance : Subsingleton (Worker (loneJob params)) := inferInstanceAs (Subsingleton (Fin 1))

instance : Subsingleton (Prg (loneJob params)) := inferInstanceAs (Subsingleton (Fin 1))

/-! ## Reduced states -/

/-- A rank's share of a state. -/
structure Station where
  point : Spmd.Point
  loc : Local BodyStage
  sync : Int
  inbox : List Msg

/-- Rank `r` of the state is as the station says, and its progress thread is idle. -/
structure Row (s : State (loneJob params)) (r : Rank (loneJob params)) (q : Station) : Prop where
  control : ∀ t, s.control r t = q.point
  loc : ∀ t, s.loc r t = q.loc
  sync : s.syncs r 0 = q.sync
  cursor : s.nextWorkerIdxes r 0 = 0
  net : ∀ p, s.net r p = q.inbox
  rq : ∀ p, s.rq r p = List.replicate numPrepostRecv (recvSlot (loneJob params) 0)
  cq : ∀ p, s.cq r p = []
  prg : ∀ p, s.prg r p = ⟨.poll, [], 0⟩

def At (s : State (loneJob params)) (st : Rank (loneJob params) → Station) : Prop :=
  ∀ r, Row s r (st r)

/-- From every state that looks like `st` a run leads to one that looks like `st'`. -/
def Leads (st st' : Rank (loneJob params) → Station) : Prop :=
  ∀ s, At s st → ∃ s', Relation.ReflTransGen Step s s' ∧ At s' st'

variable {st st' st'' : Rank (loneJob params) → Station} {r : Rank (loneJob params)}

theorem Leads.trans (first : Leads st st') (second : Leads st' st'') : Leads st st'' := by
  intro s here
  obtain ⟨middle, toMiddle, atMiddle⟩ := first s here
  obtain ⟨last, toLast, atLast⟩ := second middle atMiddle
  exact ⟨last, toMiddle.trans toLast, atLast⟩

/-- Rows that agree look alike. -/
theorem Row.frame {s s' : State (loneJob params)} {q : Station} (row : Row s r q)
    (control : s'.control r = s.control r) (loc : s'.loc r = s.loc r)
    (syncs : s'.syncs r = s.syncs r) (cursor : s'.nextWorkerIdxes r = s.nextWorkerIdxes r)
    (net : s'.net r = s.net r) (rq : s'.rq r = s.rq r) (cq : s'.cq r = s.cq r)
    (prg : s'.prg r = s.prg r) : Row s' r q where
  control := control ▸ row.control
  loc := loc ▸ row.loc
  sync := syncs ▸ row.sync
  cursor := cursor ▸ row.cursor
  net := net ▸ row.net
  rq := rq ▸ row.rq
  cq := cq ▸ row.cq
  prg := prg ▸ row.prg

theorem set_row_of_ne (control : Spmd.Control (Rank (loneJob params)) (Worker (loneJob params)))
    {r r' : Rank (loneJob params)} (t : Worker (loneJob params)) (point : Spmd.Point)
    (different : r' ≠ r) : control.set r t point r' = control r' := by
  funext t'
  simp [Spmd.Control.set_apply, different]

/-- A move that changes one row. -/
theorem leads_of_move {q : Station}
    (move : ∀ s, At s st → ∃ s', Relation.ReflTransGen Step s s' ∧ Row s' r q ∧
      ∀ r', r' ≠ r → Row s' r' (st r')) : Leads st (Function.update st r q) := by
  intro s here
  obtain ⟨s', run, own, others⟩ := move s here
  refine ⟨s', run, fun r' => ?_⟩
  by_cases same : r' = r
  · subst same
    rw [Function.update_self]
    exact own
  · rw [Function.update_of_ne same]
    exact others r' same

theorem run_of_move {s s' : State (loneJob params)} (move : Move s s') :
    Relation.ReflTransGen Step s s' := .single (step_iff_move.mpr move)

/-! ## Macro steps of one rank -/

/-- A synchronising move. -/
theorem leads_sync (st : Rank (loneJob params) → Station) (r : Rank (loneJob params))
    (point : Spmd.Point)
    (move : ∀ s, At s st → Spmd.syncMove (controlProgram params) (leader (loneJob params))
      s.control r (leader (loneJob params)) = some point) :
    Leads st (Function.update st r { st r with point := point }) := by
  refine leads_of_move fun s here => ⟨_, run_of_move (.sync r _ point (move s here)), ?_, ?_⟩
  · have row := here r
    refine { row with control := fun t => ?_ }
    rw [Subsingleton.elim t (leader (loneJob params))]
    exact Spmd.Control.set_same _ _ _ _
  · intro r' different
    exact (here r').frame (set_row_of_ne _ _ _ different) rfl rfl rfl rfl rfl rfl rfl

/-- The end of a stretch of work. -/
theorem leads_finish (st : Rank (loneJob params) → Station) (r : Rank (loneJob params))
    {instr : Instr}
    (here : (threadCode params r 0)[(st r).point.pc]? = some instr)
    (done : workDone 2 (st r).loc instr = true) :
    Leads st (Function.update st r { st r with
      point := (st r).point.next
      loc := Local.start (firstStage (sender r)) }) := by
  refine leads_of_move fun s at_ => ?_
  have row := at_ r
  have found : s.instr r (leader (loneJob params)) = some instr := by
    rw [State.instr, row.control]
    exact here
  refine ⟨_, run_of_move (.finish r (leader (loneJob params)) instr found ?_), ?_, ?_⟩
  · rw [row.loc, leader_stores]
    exact done
  · refine { row with control := fun t => ?_, loc := fun t => ?_ }
    · rw [Subsingleton.elim t (leader (loneJob params))]
      simp only [State.advance, Spmd.Control.set_same, row.control]
    · rw [Subsingleton.elim t (leader (loneJob params))]
      simp only [State.advance, put_same]
  · intro r' different
    exact (at_ r').frame (set_row_of_ne _ _ _ different) (put_row_of_ne _ _ _ different)
      rfl rfl rfl rfl rfl rfl

/-- The two stores of a reset. -/
theorem leads_stores (st : Rank (loneJob params) → Station) (r : Rank (loneJob params))
    {syncCount : Int}
    (here : (threadCode params r 0)[(st r).point.pc]? = some (.resetCounters syncCount))
    (start : (st r).loc.iter = 0) :
    Leads st (Function.update st r { st r with
      loc := ⟨2, (st r).loc.stage⟩
      sync := syncCount }) := by
  refine leads_of_move fun s at_ => ?_
  have row := at_ r
  have found : s.instr r (leader (loneJob params)) = some (.resetCounters syncCount) := by
    rw [State.instr, row.control]
    exact here
  have first : Move s _ := .storeSync r syncCount 0 found (by rw [row.loc, start]) Nat.one_pos
  have second : Move _ _ := .storeCursor (s := { s with
      syncs := put s.syncs r 0 syncCount
      given := put s.given r 0 0
      loc := put s.loc r (leader (loneJob params))
        ⟨0 + 1, (s.loc r (leader (loneJob params))).stage⟩ }) r syncCount 0 found
    (by simp only [put_same]; rfl) Nat.one_pos
  refine ⟨_, (run_of_move first).trans (run_of_move second), ?_, ?_⟩
  · refine { row with loc := fun t => ?_, sync := ?_, cursor := ?_ }
    · rw [Subsingleton.elim t (leader (loneJob params))]
      simp only [put_same, row.loc]
      rfl
    · exact put_same _ _ _ _
    · exact put_same _ _ _ _
  · intro r' different
    refine (at_ r').frame rfl ?_ (put_row_of_ne _ _ _ different) (put_row_of_ne _ _ _ different)
      rfl rfl rfl rfl
    simp only [put_row_of_ne _ _ _ different]

/-- A worker in a loop sees its token and takes it. -/
theorem leads_take (st : Rank (loneJob params) → Station) (r : Rank (loneJob params))
    {iters msgSize : Nat}
    (here : (threadCode params r 0)[(st r).point.pc]? = some (.loop iters msgSize))
    (more : (st r).loc.iter < iters) (stage : (st r).loc.stage = .wait) (token : (st r).sync ≠ 0) :
    Leads st (Function.update st r { st r with
      loc := afterConsume (sender r) ⟨(st r).loc.iter, .consume⟩
      sync := (st r).sync - 1 }) := by
  refine leads_of_move fun s at_ => ?_
  have row := at_ r
  have found : s.instr r (leader (loneJob params)) = some (.loop iters msgSize) := by
    rw [State.instr, row.control]
    exact here
  have first : Move s _ := .observe r (leader (loneJob params)) iters msgSize found
    (by rw [row.loc]; exact more) (by rw [row.loc]; exact stage)
    (by change s.syncs r 0 ≠ 0; rw [row.sync]; exact token)
  have second : Move _ _ := .consume (s := { s with
      loc := put s.loc r (leader (loneJob params))
        ⟨(s.loc r (leader (loneJob params))).iter, .consume⟩ })
    r (leader (loneJob params)) iters msgSize found
    (by simp only [put_same, row.loc]; exact more) (by simp only [put_same])
  refine ⟨_, (run_of_move first).trans (run_of_move second), ?_, ?_⟩
  · refine { row with loc := fun t => ?_, sync := ?_ }
    · rw [Subsingleton.elim t (leader (loneJob params))]
      simp only [put_same, row.loc]
    · rw [← row.sync]
      exact put_same _ _ _ _
  · intro r' different
    refine (at_ r').frame rfl ?_ (put_row_of_ne _ _ _ different) rfl rfl rfl rfl rfl
    simp only [put_row_of_ne _ _ _ different]

/-- A worker in a loop sends. -/
theorem leads_send (st : Rank (loneJob params) → Station) (r : Rank (loneJob params))
    {iters msgSize : Nat}
    (here : (threadCode params r 0)[(st r).point.pc]? = some (.loop iters msgSize))
    (more : (st r).loc.iter < iters) (stage : (st r).loc.stage = .send) :
    Leads st (Function.update (Function.update st r { st r with
        loc := afterSend (sender r) (st r).loc })
      (partner r) { st (partner r) with
        inbox := (st (partner r)).inbox ++ [⟨0, msgSize, (st r).point.pc⟩] }) := by
  intro s at_
  have row := at_ r
  have found : s.instr r (leader (loneJob params)) = some (.loop iters msgSize) := by
    rw [State.instr, row.control]
    exact here
  have move : Move s _ := .send r (leader (loneJob params)) iters msgSize found
    (by rw [row.loc]; exact more) (by rw [row.loc]; exact stage)
  refine ⟨_, run_of_move move, fun r' => ?_⟩
  by_cases receiver : r' = partner r
  · subst receiver
    rw [Function.update_self]
    refine { at_ (partner r) with loc := ?_, net := fun p => ?_ }
    · intro t
      exact (put_row_ne _ _ _ _ (partner_ne r)).trans ((at_ (partner r)).loc t)
    · rw [Subsingleton.elim p (route (leader (loneJob params)))]
      simp only [put_same, (at_ (partner r)).net, row.control]
      rfl
  · rw [Function.update_of_ne receiver]
    by_cases own : r' = r
    · subst own
      rw [Function.update_self]
      refine { row with loc := fun t => ?_, net := fun p => ?_ }
      · rw [Subsingleton.elim t (leader (loneJob params))]
        simp only [put_same, row.loc]
      · exact (put_row_ne _ _ _ _ receiver).trans (row.net p)
    · rw [Function.update_of_ne own]
      exact (at_ r').frame rfl (put_row_of_ne _ _ _ own) rfl rfl (put_row_of_ne _ _ _ receiver)
        rfl rfl rfl

/-- A message arrives and its token is handed to the worker. -/
theorem leads_hop (st : Rank (loneJob params) → Station) (r : Rank (loneJob params))
    {k : Nat} {msg : Msg}
    (found : (st r).inbox[k]? = some msg) :
    Leads st (Function.update st r { st r with
      sync := (st r).sync + 1
      inbox := (st r).inbox.eraseIdx k }) := by
  refine leads_of_move fun s at_ => ?_
  have row := at_ r
  obtain ⟨p, first⟩ : ∃ p : Prg (loneJob params), p.val = 0 := ⟨⟨0, Nat.one_pos⟩, rfl⟩
  have posted : s.rq r p = recvSlot (loneJob params) 0 ::
      List.replicate (numPrepostRecv - 1) (recvSlot (loneJob params) 0) := row.rq p
  have cursor : s.nextWorkerIdxes r p = 0 := by rw [first]; exact row.cursor
  have wraps : incrementWorkerIdx (loneJob params) p 0 = 0 := by
    rw [first]
    rfl
  have run := run_dispatch (row.prg p) (row.cq p) posted (by rw [row.net]; exact found)
  rw [cursor, wraps, row.sync, row.net] at run
  refine ⟨_, run, ?_, ?_⟩
  · refine { row with sync := ?_, cursor := ?_, net := ?_, rq := ?_, cq := ?_, prg := ?_ }
    · exact put_same _ _ _ _
    · rw [← first]
      exact put_same _ _ _ _
    · intro p'
      rw [Subsingleton.elim p' p]
      exact put_same _ _ _ _
    · intro p'
      rw [Subsingleton.elim p' p]
      simp only [put_same]
      rw [← List.replicate_succ']
      rfl
    · intro p'
      rw [Subsingleton.elim p' p]
      exact put_same _ _ _ _
    · intro p'
      rw [Subsingleton.elim p' p]
      exact put_same _ _ _ _
  · intro r' different
    exact (at_ r').frame rfl rfl (put_row_of_ne _ _ _ different) (put_row_of_ne _ _ _ different)
      (put_row_of_ne _ _ _ different) (put_row_of_ne _ _ _ different)
      (put_row_of_ne _ _ _ different) (put_row_of_ne _ _ _ different)

/-- Entering a barrier or the collective. -/
theorem leads_enter (st : Rank (loneJob params) → Station) (r : Rank (loneJob params))
    (outside : (st r).point.inside = false)
    (here : (controlProgram params)[(st r).point.pc]? = some .team ∨
      (controlProgram params)[(st r).point.pc]? = some .job) :
    Leads st (Function.update st r { st r with point := (st r).point.enter }) := by
  refine leads_sync st r _ fun s at_ => ?_
  have row := (at_ r).control (leader (loneJob params))
  rw [← row] at outside here ⊢
  exact Spmd.syncMove_enter outside (here.imp_right fun call => ⟨call, rfl⟩)

/-- A team of one leaves its barrier at once. -/
theorem leads_leave_team (st : Rank (loneJob params) → Station) (r : Rank (loneJob params))
    (inside : (st r).point.inside = true)
    (here : (controlProgram params)[(st r).point.pc]? = some .team) :
    Leads st (Function.update st r { st r with point := (st r).point.next }) := by
  refine leads_sync st r _ fun s at_ => ?_
  have row := (at_ r).control (leader (loneJob params))
  rw [← row] at inside here ⊢
  refine Spmd.syncMove_leave_team here inside fun t => ?_
  rw [Subsingleton.elim t (leader (loneJob params))]
  exact Or.inr ⟨rfl, inside⟩

theorem leads_through_team (st : Rank (loneJob params) → Station) (r : Rank (loneJob params))
    (outside : (st r).point.inside = false)
    (here : (controlProgram params)[(st r).point.pc]? = some .team) :
    Leads st (Function.update st r { st r with point := (st r).point.next }) := by
  have enter := leads_enter st r outside (Or.inl here)
  have leave := leads_leave_team (Function.update st r { st r with point := (st r).point.enter }) r
    (by simp [Spmd.Point.enter]) (by simpa [Spmd.Point.enter] using here)
  simp only [Function.update_self, Function.update_idem] at leave
  exact enter.trans leave

/-- A whole `reset_counters`. -/
theorem leads_reset (st : Rank (loneJob params) → Station) (r : Rank (loneJob params))
    {syncCount : Int}
    (here : (threadCode params r 0)[(st r).point.pc]? = some (.resetCounters syncCount))
    (start : (st r).loc.iter = 0) :
    Leads st (Function.update st r { st r with
      point := (st r).point.next
      loc := Local.start (firstStage (sender r))
      sync := syncCount }) := by
  have stores := leads_stores st r here start
  have finish := leads_finish (Function.update st r { st r with
      loc := ⟨2, (st r).loc.stage⟩
      sync := syncCount }) r (by simpa using here) (by simp [workDone])
  simp only [Function.update_self, Function.update_idem] at finish
  exact stores.trans finish

/-- A rank leaves the collective when both have reached it. -/
theorem leads_leave_job (st : Rank (loneJob params) → Station) (r : Rank (loneJob params))
    (inside : (st r).point.inside = true)
    (here : (controlProgram params)[(st r).point.pc]? = some .job)
    (reached : ∀ r', (st r').point.Reached (st r).point.pc) :
    Leads st (Function.update st r { st r with point := (st r).point.next }) := by
  refine leads_sync st r _ fun s at_ => ?_
  have row := (at_ r).control (leader (loneJob params))
  rw [← row] at inside here reached ⊢
  refine Spmd.syncMove_leave_job here inside fun r' => ?_
  rw [(at_ r').control]
  exact reached r'

/-! ## Both ranks in lockstep -/

variable (params) in
/-- The states of both ranks. -/
def stations (ping pong : Station) : Rank (loneJob params) → Station :=
  fun r => if r = pinger then ping else pong

@[simp] theorem stations_pinger (ping pong : Station) :
    stations params ping pong pinger = ping := if_pos rfl

@[simp] theorem stations_ponger (ping pong : Station) :
    stations params ping pong ponger = pong := if_neg ponger_ne_pinger

@[simp] theorem update_pinger (ping pong ping' : Station) :
    Function.update (stations params ping pong) pinger ping' = stations params ping' pong := by
  funext r
  rcases pinger_or_ponger r with rfl | rfl
  · simp
  · simp [Function.update_of_ne ponger_ne_pinger]

@[simp] theorem update_ponger (ping pong pong' : Station) :
    Function.update (stations params ping pong) ponger pong' = stations params ping pong' := by
  funext r
  rcases pinger_or_ponger r with rfl | rfl
  · simp [Function.update_of_ne ponger_ne_pinger.symm]
  · simp

variable (params) in
/-- Both ranks at `pc` with `iter` iterations or stores done, `sync` tokens and the
messages `held` in flight to each. -/
def quiet (pc iter : Nat) (sync : Int) (held : List Msg) : Rank (loneJob params) → Station :=
  stations params ⟨⟨pc, false⟩, ⟨iter, .send⟩, sync, held⟩ ⟨⟨pc, false⟩, ⟨iter, .wait⟩, sync, held⟩

section Lockstep

variable {pc iter e : Nat} {sync : Int} {held : List Msg}

theorem leads_team (here : (controlProgram params)[pc]? = some .team) :
    Leads (quiet params pc 0 sync held) (quiet params (pc + 1) 0 sync held) := by
  have ping := leads_through_team (quiet params pc 0 sync held) pinger
    (by simp [quiet]) (by simpa [quiet] using here)
  have pong := leads_through_team (stations params ⟨⟨pc + 1, false⟩, ⟨0, .send⟩, sync, held⟩
    ⟨⟨pc, false⟩, ⟨0, .wait⟩, sync, held⟩) ponger (by simp) (by simpa using here)
  simp only [quiet, update_pinger, update_ponger, stations_pinger, stations_ponger] at ping pong
  exact ping.trans pong

theorem leads_job (here : (controlProgram params)[pc]? = some .job) :
    Leads (quiet params pc 0 sync held) (quiet params (pc + 1) 0 sync held) := by
  let before (inside : Bool) (stage : BodyStage) : Station :=
    ⟨⟨pc, inside⟩, ⟨0, stage⟩, sync, held⟩
  let after (stage : BodyStage) : Station := ⟨⟨pc + 1, false⟩, ⟨0, stage⟩, sync, held⟩
  have ping := leads_enter (stations params (before false .send) (before false .wait)) pinger
    (by simp [before]) (by simp [before, here])
  have pong := leads_enter (stations params (before true .send) (before false .wait)) ponger
    (by simp [before]) (by simp [before, here])
  have pingOut := leads_leave_job (stations params (before true .send) (before true .wait)) pinger
    (by simp [before]) (by simp [before, here]) fun r => by
      rcases pinger_or_ponger r with rfl | rfl <;> simp [before, Spmd.Point.Reached]
  have pongOut := leads_leave_job (stations params (after .send) (before true .wait)) ponger
    (by simp [before]) (by simp [before, here]) fun r => by
      rcases pinger_or_ponger r with rfl | rfl <;> simp [before, after, Spmd.Point.Reached]
  simp only [update_pinger, update_ponger, stations_pinger, stations_ponger] at ping pong
  simp only [update_pinger, update_ponger, stations_pinger, stations_ponger] at pingOut pongOut
  exact ((ping.trans pong).trans pingOut).trans pongOut

/-- Both ranks get through the `proc_barrier` at `pc`. -/
theorem leads_procBarrier (entry : (controlProgram params)[pc]? = some .team)
    (collective : (controlProgram params)[pc + 1]? = some .job)
    (leave : (controlProgram params)[pc + 2]? = some .team) :
    Leads (quiet params pc 0 sync held) (quiet params (pc + 3) 0 sync held) :=
  ((leads_team entry).trans (leads_job collective)).trans (leads_team leave)

/-- Both ranks finish a stretch of work. -/
theorem leads_work (here : ∀ report, ∃ instr, (runVaryMsg params report)[pc]? = some instr ∧
      ∀ stage, workDone 2 (⟨iter, stage⟩ : Local BodyStage) instr = true) :
    Leads (quiet params pc iter sync held) (quiet params (pc + 1) 0 sync held) := by
  obtain ⟨pingInstr, pingHere, pingDone⟩ := here true
  obtain ⟨pongInstr, pongHere, pongDone⟩ := here false
  have ping := leads_finish (quiet params pc iter sync held) pinger
    (by simp only [quiet, stations_pinger]; exact pingHere)
    (by simp only [quiet, stations_pinger]; exact pingDone .send)
  have pong := leads_finish (stations params ⟨⟨pc + 1, false⟩, ⟨0, .send⟩, sync, held⟩
    ⟨⟨pc, false⟩, ⟨iter, .wait⟩, sync, held⟩) ponger
    (by simp only [stations_ponger]; exact pongHere)
    (by simp only [stations_ponger]; exact pongDone .wait)
  simp only [quiet, update_pinger, update_ponger, stations_pinger, stations_ponger, sender_pinger,
    sender_ponger] at ping pong
  exact ping.trans pong

/-- Both ranks reset for loop `e`. -/
theorem leads_resets (below : e < params.loops) :
    Leads (quiet params (8 * e) 0 sync held) (quiet params (8 * e + 1) 0 (params.base e) held) := by
  have ping := leads_reset (quiet params (8 * e) 0 sync held) pinger
    (by simp only [quiet, stations_pinger]; exact reset_instr _ below) (by simp [quiet])
  have pong := leads_reset (stations params
      ⟨⟨8 * e + 1, false⟩, ⟨0, .send⟩, params.base e, held⟩
      ⟨⟨8 * e, false⟩, ⟨0, .wait⟩, sync, held⟩) ponger
    (by simp only [stations_ponger]; exact reset_instr _ below) (by simp)
  simp only [quiet, update_pinger, update_ponger, stations_pinger, stations_ponger, sender_pinger,
    sender_ponger] at ping pong
  exact ping.trans pong

/-- From the reset for loop `e` to the loop. -/
theorem leads_to_loop (below : e < params.loops) :
    Leads (quiet params (8 * e) 0 sync held) (quiet params (8 * e + 4) 0 (params.base e) held) :=
  (leads_resets below).trans (leads_procBarrier
    (controlProgram_slot params below (r := 1) (by omega))
    (controlProgram_slot params below (r := 2) (by omega))
    (controlProgram_slot params below (r := 3) (by omega)))

/-! ## The loops -/

variable (params) in
/-- A message of loop `e`. -/
def loopMsg (e : Nat) : Msg := ⟨0, params.sizes.getD (e / 2) 0, 8 * e + 4⟩

/-- A station in loop `e`. -/
def inLoop (e iter : Nat) (stage : BodyStage) (sync : Int) (inbox : List Msg) : Station :=
  ⟨⟨8 * e + 4, false⟩, ⟨iter, stage⟩, sync, inbox⟩

theorem threadCode_loop (rank : Nat) (below : e < params.loops) :
    (threadCode params rank 0)[8 * e + 4]? =
      some (.loop (params.iters e) (params.sizes.getD (e / 2) 0)) :=
  loop_instr _ below

section Iteration

variable (below : e < params.loops) (more : iter < params.iters e) {pingSync pongSync : Int}
  {pingBox pongBox : List Msg} {pong ping : Station} {i : Nat} {stage : BodyStage}

include below more

theorem leads_ping_send :
    Leads (stations params
      (inLoop e iter .send pingSync pingBox) (inLoop e i stage pongSync pongBox))
      (stations params (inLoop e iter .wait pingSync pingBox)
        (inLoop e i stage pongSync (pongBox ++ [loopMsg params e]))) := by
  have send := leads_send (stations params (inLoop e iter .send pingSync pingBox)
      (inLoop e i stage pongSync pongBox)) pinger
    (by simp only [stations_pinger]; exact threadCode_loop _ below)
    (by simp only [stations_pinger]; exact more) (by simp [inLoop])
  simp only [partner_pinger, update_pinger, update_ponger, stations_pinger, stations_ponger,
    sender_pinger] at send
  exact send

theorem leads_pong_send :
    Leads (stations params
      (inLoop e i stage pingSync pingBox) (inLoop e iter .send pongSync pongBox))
      (stations params (inLoop e i stage pingSync (pingBox ++ [loopMsg params e]))
        (inLoop e (iter + 1) .wait pongSync pongBox)) := by
  have send := leads_send (stations params (inLoop e i stage pingSync pingBox)
      (inLoop e iter .send pongSync pongBox)) ponger
    (by simp only [stations_ponger]; exact threadCode_loop _ below)
    (by simp only [stations_ponger]; exact more) (by simp [inLoop])
  simp only [partner_ponger, update_pinger, update_ponger, stations_pinger, stations_ponger,
    sender_ponger] at send
  exact send

theorem leads_ping_take :
    Leads (stations params (inLoop e iter .wait 1 pingBox) pong)
      (stations params (inLoop e (iter + 1) .send 0 pingBox) pong) := by
  have take := leads_take (stations params (inLoop e iter .wait 1 pingBox) pong) pinger
    (by simp only [stations_pinger]; exact threadCode_loop _ below)
    (by simp only [stations_pinger]; exact more) (by simp [inLoop]) (by simp [inLoop])
  simp only [update_pinger, stations_pinger, sender_pinger] at take
  exact take

theorem leads_pong_take :
    Leads (stations params ping (inLoop e iter .wait 1 pongBox))
      (stations params ping (inLoop e iter .send 0 pongBox)) := by
  have take := leads_take (stations params ping (inLoop e iter .wait 1 pongBox)) ponger
    (by simp only [stations_ponger]; exact threadCode_loop _ below)
    (by simp only [stations_ponger]; exact more) (by simp [inLoop]) (by simp [inLoop])
  simp only [update_ponger, stations_ponger, sender_ponger] at take
  exact take

omit below more in
theorem eraseIdx_append_length (held : List Msg) (msg : Msg) :
    (held ++ [msg]).eraseIdx held.length = held := by
  rw [List.eraseIdx_append_of_length_le (Nat.le_refl _)]
  simp

omit below more in
theorem leads_ping_hop (msg : Msg) :
    Leads (stations params (inLoop e iter stage 0 (held ++ [msg])) pong)
      (stations params (inLoop e iter stage 1 held) pong) := by
  have hop := leads_hop (stations params (inLoop e iter stage 0 (held ++ [msg])) pong) pinger
    (k := held.length) (by simp only [stations_pinger, inLoop]; exact List.getElem?_concat_length)
  simp only [update_pinger, stations_pinger, inLoop, eraseIdx_append_length] at hop
  exact hop

omit below more in
theorem leads_pong_hop (msg : Msg) :
    Leads (stations params ping (inLoop e iter stage 0 (held ++ [msg])))
      (stations params ping (inLoop e iter stage 1 held)) := by
  have hop := leads_hop (stations params ping (inLoop e iter stage 0 (held ++ [msg]))) ponger
    (k := held.length) (by simp only [stations_ponger, inLoop]; exact List.getElem?_concat_length)
  simp only [update_ponger, stations_ponger, inLoop, eraseIdx_append_length] at hop
  exact hop

/-- An iteration in which ping and pong wait for each other's new message. -/
theorem leads_iteration :
    Leads (quiet params (8 * e + 4) iter 0 held) (quiet params (8 * e + 4) (iter + 1) 0 held) := by
  have pinged : Leads (quiet params (8 * e + 4) iter 0 held)
      (stations params (inLoop e iter .wait 0 held)
        (inLoop e iter .wait 0 (held ++ [loopMsg params e]))) := leads_ping_send below more
  have taken : Leads _
      (stations params (inLoop e iter .wait 0 held) (inLoop e iter .send 0 held)) :=
    (pinged.trans (leads_pong_hop _)).trans (leads_pong_take below more)
  have answered : Leads _ (stations params (inLoop e iter .wait 0 (held ++ [loopMsg params e]))
      (inLoop e (iter + 1) .wait 0 held)) := taken.trans (leads_pong_send below more)
  exact (answered.trans (leads_ping_hop _)).trans (leads_ping_take below more)

/-- An iteration that both sides make with a token they have; the messages stay in
flight. -/
theorem leads_prefilled_iteration :
    Leads (quiet params (8 * e + 4) iter 1 held)
      (quiet params (8 * e + 4) (iter + 1) 0 (held ++ [loopMsg params e])) := by
  have pinged : Leads (quiet params (8 * e + 4) iter 1 held)
      (stations params (inLoop e iter .wait 1 held)
        (inLoop e iter .wait 1 (held ++ [loopMsg params e]))) := leads_ping_send below more
  have taken : Leads _ (stations params (inLoop e (iter + 1) .send 0 held)
      (inLoop e iter .send 0 (held ++ [loopMsg params e]))) :=
    (pinged.trans (leads_ping_take below more)).trans (leads_pong_take below more)
  exact taken.trans (leads_pong_send below more)

end Iteration

/-- From any iteration to the end of the loop. -/
theorem leads_loop (below : e < params.loops) (start : iter ≤ params.iters e) :
    Leads (quiet params (8 * e + 4) iter 0 held) (quiet params (8 * e + 5) 0 0 held) := by
  obtain ⟨left, total⟩ := Nat.exists_eq_add_of_le start
  induction left generalizing iter with
  | zero =>
      refine leads_work fun report => ⟨_, loop_instr report below, fun stage => ?_⟩
      simp [workDone, total]
  | succ left inductionHypothesis =>
      exact (leads_iteration below (by omega)).trans
        (inductionHypothesis (by omega) (by omega))

/-- Behind a warm-up loop both ranks go on to the next reset. -/
theorem leads_after_warmup (below : e < params.loops) (even : e % 2 = 0) :
    Leads (quiet params (8 * e + 5) 0 sync held) (quiet params (8 * (e + 1)) 0 sync held) := by
  have found := fun r (small : r < 8) => controlProgram_slot params below small
  exact leads_procBarrier
    (by rw [found 5 (by omega)]; simp [slot, even, Instr.op])
    (by rw [show 8 * e + 5 + 1 = 8 * e + 6 by omega, found 6 (by omega)]
        simp [slot, even, Instr.op])
    (by rw [show 8 * e + 5 + 2 = 8 * e + 7 by omega, found 7 (by omega)]
        simp [slot, even, Instr.op])

/-- Behind a measured loop as well. -/
theorem leads_after_measured (below : e < params.loops) (odd : e % 2 = 1) :
    Leads (quiet params (8 * e + 5) 0 sync held) (quiet params (8 * (e + 1)) 0 sync held) := by
  have found := fun report r (small : r < 8) => runVaryMsg_slot params report below small
  have record : Leads (quiet params (8 * e + 5) 0 sync held)
      (quiet params (8 * e + 6) 0 sync held) :=
    leads_work fun report => ⟨_, found report 5 (by omega), fun stage => by
      simp [slot, odd, workDone]⟩
  have barrier : Leads (quiet params (8 * e + 6) 0 sync held)
      (quiet params (8 * e + 7) 0 sync held) :=
    leads_team (by
      rw [controlProgram_slot params below (by omega)]
      simp [slot, odd, Instr.op])
  have report : Leads (quiet params (8 * e + 7) 0 sync held)
      (quiet params (8 * e + 8) 0 sync held) :=
    leads_work fun report => ⟨_, found report 7 (by omega), fun stage => by
      simp [slot, odd, workDone]⟩
  exact (record.trans barrier).trans report

end Lockstep

/-! ## Reachable states -/

/-- The job starts quiet. -/
theorem at_init (params : RunParams) :
    At (State.init (loneJob params)) (quiet params 0 0 0 []) := by
  intro r
  rcases pinger_or_ponger r with rfl | rfl
  all_goals
    simp only [quiet, stations_pinger, stations_ponger]
    refine ⟨fun t => rfl, fun t => ?_, rfl, rfl, fun p => rfl, fun p => ?_, fun p => rfl,
      fun p => rfl⟩
    · simp [State.init, Local.start, firstStage]
    · rw [Subsingleton.elim p ⟨0, Nat.one_pos⟩]
      rfl

/-- What the initial state leads to is reachable. -/
theorem exists_reachable {st : Rank (loneJob params) → Station}
    (leads : Leads (quiet params 0 0 0 []) st) : ∃ s, Reachable s ∧ At s st := by
  obtain ⟨s, run, here⟩ := leads _ (at_init params)
  exact ⟨s, run, here⟩

/-- Both ranks at a loop they have not begun. -/
theorem At.loopStart {s : State (loneJob params)} {e : Nat} {sync : Int} {held : List Msg}
    (here : At s (quiet params (8 * e + 4) 0 sync held)) :
    s.AtLoopStart e ∧ (∀ r p, s.underway r p = held) ∧
      ∀ r (t : Worker (loneJob params)), s.syncs r t = sync := by
  refine ⟨fun r t => ?_, fun r p => ?_, fun r t => ?_⟩
  all_goals
    have row := here r
    rcases pinger_or_ponger r with rfl | rfl
    all_goals simp only [quiet, stations_pinger, stations_ponger] at row
  · rw [row.control, row.loc]
    exact ⟨Or.inl (by simp), Or.inr ⟨rfl, by simp [Local.start, firstStage]⟩⟩
  · rw [row.control, row.loc]
    exact ⟨Or.inl (by simp), Or.inr ⟨rfl, by simp [Local.start, firstStage]⟩⟩
  · simp [State.underway, row.net, row.cq, row.prg]
  · simp [State.underway, row.net, row.cq, row.prg]
  · rw [Subsingleton.elim t (leader (loneJob params))]
    exact row.sync
  · rw [Subsingleton.elim t (leader (loneJob params))]
    exact row.sync

/-- In lockstep the warm-up of the first size leaves nothing in flight. -/
theorem leads_warmup (sizes : 0 < params.sizes.length) :
    Leads (quiet params 0 0 0 []) (quiet params (8 * 1) 0 0 []) := by
  have below : 0 < params.loops := by
    unfold RunParams.loops
    omega
  exact ((leads_to_loop (e := 0) below).trans (leads_loop below (Nat.zero_le _))).trans
    (leads_after_warmup below rfl)

/-- To the first measured loop. -/
theorem leads_to_measured (sizes : 0 < params.sizes.length) :
    Leads (quiet params 0 0 0 []) (quiet params (8 * 1 + 4) 0 params.prefilledWork []) :=
  (leads_warmup sizes).trans (leads_to_loop (e := 1) (by unfold RunParams.loops; omega))

/-- With one prefilled token a message of the first measured loop stays in flight
to each rank until the second measured loop begins. -/
theorem leads_late (one : params.prefilledWork = 1) (sizes : 2 ≤ params.sizes.length)
    (loop : 0 < params.loop) :
    Leads (quiet params 0 0 0 []) (quiet params (8 * 3 + 4) 0 1 [loopMsg params 1]) := by
  have below : ∀ e, e < 4 → e < params.loops := by
    unfold RunParams.loops
    omega
  have measured : Leads (quiet params 0 0 0 []) (quiet params (8 * 1 + 4) 0 1 []) := by
    have leads : Leads (quiet params 0 0 0 [])
        (quiet params (8 * 1 + 4) 0 params.prefilledWork []) :=
      leads_to_measured (by omega)
    rw [one] at leads
    exact leads
  have prefilled := measured.trans (leads_prefilled_iteration (e := 1) (below 1 (by omega)) loop)
  have second := (prefilled.trans (leads_loop (below 1 (by omega)) loop)).trans
    (leads_after_measured (below 1 (by omega)) rfl)
  have warmup := ((second.trans (leads_to_loop (e := 2) (below 2 (by omega)))).trans
    (leads_loop (below 2 (by omega)) (Nat.zero_le _))).trans
    (leads_after_warmup (below 2 (by omega)) rfl)
  have last := warmup.trans (leads_to_loop (e := 3) (below 3 (by omega)))
  have base : params.base 3 = 1 := by simp [RunParams.base, one]
  rw [base] at last
  exact last

end FabricBench.PingpongPrg
