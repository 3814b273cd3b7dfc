import FabricBench.Lib.Total
import FabricBench.Lib.Variant
import Mathlib.Algebra.BigOperators.Ring.Finset
import Mathlib.Algebra.Order.BigOperators.Group.Finset

/-!
Processes that run a team of threads beside helpers, and stop the helpers when the team
has ended: the main thread sets a flag, joins its helpers, meets the other processes at a
last barrier and returns. A helper looks at the flag only between two rounds, so that one
which looked before the flag was set makes a round more.

Owns: `System`, a machine whose actions belong to the teams, to the transport or to the
helpers; `lifeStep`, its life until all processes have returned; and, from what
`System.Lawful` asks of the machine, that every life ends (`Lawful.variant_life`), and
that it ends when all processes have returned and not before (`Lawful.final_iff_returned`).
-/

namespace FabricBench.Lib.Lifecycle

/-- Where a main thread is: its team runs, it has set the flag and joins its helpers, it
waits at the last barrier, or it has returned. -/
inductive Phase where
  | team
  | join
  | closing
  | returned
deriving DecidableEq, Repr

/-- Whose action it is: that of a team, of the transport to a process, or of a helper that
begins a round or is in one. -/
inductive Role (ι π : Type) where
  | team
  | transport (i : ι)
  | enter (i : ι) (p : π)
  | round (i : ι) (p : π)

/-- A machine of processes `ι` with helpers `π`. `again` says that a helper may begin
several rounds before it looks at the flag. -/
structure System (ι π State Action : Type) where
  step : State → Action → Option State
  role : Action → Role ι π
  ended : State → ι → Bool
  idle : State → ι → π → Bool
  again : Bool

/-- `late` are the helpers that may still begin a round although the flag is set, and
`exited` those that have seen it. -/
structure Life (ι π State : Type) where
  job : State
  main : ι → Phase
  late : ι → π → Bool
  exited : ι → π → Bool

inductive Event (ι π Action : Type) where
  | job (action : Action)
  /-- The team has ended and the flag is set; the helpers of `late` looked at it before. -/
  | stop (i : ι) (late : π → Bool)
  | exit (i : ι) (p : π)
  | join (i : ι)
  /-- The last barrier is left. -/
  | leave (i : ι)

variable {ι π State Action : Type}

def Life.start (s : State) : Life ι π State where
  job := s
  main _ := .team
  late _ _ := false
  exited _ _ := false

/-- Who may still act: the transport until the helpers are joined, and a helper until it
has seen the flag. -/
def Life.allows (life : Life ι π State) : Role ι π → Bool
  | .team => true
  | .transport i => life.main i = .team || life.main i = .join
  | .enter i p =>
      life.main i = .team || (life.main i = .join && life.late i p && !life.exited i p)
  | .round i p => !life.exited i p

variable [DecidableEq ι] [DecidableEq π]

/-- A round begun late is the last one, unless there may be several. -/
def Life.lateAfter (again : Bool) (life : Life ι π State) : Role ι π → ι → π → Bool
  | .enter i p => if again then life.late else put life.late i p false
  | _ => life.late

variable [Fintype ι] [Fintype π]

def lifeStep (sys : System ι π State Action) (life : Life ι π State) :
    Event ι π Action → Option (Life ι π State)
  | .job action =>
      if life.allows (sys.role action) then
        (sys.step life.job action).map fun s =>
          { life with job := s, late := life.lateAfter sys.again (sys.role action) }
      else none
  | .stop i late =>
      if life.main i = .team ∧ sys.ended life.job i = true ∧
          ∀ p, late p = true → sys.again = true ∨ sys.idle life.job i p = true then
        some { life with
          main := Function.update life.main i .join
          late := Function.update life.late i late }
      else none
  | .exit i p =>
      if life.main i = .join ∧ sys.idle life.job i p = true ∧ life.exited i p = false then
        some { life with exited := put life.exited i p true }
      else none
  | .join i =>
      if life.main i = .join ∧ ∀ p, life.exited i p = true then
        some { life with main := Function.update life.main i .closing }
      else none
  | .leave i =>
      if life.main i = .closing ∧ ∀ j, life.main j = .closing ∨ life.main j = .returned then
        some { life with main := Function.update life.main i .returned }
      else none

/-! ## Inversion of `lifeStep` -/

/-- The steps of a life. -/
inductive Turn (sys : System ι π State Action) : Life ι π State → Life ι π State → Prop where
  | job {life : Life ι π State} (action : Action) (s : State)
      (allowed : life.allows (sys.role action) = true)
      (taken : sys.step life.job action = some s) :
      Turn sys life { life with job := s, late := life.lateAfter sys.again (sys.role action) }
  | stop {life : Life ι π State} (i : ι) (late : π → Bool) (running : life.main i = .team)
      (ended : sys.ended life.job i = true)
      (looked : ∀ p, late p = true → sys.again = true ∨ sys.idle life.job i p = true) :
      Turn sys life { life with
        main := Function.update life.main i .join
        late := Function.update life.late i late }
  | exit {life : Life ι π State} (i : ι) (p : π) (joining : life.main i = .join)
      (idle : sys.idle life.job i p = true) (running : life.exited i p = false) :
      Turn sys life { life with exited := put life.exited i p true }
  | join {life : Life ι π State} (i : ι) (joining : life.main i = .join)
      (all : ∀ p, life.exited i p = true) :
      Turn sys life { life with main := Function.update life.main i .closing }
  | leave {life : Life ι π State} (i : ι) (closing : life.main i = .closing)
      (all : ∀ j, life.main j = .closing ∨ life.main j = .returned) :
      Turn sys life { life with main := Function.update life.main i .returned }

variable {sys : System ι π State Action} {life life' : Life ι π State}

theorem turn_of_step {event : Event ι π Action} (taken : lifeStep sys life event = some life') :
    Turn sys life life' := by
  cases event with
  | job action =>
      simp only [lifeStep] at taken
      split_ifs at taken with allowed
      obtain ⟨s, step, rfl⟩ := Option.map_eq_some_iff.mp taken
      exact .job action s allowed step
  | stop i late =>
      simp only [lifeStep] at taken
      split_ifs at taken with guard
      obtain rfl := Option.some.inj taken
      exact .stop i late guard.1 guard.2.1 guard.2.2
  | exit i p =>
      simp only [lifeStep] at taken
      split_ifs at taken with guard
      obtain rfl := Option.some.inj taken
      exact .exit i p guard.1 guard.2.1 guard.2.2
  | join i =>
      simp only [lifeStep] at taken
      split_ifs at taken with guard
      obtain rfl := Option.some.inj taken
      exact .join i guard.1 guard.2
  | leave i =>
      simp only [lifeStep] at taken
      split_ifs at taken with guard
      obtain rfl := Option.some.inj taken
      exact .leave i guard.1 guard.2

theorem Turn.step (turn : Turn sys life life') : ∃ event, lifeStep sys life event = some life' := by
  cases turn with
  | job action s allowed taken => exact ⟨.job action, by simp [lifeStep, allowed, taken]⟩
  | stop i late running ended looked =>
      exact ⟨.stop i late, if_pos ⟨running, ended, looked⟩⟩
  | exit i p joining idle running => exact ⟨.exit i p, if_pos ⟨joining, idle, running⟩⟩
  | join i joining all => exact ⟨.join i, if_pos ⟨joining, all⟩⟩
  | leave i closing all => exact ⟨.leave i, if_pos ⟨closing, all⟩⟩

/-- Until a flag is set, the life is that of the machine. -/
theorem runActions_job {s s' : State} {actions : List Action}
    (taken : Machine.runActions sys.step s actions = some s') :
    Machine.runActions (lifeStep sys) (Life.start s) (actions.map .job) =
      some (Life.start s' : Life ι π State) := by
  induction actions generalizing s with
  | nil => exact congrArg (Option.map Life.start) taken
  | cons action rest inductionHypothesis =>
      obtain ⟨middle, first, others⟩ := Option.bind_eq_some_iff.mp taken
      have step : lifeStep sys (Life.start s) (.job action) =
          some (Life.start middle : Life ι π State) := by
        have late : (Life.start s : Life ι π State).lateAfter sys.again (sys.role action) =
            fun _ _ => false := by
          cases sys.role action with
          | enter i p =>
              simp only [Life.lateAfter]
              split_ifs
              · rfl
              · exact put_self _ i p
          | team | transport | round => rfl
        have allowed : (Life.start s : Life ι π State).allows (sys.role action) = true := by
          cases sys.role action <;> rfl
        simp only [lifeStep, allowed, if_true, late]
        exact congrArg (Option.map _) first
      rw [List.map_cons, Machine.runActions, step]
      exact inductionHypothesis others

/-! ## What is asked of the machine -/

/-- The machine ends, its teams end together and stay so, and its helpers finish the
rounds they are in. -/
structure System.Lawful (sys : System ι π State Action) (inv : State → Prop)
    (work : State → Nat) : Prop where
  variant : Machine.Variant sys.step inv work
  ended_step : ∀ {s s' : State} {action : Action} {i : ι}, inv s →
    sys.step s action = some s' → sys.ended s i = true → sys.ended s' i = true
  /-- Nobody else gives a helper work. -/
  idle_step : ∀ {s s' : State} {action : Action} {i : ι} {p : π},
    sys.step s action = some s' → sys.role action ≠ .enter i p → sys.role action ≠ .round i p →
    sys.idle s i p = true → sys.idle s' i p = true
  round : ∀ {s : State} {i : ι} {p : π}, inv s → sys.idle s i p = false →
    ∃ action s', sys.role action = .round i p ∧ sys.step s action = some s'
  /-- Once a team has ended, the others end without the helpers. -/
  team : ∀ {s : State} {i j : ι}, inv s → sys.ended s i = true → sys.ended s j = false →
    ∃ action s', sys.role action = .team ∧ sys.step s action = some s'
  silent : ∀ {s : State} {action : Action}, (∀ i, sys.ended s i = true) →
    sys.role action = .team → sys.step s action = none
  final : ∀ {s : State}, inv s → Machine.Final sys.step s → ∀ i, sys.ended s i = true

/-- Holds all through a life. -/
structure Life.Ok (sys : System ι π State Action) (inv : State → Prop)
    (life : Life ι π State) : Prop where
  job : inv life.job
  ended : ∀ i, life.main i ≠ .team → sys.ended life.job i = true
  idle : ∀ i p, life.exited i p = true → sys.idle life.job i p = true
  told : ∀ i p, life.exited i p = true → life.main i ≠ .team
  joined : ∀ i, life.main i = .closing ∨ life.main i = .returned → ∀ p, life.exited i p = true

def Life.Returned (life : Life ι π State) : Prop := ∀ i, life.main i = .returned

instance (life : Life ι π State) : Decidable life.Returned := by
  unfold Life.Returned
  infer_instance

variable {inv : State → Prop} {work : State → Nat}

omit [DecidableEq ι] [DecidableEq π] [Fintype ι] [Fintype π] in
theorem Life.ok_start {s : State} (start : inv s) : (Life.start s : Life ι π State).Ok sys inv where
  job := start
  ended _ other := absurd rfl other
  idle _ _ exited := absurd exited (by simp [Life.start])
  told _ _ exited := absurd exited (by simp [Life.start])
  joined _ past := absurd past (by simp [Life.start])

omit [DecidableEq ι] [DecidableEq π] [Fintype ι] [Fintype π] in
/-- A helper that has exited acts no more. -/
theorem Life.Ok.not_own (ok : life.Ok sys inv) {i : ι} {p : π} (exited : life.exited i p = true)
    {role : Role ι π} (allowed : life.allows role = true) :
    role ≠ .enter i p ∧ role ≠ .round i p := by
  constructor
  · rintro rfl
    simp [Life.allows, exited, ok.told i p exited] at allowed
  · rintro rfl
    simp [Life.allows, exited] at allowed

omit [DecidableEq π] [Fintype ι] [Fintype π] in
/-- The main thread of `i` goes on to a phase behind the running of the team. -/
theorem Life.Ok.goOn (ok : life.Ok sys inv) {i : ι} {phase : Phase} {late : ι → π → Bool}
    (later : phase ≠ .team) (ended : sys.ended life.job i = true)
    (joined : phase = .closing ∨ phase = .returned → ∀ p, life.exited i p = true) :
    Life.Ok sys inv { life with main := Function.update life.main i phase, late := late } where
  job := ok.job
  ended j other := by
    by_cases same : j = i
    · exact same ▸ ended
    · exact ok.ended j (by simpa [same] using other)
  idle := ok.idle
  told j p exited := by
    by_cases same : j = i
    · subst same
      simpa using later
    · simpa [same] using ok.told j p exited
  joined j past p := by
    by_cases same : j = i
    · subst same
      exact joined (by simpa using past) p
    · exact ok.joined j (by simpa [same] using past) p

omit [Fintype ι] [Fintype π] in
theorem Life.Ok.turn (lawful : sys.Lawful inv work) (ok : life.Ok sys inv)
    (turn : Turn sys life life') : life'.Ok sys inv := by
  cases turn with
  | job action s allowed taken =>
      refine ⟨lawful.variant.keeps ok.job ⟨action, taken⟩, fun i other => ?_, fun i p exited => ?_,
        ok.told, ok.joined⟩
      · exact lawful.ended_step ok.job taken (ok.ended i other)
      · obtain ⟨notEnter, notRound⟩ := ok.not_own exited allowed
        exact lawful.idle_step taken notEnter notRound (ok.idle i p exited)
  | stop i late running ended looked => exact ok.goOn (by simp) ended (by simp)
  | exit i p joining idle running =>
      refine ⟨ok.job, ok.ended, ?_, ?_, fun j past q => ?_⟩
      · refine forall_entries i p (fun _ => idle) fun j q different exited => ?_
        exact ok.idle j q (by simpa only [put_of_ne _ _ different] using exited)
      · refine forall_entries i p (fun _ => by simp [joining]) fun j q different exited => ?_
        exact ok.told j q (by simpa only [put_of_ne _ _ different] using exited)
      · have before := ok.joined j past q
        simp only [put, before, ite_self]
  | join i joining all =>
      exact ok.goOn (by simp) (ok.ended i (by simp [joining])) fun _ => all
  | leave i closing all =>
      exact ok.goOn (by simp) (ok.ended i (by simp [closing])) fun _ => ok.joined i (.inl closing)

/-! ## The end of a life -/

/-- The steps the main thread has left. -/
def Phase.left : Phase → Nat
  | .team => 3
  | .join => 2
  | .closing => 1
  | .returned => 0

def Life.left (work : State → Nat) (life : Life ι π State) : Nat :=
  work life.job + ∑ i, (life.main i).left + tableSum fun i p => if life.exited i p then 0 else 1

omit [DecidableEq π] in
theorem Life.left_goOn {i : ι} {phase : Phase} {late : ι → π → Bool}
    (lower : phase.left < (life.main i).left) :
    Life.left work { life with main := Function.update life.main i phase, late := late } <
      life.left work := by
  have mains : ∑ j, (Function.update life.main i phase j).left < ∑ j, (life.main j).left := by
    refine Finset.sum_lt_sum (fun j _ => ?_) ⟨i, Finset.mem_univ i, by simpa using lower⟩
    by_cases same : j = i
    · subst same
      simpa using lower.le
    · simp [same]
  unfold Life.left
  dsimp only
  omega

theorem Turn.left_lt (lawful : sys.Lawful inv work) (ok : life.Ok sys inv)
    (turn : Turn sys life life') : life'.left work < life.left work := by
  cases turn with
  | job action s allowed taken =>
      have lower := lawful.variant.lowers ok.job ⟨action, taken⟩
      unfold Life.left
      dsimp only
      omega
  | stop i late running ended looked => exact Life.left_goOn (by simp [running, Phase.left])
  | exit i p joining idle running =>
      have change := tableSum_change (fun i p => if life.exited i p then 0 else 1)
        (fun j q => if put life.exited i p true j q then 0 else 1) i p fun j q different => by
          rw [put_of_ne _ _ different]
      simp only [put_same, running, if_true, Bool.false_eq_true, if_false] at change
      unfold Life.left
      dsimp only
      omega
  | join i joining all => exact Life.left_goOn (by simp [joining, Phase.left])
  | leave i closing all => exact Life.left_goOn (by simp [closing, Phase.left])

/-- Every step of a life leaves less to do. -/
theorem System.Lawful.variant_life (lawful : sys.Lawful inv work) :
    Machine.Variant (lifeStep sys) (Life.Ok sys inv) (Life.left work) where
  keeps ok := fun ⟨_, taken⟩ => ok.turn lawful (turn_of_step taken)
  lowers ok := fun ⟨_, taken⟩ => (turn_of_step taken).left_lt lawful ok

section Final

variable (final : Machine.Final (lifeStep sys) life)

include final

theorem no_turn_of_final (turn : Turn sys life life') : False := by
  obtain ⟨event, taken⟩ := turn.step
  rw [final event] at taken
  exact absurd taken (by simp)

/-- At the end all teams have ended: while no flag is set, the machine itself cannot go on,
and once one is, the other teams end without the helpers. -/
theorem ended_of_final (lawful : sys.Lawful inv work) (ok : life.Ok sys inv) (i : ι) :
    sys.ended life.job i = true := by
  by_cases running : ∀ j, life.main j = .team
  · refine lawful.final ok.job (fun action => ?_) i
    by_contra possible
    obtain ⟨s, taken⟩ := Option.ne_none_iff_exists'.mp possible
    refine no_turn_of_final final (.job action s ?_ taken)
    cases sys.role action with
    | team => rfl
    | transport j => simp [Life.allows, running j]
    | enter j p => simp [Life.allows, running j]
    | round j p =>
        have stays : life.exited j p ≠ true := fun exited => ok.told j p exited (running j)
        simp [Life.allows, stays]
  · obtain ⟨j, stopped⟩ := Classical.not_forall.mp running
    by_contra unfinished
    obtain ⟨action, s, role, taken⟩ := lawful.team (j := i) ok.job (ok.ended j stopped)
      (by simpa using unfinished)
    exact no_turn_of_final final (.job action s (by rw [role]; rfl) taken)

/-- At the end every main thread is at the last barrier or past it. -/
theorem joined_of_final (lawful : sys.Lawful inv work) (ok : life.Ok sys inv) (i : ι) :
    life.main i = .closing ∨ life.main i = .returned := by
  cases phase : life.main i with
  | team =>
      have ended := ended_of_final final lawful ok i
      exact (no_turn_of_final final (.stop i (fun _ => false) phase ended (by simp))).elim
  | join =>
      -- a helper that has not exited exits or goes on with its round
      have all : ∀ p, life.exited i p = true := by
        intro p
        by_contra running
        have running : life.exited i p = false := by simpa using running
        cases idle : sys.idle life.job i p with
        | true => exact no_turn_of_final final (.exit i p phase idle running)
        | false =>
            obtain ⟨action, s, role, taken⟩ := lawful.round ok.job idle
            refine no_turn_of_final final (.job action s ?_ taken)
            simp [role, Life.allows, running]
      exact (no_turn_of_final final (.join i phase all)).elim
  | closing => exact .inl rfl
  | returned => exact .inr rfl

end Final

/-- A life cannot go on exactly when all processes have returned. -/
theorem System.Lawful.final_iff_returned (lawful : sys.Lawful inv work) (ok : life.Ok sys inv) :
    Machine.Final (lifeStep sys) life ↔ life.Returned := by
  constructor
  · intro final i
    have joined := joined_of_final final lawful ok
    refine (joined i).resolve_left fun closing => ?_
    exact no_turn_of_final final (.leave i closing joined)
  · intro returned event
    by_contra possible
    obtain ⟨life', taken⟩ := Option.ne_none_iff_exists'.mp possible
    have exited : ∀ i p, life.exited i p = true := fun i => ok.joined i (.inr (returned i))
    cases turn_of_step taken with
    | job action s allowed step =>
        cases role : sys.role action with
        | team =>
            have none := lawful.silent (fun i => ok.ended i (by simp [returned i])) role
            rw [none] at step
            exact absurd step (by simp)
        | transport i => simp [role, Life.allows, returned i] at allowed
        | enter i p => simp [role, Life.allows, returned i] at allowed
        | round i p => simp [role, Life.allows, exited i p] at allowed
    | stop i late running ended looked =>
        rw [returned i] at running
        exact absurd running (by simp)
    | exit i p joining idle running =>
        rw [returned i] at joining
        exact absurd joining (by simp)
    | join i joining all =>
        rw [returned i] at joining
        exact absurd joining (by simp)
    | leave i closing all =>
        rw [returned i] at closing
        exact absurd closing (by simp)

/-- The life of a lawful machine: its runs have a bound, they end when all processes have
returned, and each of them can be continued until then. -/
theorem System.Lawful.lives (lawful : sys.Lawful inv work) {s : State} (start : inv s)
    {events : List (Event ι π Action)}
    (taken : Machine.runActions (lifeStep sys) (Life.start s) events = some life) :
    life.Ok sys inv ∧
      events.length ≤ work s + Fintype.card ι * (3 + Fintype.card π) ∧
      (Machine.Final (lifeStep sys) life ↔ life.Returned) ∧
      ∃ more life', Machine.runActions (lifeStep sys) life more = some life' ∧ life'.Returned := by
  have all : (Life.start s : Life ι π State).left work =
      work s + Fintype.card ι * (3 + Fintype.card π) := by
    simp [Life.left, Life.start, Phase.left, tableSum, Nat.mul_add, Nat.add_assoc]
  rw [← all]
  exact ⟨lawful.variant_life.inv_of_actions (Life.ok_start start) taken,
    lawful.variant_life.completes lawful.final_iff_returned (Life.ok_start start) taken⟩

end FabricBench.Lib.Lifecycle
