import Mathlib.Data.Fintype.Prod
import Mathlib.Data.Finset.Max
import Mathlib.Logic.Relation

/-!
Owns the control flow of a single-program-multiple-data job: every thread of
every process runs the same list of positions, some of which synchronise. A
`team` position is a barrier of the threads of one process. A `job` position is
a collective of the processes, called by the leader of each process and skipped
by its other threads.

A call is released by generation: a thread leaves its `g`-th team barrier once
every thread of its process has entered a `g`-th one, and a leader leaves its
`g`-th collective once every process has entered a `g`-th one.

Owns: the release rule, the invariant `Synchronised`, the barrier built from a
team barrier on each side of a collective (`bracket_reached`), who stays at a call
(`syncMove_eq_none_team`, `syncMove_eq_none_job`), and the progress lemma
`exists_move_or_min`. It does not own what happens at `work` positions.
-/

namespace FabricBench.Lib.Spmd

/-- What a position of the common program asks of the control flow. -/
inductive Op where
  | work
  | team
  | job
deriving DecidableEq, Repr

/-- Where a thread stands. `inside` means that the call at `pc` was entered and
has not returned. -/
@[ext]
structure Point where
  pc : Nat
  inside : Bool
deriving DecidableEq, Repr

/-- The thread has entered the call at position `k`, or is past it. -/
def Point.Reached (point : Point) (k : Nat) : Prop :=
  k < point.pc ∨ (point.pc = k ∧ point.inside = true)

instance (point : Point) (k : Nat) : Decidable (point.Reached k) := by
  unfold Point.Reached
  infer_instance

def Point.next (point : Point) : Point := ⟨point.pc + 1, false⟩

def Point.enter (point : Point) : Point := ⟨point.pc, true⟩

/-- How many calls of kind `op` the thread has entered so far. -/
def entered (prog : List Op) (op : Op) (point : Point) : Nat :=
  (prog.take point.pc).count op +
    if point.inside = true ∧ prog[point.pc]? = some op then 1 else 0

/-! ## Generations and positions -/

theorem count_take_mono (prog : List Op) (op : Op) {low high : Nat} (le : low ≤ high) :
    (prog.take low).count op ≤ (prog.take high).count op :=
  ((List.take_prefix_take_left le).sublist).count_le op

theorem count_take_succ {α : Type} [DecidableEq α] (code : List α) (a : α) (n : Nat) :
    (code.take (n + 1)).count a = (code.take n).count a + if code[n]? = some a then 1 else 0 := by
  rw [List.take_add_one, List.count_append]
  cases code[n]? with
  | none => simp
  | some found => simp [List.count_singleton, beq_iff_eq]

/-- A thread inside the call at `k` has entered one call more than lie before `k`. -/
theorem entered_inside {prog : List Op} {op : Op} {point : Point}
    (here : prog[point.pc]? = some op) (inside : point.inside = true) :
    entered prog op point = (prog.take point.pc).count op + 1 := by
  simp [entered, here, inside]

/-- Having entered as many calls as a thread inside the call at `k` means having
reached `k`. -/
theorem reached_of_entered {prog : List Op} {op : Op} {k : Nat} {point : Point}
    (enough : (prog.take k).count op + 1 ≤ entered prog op point) : point.Reached k := by
  rcases Nat.lt_trichotomy point.pc k with before | same | after
  · have bound : entered prog op point ≤ (prog.take (point.pc + 1)).count op := by
      unfold entered
      split_ifs with call
      · rw [count_take_succ, if_pos call.2]
      · exact count_take_mono prog op (Nat.le_succ _)
    have := count_take_mono prog op (show point.pc + 1 ≤ k from before)
    omega
  · refine Or.inr ⟨same, ?_⟩
    by_contra outside
    simp only [entered, outside, false_and, if_false, same] at enough
    omega
  · exact Or.inl after

/-- The converse: a thread that reached `k` has entered that many calls. -/
theorem entered_of_reached {prog : List Op} {op : Op} {k : Nat} {point : Point}
    (here : prog[k]? = some op) (reached : point.Reached k) :
    (prog.take k).count op + 1 ≤ entered prog op point := by
  rcases reached with after | ⟨rfl, inside⟩
  · have := count_take_mono prog op (show k + 1 ≤ point.pc from after)
    rw [count_take_succ, if_pos here] at this
    unfold entered
    omega
  · rw [entered_inside here inside]

/-! ## Control states and their moves -/

section Control

variable {ι τ : Type}

/-- The position of every thread of every process. -/
abbrev Control (ι τ : Type) := ι → τ → Point

/-- All threads at the first position. -/
def Control.start : Control ι τ := fun _ _ => ⟨0, false⟩

/-! ## The barrier invariant -/

/-- A thread is past a team barrier only when its whole team reached it, a leader
is past a collective only when every leader reached it, and only a leader is
inside a collective. -/
structure Synchronised (prog : List Op) (leader : τ) (control : Control ι τ) : Prop where
  team : ∀ i t t' k, prog[k]? = some .team → k < (control i t).pc → (control i t').Reached k
  job : ∀ i i' k, prog[k]? = some .job → k < (control i leader).pc →
    (control i' leader).Reached k
  solo : ∀ i t, (control i t).inside = true → prog[(control i t).pc]? = some .job → t = leader

theorem synchronised_start (prog : List Op) (leader : τ) :
    Synchronised prog leader (Control.start : Control ι τ) where
  team := by
    intro i t t' k here past
    exact absurd past (Nat.not_lt_zero k)
  job := by
    intro i i' k here past
    exact absurd past (Nat.not_lt_zero k)
  solo := by
    intro i t inside
    exact absurd inside (by simp [Control.start])

/-- A team barrier, a collective and a team barrier in a row are a barrier of the
whole job: past its end, everybody has reached its start. -/
theorem Synchronised.bracket_reached {prog : List Op} {leader : τ} {control : Control ι τ}
    (inv : Synchronised prog leader control) {k : Nat}
    (opening : prog[k]? = some .team) (collective : prog[k + 1]? = some .job)
    (closing : prog[k + 2]? = some .team) {i : ι} {t : τ} (past : k + 2 < (control i t).pc)
    (i' : ι) (t' : τ) : (control i' t').Reached k := by
  have ownLeader : k + 1 < (control i leader).pc := by
    rcases inv.team i t leader (k + 2) closing past with after | ⟨same, -⟩ <;> omega
  have otherLeader : k < (control i' leader).pc := by
    rcases inv.job i i' (k + 1) collective ownLeader with after | ⟨same, -⟩ <;> omega
  exact inv.team i' leader t' k opening otherLeader

/-! ## Moves -/

variable [DecidableEq ι] [DecidableEq τ]

/-- Move one thread. -/
def Control.set (control : Control ι τ) (i : ι) (t : τ) (point : Point) : Control ι τ :=
  Function.update control i (Function.update (control i) t point)

theorem Control.set_apply (control : Control ι τ) (i i' : ι) (t t' : τ) (point : Point) :
    control.set i t point i' t' = if i' = i ∧ t' = t then point else control i' t' := by
  unfold Control.set
  by_cases sameProc : i' = i
  · subst sameProc
    by_cases sameThread : t' = t
    · subst sameThread; simp
    · simp [sameThread]
  · simp [sameProc]

@[simp] theorem Control.set_same (control : Control ι τ) (i : ι) (t : τ) (point : Point) :
    control.set i t point i t = point := by
  simp [Control.set_apply]

/-- Whoever is past `k` after one thread moved was past it before, or is the
thread that moved. -/
private theorem pc_set_cases {control : Control ι τ} {i j : ι} {t u : τ} {point : Point} {k : Nat}
    (past : k < (control.set j u point i t).pc) :
    k < (control i t).pc ∨ (i = j ∧ t = u ∧ ¬ k < (control j u).pc ∧ k < point.pc) := by
  rw [Control.set_apply] at past
  split_ifs at past with same
  · obtain ⟨rfl, rfl⟩ := same
    by_cases before : k < (control i t).pc
    · exact Or.inl before
    · exact Or.inr ⟨rfl, rfl, before, past⟩
  · exact Or.inl past

variable [Fintype ι] [Fintype τ]
variable (prog : List Op) (leader : τ)

/-- The team barrier `(i, t)` is inside may be left: all threads of `i` have
entered as many team barriers. -/
def TeamOpen (control : Control ι τ) (i : ι) (t : τ) : Prop :=
  ∀ t', entered prog .team (control i t) ≤ entered prog .team (control i t')

/-- The collective the leader of `i` is inside may be left: all processes have
entered as many collectives. -/
def JobOpen (control : Control ι τ) (i : ι) : Prop :=
  ∀ i', entered prog .job (control i leader) ≤ entered prog .job (control i' leader)

instance (control : Control ι τ) (i : ι) (t : τ) : Decidable (TeamOpen prog control i t) := by
  unfold TeamOpen
  infer_instance

instance (control : Control ι τ) (i : ι) : Decidable (JobOpen prog leader control i) := by
  unfold JobOpen
  infer_instance

/-- The move a thread can make at a synchronising position, if there is one. -/
def syncMove (control : Control ι τ) (i : ι) (t : τ) : Option Point :=
  match prog[(control i t).pc]? with
  | some .team =>
      if (control i t).inside then
        if TeamOpen prog control i t then some (control i t).next else none
      else some (control i t).enter
  | some .job =>
      if t = leader then
        if (control i t).inside then
          if JobOpen prog leader control i then some (control i t).next else none
        else some (control i t).enter
      else some (control i t).next
  | _ => none

/-- One control step: a synchronising move, or the end of the work at a `work`
position. -/
inductive Step : Control ι τ → Control ι τ → Prop where
  | sync {control : Control ι τ} (i : ι) (t : τ) (point : Point)
      (move : syncMove prog leader control i t = some point) :
      Step control (control.set i t point)
  | work {control : Control ι τ} (i : ι) (t : τ)
      (here : prog[(control i t).pc]? = some .work) :
      Step control (control.set i t (control i t).next)

/-! ## What a move can do -/

variable {prog leader} {control : Control ι τ} {i : ι} {t : τ} {point : Point}

omit [DecidableEq ι] in
/-- All moves at a synchronising position: enter the call, leave a team barrier
everybody reached, leave a collective every leader reached, or skip a collective. -/
theorem syncMove_cases (move : syncMove prog leader control i t = some point) :
    (point = (control i t).enter ∧ (control i t).inside = false ∧
      (prog[(control i t).pc]? = some .team ∨
        (prog[(control i t).pc]? = some .job ∧ t = leader))) ∨
    (point = (control i t).next ∧ prog[(control i t).pc]? = some .team ∧
      ∀ t', (control i t').Reached (control i t).pc) ∨
    (point = (control i t).next ∧ prog[(control i t).pc]? = some .job ∧
      (t = leader → ∀ i', (control i' leader).Reached (control i t).pc)) := by
  cases here : prog[(control i t).pc]? with
  | none => simp [syncMove, here] at move
  | some op =>
      cases op with
      | work => simp [syncMove, here] at move
      | team =>
          simp only [syncMove, here] at move
          split_ifs at move with inside isOpen
          · refine Or.inr (Or.inl ⟨(Option.some.inj move).symm, rfl, fun t' => ?_⟩)
            have enough := isOpen t'
            rw [entered_inside here inside] at enough
            exact reached_of_entered enough
          · exact Or.inl ⟨(Option.some.inj move).symm, by simpa using inside, Or.inl rfl⟩
      | job =>
          simp only [syncMove, here] at move
          split_ifs at move with isLeader inside isOpen
          · refine Or.inr (Or.inr ⟨(Option.some.inj move).symm, rfl, fun _ i' => ?_⟩)
            have enough := isOpen i'
            rw [← isLeader, entered_inside here inside] at enough
            rw [← isLeader]
            exact reached_of_entered enough
          · exact Or.inl ⟨(Option.some.inj move).symm, by simpa using inside,
              Or.inr ⟨rfl, isLeader⟩⟩
          · exact Or.inr (Or.inr ⟨(Option.some.inj move).symm, rfl,
              fun same => absurd same isLeader⟩)

omit [DecidableEq ι] in
/-- Who synchronises stands at a synchronising position. -/
theorem syncMove_op (move : syncMove prog leader control i t = some point) :
    ∃ op, prog[(control i t).pc]? = some op ∧ op ≠ .work := by
  rcases syncMove_cases move with ⟨-, -, here | ⟨here, -⟩⟩ | ⟨-, here, -⟩ | ⟨-, here, -⟩
  · exact ⟨_, here, by simp⟩
  · exact ⟨_, here, by simp⟩
  · exact ⟨_, here, by simp⟩
  · exact ⟨_, here, by simp⟩

omit [DecidableEq ι] in
/-- A synchronising move does not go back. -/
theorem syncMove_pc_le (move : syncMove prog leader control i t = some point) :
    (control i t).pc ≤ point.pc := by
  rcases syncMove_cases move with ⟨rfl, -⟩ | ⟨rfl, -⟩ | ⟨rfl, -⟩
  · exact le_refl _
  · exact Nat.le_succ _
  · exact Nat.le_succ _

omit [Fintype ι] [Fintype τ] in
theorem Control.pc_le_set (le : (control i t).pc ≤ point.pc) (i' : ι) (t' : τ) :
    (control i' t').pc ≤ (control.set i t point i' t').pc := by
  rw [Control.set_apply]
  split_ifs with own
  · obtain ⟨rfl, rfl⟩ := own
    exact le
  · exact le_refl _

/-- No thread ever falls behind a position it reached. -/
theorem Step.reached_mono {before after : Control ι τ} (step : Step prog leader before after)
    {i : ι} {t : τ} {k : Nat} (reached : (before i t).Reached k) : (after i t).Reached k := by
  have keep : ∀ (j : ι) (u : τ) (point : Point),
      ((before j u).Reached k → point.Reached k) → (before.set j u point i t).Reached k := by
    intro j u point moved
    rw [Control.set_apply]
    split_ifs with same
    · obtain ⟨rfl, rfl⟩ := same
      exact moved reached
    · exact reached
  have nextReached : ∀ point : Point, point.Reached k → point.next.Reached k := by
    intro point reached
    refine Or.inl ?_
    rcases reached with after | ⟨here, -⟩ <;> simp only [Point.next] <;> omega
  cases step with
  | sync j u point move =>
      refine keep j u point fun reached => ?_
      rcases syncMove_cases move with ⟨rfl, outside, -⟩ | ⟨rfl, -⟩ | ⟨rfl, -⟩
      · rcases reached with after | ⟨-, inside⟩
        · exact Or.inl after
        · rw [outside] at inside
          exact absurd inside (by simp)
      · exact nextReached _ reached
      · exact nextReached _ reached
  | work j u here => exact keep j u _ fun reached => nextReached _ reached

theorem Synchronised.step {before after : Control ι τ} (inv : Synchronised prog leader before)
    (step : Step prog leader before after) : Synchronised prog leader after := by
  have mono : ∀ {i : ι} {t : τ} {k : Nat}, (before i t).Reached k → (after i t).Reached k :=
    fun reached => step.reached_mono reached
  refine ⟨fun i t t' k here past => ?_, fun i i' k here past => ?_, fun i t inside here => ?_⟩
  -- team: either the thread was past `k` before, or this move is the one that leaves `k`
  · cases step with
    | sync j u point move =>
        rcases pc_set_cases past with old | ⟨rfl, rfl, notOld, now⟩
        · exact mono (inv.team i t t' k here old)
        · rcases syncMove_cases move with ⟨rfl, -⟩ | ⟨rfl, -, all⟩ | ⟨rfl, other, -⟩
          · exact absurd now notOld
          · have same : k = (before i t).pc := by simp only [Point.next] at now; omega
            exact mono (same ▸ all t')
          · have same : k = (before i t).pc := by simp only [Point.next] at now; omega
            rw [← same, here] at other
            exact absurd other (by simp)
    | work j u workHere =>
        rcases pc_set_cases past with old | ⟨rfl, rfl, notOld, now⟩
        · exact mono (inv.team i t t' k here old)
        · have same : k = (before i t).pc := by simp only [Point.next] at now; omega
          rw [← same, here] at workHere
          exact absurd workHere (by simp)
  · cases step with
    | sync j u point move =>
        rcases pc_set_cases past with old | ⟨rfl, rfl, notOld, now⟩
        · exact mono (inv.job i i' k here old)
        · rcases syncMove_cases move with ⟨rfl, -⟩ | ⟨rfl, other, -⟩ | ⟨rfl, -, all⟩
          · exact absurd now notOld
          · have same : k = (before i leader).pc := by simp only [Point.next] at now; omega
            rw [← same, here] at other
            exact absurd other (by simp)
          · have same : k = (before i leader).pc := by simp only [Point.next] at now; omega
            exact mono (same ▸ all rfl i')
    | work j u workHere =>
        rcases pc_set_cases past with old | ⟨rfl, rfl, notOld, now⟩
        · exact mono (inv.job i i' k here old)
        · have same : k = (before i leader).pc := by simp only [Point.next] at now; omega
          rw [← same, here] at workHere
          exact absurd workHere (by simp)
  · cases step with
    | sync j u point move =>
        rw [Control.set_apply] at inside here
        split_ifs at inside here with same
        · obtain ⟨rfl, rfl⟩ := same
          rcases syncMove_cases move with ⟨rfl, -, call⟩ | ⟨rfl, -⟩ | ⟨rfl, -⟩
          · rcases call with team | ⟨-, isLeader⟩
            · rw [Point.enter, team] at here
              exact absurd here (by simp)
            · exact isLeader
          · exact absurd inside (by simp [Point.next])
          · exact absurd inside (by simp [Point.next])
        · exact inv.solo i t inside here
    | work j u workHere =>
        rw [Control.set_apply] at inside here
        split_ifs at inside here with same
        · exact absurd inside (by simp [Point.next])
        · exact inv.solo i t inside here

/-! ## Progress -/

omit [DecidableEq ι] in
/-- A thread before a team barrier, or the leader before a collective, can enter it. -/
theorem syncMove_enter {prog : List Op} {leader : τ} {control : Control ι τ} {i : ι} {t : τ}
    (outside : (control i t).inside = false)
    (here : prog[(control i t).pc]? = some .team ∨
      (prog[(control i t).pc]? = some .job ∧ t = leader)) :
    syncMove prog leader control i t = some (control i t).enter := by
  rcases here with here | ⟨here, rfl⟩ <;> simp [syncMove, here, outside]

omit [DecidableEq ι] in
/-- A thread inside a team barrier that everybody has reached can leave it. -/
theorem syncMove_leave_team {prog : List Op} {leader : τ} {control : Control ι τ} {i : ι} {t : τ}
    (here : prog[(control i t).pc]? = some .team) (inside : (control i t).inside = true)
    (reached : ∀ t', (control i t').Reached (control i t).pc) :
    syncMove prog leader control i t = some (control i t).next := by
  have isOpen : TeamOpen prog control i t := by
    intro t'
    rw [entered_inside here inside]
    exact entered_of_reached here (reached t')
  simp [syncMove, here, inside, isOpen]

omit [DecidableEq ι] in
/-- A leader inside a collective that every leader has reached can leave it. -/
theorem syncMove_leave_job {prog : List Op} {leader : τ} {control : Control ι τ} {i : ι}
    (here : prog[(control i leader).pc]? = some .job) (inside : (control i leader).inside = true)
    (reached : ∀ i', (control i' leader).Reached (control i leader).pc) :
    syncMove prog leader control i leader = some (control i leader).next := by
  have isOpen : JobOpen prog leader control i := by
    intro i'
    rw [entered_inside here inside]
    exact entered_of_reached here (reached i')
  simp [syncMove, here, inside, isOpen]

omit [DecidableEq ι] in
/-- A thread stays at a team barrier exactly when it is inside and somebody of its team has
not reached it. -/
theorem syncMove_eq_none_team (here : prog[(control i t).pc]? = some .team) :
    syncMove prog leader control i t = none ↔
      (control i t).inside = true ∧ ∃ t', ¬ (control i t').Reached (control i t).pc := by
  constructor
  · intro stays
    have inside : (control i t).inside = true := by
      by_contra outside
      rw [syncMove_enter (by simpa using outside) (Or.inl here)] at stays
      exact absurd stays (by simp)
    refine ⟨inside, Classical.not_forall.mp fun reached => ?_⟩
    rw [syncMove_leave_team here inside reached] at stays
    exact absurd stays (by simp)
  · rintro ⟨inside, t', late⟩
    refine Option.eq_none_iff_forall_ne_some.mpr fun point move => ?_
    rcases syncMove_cases move with ⟨-, outside, -⟩ | ⟨-, -, reached⟩ | ⟨-, other, -⟩
    · rw [inside] at outside
      exact absurd outside (by simp)
    · exact late (reached t')
    · rw [here] at other
      exact absurd other (by simp)

omit [DecidableEq ι] in
/-- Only a leader stays at a collective, exactly when it is inside and another leader has not
reached it. -/
theorem syncMove_eq_none_job (here : prog[(control i t).pc]? = some .job) :
    syncMove prog leader control i t = none ↔
      t = leader ∧ (control i t).inside = true ∧
        ∃ i', ¬ (control i' leader).Reached (control i t).pc := by
  constructor
  · intro stays
    obtain rfl : t = leader := by
      by_contra other
      simp [syncMove, here, other] at stays
    have inside : (control i t).inside = true := by
      by_contra outside
      rw [syncMove_enter (by simpa using outside) (Or.inr ⟨here, rfl⟩)] at stays
      exact absurd stays (by simp)
    refine ⟨rfl, inside, Classical.not_forall.mp fun reached => ?_⟩
    rw [syncMove_leave_job here inside reached] at stays
    exact absurd stays (by simp)
  · rintro ⟨isLeader, inside, i', late⟩
    refine Option.eq_none_iff_forall_ne_some.mpr fun point move => ?_
    rcases syncMove_cases move with ⟨-, outside, -⟩ | ⟨-, other, -⟩ | ⟨-, -, reached⟩
    · rw [inside] at outside
      exact absurd outside (by simp)
    · rw [here] at other
      exact absurd other (by simp)
    · exact late (reached isLeader i')

omit [DecidableEq ι] in
/-- Some thread is at the least position of the job. Unless the program is over
there, it can move, somebody it waits for can, or the position is work. -/
theorem exists_move_or_min [Nonempty ι] [Nonempty τ] (prog : List Op) (leader : τ)
    (control : Control ι τ) :
    (∃ i t point, syncMove prog leader control i t = some point) ∨
    (∃ i t, prog[(control i t).pc]? = some .work ∧
      ∀ i' t', (control i t).pc ≤ (control i' t').pc) ∨
    (∀ i t, prog.length ≤ (control i t).pc) := by
  obtain ⟨⟨i, t⟩, -, least⟩ :=
    Finset.exists_min_image (Finset.univ : Finset (ι × τ)) (fun it => (control it.1 it.2).pc)
      Finset.univ_nonempty
  have least : ∀ i' t', (control i t).pc ≤ (control i' t').pc :=
    fun i' t' => least (i', t') (Finset.mem_univ _)
  -- who is not before the call at the least position has reached it
  have reached : ∀ i' t', ¬ ((control i' t').pc = (control i t).pc ∧
      (control i' t').inside = false) → (control i' t').Reached (control i t).pc := by
    intro i' t' notLate
    rcases Nat.lt_or_eq_of_le (least i' t') with after | same
    · exact Or.inl after
    · exact Or.inr ⟨same.symm, by
        by_contra outside
        exact notLate ⟨same.symm, by simpa using outside⟩⟩
  have inside_of : (control i t).Reached (control i t).pc → (control i t).inside = true := by
    rintro (after | ⟨-, inside⟩)
    · omega
    · exact inside
  cases here : prog[(control i t).pc]? with
  | none =>
      refine Or.inr (Or.inr fun i' t' => ?_)
      exact (List.getElem?_eq_none_iff.mp here).trans (least i' t')
  | some op =>
      cases op with
      | work => exact Or.inr (Or.inl ⟨i, t, here, least⟩)
      | team =>
          refine Or.inl ?_
          by_cases late : ∃ t', (control i t').pc = (control i t).pc ∧ (control i t').inside = false
          · obtain ⟨t', same, outside⟩ := late
            exact ⟨i, t', _, syncMove_enter outside (Or.inl (same ▸ here))⟩
          · have all := fun t' => reached i t' fun now => late ⟨t', now⟩
            exact ⟨i, t, _, syncMove_leave_team here (inside_of (all t)) all⟩
      | job =>
          refine Or.inl ?_
          by_cases isLeader : t = leader
          · subst isLeader
            by_cases late : ∃ i', (control i' t).pc = (control i t).pc ∧
                (control i' t).inside = false
            · obtain ⟨i', same, outside⟩ := late
              exact ⟨i', t, _, syncMove_enter outside (Or.inr ⟨same ▸ here, rfl⟩)⟩
            · have all := fun i' => reached i' t fun now => late ⟨i', now⟩
              exact ⟨i, t, _, syncMove_leave_job here (inside_of (all i)) all⟩
          · exact ⟨i, t, (control i t).next, by simp [syncMove, here, isLeader]⟩

end Control

end FabricBench.Lib.Spmd
