import FabricBench.CommExp.Lockstep

/-!
Who waits in an exchange, for any benchmark whose loop body is one: two partners never
wait for each other, and a thread never waits for a partner that has left its loop.

Owns: `Exchange.Waits`, the stages at which a thread has sent what it sends before it
takes, and the main fact `held_or_finished`: if no thread can synchronise and whoever is in
a loop waits there with nothing pending, all threads are at the end of their programs or
somebody is held up outside of the loops. Between two loops nothing is pending
(`pending_between`).
-/

namespace FabricBench

open FabricBench.Lib

variable {ι τ σ : Type} {job : Job ι τ σ} {ex : Exchange ι σ} {team : Team ι τ σ}
  {pending : ι → τ → Int} {i : ι} {t : τ} {e : Nat}

/-- The thread has taken nothing in this iteration and sent what it sends before it takes. -/
structure Exchange.Waits (ex : Exchange ι σ) (i : ι) (stage : σ) : Prop where
  taken : ex.takenExtra i stage = 0
  sent : ex.sentExtra i stage = if ex.pings i then 1 else 0

/-- The thread is in loop `e` with iterations left, waits there, and nothing is pending for
it. -/
structure WaitsIn (job : Job ι τ σ) (ex : Exchange ι σ) (team : Team ι τ σ) (pending : ι → τ → Int)
    (e : Nat) (i : ι) (t : τ) : Prop where
  below : e < job.params.loops
  pc : (team.control i t).pc = 8 * e + 4
  more : (team.loc i t).iter < job.params.iters e
  waits : ex.Waits i (team.loc i t).stage
  nothing : pending i t ≤ 0

/-- In loop `e` a thread has taken its iterations of this loop and all earlier ones. -/
theorem WaitsIn.count_taken (waiting : WaitsIn job ex team pending e i t) :
    team.count job ex.takenExtra i t =
      rounds job.params (8 * e + 4) 0 + (team.loc i t).iter := by
  rw [Team.count, waiting.waits.taken, waiting.pc, rounds_loop job.params waiting.below]
  rfl

theorem WaitsIn.count_sent (waiting : WaitsIn job ex team pending e i t) :
    team.count job ex.sentExtra i t = rounds job.params (8 * e + 4) 0 + (team.loc i t).iter +
      if ex.pings i then 1 else 0 := by
  rw [Team.count, waiting.waits.sent, waiting.pc, rounds_loop job.params waiting.below]

/-- All iterations of the loops before `e`, as someone in loop `e` counts them. -/
theorem rounds_at_le (params : RunParams) (below : e ≤ params.loops) :
    rounds params (8 * e + 4) 0 ≤ ∑ e' ∈ Finset.range e, params.iters e' := by
  have only : rounds params (8 * e + 4) 0 =
      ∑ e' ∈ Finset.range e, loopDone params (8 * e + 4) 0 e' := by
    symm
    refine Finset.sum_subset (Finset.range_mono below) fun e' _ later => ?_
    rw [Finset.mem_range] at later
    rcases Nat.eq_or_lt_of_le (Nat.le_of_not_lt later) with rfl | past
    · exact loopDone_at params 0 e
    · exact loopDone_before params 0 (by omega)
  rw [only]
  refine Finset.sum_le_sum fun e' member => ?_
  rw [loopDone_after params 0 (by have := Finset.mem_range.mp member; omega)]

/-- The partner of a waiting thread has not left the loop: it would have sent a message for
every iteration. -/
theorem Balanced.partner_in_loop (balanced : Balanced job ex team pending)
    (waiting : WaitsIn job ex team pending e i t)
    (least : 8 * e + 4 ≤ (team.control (ex.partner i) t).pc) :
    (team.control (ex.partner i) t).pc = 8 * e + 4 := by
  by_contra elsewhere
  have sentAll : ∑ e' ∈ Finset.range (e + 1), job.params.iters e' ≤
      team.count job ex.sentExtra (ex.partner i) t :=
    (le_rounds _ waiting.below fun e' earlier => by omega).trans (Nat.le_add_right _ _)
  have earlier := rounds_at_le job.params waiting.below.le
  have equal := balanced i t
  have nothing := waiting.nothing
  have more := waiting.more
  rw [waiting.count_taken] at equal
  rw [Finset.sum_range_succ] at sentAll
  omega

/-- Two partners do not wait for each other: one of them has answered the other. -/
theorem Balanced.not_both_wait (balanced : Balanced job ex team pending)
    (own : WaitsIn job ex team pending e i t)
    (partners : WaitsIn job ex team pending e (ex.partner i) t) : False := by
  have toOwn := balanced i t
  have toPartner := balanced (ex.partner i) t
  have ownNothing := own.nothing
  have partnerNothing := partners.nothing
  rw [ex.partner_partner, own.count_sent, partners.count_taken] at toPartner
  rw [own.count_taken, partners.count_sent, ex.pings_partner] at toOwn
  cases role : ex.pings i with
  | true =>
      rw [role] at toOwn toPartner
      simp only [Bool.not_true, Bool.false_eq_true, if_false, if_true] at toOwn toPartner
      omega
  | false =>
      rw [role] at toOwn toPartner
      simp only [Bool.not_false, Bool.false_eq_true, if_false, if_true] at toOwn toPartner
      omega

/-- Where nobody in a loop can go on, the partner of a waiting thread is behind it. -/
theorem Balanced.partner_behind (balanced : Balanced job ex team pending)
    (waits : ∀ i t e, e < job.params.loops → (team.control i t).pc = 8 * e + 4 →
      WaitsIn job ex team pending e i t)
    (own : WaitsIn job ex team pending e i t) :
    (team.control (ex.partner i) t).pc < 8 * e + 4 := by
  by_contra ahead
  have inLoop := balanced.partner_in_loop own (Nat.le_of_not_lt ahead)
  exact balanced.not_both_wait own (waits (ex.partner i) t e own.below inLoop)

/-- If no thread can synchronise and whoever is in a loop waits there, all threads are at the
end of their programs, or one of those furthest behind is at work outside of the loops. -/
theorem Balanced.held_or_finished [DecidableEq τ] [Fintype ι] [Fintype τ]
    (balanced : Balanced job ex team pending)
    (stays : ∀ i t, Spmd.syncMove (controlProgram job.params) job.leader team.control i t = none)
    (waits : ∀ i t e, e < job.params.loops → (team.control i t).pc = 8 * e + 4 →
      WaitsIn job ex team pending e i t) :
    (∃ i t instr, team.instr job i t = some instr ∧ instr.op = .work ∧
        (∀ iters msgSize, instr ≠ .loop iters msgSize) ∧
        ∀ i' t', (team.control i t).pc ≤ (team.control i' t').pc) ∨
      ∀ i t, (controlProgram job.params).length ≤ (team.control i t).pc := by
  by_cases someone : Nonempty ι ∧ Nonempty τ
  · obtain ⟨_, _⟩ := someone
    rcases Spmd.exists_move_or_min (controlProgram job.params) job.leader team.control with
      ⟨i, t, point, move⟩ | ⟨i, t, work, least⟩ | finished
    · rw [stays i t] at move
      exact absurd move (by simp)
    · obtain ⟨instr, here, op⟩ := Team.instr_of_op work
      refine Or.inl ⟨i, t, instr, here, op, ?_, least⟩
      rintro iters msgSize rfl
      -- who is in a loop has its partner behind it
      obtain ⟨e, below, inLoop, -⟩ := loop_position here
      have behind := balanced.partner_behind waits (waits i t e below inLoop)
      have ahead := least (ex.partner i) t
      omega
    · exact Or.inr finished
  · exact Or.inr fun i t => absurd ⟨⟨i⟩, ⟨t⟩⟩ someone

/-! ## The end -/

/-- A thread at the end of its program has nothing in progress. -/
theorem Team.Ok.loc_end (ok : team.Ok job)
    (past : (controlProgram job.params).length ≤ (team.control i t).pc) :
    team.loc i t = Local.start (job.first i) := by
  have own := ok.loc i t
  have ended : team.instr job i t = none := by
    rw [controlProgram_length] at past
    rw [Team.instr, List.getElem?_eq_none (by rw [runVaryMsg_length]; exact past)]
  rw [ended] at own
  exact own

/-- Between two loops nothing is pending: all threads are behind the loops before `e` and in
front of loop `e`. -/
theorem Balanced.pending_between (balanced : Balanced job ex team pending) (fresh : ex.Fresh job)
    (ok : team.Ok job) (below : e ≤ job.params.loops)
    (behind : ∀ i t e', e' < e → 8 * e' + 4 < (team.control i t).pc)
    (before : ∀ i t, (team.control i t).pc < 8 * e + 4) (i : ι) (t : τ) : pending i t = 0 := by
  have done : ∀ (extra : ι → σ → Nat), (∀ i, extra i (job.first i) = 0) →
      (∀ i stage, extra i stage ≤ 1) → ∀ i,
        team.count job extra i t = ∑ e' ∈ Finset.range e, job.params.iters e' := by
    intro extra none few i
    have most := ok.count_le none few below (before i t)
    have least := le_rounds (team.loc i t).iter below (behind i t)
    unfold Team.count at most ⊢
    omega
  have equal := balanced i t
  rw [done _ fresh.taken ex.takenExtra_le, done _ fresh.sent ex.sentExtra_le] at equal
  omega

/-- When all threads are at the end, nothing is pending. -/
theorem Balanced.pending_end (balanced : Balanced job ex team pending) (fresh : ex.Fresh job)
    (ok : team.Ok job)
    (past : ∀ i t, (controlProgram job.params).length ≤ (team.control i t).pc) (i : ι) (t : τ) :
    pending i t = 0 := by
  refine balanced.pending_between fresh ok (le_refl _) (fun i t e' earlier => ?_)
    (fun i t => ?_) i t
  · have ended := past i t
    rw [controlProgram_length] at ended
    omega
  · have bound := ok.bounded i t
    omega

end FabricBench
