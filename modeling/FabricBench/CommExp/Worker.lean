import FabricBench.CommExp.Phases
import FabricBench.Lib.Table

/-!
A thread inside the stretches of work of `RUN_VARY_MSG`, for all benchmarks: how
far it is in a loop or in `reset_counters` (`Local`), when it may go on
(`workDone`), and what it has done of each loop so far (`loopDone`).

The main fact is that going on to the next instruction changes no such count: a
loop is left when all its iterations are done and entered with none.
-/

namespace FabricBench

open FabricBench.Lib

variable {σ : Type}

/-- Progress inside one instruction: iterations done in a loop, or stores done in
`reset_counters`, and the position in the loop's body. -/
structure Local (σ : Type) where
  iter : Nat
  stage : σ
deriving DecidableEq, Repr

def Local.start (first : σ) : Local σ := ⟨0, first⟩

/-- The instruction has nothing left to do. `stores` is what the thread stores in
`reset_counters`, which is nothing but for thread 0. -/
def workDone (stores : Nat) (l : Local σ) : Instr → Bool
  | .loop iters _ => decide (iters ≤ l.iter)
  | .resetCounters _ => decide (stores ≤ l.iter)
  | .recordTime => true
  | .report _ => true
  | _ => false

/-- What a thread's progress can be at an instruction. -/
def LocalOk (first : σ) (stores : Nat) (instr : Option Instr) (l : Local σ) : Prop :=
  match instr with
  | some (.loop iters _) => l.iter ≤ iters ∧ (l.iter = iters → l.stage = first)
  | some (.resetCounters _) => l.iter ≤ stores ∧ l.stage = first
  | _ => l = Local.start first

theorem localOk_start (first : σ) (stores : Nat) (instr : Option Instr) :
    LocalOk first stores instr (Local.start first) := by
  unfold LocalOk Local.start
  split <;> simp

theorem op_of_workDone {stores : Nat} {l : Local σ} {instr : Instr}
    (done : workDone stores l instr = true) : instr.op = .work := by
  cases instr <;> simp_all [workDone, Instr.op]

/-- Work that is not over is a loop with iterations left or a reset with stores left. -/
theorem undone_cases {stores : Nat} {l : Local σ} {instr : Instr} (op : instr.op = .work)
    (undone : workDone stores l instr = false) :
    (∃ iters msgSize, instr = .loop iters msgSize) ∨
      ∃ syncCount, instr = .resetCounters syncCount ∧ l.iter < stores := by
  cases instr with
  | threadBarrier site => exact absurd op (by simp [Instr.op])
  | pmiBarrier => exact absurd op (by simp [Instr.op])
  | recordTime => exact absurd undone (by simp [workDone])
  | report flag => exact absurd undone (by simp [workDone])
  | resetCounters syncCount => exact Or.inr ⟨syncCount, rfl, by simpa [workDone] using undone⟩
  | loop iters msgSize => exact Or.inl ⟨iters, msgSize, rfl⟩

/-- At a synchronising call nothing is in progress. -/
theorem LocalOk.of_sync {first : σ} {stores : Nat} {instr : Instr} {l : Local σ}
    (ok : LocalOk first stores (some instr) l) (sync : instr.op ≠ .work) :
    l = Local.start first := by
  cases instr <;> simp_all [Instr.op, LocalOk]

/-- Outside of the loops a thread is not in the middle of a body. -/
theorem LocalOk.stage_eq {first : σ} {stores : Nat} {instr : Option Instr} {l : Local σ}
    (ok : LocalOk first stores instr l)
    (outside : ∀ iters msgSize, instr = some (.loop iters msgSize) → iters ≤ l.iter) :
    l.stage = first := by
  unfold LocalOk at ok
  split at ok
  · next iters msgSize =>
    exact ok.2 (by have := outside iters msgSize rfl; omega)
  · exact ok.2
  · rw [ok]
    rfl

/-- With iterations left, a thread can be anywhere in the body. -/
theorem localOk_middle {first stage : σ} {stores n iters msgSize : Nat} (more : n < iters) :
    LocalOk first stores (some (.loop iters msgSize)) ⟨n, stage⟩ :=
  ⟨more.le, fun last => absurd last more.ne⟩

/-- After the last stage of the body the next iteration starts. -/
theorem localOk_nextIter {first : σ} {stores n iters msgSize : Nat} (more : n < iters) :
    LocalOk first stores (some (.loop iters msgSize)) ⟨n + 1, first⟩ :=
  ⟨more, fun _ => rfl⟩

/-! ## Counting what is done -/

/-- What a thread at `pc` has done of loop `e`, where `inLoop` is what it has done
of the loop it is in. -/
def loopDone (params : RunParams) (pc inLoop e : Nat) : Nat :=
  if pc < 8 * e + 4 then 0 else if pc = 8 * e + 4 then inLoop else params.iters e

theorem loopDone_before (params : RunParams) {pc e : Nat} (inLoop : Nat) (before : pc < 8 * e + 4) :
    loopDone params pc inLoop e = 0 := if_pos before

theorem loopDone_at (params : RunParams) (inLoop e : Nat) :
    loopDone params (8 * e + 4) inLoop e = inLoop := by simp [loopDone]

theorem loopDone_after (params : RunParams) {pc e : Nat} (inLoop : Nat) (after : 8 * e + 4 < pc) :
    loopDone params pc inLoop e = params.iters e := by
  rw [loopDone, if_neg (by omega), if_neg (by omega)]

/-- Only the loop at `pc` depends on what is done in the current loop. -/
theorem loopDone_congr (params : RunParams) {pc e : Nat} (inLoop inLoop' : Nat)
    (different : pc ≠ 8 * e + 4) : loopDone params pc inLoop e = loopDone params pc inLoop' e := by
  simp [loopDone, different]

theorem loopDone_le {params : RunParams} {pc inLoop e : Nat}
    (le : pc = 8 * e + 4 → inLoop ≤ params.iters e) :
    loopDone params pc inLoop e ≤ params.iters e := by
  unfold loopDone
  split_ifs with before here
  · exact Nat.zero_le _
  · exact le here
  · exact le_refl _

variable {params : RunParams} {report : Bool} {pc : Nat} {instr : Instr}

theorem pc_lt_of_instr (here : (runVaryMsg params report)[pc]? = some instr) :
    pc < 8 * params.loops + 3 := by
  rw [← runVaryMsg_length params report]
  by_contra past
  rw [List.getElem?_eq_none (by omega)] at here
  exact absurd here (by simp)

/-- What stands at the position of a loop is that loop. -/
theorem instr_at_loop (here : (runVaryMsg params report)[pc]? = some instr) {e : Nat}
    (at_loop : pc = 8 * e + 4) : ∃ msgSize, instr = .loop (params.iters e) msgSize := by
  subst at_loop
  have below := pc_lt_of_instr here
  rw [loop_instr report (show e < params.loops by omega), Option.some.injEq] at here
  exact ⟨_, here.symm⟩

/-- Going on to the next instruction changes no count. -/
theorem loopDone_next {first : σ} {stores : Nat} {l : Local σ}
    (here : (runVaryMsg params report)[pc]? = some instr)
    (ok : LocalOk first stores (some instr) l)
    (done : workDone stores l instr = true ∨ instr.op ≠ .work)
    {extra : σ → Nat} (none : extra first = 0) (e : Nat) :
    loopDone params (pc + 1) 0 e = loopDone params pc (l.iter + extra l.stage) e := by
  rcases Nat.lt_trichotomy pc (8 * e + 4) with before | at_loop | after
  · rw [loopDone_before params _ before]
    rcases Nat.lt_or_ge (pc + 1) (8 * e + 4) with still | arrives
    · exact loopDone_before params _ still
    · rw [show pc + 1 = 8 * e + 4 by omega, loopDone_at]
  · obtain ⟨msgSize, rfl⟩ := instr_at_loop here at_loop
    rw [at_loop, loopDone_at, loopDone_after params _ (by omega)]
    have all : params.iters e ≤ l.iter := by simpa [workDone, Instr.op] using done
    have iter : l.iter = params.iters e := by
      have := ok.1
      omega
    rw [iter, ok.2 iter, none, Nat.add_zero]
  · rw [loopDone_after params _ after, loopDone_after params _ (by omega)]

/-! ## The body of the progress-driven benchmarks -/

/-- Where a worker is in the body of its loop. `send_thread` goes through `send`,
`wait`, `consume`, and `recv_thread` through `wait`, `consume`, `send`. -/
inductive BodyStage where
  | send
  | wait
  | consume
deriving DecidableEq, Repr

def firstStage (sends : Bool) : BodyStage := if sends then .send else .wait

/-- `isend` ends an iteration of `recv_thread`. -/
def afterSend (sends : Bool) (l : Local BodyStage) : Local BodyStage :=
  if sends then ⟨l.iter, .wait⟩ else ⟨l.iter + 1, .wait⟩

/-- `--sync` ends an iteration of `send_thread`. -/
def afterConsume (sends : Bool) (l : Local BodyStage) : Local BodyStage :=
  if sends then ⟨l.iter + 1, .send⟩ else ⟨l.iter, .send⟩

/-- One if the message of the current iteration is sent. -/
def sentExtra (sends : Bool) (stage : BodyStage) : Nat :=
  if sends && decide (stage ≠ .send) then 1 else 0

/-- One if the token of the current iteration is taken. -/
def takenExtra (sends : Bool) (stage : BodyStage) : Nat :=
  if !sends && decide (stage = .send) then 1 else 0

theorem sentExtra_first (sends : Bool) : sentExtra sends (firstStage sends) = 0 := by
  cases sends <;> rfl

theorem takenExtra_first (sends : Bool) : takenExtra sends (firstStage sends) = 0 := by
  cases sends <;> rfl

def Local.sent (sends : Bool) (l : Local BodyStage) : Nat := l.iter + sentExtra sends l.stage

def Local.taken (sends : Bool) (l : Local BodyStage) : Nat := l.iter + takenExtra sends l.stage

theorem sent_start (sends : Bool) : (Local.start (firstStage sends)).sent sends = 0 := by
  cases sends <;> rfl

theorem taken_start (sends : Bool) : (Local.start (firstStage sends)).taken sends = 0 := by
  cases sends <;> rfl

section Body

variable {sends : Bool} {l : Local BodyStage}

theorem afterSend_sent (stage : l.stage = .send) :
    (afterSend sends l).sent sends = l.sent sends + 1 := by
  cases sends <;> simp [afterSend, Local.sent, sentExtra, stage]

theorem afterSend_taken (stage : l.stage = .send) :
    (afterSend sends l).taken sends = l.taken sends := by
  cases sends <;> simp [afterSend, Local.taken, takenExtra, stage]

theorem afterConsume_sent (stage : l.stage = .consume) :
    (afterConsume sends l).sent sends = l.sent sends := by
  cases sends <;> simp [afterConsume, Local.sent, sentExtra, stage]

theorem afterConsume_taken (stage : l.stage = .consume) :
    (afterConsume sends l).taken sends = l.taken sends + 1 := by
  cases sends <;> simp [afterConsume, Local.taken, takenExtra, stage]

theorem observe_sent (stage : l.stage = .wait) :
    (Local.mk l.iter BodyStage.consume).sent sends = l.sent sends := by
  simp [Local.sent, sentExtra, stage]

theorem observe_taken (stage : l.stage = .wait) :
    (Local.mk l.iter BodyStage.consume).taken sends = l.taken sends := by
  simp [Local.taken, takenExtra, stage]

/-- With iterations left, the message at the `send` stage is one of the loop's. -/
theorem sent_lt {iters : Nat} (more : l.iter < iters) (stage : l.stage = .send) :
    l.sent sends < iters := by
  simpa [Local.sent, sentExtra, stage] using more

theorem taken_lt {iters : Nat} (more : l.iter < iters) (stage : l.stage ≠ .send) :
    l.taken sends < iters := by
  simpa [Local.taken, takenExtra, stage] using more

variable {stores iters msgSize : Nat}

theorem localOk_afterSend (more : l.iter < iters) :
    LocalOk (firstStage sends) stores (some (.loop iters msgSize)) (afterSend sends l) := by
  cases sends with
  | true => exact localOk_middle more
  | false => exact localOk_nextIter more

theorem localOk_afterConsume (more : l.iter < iters) :
    LocalOk (firstStage sends) stores (some (.loop iters msgSize)) (afterConsume sends l) := by
  cases sends with
  | true => exact localOk_nextIter more
  | false => exact localOk_middle more

end Body

end FabricBench
