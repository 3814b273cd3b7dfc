import FabricBench.CommExp.Phases
import FabricBench.Lib.Machine

/-!
`proc_barrier` as a barrier of the whole job: the calls a thread has entered and
returned from are read off its position, and no thread returns from a call that
another one has not entered.
-/

namespace FabricBench

open FabricBench.Lib

/-- The calls of `thread_barrier`, `proc_barrier` and `pmi_barrier` in a program,
in order. -/
def barrierCalls (code : List Instr) : List Instr :=
  code.filter fun instr => instr.op ≠ .work

/-- How many `proc_barrier` calls the thread has entered. -/
def procEntered (code : List Instr) (point : Spmd.Point) : Nat :=
  (code.take point.pc).count (.threadBarrier .procEntry) +
    if point.inside = true ∧ code[point.pc]? = some (.threadBarrier .procEntry) then 1 else 0

/-- How many `proc_barrier` calls the thread has returned from. -/
def procReturned (code : List Instr) (point : Spmd.Point) : Nat :=
  (code.take point.pc).count (.threadBarrier .procExit)

/-- The thread is inside `pmi_barrier`. -/
def InsidePmi (code : List Instr) (point : Spmd.Point) : Prop :=
  point.inside = true ∧ code[point.pc]? = some .pmiBarrier

instance (code : List Instr) (point : Spmd.Point) : Decidable (InsidePmi code point) := by
  unfold InsidePmi
  infer_instance

/-! ## Entries and exits -/

/-- The two positions behind the last one of a loop begin the next loop or the
closing barrier, so there is no exit. -/
private theorem next_not_exit (params : RunParams) (report : Bool) {e r : Nat}
    (eBelow : e < params.loops) (rBelow : r < 2) :
    (runVaryMsg params report)[8 * (e + 1) + r]? ≠ some (.threadBarrier .procExit) := by
  by_cases another : e + 1 < params.loops
  · rw [runVaryMsg_slot params report another (by omega)]
    interval_cases r <;> simp [slot]
  · rw [show e + 1 = params.loops by omega, runVaryMsg_tail]
    interval_cases r <;> simp [procBarrier]

/-- The exit of a `proc_barrier` stands two behind its entry, and there is no
other exit. -/
theorem exit_iff_entry (params : RunParams) (report : Bool) (k : Nat) :
    (runVaryMsg params report)[k + 2]? = some (.threadBarrier .procExit) ↔
      (runVaryMsg params report)[k]? = some (.threadBarrier .procEntry) := by
  by_cases inLoops : k < 8 * params.loops
  · obtain ⟨e, r, rBelow, rfl⟩ : ∃ e r, r < 8 ∧ k = 8 * e + r :=
      ⟨k / 8, k % 8, by omega, by omega⟩
    have eBelow : e < params.loops := by omega
    rw [runVaryMsg_slot params report eBelow rBelow]
    by_cases inside : r < 6
    · rw [Nat.add_assoc, runVaryMsg_slot params report eBelow (show r + 2 < 8 by omega)]
      interval_cases r <;> simp [slot] <;> split_ifs <;> simp
    · have notExit := next_not_exit params report eBelow (show r - 6 < 2 by omega)
      rw [show 8 * (e + 1) + (r - 6) = 8 * e + r + 2 by omega] at notExit
      constructor
      · exact fun found => absurd found notExit
      · have : r = 6 ∨ r = 7 := by omega
        rcases this with rfl | rfl <;> simp [slot] <;> split_ifs <;> simp
  · obtain ⟨r, rfl⟩ : ∃ r, k = 8 * params.loops + r := ⟨k - 8 * params.loops, by omega⟩
    rw [Nat.add_assoc, runVaryMsg_tail, runVaryMsg_tail]
    rcases r with _ | _ | _ | r
    all_goals simp [procBarrier]

/-- The first two entries of a program are not exits. -/
theorem not_exit_of_lt_two (params : RunParams) (report : Bool) {k : Nat} (below : k < 2) :
    (runVaryMsg params report)[k]? ≠ some (.threadBarrier .procExit) := by
  by_cases some : 0 < params.loops
  · have found := runVaryMsg_slot params report (e := 0) some (show k < 8 by omega)
    rw [Nat.mul_zero, Nat.zero_add] at found
    rw [found]
    interval_cases k <;> simp [slot]
  · have found := runVaryMsg_tail params report k
    rw [show params.loops = 0 by omega, Nat.mul_zero, Nat.zero_add] at found
    rw [found]
    interval_cases k <;> simp [procBarrier]

/-- Exits before `n + 2` are as many as entries before `n`. -/
theorem count_exit_eq (params : RunParams) (report : Bool) (n : Nat) :
    ((runVaryMsg params report).take (n + 2)).count (.threadBarrier .procExit) =
      ((runVaryMsg params report).take n).count (.threadBarrier .procEntry) := by
  induction n with
  | zero =>
      rw [Spmd.count_take_succ, Spmd.count_take_succ,
        if_neg (not_exit_of_lt_two params report (by omega)),
        if_neg (not_exit_of_lt_two params report (by omega))]
      simp
  | succ n inductionHypothesis =>
      rw [show n + 1 + 2 = n + 2 + 1 by omega, Spmd.count_take_succ, inductionHypothesis,
        Spmd.count_take_succ]
      simp only [exit_iff_entry]

/-- If entries lie before `n`, the last one of them has as many at or before it. -/
theorem exists_last_entry (code : List Instr) (instr : Instr) (n : Nat)
    (positive : 0 < (code.take n).count instr) :
    ∃ k, k < n ∧ code[k]? = some instr ∧
      (code.take n).count instr = (code.take k).count instr + 1 := by
  induction n with
  | zero => simp at positive
  | succ n inductionHypothesis =>
      rw [Spmd.count_take_succ] at positive ⊢
      by_cases here : code[n]? = some instr
      · exact ⟨n, by omega, here, by simp [here]⟩
      · simp only [here, if_false, Nat.add_zero] at positive ⊢
        obtain ⟨k, below, found, count⟩ := inductionHypothesis positive
        exact ⟨k, by omega, found, count⟩

theorem procEntered_of_reached {code : List Instr} {point : Spmd.Point} {k : Nat}
    (here : code[k]? = some (.threadBarrier .procEntry)) (reached : point.Reached k) :
    (code.take k).count (.threadBarrier .procEntry) + 1 ≤ procEntered code point := by
  unfold procEntered
  rcases reached with after | ⟨rfl, inside⟩
  · have mono : (code.take (k + 1)).count (.threadBarrier .procEntry) ≤
        (code.take point.pc).count (.threadBarrier .procEntry) :=
      ((List.take_prefix_take_left after).sublist).count_le _
    rw [Spmd.count_take_succ, if_pos here] at mono
    omega
  · simp [inside, here]

/-! ## The barrier -/

/-- Every `proc_barrier` consists of a team barrier, a collective and a team
barrier of the control program. -/
theorem entry_bracket (params : RunParams) (report : Bool) {k : Nat}
    (here : (runVaryMsg params report)[k]? = some (.threadBarrier .procEntry)) :
    (controlProgram params)[k]? = some .team ∧ (controlProgram params)[k + 1]? = some .job ∧
      (controlProgram params)[k + 2]? = some .team := by
  have exit := (exit_iff_entry params report k).mpr here
  have collective : (runVaryMsg params report)[k + 1]? = some .pmiBarrier := by
    rcases runVaryMsg_cases here with ⟨e, r, eBelow, rBelow, rfl, found⟩ | ⟨r, rBelow, rfl, found⟩
    · have next : r < 7 := by
        by_contra last
        obtain rfl : r = 7 := by omega
        rcases Nat.mod_two_eq_zero_or_one e with even | odd
        · simp [slot, even] at found
        · simp [slot, odd] at found
      rw [Nat.add_assoc, runVaryMsg_slot params report eBelow (by omega)]
      rcases Nat.mod_two_eq_zero_or_one e with even | odd
      · interval_cases r <;> simp [slot, even] at found ⊢
      · interval_cases r <;> simp [slot, odd] at found ⊢
    · rw [Nat.add_assoc, runVaryMsg_tail]
      interval_cases r <;> simp [procBarrier] at found ⊢
  simp [controlProgram_getElem? params report, here, collective, exit, Instr.op]

/-- What a thread reports does not move its team barriers. -/
theorem threadBarrier_iff (params : RunParams) (report report' : Bool) (site : Site) (k : Nat) :
    (runVaryMsg params report)[k]? = some (.threadBarrier site) ↔
      (runVaryMsg params report')[k]? = some (.threadBarrier site) := by
  have erase : ∀ flag, (runVaryMsg params flag).map (fun instr =>
      match instr with
      | .report _ => .report false
      | other => other) = runVaryMsg params false := by
    intro flag
    simp [runVaryMsg, List.map_flatMap, sizeBlock, procBarrier]
    rfl
  have found : ∀ flag, (runVaryMsg params flag)[k]? = some (.threadBarrier site) ↔
      (runVaryMsg params false)[k]? = some (.threadBarrier site) := by
    intro flag
    rw [← erase flag, List.getElem?_map]
    cases (runVaryMsg params flag)[k]? with
    | none => simp
    | some instr => cases instr <;> simp
  rw [found report, found report']

private theorem count_take_congr {code code' : List Instr} {instr : Instr}
    (same : ∀ k : Nat, code[k]? = some instr ↔ code'[k]? = some instr) (n : Nat) :
    (code.take n).count instr = (code'.take n).count instr := by
  induction n with
  | zero => simp
  | succ n inductionHypothesis =>
      rw [Spmd.count_take_succ, Spmd.count_take_succ, inductionHypothesis]
      simp only [same n]

theorem procReturned_le_procEntered {ι τ : Type} {leader : τ} {control : Spmd.Control ι τ}
    (params : RunParams) (report report' : Bool)
    (inv : Spmd.Synchronised (controlProgram params) leader control) (i i' : ι) (t t' : τ) :
    procReturned (runVaryMsg params report) (control i t) ≤
      procEntered (runVaryMsg params report') (control i' t') := by
  by_cases none : procReturned (runVaryMsg params report) (control i t) = 0
  · omega
  obtain ⟨n, pc⟩ : ∃ n, (control i t).pc = n + 2 := by
    refine ⟨(control i t).pc - 2, ?_⟩
    by_contra early
    apply none
    have few : (control i t).pc < 2 := by omega
    unfold procReturned
    interval_cases (control i t).pc
    · simp
    · rw [Spmd.count_take_succ, if_neg (not_exit_of_lt_two params report (by omega))]
      simp
  have returned : procReturned (runVaryMsg params report) (control i t) =
      ((runVaryMsg params report').take n).count (.threadBarrier .procEntry) := by
    rw [procReturned, pc, count_exit_eq]
    exact count_take_congr (threadBarrier_iff params report report' .procEntry) n
  -- the last entry the first thread has left behind was reached by everybody
  obtain ⟨k, below, here, count⟩ := exists_last_entry (runVaryMsg params report')
    (.threadBarrier .procEntry) n (by omega)
  obtain ⟨opening, collective, closing⟩ := entry_bracket params report' here
  have reached := inv.bracket_reached opening collective closing
    (show k + 2 < (control i t).pc by omega) i' t'
  rw [returned, count]
  exact procEntered_of_reached here reached

/-- The control states `RUN_VARY_MSG` reaches with `procs` processes of
`extra + 1` threads each, all starting at its first call. -/
def ControlReachable (params : RunParams) (procs extra : Nat)
    (control : Spmd.Control (Fin procs) (Fin (extra + 1))) : Prop :=
  Relation.ReflTransGen (Spmd.Step (controlProgram params) 0) Spmd.Control.start control

theorem ControlReachable.synchronised {params : RunParams} {procs extra : Nat}
    {control : Spmd.Control (Fin procs) (Fin (extra + 1))}
    (reachable : ControlReachable params procs extra control) :
    Spmd.Synchronised (controlProgram params) 0 control := by
  induction reachable with
  | refl => exact Spmd.synchronised_start _ _
  | tail _ step inductionHypothesis => exact inductionHypothesis.step step

/-- **`proc_barrier` is a barrier of the job.** In every reachable state nobody has
returned from more `proc_barrier` calls than anybody has entered, at most one
thread of a process is inside `pmi_barrier`, and all threads make the same calls
in the same order. -/
theorem procBarrier_job_wide (params : RunParams) (procs extra : Nat)
    (control : Spmd.Control (Fin procs) (Fin (extra + 1)))
    (reachable : ControlReachable params procs extra control) :
    (∀ (i i' : Fin procs) (t t' : Fin (extra + 1)),
      procReturned (threadCode params i t) (control i t) ≤
        procEntered (threadCode params i' t') (control i' t')) ∧
    (∀ (i : Fin procs) (t t' : Fin (extra + 1)),
      InsidePmi (threadCode params i t) (control i t) →
        InsidePmi (threadCode params i t') (control i t') → t = t') ∧
    (∀ rank threadId rank' threadId', barrierCalls (threadCode params rank threadId) =
      barrierCalls (threadCode params rank' threadId')) := by
  have inv := reachable.synchronised
  have solo : ∀ (i : Fin procs) (t : Fin (extra + 1)),
      InsidePmi (threadCode params i t) (control i t) → t = 0 := by
    intro i t inside
    apply inv.solo i t inside.1
    rw [controlProgram_getElem? params (decide (i.val = 0 ∧ t.val = 0))]
    exact congrArg (Option.map Instr.op) inside.2
  refine ⟨fun i i' t t' => ?_, fun i t t' inside inside' => ?_,
    fun rank threadId rank' threadId' => ?_⟩
  · exact procReturned_le_procEntered params _ _ inv i i' t t'
  · rw [solo i t inside, solo i t' inside']
  · simp [barrierCalls, threadCode, runVaryMsg, List.filter_flatMap, sizeBlock, procBarrier,
      Instr.op]

/-! ## Runs -/

/-- Let a thread go on, if it can. -/
def controlStep (params : RunParams) {procs extra : Nat}
    (control : Spmd.Control (Fin procs) (Fin (extra + 1))) (thread : Fin procs × Fin (extra + 1)) :
    Option (Spmd.Control (Fin procs) (Fin (extra + 1))) :=
  if (controlProgram params)[(control thread.1 thread.2).pc]? = some .work then
    some (control.set thread.1 thread.2 (control thread.1 thread.2).next)
  else
    (Spmd.syncMove (controlProgram params) 0 control thread.1 thread.2).map
      (control.set thread.1 thread.2)

theorem reachable_of_threads {params : RunParams} {procs extra : Nat}
    {control : Spmd.Control (Fin procs) (Fin (extra + 1))}
    (threads : List (Fin procs × Fin (extra + 1)))
    (taken : Machine.runActions (controlStep params) Spmd.Control.start threads = some control) :
    ControlReachable params procs extra control := by
  refine Machine.Run.invariant (Machine.run_of_actions threads taken)
    (Relation.ReflTransGen.refl : ControlReachable params procs extra _) ?_
  rintro before after reachable ⟨⟨i, t⟩, taken⟩
  unfold controlStep at taken
  split_ifs at taken with work
  · obtain rfl := Option.some.inj taken
    exact reachable.tail (.work i t work)
  · obtain ⟨point, move, rfl⟩ := Option.map_eq_some_iff.mp taken
    exact reachable.tail (.sync i t point move)

/-- The parameters that the benchmarks are built with, and one size. -/
def shippedParams : RunParams := ⟨1, 10000, 450000, [8]⟩

/-- Two processes with two threads each come to the first `proc_barrier`. Thread 1 of process
0 is the first to return from it; thread 0 of process 1 is still inside `pmi_barrier`. -/
def barrierRun : List (Fin 2 × Fin 2) :=
  let arrive (i : Fin 2) : List (Fin 2 × Fin 2) :=
    [(i, 0), (i, 1), (i, 0), (i, 1), (i, 0), (i, 1), (i, 0)]
  arrive 0 ++ [(0, 1), (0, 1)] ++ arrive 1 ++ [(0, 0), (0, 0), (0, 1)]

/-- Then everybody has entered it, and nobody else of process 1 is inside `pmi_barrier`. -/
theorem procBarrier_job_wide_two_teams :
    ∃ control, ControlReachable shippedParams 2 1 control ∧
      procReturned (threadCode shippedParams 0 1) (control 0 1) = 1 ∧
      procReturned (threadCode shippedParams 0 0) (control 0 0) = 0 ∧
      (∀ i t, 1 ≤ procEntered (threadCode shippedParams i.val t.val) (control i t)) ∧
      InsidePmi (threadCode shippedParams 1 0) (control 1 0) ∧
      ∀ t : Fin 2, InsidePmi (threadCode shippedParams 1 t.val) (control 1 t) → t = 0 := by
  obtain ⟨control, taken, first, second, inside⟩ : ∃ control,
      Machine.runActions (controlStep shippedParams) Spmd.Control.start barrierRun = some control ∧
        procReturned (threadCode shippedParams 0 1) (control 0 1) = 1 ∧
        procReturned (threadCode shippedParams 0 0) (control 0 0) = 0 ∧
        InsidePmi (threadCode shippedParams 1 0) (control 1 0) :=
    Machine.exists_of_runActions (by decide +kernel)
  have reachable := reachable_of_threads barrierRun taken
  obtain ⟨entered, alone, -⟩ := procBarrier_job_wide shippedParams 2 1 control reachable
  refine ⟨control, reachable, first, second, fun i t => ?_, inside, fun t other => ?_⟩
  · exact first.symm.le.trans (entered 0 i 1 t)
  · exact alone 1 t 0 other inside

end FabricBench
