import FabricBench.CommExp.Program

/-!
Where the threads of a job can be relative to each other in `RUN_VARY_MSG`.

Owns: the control program (`controlProgram`), what stands at each of its
positions, and the two facts about loops that all benchmarks rest on. Nobody is
in loop `e` before every leader is past the reset for it (`reached_of_loop`), and
no thread of a process is past loop `e` and its closing barrier while another one
of that process is still in the loop (`left_of_past`). Nobody is at the end of the
program before everybody is at its last barrier (`reached_of_end`).
-/

namespace FabricBench

open FabricBench.Lib

/-- The control flow of `RUN_VARY_MSG`. It is the same for all threads. -/
def controlProgram (params : RunParams) : List Spmd.Op :=
  (runVaryMsg params false).map Instr.op

/-- What the thread reports does not change its control flow. -/
theorem controlProgram_eq (params : RunParams) (report : Bool) :
    (runVaryMsg params report).map Instr.op = controlProgram params := by
  unfold controlProgram runVaryMsg
  rw [List.map_append, List.map_append]
  congr 1
  simp [List.map_flatMap, sizeBlock, procBarrier, Instr.op]

theorem controlProgram_getElem? (params : RunParams) (report : Bool) (pc : Nat) :
    (controlProgram params)[pc]? = ((runVaryMsg params report)[pc]?).map Instr.op := by
  rw [← controlProgram_eq params report, List.getElem?_map]

theorem controlProgram_length (params : RunParams) :
    (controlProgram params).length = 8 * params.loops + 3 := by
  rw [controlProgram, List.length_map, runVaryMsg_length]

theorem controlProgram_slot (params : RunParams) {e r : Nat} (eBelow : e < params.loops)
    (rBelow : r < 8) :
    (controlProgram params)[8 * e + r]? = some (slot params false e r).op := by
  rw [controlProgram_getElem? params false, runVaryMsg_slot params false eBelow rBelow]
  rfl

/-! ## Instructions and their positions -/

variable {params : RunParams} {report : Bool} {pc : Nat}

/-- A loop instruction stands at the loop position of some loop. -/
theorem loop_position {iters msgSize : Nat}
    (here : (runVaryMsg params report)[pc]? = some (.loop iters msgSize)) :
    ∃ e, e < params.loops ∧ pc = 8 * e + 4 ∧ iters = params.iters e := by
  rcases runVaryMsg_cases here with ⟨e, r, eBelow, rBelow, same, found⟩ | ⟨r, rBelow, -, found⟩
  · refine ⟨e, eBelow, ?_⟩
    interval_cases r <;> simp [slot] at found
    · exact ⟨same, found.1⟩
    all_goals split_ifs at found
  · interval_cases r <;> simp [procBarrier] at found

/-- A reset stands at the first position of some loop and stores its prefill. -/
theorem reset_position {syncCount : Int}
    (here : (runVaryMsg params report)[pc]? = some (.resetCounters syncCount)) :
    ∃ e, e < params.loops ∧ pc = 8 * e ∧ syncCount = params.base e := by
  rcases runVaryMsg_cases here with ⟨e, r, eBelow, rBelow, same, found⟩ | ⟨r, rBelow, -, found⟩
  · refine ⟨e, eBelow, ?_⟩
    interval_cases r <;> simp [slot] at found
    · exact ⟨same, found⟩
    all_goals split_ifs at found
  · interval_cases r <;> simp [procBarrier] at found

/-- Conversely, what stands at a loop's position. -/
theorem loop_instr (report : Bool) {e : Nat} (below : e < params.loops) :
    (runVaryMsg params report)[8 * e + 4]? =
      some (.loop (params.iters e) (params.sizes.getD (e / 2) 0)) :=
  runVaryMsg_slot params report below (by omega)

theorem reset_instr (report : Bool) {e : Nat} (below : e < params.loops) :
    (runVaryMsg params report)[8 * e]? = some (.resetCounters (params.base e)) :=
  runVaryMsg_slot params report (r := 0) below (by omega)

/-- A time is recorded behind the measured loop of some size. -/
theorem record_position (here : (runVaryMsg params report)[pc]? = some .recordTime) :
    ∃ s, s < params.sizes.length ∧ pc = 16 * s + 13 := by
  rcases runVaryMsg_cases here with ⟨e, r, eBelow, rBelow, same, found⟩ | ⟨r, rBelow, -, found⟩
  · unfold RunParams.loops at eBelow
    refine ⟨e / 2, by omega, ?_⟩
    interval_cases r <;> simp [slot] at found
    · omega
    all_goals split_ifs at found
  · interval_cases r <;> simp [procBarrier] at found

/-- The maximum is taken two positions further on. -/
theorem report_position {flag : Bool}
    (here : (runVaryMsg params report)[pc]? = some (.report flag)) :
    ∃ s, s < params.sizes.length ∧ pc = 16 * s + 15 ∧ flag = report := by
  rcases runVaryMsg_cases here with ⟨e, r, eBelow, rBelow, same, found⟩ | ⟨r, rBelow, -, found⟩
  · unfold RunParams.loops at eBelow
    refine ⟨e / 2, by omega, ?_⟩
    interval_cases r <;> simp [slot] at found
    all_goals
      split_ifs at found
    cases found
    exact ⟨by omega, rfl⟩
  · interval_cases r <;> simp [procBarrier] at found

/-- Conversely, what stands where a time is recorded. -/
theorem record_instr {s : Nat} {instr : Instr}
    (here : (runVaryMsg params report)[16 * s + 13]? = some instr) : instr = .recordTime := by
  have below := (List.getElem?_eq_some_iff.mp here).1
  rw [runVaryMsg_length] at below
  have found := runVaryMsg_slot params report (e := 2 * s + 1) (r := 5) (by omega) (by omega)
  rw [show 8 * (2 * s + 1) + 5 = 16 * s + 13 by omega, here] at found
  rw [Option.some.inj found]
  exact if_neg (by omega)

/-! ## Relative positions -/

section Relative

variable {ι τ : Type} {leader : τ} {control : Spmd.Control ι τ}

/-- Once somebody is in loop `e`, everybody has entered the `proc_barrier` before
it. -/
theorem reached_of_loop (inv : Spmd.Synchronised (controlProgram params) leader control) {e : Nat}
    (below : e < params.loops) {i : ι} {t : τ} (inLoop : 8 * e + 4 ≤ (control i t).pc)
    (i' : ι) (t' : τ) : (control i' t').Reached (8 * e + 1) :=
  inv.bracket_reached
    (controlProgram_slot params below (r := 1) (by omega))
    (controlProgram_slot params below (r := 2) (by omega))
    (controlProgram_slot params below (r := 3) (by omega))
    (show 8 * e + 1 + 2 < (control i t).pc by omega) i' t'

theorem controlProgram_tail (params : RunParams) (r : Nat) :
    (controlProgram params)[8 * params.loops + r]? = (procBarrier[r]?).map Instr.op := by
  rw [controlProgram_getElem? params false, runVaryMsg_tail]

/-- Once somebody is at the end of the program, everybody is at the closing barrier. -/
theorem reached_of_end (inv : Spmd.Synchronised (controlProgram params) leader control) {i : ι}
    {t : τ} (ended : 8 * params.loops + 3 ≤ (control i t).pc) (i' : ι) (t' : τ) :
    8 * params.loops ≤ (control i' t').pc := by
  have reached := inv.bracket_reached (controlProgram_tail params 0) (controlProgram_tail params 1)
    (controlProgram_tail params 2) (show 8 * params.loops + 2 < (control i t).pc by omega) i' t'
  rcases reached with after | ⟨same, -⟩ <;> omega

/-- From there on the threads only synchronise, and the last ones can do so. -/
theorem exists_sync_of_end [DecidableEq τ] [Fintype ι] [Fintype τ]
    (inv : Spmd.Synchronised (controlProgram params) leader control) {i i' : ι} {t t' : τ}
    (ended : 8 * params.loops + 3 ≤ (control i t).pc)
    (unfinished : (control i' t').pc < 8 * params.loops + 3) :
    ∃ j u point, Spmd.syncMove (controlProgram params) leader control j u = some point := by
  have : Nonempty ι := ⟨i⟩
  have : Nonempty τ := ⟨t⟩
  rcases Spmd.exists_move_or_min (controlProgram params) leader control with
    move | ⟨j, u, work, -⟩ | finished
  · exact move
  · -- no work is left behind the last loop
    have past := reached_of_end inv ended j u
    obtain ⟨r, same⟩ := Nat.exists_eq_add_of_le past
    rw [same, controlProgram_tail] at work
    rcases r with _ | _ | _ | r <;> simp [procBarrier, Instr.op] at work
  · have length := finished i' t'
    rw [controlProgram_length] at length
    omega

/-- The barrier behind loop `e`: the first of a `proc_barrier` behind a warm-up
loop, a bare one behind a measured loop. -/
theorem exists_closing_barrier (params : RunParams) {e : Nat} (below : e < params.loops) :
    ∃ k, 8 * e + 5 ≤ k ∧ k ≤ 8 * e + 6 ∧ (controlProgram params)[k]? = some .team := by
  rcases Nat.mod_two_eq_zero_or_one e with even | odd
  · refine ⟨8 * e + 5, by omega, by omega, ?_⟩
    rw [controlProgram_slot params below (by omega)]
    simp [slot, even, Instr.op]
  · refine ⟨8 * e + 6, by omega, by omega, ?_⟩
    rw [controlProgram_slot params below (by omega)]
    simp [slot, odd, Instr.op]

/-- Once a thread is past the barrier behind loop `e`, all threads of its process
are through with the loop. -/
theorem left_of_past (inv : Spmd.Synchronised (controlProgram params) leader control) {e : Nat}
    (below : e < params.loops) {i : ι} {t : τ} (past : 8 * e + 7 ≤ (control i t).pc) (t' : τ) :
    8 * e + 5 ≤ (control i t').pc := by
  obtain ⟨k, low, high, here⟩ := exists_closing_barrier params below
  rcases inv.team i t t' k here (by omega) with after | ⟨same, -⟩ <;> omega

/-- While a thread is in loop `e`, its leader is past the reset for the loop and
has not begun another one. -/
theorem leader_of_loop (inv : Spmd.Synchronised (controlProgram params) leader control) {e : Nat}
    (below : e < params.loops) {i : ι} {t : τ} (inLoop : (control i t).pc = 8 * e + 4) :
    8 * e + 1 ≤ (control i leader).pc ∧ (control i leader).pc ≤ 8 * e + 6 := by
  constructor
  · rcases reached_of_loop inv below (by omega : 8 * e + 4 ≤ (control i t).pc) i leader
      with after | ⟨same, -⟩ <;> omega
  · by_contra past
    have := left_of_past inv below (by omega : 8 * e + 7 ≤ (control i leader).pc) t
    omega

/-- While a thread takes the maximum for size `s`, all threads of its process have recorded
their times for it, and none is past the barrier of the next reset. -/
theorem around_report (inv : Spmd.Synchronised (controlProgram params) leader control) {s : Nat}
    (below : s < params.sizes.length) {i : ι} {t : τ} (here : (control i t).pc = 16 * s + 15)
    (u : τ) :
    16 * s + 14 ≤ (control i u).pc ∧ (control i u).pc ≤ 16 * s + 17 := by
  have loops : params.loops = 2 * params.sizes.length := rfl
  constructor
  · have bare : (controlProgram params)[16 * s + 14]? = some .team := by
      have found := controlProgram_slot params (e := 2 * s + 1) (r := 6) (by omega) (by omega)
      rw [show 8 * (2 * s + 1) + 6 = 16 * s + 14 by omega] at found
      rw [found]
      simp [slot, Instr.op, Nat.add_mod]
    rcases inv.team i t u _ bare (by omega) with after | ⟨same, -⟩
    · omega
    · omega
  · by_contra far
    by_cases another : s + 1 < params.sizes.length
    · have entry := controlProgram_slot params (e := 2 * s + 2) (r := 1) (by omega) (by omega)
      rcases inv.team i u t _ entry (by omega) with after | ⟨same, -⟩
      · omega
      · omega
    · have entry : (controlProgram params)[8 * params.loops + 0]? = some .team :=
        controlProgram_tail params 0
      rcases inv.team i u t _ entry (by omega) with after | ⟨same, -⟩
      · omega
      · omega

end Relative

end FabricBench
