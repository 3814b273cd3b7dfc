import FabricBench.Lib.Spmd
import Mathlib.Tactic.IntervalCases

/-!
`RUN_VARY_MSG` of `include/comm_exp.hpp` as the list of what a thread does, one
entry per synchronising call or stretch of work, with `thread_barrier` and
`proc_barrier` of `include/thread_utils.hpp` spelled out.

The list has a period of sixteen per message size, and of eight per loop: entry
`8 * e` is the reset before loop `e`, entry `8 * e + 4` the loop itself. Even
loops are warm-up loops, odd ones are measured. `runVaryMsg_slot` is this view,
which every proof about positions uses.
-/

namespace FabricBench

open FabricBench.Lib

/-- Which call a team barrier belongs to: a bare `thread_barrier`, or the first or
the second one of a `proc_barrier`. -/
inductive Site where
  | bare
  | procEntry
  | procExit
deriving DecidableEq, Repr

/-- What a thread does in `RUN_VARY_MSG`. `pmiBarrier` and the body of
`resetCounters` are for thread 0 only. -/
inductive Instr where
  | resetCounters (syncCount : Int)
  | threadBarrier (site : Site)
  | pmiBarrier
  | loop (iters msgSize : Nat)
  | recordTime
  | report (flag : Bool)
deriving DecidableEq, Repr

/-- The control-flow kind of an entry. -/
def Instr.op : Instr → Spmd.Op
  | .threadBarrier _ => .team
  | .pmiBarrier => .job
  | _ => .work

/-- `proc_barrier`: `pmi_barrier` by thread 0 between two team barriers. -/
def procBarrier : List Instr :=
  [.threadBarrier .procEntry, .pmiBarrier, .threadBarrier .procExit]

/-- What `RUN_VARY_MSG` runs with: `prefilled_work`, the two iteration counts (all
callers pass `iter = {0, 1}`) and the sizes the range gives. -/
structure RunParams where
  prefilledWork : Nat
  skip : Nat
  loop : Nat
  sizes : List Nat
deriving DecidableEq, Repr

/-- The body of the loop over the message sizes. -/
def sizeBlock (params : RunParams) (report : Bool) (msgSize : Nat) : List Instr :=
  [.resetCounters 0] ++ procBarrier ++
  -- warm up loop
  [.loop params.skip msgSize] ++ procBarrier ++
  [.resetCounters params.prefilledWork] ++ procBarrier ++
  [.loop params.loop msgSize, .recordTime, .threadBarrier .bare, .report report]

def runVaryMsg (params : RunParams) (report : Bool) : List Instr :=
  params.sizes.flatMap (sizeBlock params report) ++ procBarrier

/-- The program a thread runs: `report` is set for thread 0 of rank 0. -/
def threadCode (params : RunParams) (rank threadId : Nat) : List Instr :=
  runVaryMsg params (decide (rank = 0 ∧ threadId = 0))

/-! ## Loops -/

/-- How many loops are run: a warm-up and a measured one per size. -/
def RunParams.loops (params : RunParams) : Nat := 2 * params.sizes.length

def RunParams.iters (params : RunParams) (e : Nat) : Nat :=
  if e % 2 = 0 then params.skip else params.loop

/-- What the counters are reset to before loop `e`. -/
def RunParams.base (params : RunParams) (e : Nat) : Int :=
  if e % 2 = 0 then 0 else params.prefilledWork

theorem RunParams.base_nonneg (params : RunParams) (e : Nat) : 0 ≤ params.base e := by
  unfold RunParams.base
  split_ifs <;> simp

/-- The entry at offset `r` of loop `e`. -/
def slot (params : RunParams) (report : Bool) (e r : Nat) : Instr :=
  match r with
  | 0 => .resetCounters (params.base e)
  | 1 => .threadBarrier .procEntry
  | 2 => .pmiBarrier
  | 3 => .threadBarrier .procExit
  | 4 => .loop (params.iters e) (params.sizes.getD (e / 2) 0)
  | 5 => if e % 2 = 0 then .threadBarrier .procEntry else .recordTime
  | 6 => if e % 2 = 0 then .pmiBarrier else .threadBarrier .bare
  | _ => if e % 2 = 0 then .threadBarrier .procExit else .report report

theorem getElem?_flatMap_of_length {α β : Type} {f : α → List β} {n : Nat}
    (length : ∀ a, (f a).length = n) (as : List α) {k : Nat} {a : α} (here : as[k]? = some a)
    {r : Nat} (below : r < n) : (as.flatMap f)[n * k + r]? = (f a)[r]? := by
  induction as generalizing k with
  | nil => simp at here
  | cons head tail inductionHypothesis =>
      rw [List.flatMap_cons]
      cases k with
      | zero =>
          obtain rfl : head = a := by simpa using here
          rw [Nat.mul_zero, Nat.zero_add, List.getElem?_append_left (by rw [length]; exact below)]
      | succ k =>
          have rest := inductionHypothesis (k := k) (by simpa using here)
          have skipped : n * (k + 1) + r = (f head).length + (n * k + r) := by
            rw [length, Nat.mul_succ]; omega
          rw [skipped, List.getElem?_append_right (by omega), Nat.add_sub_cancel_left]
          exact rest

theorem sizeBlock_length (params : RunParams) (report : Bool) (msgSize : Nat) :
    (sizeBlock params report msgSize).length = 16 := rfl

theorem sizeBlocks_length (params : RunParams) (report : Bool) :
    (params.sizes.flatMap (sizeBlock params report)).length = 8 * params.loops := by
  simp [List.length_flatMap, sizeBlock_length, RunParams.loops]
  omega

theorem runVaryMsg_length (params : RunParams) (report : Bool) :
    (runVaryMsg params report).length = 8 * params.loops + 3 := by
  rw [runVaryMsg, List.length_append, sizeBlocks_length]
  rfl

theorem runVaryMsg_slot (params : RunParams) (report : Bool) {e r : Nat} (eBelow : e < params.loops)
    (rBelow : r < 8) : (runVaryMsg params report)[8 * e + r]? = some (slot params report e r) := by
  have sizeBelow : e / 2 < params.sizes.length := by
    unfold RunParams.loops at eBelow; omega
  have here : params.sizes[e / 2]? = some (params.sizes.getD (e / 2) 0) := by
    simp [List.getD, List.getElem?_eq_getElem sizeBelow]
  rw [runVaryMsg, List.getElem?_append_left (by rw [sizeBlocks_length]; omega)]
  rcases Nat.mod_two_eq_zero_or_one e with even | odd
  · rw [show 8 * e + r = 16 * (e / 2) + r by omega,
      getElem?_flatMap_of_length (sizeBlock_length params report) _ here (by omega)]
    interval_cases r <;>
      simp [sizeBlock, procBarrier, slot, even, RunParams.base, RunParams.iters]
  · rw [show 8 * e + r = 16 * (e / 2) + (8 + r) by omega,
      getElem?_flatMap_of_length (sizeBlock_length params report) _ here (by omega)]
    interval_cases r <;>
      simp [sizeBlock, procBarrier, slot, odd, RunParams.base, RunParams.iters]

theorem runVaryMsg_tail (params : RunParams) (report : Bool) (r : Nat) :
    (runVaryMsg params report)[8 * params.loops + r]? = procBarrier[r]? := by
  rw [runVaryMsg, List.getElem?_append_right (by rw [sizeBlocks_length]; omega),
    sizeBlocks_length, Nat.add_sub_cancel_left]

/-- Every position is one of a loop or of the closing barrier. -/
theorem runVaryMsg_cases {params : RunParams} {report : Bool} {pc : Nat} {instr : Instr}
    (here : (runVaryMsg params report)[pc]? = some instr) :
    (∃ e r, e < params.loops ∧ r < 8 ∧ pc = 8 * e + r ∧ instr = slot params report e r) ∨
    (∃ r, r < 3 ∧ pc = 8 * params.loops + r ∧ procBarrier[r]? = some instr) := by
  have below : pc < 8 * params.loops + 3 := by
    rw [← runVaryMsg_length params report]
    exact (List.getElem?_eq_some_iff.mp here).1
  by_cases inLoops : pc < 8 * params.loops
  · refine Or.inl ⟨pc / 8, pc % 8, by omega, by omega, by omega, ?_⟩
    have found := runVaryMsg_slot params report (e := pc / 8) (r := pc % 8) (by omega) (by omega)
    rw [show 8 * (pc / 8) + pc % 8 = pc by omega, here] at found
    exact Option.some.inj found
  · refine Or.inr ⟨pc - 8 * params.loops, by omega, by omega, ?_⟩
    have found := runVaryMsg_tail params report (pc - 8 * params.loops)
    rw [show 8 * params.loops + (pc - 8 * params.loops) = pc by omega, here] at found
    exact found.symm

end FabricBench
