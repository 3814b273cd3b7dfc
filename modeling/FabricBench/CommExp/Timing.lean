import FabricBench.CommExp.Phases
import FabricBench.Lib.Machine
import FabricBench.Lib.Table

/-!
The times and statistics of `RUN_VARY_MSG`: every thread records its time in the shared
vector `totalExecTimes`, all threads take the maximum of the vector behind a bare
`thread_barrier`, and thread 0 clears the statistics before every loop.

Owns: the machine of these accesses, in which every comparison of `std::max_element`, every
store of `reset_counters` and every read of `get_additional_stats` is an action of its own,
and `Move`, the inversion of its `step`.

Times are values of any linear order. Not modelled: what the body of a loop does.
-/

namespace FabricBench.Timing

open FabricBench.Lib

/-- A job of `procs` processes with `threads` threads each. `accs` is the number of
accumulators and counters that `reset_counters` clears. -/
structure Job where
  params : RunParams
  procs : Nat
  threads : Nat
  accs : Nat
  threads_pos : 0 < threads

variable (job : Job) (Time : Type)

abbrev Proc := Fin job.procs

abbrev Thread := Fin job.threads

def leader : Thread job := ⟨0, job.threads_pos⟩

/-! ## State -/

/-- `iter` counts the stores of a thread in `reset_counters`, or its comparisons in
`max_element` and its reads of statistics behind them. `largest` is the iterator of
`max_element` to the largest element so far. The last four tables are not in the code:
`cleared` has for every accumulator the number of loops it was cleared for, `written` the
time that a thread wrote for a size, `computed` the maximum that a thread took for a size,
and `statsRead` what `cleared` was when an accumulator was read for a size. -/
structure State where
  control : Spmd.Control (Proc job) (Thread job)
  iter : Proc job → Thread job → Nat
  largest : Proc job → Thread job → Nat
  totalExecTimes : Proc job → Nat → Time
  cleared : Proc job → Nat → Nat
  written : Proc job → Nat → Nat → Option Time
  computed : Proc job → Thread job → Nat → Option Time
  statsRead : Proc job → Nat → Nat → Option Nat

variable {job Time}

/-- The vector is zeroed by `resize`. -/
def State.init (zero : Time) : State job Time where
  control := Spmd.Control.start
  iter _ _ := 0
  largest _ _ := 0
  totalExecTimes _ _ := zero
  cleared _ _ := 0
  written _ _ _ := none
  computed _ _ _ := none
  statsRead _ _ _ := none

def State.pc (st : State job Time) (i : Proc job) (t : Thread job) : Nat := (st.control i t).pc

/-- The instruction a thread stands at. -/
def State.instr (st : State job Time) (i : Proc job) (t : Thread job) : Option Instr :=
  (threadCode job.params i t)[st.pc i t]?

/-- Go to a new point, with nothing in progress there. -/
def State.goTo (st : State job Time) (i : Proc job) (t : Thread job) (point : Spmd.Point) :
    State job Time :=
  { st with
    control := st.control.set i t point
    iter := put st.iter i t 0
    largest := put st.largest i t 0 }

def State.goOn (st : State job Time) (i : Proc job) (t : Thread job) : State job Time :=
  st.goTo i t (st.control i t).next

/-! ## Actions -/

variable (job Time) in
inductive Action where
  /-- A move at a barrier or at `pmi_barrier`. -/
  | sync (i : Proc job) (t : Thread job)
  /-- `reset_counters`, a loop or the report is over. -/
  | finish (i : Proc job) (t : Thread job)
  /-- The next store of `reset_counters` by thread 0. -/
  | store (i : Proc job)
  /-- `totalExecTimes[thread_id] = time`. -/
  | record (i : Proc job) (t : Thread job) (time : Time)
  /-- `max_element` compares the largest element with the next one. -/
  | compare (i : Proc job) (t : Thread job)
  /-- `max_element` is through, and the largest element is read. -/
  | conclude (i : Proc job) (t : Thread job)
  /-- `get_additional_stats` reads the next accumulator. -/
  | readStat (i : Proc job) (t : Thread job)

/-- Thread 0 clears the accumulators, the others return at once. -/
def stores (t : Thread job) : Nat := if t = leader job then job.accs else 0

/-- The time of a thread is written. The size is read off the position. -/
def State.recorded (st : State job Time) (i : Proc job) (t : Thread job) (time : Time) :
    State job Time :=
  { st.goOn i t with
    totalExecTimes := put st.totalExecTimes i t time
    written := put st.written i t (Function.update (st.written i t) (st.pc i t / 16) (some time)) }

/-- The next accumulator is cleared. -/
def State.stored (st : State job Time) (i : Proc job) : State job Time :=
  { st with
    cleared := put st.cleared i (st.iter i (leader job)) (st.pc i (leader job) / 8 + 1)
    iter := put st.iter i (leader job) (st.iter i (leader job) + 1) }

def State.concluded (st : State job Time) (i : Proc job) (t : Thread job) : State job Time :=
  { st with
    iter := put st.iter i t job.threads
    computed := put st.computed i t (Function.update (st.computed i t) (st.pc i t / 16)
      (some (st.totalExecTimes i (st.largest i t)))) }

/-- An accumulator is read. -/
def State.statRead (st : State job Time) (i : Proc job) (t : Thread job) : State job Time :=
  let k := st.iter i t - job.threads
  { st with
    iter := put st.iter i t (st.iter i t + 1)
    statsRead := put st.statsRead i (st.pc i t / 16)
      (Function.update (st.statsRead i (st.pc i t / 16)) k (some (st.cleared i k))) }

/-- The comparisons and reads of a report: only the thread that prints reads statistics. -/
def reportLength (job : Job) (flag : Bool) : Nat := job.threads + if flag then job.accs else 0

/-! ## Going on -/

/-- Where a thread may go other than from recording its time. From a reset it goes on, and
thread 0 only when it has cleared everything. -/
structure Goes (st : State job Time) (i : Proc job) (t : Thread job) (point : Spmd.Point) :
    Prop where
  control : Spmd.Step (controlProgram job.params) (leader job) st.control (st.control.set i t point)
  pc : point.pc = st.pc i t ∨ point.pc = st.pc i t + 1
  not_record : ∀ s, point.pc = st.pc i t + 1 → st.pc i t ≠ 16 * s + 13
  reset : ∀ e, e < job.params.loops → st.pc i t = 8 * e →
    point.pc = st.pc i t + 1 ∧ (t = leader job → job.accs ≤ st.iter i t)

section Goes

variable {st : State job Time} {i : Proc job} {t : Thread job}

theorem op_of_instr {instr : Instr} (here : st.instr i t = some instr) :
    (controlProgram job.params)[st.pc i t]? = some instr.op := by
  rw [controlProgram_getElem? job.params (decide (i.val = 0 ∧ t.val = 0))]
  exact congrArg (Option.map Instr.op) here

theorem step_of_work {instr : Instr} (here : st.instr i t = some instr) (work : instr.op = .work) :
    Spmd.Step (controlProgram job.params) (leader job) st.control
      (st.control.set i t (st.control i t).next) := by
  apply Spmd.Step.work
  rw [← work]
  exact op_of_instr here

theorem goes_of_sync {point : Spmd.Point}
    (move : Spmd.syncMove (controlProgram job.params) (leader job) st.control i t = some point) :
    Goes st i t point := by
  obtain ⟨op, found, sync⟩ := Spmd.syncMove_op move
  constructor
  case control => exact .sync i t point move
  case pc =>
    rcases Spmd.syncMove_cases move with ⟨rfl, -⟩ | ⟨rfl, -⟩ | ⟨rfl, -⟩
    · exact .inl rfl
    · exact .inr rfl
    · exact .inr rfl
  case not_record =>
    intro s _ here
    change (controlProgram job.params)[st.pc i t]? = some op at found
    rw [controlProgram_getElem? job.params false, here, Option.map_eq_some_iff] at found
    obtain ⟨instr, atRecord, rfl⟩ := found
    rw [record_instr atRecord] at sync
    exact sync rfl
  case reset =>
    intro e below here
    change (controlProgram job.params)[st.pc i t]? = some op at found
    rw [controlProgram_getElem? job.params false, here, reset_instr false below] at found
    cases found
    exact absurd rfl sync

/-- Thread 0 leaves a reset with everything cleared. -/
theorem goes_of_reset {syncCount : Int} (here : st.instr i t = some (.resetCounters syncCount))
    (done : stores t ≤ st.iter i t) : Goes st i t (st.control i t).next := by
  constructor
  case control => exact step_of_work here rfl
  case pc => exact .inr rfl
  case not_record =>
    intro s _ same
    rw [State.instr, same] at here
    cases record_instr here
  case reset =>
    intro e _ _
    refine ⟨rfl, ?_⟩
    intro isLeader
    rwa [stores, if_pos isLeader] at done

/-- A loop and the taking of the maximum are left from positions that are neither a reset
nor that of a record. -/
theorem goes_of_work {instr : Instr} (here : st.instr i t = some instr) (work : instr.op = .work)
    (other : instr ≠ .recordTime) (notReset : ∀ e, st.pc i t ≠ 8 * e) :
    Goes st i t (st.control i t).next := by
  constructor
  case control => exact step_of_work here work
  case pc => exact .inr rfl
  case not_record =>
    intro s _ same
    rw [State.instr, same] at here
    exact other (record_instr here)
  case reset =>
    intro e _ same
    exact absurd same (notReset e)

end Goes

/-! ## Steps -/

variable [LinearOrder Time]

def State.compared (st : State job Time) (i : Proc job) (t : Thread job) : State job Time :=
  let it := st.iter i t + 1
  { st with
    largest := put st.largest i t
      (if st.totalExecTimes i (st.largest i t) < st.totalExecTimes i it then it else st.largest i t)
    iter := put st.iter i t it }

/-- Perform one action, if it is possible. -/
def step (st : State job Time) : Action job Time → Option (State job Time)
  | .sync i t =>
      (Spmd.syncMove ((threadCode job.params i t).map Instr.op) (leader job) st.control i t).map
        (st.goTo i t)
  | .finish i t =>
      match st.instr i t with
      | some (.resetCounters _) => if stores t ≤ st.iter i t then some (st.goOn i t) else none
      | some (.loop _ _) => some (st.goOn i t)
      | some (.report flag) =>
          if reportLength job flag ≤ st.iter i t then some (st.goOn i t) else none
      | _ => none
  | .store i =>
      match st.instr i (leader job) with
      | some (.resetCounters _) =>
          if st.iter i (leader job) < job.accs then some (st.stored i) else none
      | _ => none
  | .record i t time =>
      match st.instr i t with
      | some .recordTime => some (st.recorded i t time)
      | _ => none
  | .compare i t =>
      match st.instr i t with
      | some (.report _) => if st.iter i t + 1 < job.threads then some (st.compared i t) else none
      | _ => none
  | .conclude i t =>
      match st.instr i t with
      | some (.report _) => if st.iter i t + 1 = job.threads then some (st.concluded i t) else none
      | _ => none
  | .readStat i t =>
      match st.instr i t with
      | some (.report flag) =>
          if job.threads ≤ st.iter i t ∧ st.iter i t < reportLength job flag then
            some (st.statRead i t)
          else none
      | _ => none

/-- The states of all runs, whatever the order of the actions. -/
def Reachable (zero : Time) (st : State job Time) : Prop := Machine.Run step (State.init zero) st

/-! ## Inversion of `step` -/

/-- The steps of the job. -/
inductive Move : State job Time → State job Time → Prop where
  | goTo {st : State job Time} (i : Proc job) (t : Thread job) (point : Spmd.Point)
      (goes : Goes st i t point) : Move st (st.goTo i t point)
  | record {st : State job Time} (i : Proc job) (t : Thread job) (time : Time) (s : Nat)
      (here : st.pc i t = 16 * s + 13)
      (control : Spmd.Step (controlProgram job.params) (leader job) st.control
        (st.control.set i t (st.control i t).next)) : Move st (st.recorded i t time)
  | store {st : State job Time} (i : Proc job) (e : Nat) (below : e < job.params.loops)
      (here : st.pc i (leader job) = 8 * e) : Move st (st.stored i)
  | compare {st : State job Time} (i : Proc job) (t : Thread job) (s : Nat)
      (here : st.pc i t = 16 * s + 15) (more : st.iter i t + 1 < job.threads) :
      Move st (st.compared i t)
  | conclude {st : State job Time} (i : Proc job) (t : Thread job) (s : Nat)
      (below : s < job.params.sizes.length) (here : st.pc i t = 16 * s + 15)
      (last : st.iter i t + 1 = job.threads) : Move st (st.concluded i t)
  | readStat {st : State job Time} (i : Proc job) (s : Nat) (below : s < job.params.sizes.length)
      (here : st.pc i (leader job) = 16 * s + 15) (low : job.threads ≤ st.iter i (leader job))
      (high : st.iter i (leader job) < job.threads + job.accs) :
        Move st (st.statRead i (leader job))

section Inversion

variable {st st' : State job Time} {i : Proc job} {t : Thread job}

theorem move_of_step {action : Action job Time} (taken : step st action = some st') :
    Move st st' := by
  cases action with
  | sync i t =>
      simp only [step, threadCode, controlProgram_eq, Option.map_eq_some_iff] at taken
      obtain ⟨point, move, rfl⟩ := taken
      exact .goTo i t point (goes_of_sync move)
  | finish i t =>
      simp only [step] at taken
      split at taken
      · next syncCount here =>
        split_ifs at taken with done
        obtain rfl := Option.some.inj taken
        exact .goTo i t _ (goes_of_reset here done)
      · next iters msgSize here =>
        obtain rfl := Option.some.inj taken
        obtain ⟨e, -, atLoop, -⟩ := loop_position here
        exact .goTo i t _ (goes_of_work here rfl (by simp) (by intro e' same; omega))
      · next flag here =>
        split_ifs at taken
        obtain rfl := Option.some.inj taken
        obtain ⟨s, -, atReport, -⟩ := report_position here
        exact .goTo i t _ (goes_of_work here rfl (by simp) (by intro e same; omega))
      · cases taken
  | store i =>
      simp only [step] at taken
      split at taken
      · next syncCount here =>
        split_ifs at taken with more
        obtain rfl := Option.some.inj taken
        obtain ⟨e, below, atReset, -⟩ := reset_position here
        exact .store i e below atReset
      · cases taken
  | record i t time =>
      simp only [step] at taken
      split at taken
      · next here =>
        obtain rfl := Option.some.inj taken
        obtain ⟨s, -, atRecord⟩ := record_position here
        exact .record i t time s atRecord (step_of_work here rfl)
      · cases taken
  | compare i t =>
      simp only [step] at taken
      split at taken
      · next flag here =>
        split_ifs at taken with more
        obtain rfl := Option.some.inj taken
        obtain ⟨s, -, atReport, -⟩ := report_position here
        exact .compare i t s atReport more
      · cases taken
  | conclude i t =>
      simp only [step] at taken
      split at taken
      · next flag here =>
        split_ifs at taken with last
        obtain rfl := Option.some.inj taken
        obtain ⟨s, below, atReport, -⟩ := report_position here
        exact .conclude i t s below atReport last
      · cases taken
  | readStat i t =>
      simp only [step] at taken
      split at taken
      · next flag here =>
        split_ifs at taken with reads
        obtain rfl := Option.some.inj taken
        obtain ⟨s, below, atReport, prints⟩ := report_position here
        -- only thread 0 of rank 0 has accumulators to read
        have printing : flag = true := by
          by_contra silent
          rw [reportLength, if_neg silent] at reads
          omega
        rw [printing, eq_comm, decide_eq_true_eq] at prints
        obtain rfl : t = leader job := Fin.ext prints.2
        rw [reportLength, if_pos printing] at reads
        exact .readStat i s below atReport reads.1 reads.2
      · cases taken

theorem Reachable.invariant {zero : Time} (inv : State job Time → Prop)
    (init : inv (State.init zero))
    (move : ∀ {st st' : State job Time}, inv st → Move st st' → inv st')
    (reachable : Reachable zero st) : inv st := by
  apply Machine.Run.invariant reachable init
  rintro before after holds ⟨action, taken⟩
  exact move holds (move_of_step taken)

end Inversion

end FabricBench.Timing
