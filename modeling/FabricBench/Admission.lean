import FabricBench.Config
import FabricBench.Lib.CInt

/-!
The checks that the `main`s make on their command lines before they start anything.

Owns: the checks of `pingpong_prg`, `pingpong_prg_ucx` and `pingpong_sym` in the 32-bit
arithmetic they are written in, what it means that such a check is sound
(`Admission.Sound`), and exactly for which arguments it is.
-/

namespace FabricBench

open FabricBench.Lib
open FabricBench.Lib.CInt

/-- How the checks end: `exit`, or the benchmark goes on. -/
inductive Verdict where
  | rejected
  | admitted
deriving DecidableEq, Repr

/-- `if (demand > HEAP_SIZE)` exits. -/
def heapCheck (demand : Except Fault Int) : Except Fault Verdict := do
  if (heapSize : Int) < (← demand) then return .rejected else return .admitted

/-- `n * 2 * max_size`: the demand of `n` workers, and the offset of worker `n`. -/
def pairSlots (maxSize n : Int) : Except Fault Int := do mul (← mul n 2) maxSize

/-- `n * max_size`, the same in `pingpong_sym`, where a thread has one slot. -/
def singleSlots (maxSize n : Int) : Except Fault Int := mul n maxSize

/-! ## The three programs -/

/-- The arguments of `pingpong_prg`. The list of cores is given by its number of
entries; the other arguments take no part in the checks. -/
structure PrgArgs where
  txThreadNum : BitVec 32
  rxThreadNum : BitVec 32
  minSize : BitVec 32
  maxSize : BitVec 32
  bindings : Option Nat

/-- The list of cores, if there is one, has an entry per progress thread. The number of
entries is a `size_t`, and `rx_thread_num` is converted to one. -/
def PrgArgs.bindingsMatch (args : PrgArgs) : Bool :=
  match args.bindings with
  | none => true
  | some count => decide (count = (toSizeT args.rxThreadNum).toNat)

/-- The checks that `pingpong_prg` and `pingpong_prg_ucx` end with: the workers can be
spread evenly over the progress threads, and the heap is large enough. -/
def PrgArgs.spreadCheck (args : PrgArgs) : Except Fault Verdict := do
  let residue ← rem args.txThreadNum.toInt args.rxThreadNum.toInt
  if residue ≠ 0 then return .rejected
  heapCheck (pairSlots args.maxSize.toInt args.txThreadNum.toInt)

def PrgArgs.check (args : PrgArgs) : Except Fault Verdict :=
  if args.bindingsMatch then args.spreadCheck else return .rejected

/-- The arguments of `pingpong_prg_ucx`: those of `pingpong_prg` and, at the end, the
number of workers that share a queue pair. -/
structure PrgUcxArgs extends PrgArgs where
  numWorkerPerQp : Option (BitVec 32)

/-- `num_worker_per_qp > floor(tx_thread_num / rx_thread_num)` exits. -/
def PrgUcxArgs.qpCheck (args : PrgUcxArgs) : Except Fault Verdict :=
  match args.numWorkerPerQp with
  | none => return .admitted
  | some count => do
      if (← div args.txThreadNum.toInt args.rxThreadNum.toInt) < count.toInt then return .rejected
      else return .admitted

def PrgUcxArgs.check (args : PrgUcxArgs) : Except Fault Verdict :=
  if args.bindingsMatch then do
    match ← args.qpCheck with
    | .rejected => return .rejected
    | .admitted =>
        -- `works_per_progress_thread`
        let _ ← div args.txThreadNum.toInt args.rxThreadNum.toInt
        args.spreadCheck
  else return .rejected

/-- The arguments of `pingpong_sym`. -/
structure SymArgs where
  threadNum : BitVec 32
  minSize : BitVec 32
  maxSize : BitVec 32

def SymArgs.check (args : SymArgs) : Except Fault Verdict :=
  heapCheck (singleSlots args.maxSize.toInt args.threadNum.toInt)

/-! ## Sound checks -/

/-- The check does nothing undefined, and where it admits the arguments the heap has
room for all threads and no thread overflows in computing its offset. -/
structure Admission.Sound (check : Except Fault Verdict) (threadNum demand : Int)
    (offset : Int → Except Fault Int) : Prop where
  defined : Defined check
  demand_le : check = .ok .admitted → demand ≤ heapSize
  offsets : check = .ok .admitted → ∀ threadId, 0 ≤ threadId → threadId < threadNum →
    Defined (offset threadId)

/-! ## The heap check -/

section Heap

variable {demand : Except Fault Int} {maxSize threadNum n d : Int}

theorem heapCheck_defined : Defined (heapCheck demand) ↔ Defined demand := by
  unfold heapCheck
  rw [defined_bind]
  constructor
  · rintro ⟨d, same, -⟩
    exact ⟨d, same⟩
  · rintro ⟨d, same⟩
    refine ⟨d, same, ?_⟩
    split_ifs
    · exact defined_ok _
    · exact defined_ok _

theorem heapCheck_admitted (admitted : heapCheck demand = .ok .admitted) :
    ∃ d, demand = .ok d ∧ d ≤ heapSize := by
  cases demand with
  | error fault => cases admitted
  | ok d =>
      refine ⟨d, rfl, ?_⟩
      by_contra large
      have rejected : heapCheck (.ok d) = .ok .rejected := if_pos (Int.not_le.mp large)
      rw [rejected] at admitted
      cases admitted

theorem pairSlots_eq_ok_iff :
    pairSlots maxSize n = .ok d ↔ (Fits (n * 2) ∧ Fits (n * 2 * maxSize)) ∧
      d = n * 2 * maxSize := by
  unfold pairSlots
  constructor
  · intro same
    cases double : mul n 2 with
    | error fault =>
        rw [double] at same
        cases same
    | ok m =>
        obtain ⟨fits, rfl⟩ := mul_eq_ok_iff.mp double
        rw [double] at same
        obtain ⟨product, result⟩ := mul_eq_ok_iff.mp same
        exact ⟨⟨fits, product⟩, result⟩
  · rintro ⟨⟨fits, product⟩, result⟩
    rw [mul_eq_ok_iff.mpr ⟨fits, rfl⟩]
    exact mul_eq_ok_iff.mpr ⟨product, result⟩

theorem pairSlots_defined :
    Defined (pairSlots maxSize n) ↔ Fits (n * 2) ∧ Fits (n * 2 * maxSize) := by
  constructor
  · rintro ⟨d, same⟩
    exact (pairSlots_eq_ok_iff.mp same).1
  · intro fits
    exact ⟨_, pairSlots_eq_ok_iff.mpr ⟨fits, rfl⟩⟩

/-- A check that is defined and admits nothing that the heap check rejects is sound: the
offsets are smaller products of the same kind. -/
theorem Admission.sound_of_pairSlots {check : Except Fault Verdict} (defined : Defined check)
    (last : check = .ok .admitted → heapCheck (pairSlots maxSize threadNum) = .ok .admitted) :
    Admission.Sound check threadNum (2 * threadNum * maxSize) (pairSlots maxSize) where
  defined := defined
  demand_le := by
    intro admitted
    obtain ⟨d, same, le⟩ := heapCheck_admitted (last admitted)
    obtain ⟨-, rfl⟩ := pairSlots_eq_ok_iff.mp same
    rw [Int.mul_comm 2]
    exact le
  offsets := by
    intro admitted threadId nonneg below
    obtain ⟨d, same, -⟩ := heapCheck_admitted (last admitted)
    obtain ⟨⟨double, product⟩, -⟩ := pairSlots_eq_ok_iff.mp same
    apply pairSlots_defined.mpr
    constructor
    · exact fits_mul_of_le double nonneg below.le
    · exact fits_mul_of_le product (by omega) (by omega)

theorem Admission.sound_of_singleSlots
    (defined : Defined (heapCheck (singleSlots maxSize threadNum))) :
    Admission.Sound (heapCheck (singleSlots maxSize threadNum)) threadNum (threadNum * maxSize)
      (singleSlots maxSize) where
  defined := defined
  demand_le := by
    intro admitted
    obtain ⟨d, same, le⟩ := heapCheck_admitted admitted
    obtain ⟨-, rfl⟩ := mul_eq_ok_iff.mp same
    exact le
  offsets := by
    intro admitted threadId nonneg below
    obtain ⟨d, same, -⟩ := heapCheck_admitted admitted
    obtain ⟨product, -⟩ := mul_eq_ok_iff.mp same
    exact ⟨_, mul_eq_ok_iff.mpr ⟨fits_mul_of_le product nonneg below.le, rfl⟩⟩

end Heap

/-! ## When the checks are defined -/

/-- The product of the heap check of the programs with two slots per worker does not
overflow. -/
def PrgArgs.DemandFits (args : PrgArgs) : Prop :=
  Fits (args.txThreadNum.toInt * 2) ∧ Fits (args.txThreadNum.toInt * 2 * args.maxSize.toInt)

/-- The quotient of workers by progress threads is defined. -/
def PrgArgs.Divides (args : PrgArgs) : Prop :=
  args.rxThreadNum.toInt ≠ 0 ∧
    ¬ (args.txThreadNum.toInt = -2 ^ 31 ∧ args.rxThreadNum.toInt = -1)

theorem PrgArgs.divides_iff (args : PrgArgs) : args.Divides ↔ args.rxThreadNum.toInt ≠ 0 ∧
    Fits (args.txThreadNum.toInt.tdiv args.rxThreadNum.toInt) := by
  unfold PrgArgs.Divides
  constructor
  · rintro ⟨nonzero, other⟩
    exact ⟨nonzero, (fits_tdiv_iff (fits_toInt _) nonzero).mpr other⟩
  · rintro ⟨nonzero, fits⟩
    exact ⟨nonzero, (fits_tdiv_iff (fits_toInt _) nonzero).mp fits⟩

theorem PrgArgs.spreadCheck_defined (args : PrgArgs) : Defined args.spreadCheck ↔
    args.Divides ∧ (args.rxThreadNum.toInt ∣ args.txThreadNum.toInt → args.DemandFits) := by
  unfold PrgArgs.spreadCheck
  rw [defined_bind, args.divides_iff]
  constructor
  · rintro ⟨residue, same, rest⟩
    obtain ⟨divides, rfl⟩ := rem_eq_ok_iff.mp same
    refine ⟨divides, fun even => ?_⟩
    rw [if_neg (by simpa using Int.tmod_eq_zero_of_dvd even)] at rest
    exact pairSlots_defined.mp (heapCheck_defined.mp rest)
  · rintro ⟨divides, room⟩
    refine ⟨_, rem_eq_ok_iff.mpr ⟨divides, rfl⟩, ?_⟩
    split_ifs with uneven
    · exact defined_ok _
    · apply heapCheck_defined.mpr
      apply pairSlots_defined.mpr
      apply room
      exact Int.dvd_of_tmod_eq_zero (by simpa using uneven)

theorem PrgArgs.spreadCheck_admitted {args : PrgArgs}
    (admitted : args.spreadCheck = .ok .admitted) :
    heapCheck (pairSlots args.maxSize.toInt args.txThreadNum.toInt) = .ok .admitted := by
  unfold PrgArgs.spreadCheck at admitted
  cases residue : rem args.txThreadNum.toInt args.rxThreadNum.toInt with
  | error fault =>
      rw [residue] at admitted
      cases admitted
  | ok r =>
      rw [residue] at admitted
      change (if r ≠ 0 then _ else _) = _ at admitted
      split_ifs at admitted with uneven
      · cases admitted
      · exact admitted

theorem PrgArgs.check_defined (args : PrgArgs) : Defined args.check ↔
    (args.bindingsMatch = true → args.Divides ∧
      (args.rxThreadNum.toInt ∣ args.txThreadNum.toInt → args.DemandFits)) := by
  unfold PrgArgs.check
  split_ifs with listed
  · rw [args.spreadCheck_defined]
    simp [listed]
  · simp only [listed, Bool.false_eq_true, false_implies, iff_true]
    exact defined_ok _

theorem PrgArgs.check_admitted {args : PrgArgs} (admitted : args.check = .ok .admitted) :
    heapCheck (pairSlots args.maxSize.toInt args.txThreadNum.toInt) = .ok .admitted := by
  unfold PrgArgs.check at admitted
  split_ifs at admitted
  · exact PrgArgs.spreadCheck_admitted admitted
  · cases admitted

/-- Not too many workers share a queue pair. -/
def PrgUcxArgs.QpFits (args : PrgUcxArgs) : Prop :=
  ∀ count, args.numWorkerPerQp = some count →
    count.toInt ≤ args.txThreadNum.toInt.tdiv args.rxThreadNum.toInt

theorem PrgUcxArgs.qpCheck_eq {args : PrgUcxArgs} (divides : args.Divides) :
    (args.QpFits ∧ args.qpCheck = .ok .admitted) ∨
      (¬ args.QpFits ∧ args.qpCheck = .ok .rejected) := by
  unfold PrgUcxArgs.QpFits PrgUcxArgs.qpCheck
  cases args.numWorkerPerQp with
  | none =>
      left
      refine ⟨?_, rfl⟩
      rintro count ⟨⟩
  | some count =>
      rw [div_eq_ok_iff.mpr ⟨args.divides_iff.mp divides, rfl⟩]
      by_cases large : args.txThreadNum.toInt.tdiv args.rxThreadNum.toInt < count.toInt
      · right
        refine ⟨fun small => ?_, if_pos large⟩
        have := small count rfl
        omega
      · left
        refine ⟨?_, if_neg large⟩
        rintro _ ⟨⟩
        omega

/-- Without a quotient the checks are undefined, here or at
`works_per_progress_thread`. -/
theorem PrgUcxArgs.divides_of_defined {args : PrgUcxArgs} (listed : args.bindingsMatch = true)
    (defined : Defined args.check) : args.Divides := by
  unfold PrgUcxArgs.check at defined
  rw [if_pos listed, defined_bind] at defined
  obtain ⟨verdict, first, rest⟩ := defined
  cases verdict with
  | rejected =>
      unfold PrgUcxArgs.qpCheck at first
      split at first
      · cases first
      · next count same =>
        cases quotient : div args.txThreadNum.toInt args.rxThreadNum.toInt with
        | error fault =>
            rw [quotient] at first
            cases first
        | ok q => exact args.divides_iff.mpr (div_eq_ok_iff.mp quotient).1
  | admitted =>
      obtain ⟨q, quotient, -⟩ := defined_bind.mp rest
      exact args.divides_iff.mpr (div_eq_ok_iff.mp quotient).1

/-- With a quotient they are the check on queue pairs and then the shared ones. -/
theorem PrgUcxArgs.check_eq {args : PrgUcxArgs} (listed : args.bindingsMatch = true)
    (divides : args.Divides) :
    (args.QpFits ∧ args.check = args.spreadCheck) ∨
      (¬ args.QpFits ∧ args.check = .ok .rejected) := by
  unfold PrgUcxArgs.check
  rw [if_pos listed]
  rcases PrgUcxArgs.qpCheck_eq divides with ⟨few, verdict⟩ | ⟨many, verdict⟩
  · left
    refine ⟨few, ?_⟩
    rw [verdict]
    change (div _ _ >>= fun _ => args.spreadCheck) = _
    rw [div_eq_ok_iff.mpr ⟨args.divides_iff.mp divides, rfl⟩]
    rfl
  · right
    refine ⟨many, ?_⟩
    rw [verdict]
    rfl

theorem PrgUcxArgs.check_defined (args : PrgUcxArgs) : Defined args.check ↔
    (args.bindingsMatch = true → args.Divides ∧
      (args.QpFits → args.rxThreadNum.toInt ∣ args.txThreadNum.toInt → args.DemandFits)) := by
  constructor
  · intro defined listed
    have divides := PrgUcxArgs.divides_of_defined listed defined
    refine ⟨divides, fun few => ?_⟩
    rcases PrgUcxArgs.check_eq listed divides with ⟨-, same⟩ | ⟨many, -⟩
    · rw [same] at defined
      exact (args.spreadCheck_defined.mp defined).2
    · exact absurd few many
  · intro condition
    by_cases listed : args.bindingsMatch = true
    · obtain ⟨divides, room⟩ := condition listed
      rcases PrgUcxArgs.check_eq listed divides with ⟨few, same⟩ | ⟨-, same⟩
      · rw [same]
        exact args.spreadCheck_defined.mpr ⟨divides, room few⟩
      · rw [same]
        exact defined_ok _
    · unfold PrgUcxArgs.check
      rw [if_neg listed]
      exact defined_ok _

theorem PrgUcxArgs.check_admitted {args : PrgUcxArgs} (admitted : args.check = .ok .admitted) :
    heapCheck (pairSlots args.maxSize.toInt args.txThreadNum.toInt) = .ok .admitted := by
  by_cases listed : args.bindingsMatch = true
  · have divides := PrgUcxArgs.divides_of_defined listed ⟨_, admitted⟩
    rcases PrgUcxArgs.check_eq listed divides with ⟨-, same⟩ | ⟨-, same⟩
    · rw [same] at admitted
      exact PrgArgs.spreadCheck_admitted admitted
    · rw [same] at admitted
      cases admitted
  · unfold PrgUcxArgs.check at admitted
    rw [if_neg listed] at admitted
    cases admitted

theorem SymArgs.check_defined (args : SymArgs) :
    Defined args.check ↔ Fits (args.threadNum.toInt * args.maxSize.toInt) := by
  unfold SymArgs.check
  rw [heapCheck_defined]
  constructor
  · rintro ⟨d, same⟩
    exact (mul_eq_ok_iff.mp same).1
  · intro fits
    exact ⟨_, mul_eq_ok_iff.mpr ⟨fits, rfl⟩⟩

/-! ## Exactly when the checks are sound -/

/-- The checks are sound for exactly the arguments whose quotient is defined and, if they
come to the heap check, whose product there does not overflow. -/
theorem admission_sound_iff (prg : PrgArgs) (prgUcx : PrgUcxArgs) (sym : SymArgs) :
    (Admission.Sound prg.check prg.txThreadNum.toInt
        (2 * prg.txThreadNum.toInt * prg.maxSize.toInt) (pairSlots prg.maxSize.toInt) ↔
      (prg.bindingsMatch = true → prg.Divides ∧
        (prg.rxThreadNum.toInt ∣ prg.txThreadNum.toInt → prg.DemandFits))) ∧
    (Admission.Sound prgUcx.check prgUcx.txThreadNum.toInt
        (2 * prgUcx.txThreadNum.toInt * prgUcx.maxSize.toInt) (pairSlots prgUcx.maxSize.toInt) ↔
      (prgUcx.bindingsMatch = true → prgUcx.Divides ∧
        (prgUcx.QpFits → prgUcx.rxThreadNum.toInt ∣ prgUcx.txThreadNum.toInt →
          prgUcx.DemandFits))) ∧
    (Admission.Sound sym.check sym.threadNum.toInt
        (sym.threadNum.toInt * sym.maxSize.toInt) (singleSlots sym.maxSize.toInt) ↔
      Fits (sym.threadNum.toInt * sym.maxSize.toInt)) := by
  refine ⟨?_, ?_, ?_⟩
  · rw [← prg.check_defined]
    constructor
    · intro sound
      exact sound.defined
    · intro defined
      exact Admission.sound_of_pairSlots defined PrgArgs.check_admitted
  · rw [← prgUcx.check_defined]
    constructor
    · intro sound
      exact sound.defined
    · intro defined
      exact Admission.sound_of_pairSlots defined PrgUcxArgs.check_admitted
  · rw [← sym.check_defined]
    constructor
    · intro sound
      exact sound.defined
    · intro defined
      exact Admission.sound_of_singleSlots defined

/-- `pingpong_prg 4 0` divides by zero, `pingpong_prg_ucx 65536 1 8 65536` and
`pingpong_sym 65536 8 65536` overflow. -/
theorem admission_faults :
    ¬ Admission.Sound (PrgArgs.check ⟨4, 0, 8, 1024, none⟩) 4 (2 * 4 * 1024) (pairSlots 1024) ∧
    ¬ Admission.Sound (PrgUcxArgs.check ⟨⟨65536, 1, 8, 65536, none⟩, none⟩) 65536
      (2 * 65536 * 65536) (pairSlots 65536) ∧
    ¬ Admission.Sound (SymArgs.check ⟨65536, 8, 65536⟩) 65536 (65536 * 65536)
      (singleSlots 65536) := by
  refine ⟨fun sound => ?_, fun sound => ?_, fun sound => ?_⟩
  · have fault : PrgArgs.check ⟨4, 0, 8, 1024, none⟩ = .error .divisionByZero := by decide
    exact not_defined_error _ (fault ▸ sound.defined)
  · have fault : PrgUcxArgs.check ⟨⟨65536, 1, 8, 65536, none⟩, none⟩ = .error .overflow := by
      decide
    exact not_defined_error _ (fault ▸ sound.defined)
  · have fault : SymArgs.check ⟨65536, 8, 65536⟩ = .error .overflow := by decide
    exact not_defined_error _ (fault ▸ sound.defined)

end FabricBench
