import FabricBench.CommExp.Timing

/-!
What `RUN_VARY_MSG` reports for a size is of that size.

Owns: the invariant of the vector of times, of the scan for its maximum and of the
statistics, each as a predicate on what one thread has (`EntryOk`, `ScanOk`, `ClearedOk`)
with a lemma for every way it can change, and the main theorem
`reported_time_is_maximum`.
-/

namespace FabricBench.Timing

open FabricBench.Lib

/-! ## One thread -/

section Entry

variable {Time : Type} {pc pc' : Nat} {entry : Time} {history : Nat → Option Time}

/-- A thread at `pc` has written the times of the sizes whose record it is past, and its
entry is the last of them. -/
structure EntryOk (pc : Nat) (entry : Time) (history : Nat → Option Time) : Prop where
  later : ∀ s, pc ≤ 16 * s + 13 → history s = none
  latest : ∀ s, 16 * s + 13 < pc → pc ≤ 16 * s + 29 → history s = some entry

theorem EntryOk.start (entry : Time) : EntryOk 0 entry fun _ => none where
  later := fun _ _ => rfl
  latest := by
    intro s low
    omega

theorem EntryOk.go (ok : EntryOk pc entry history) (moved : pc' = pc ∨ pc' = pc + 1)
    (notRecord : ∀ s, pc' = pc + 1 → pc ≠ 16 * s + 13) : EntryOk pc' entry history where
  later := by
    intro s before
    exact ok.later s (by omega)
  latest := by
    intro s low high
    have := notRecord s
    exact ok.latest s (by omega) (by omega)

theorem EntryOk.record {s : Nat} (ok : EntryOk pc entry history) (here : pc = 16 * s + 13)
    (time : Time) :
    EntryOk (pc + 1) time (Function.update history s (some time)) where
  later := by
    intro s' before
    rw [Function.update_of_ne (by omega)]
    exact ok.later s' (by omega)
  latest := by
    intro s' low high
    obtain rfl : s' = s := by omega
    exact Function.update_self ..

end Entry

section Scan

variable {Time : Type} [LinearOrder Time] {threads iter largest : Nat}
  {entries entries' : Nat → Time}

/-- `largest` points to the largest of the entries up to `iter`. -/
structure ScanOk (threads : Nat) (entries : Nat → Time) (iter largest : Nat) : Prop where
  inside : iter < threads
  seen : largest ≤ iter
  le : ∀ j, j ≤ iter → entries j ≤ entries largest

theorem ScanOk.start (positive : 0 < threads) (entries : Nat → Time) :
    ScanOk threads entries 0 0 where
  inside := positive
  seen := Nat.le_refl 0
  le := by
    intro j first
    rw [Nat.le_zero.mp first]

theorem ScanOk.compare (ok : ScanOk threads entries iter largest) (more : iter + 1 < threads) :
    ScanOk threads entries (iter + 1)
      (if entries largest < entries (iter + 1) then iter + 1 else largest) := by
  split_ifs with less
  · constructor
    case inside => exact more
    case seen => exact Nat.le_refl _
    case le =>
      intro j upTo
      rcases Nat.lt_or_eq_of_le upTo with before | rfl
      · exact (ok.le j (Nat.lt_succ_iff.mp before)).trans less.le
      · exact le_refl _
  · constructor
    case inside => exact more
    case seen => exact ok.seen.trans (Nat.le_succ _)
    case le =>
      intro j upTo
      rcases Nat.lt_or_eq_of_le upTo with before | rfl
      · exact ok.le j (Nat.lt_succ_iff.mp before)
      · exact not_lt.mp less

/-- `v` is the largest of the times that the threads have written for size `s`. -/
structure MaxOf (threads : Nat) (written : Nat → Nat → Option Time) (s : Nat) (v : Time) :
    Prop where
  le : ∀ u, u < threads → ∃ x, written u s = some x ∧ x ≤ v
  attained : ∃ u, u < threads ∧ written u s = some v

theorem MaxOf.unique {written : Nat → Nat → Option Time} {s : Nat} {v w : Time}
    (first : MaxOf threads written s v) (second : MaxOf threads written s w) : v = w := by
  have half {a b : Time} (one : MaxOf threads written s a) (other : MaxOf threads written s b) :
      a ≤ b := by
    obtain ⟨u, below, wrote⟩ := one.attained
    obtain ⟨x, same, le⟩ := other.le u below
    rw [wrote] at same
    exact (Option.some.inj same).le.trans le
  exact le_antisymm (half first second) (half second first)

theorem MaxOf.congr {written written' : Nat → Nat → Option Time} {s : Nat} {v : Time}
    (max : MaxOf threads written s v) (same : ∀ u, u < threads → written' u s = written u s) :
    MaxOf threads written' s v where
  le := by
    intro u below
    rw [same u below]
    exact max.le u below
  attained := by
    obtain ⟨u, below, wrote⟩ := max.attained
    exact ⟨u, below, (same u below).trans wrote⟩

/-- At its end the scan points to the maximum. -/
theorem ScanOk.maxOf (ok : ScanOk threads entries iter largest) (last : iter + 1 = threads)
    {written : Nat → Nat → Option Time} {s : Nat}
    (current : ∀ u, u < threads → written u s = some (entries u)) :
    MaxOf threads written s (entries largest) where
  le := by
    intro u below
    exact ⟨entries u, current u below, ok.le u (by omega)⟩
  attained := by
    have seen := ok.seen
    exact ⟨largest, by omega, current largest (by omega)⟩

end Scan

section Cleared

variable {loops accs pc pc' iter : Nat} {cleared : Nat → Nat}

/-- With thread 0 at `pc`, every accumulator was cleared for the loops whose reset thread
0 has begun, or all but the last of them in the middle of a reset. -/
def ClearedOk (loops accs pc iter : Nat) (cleared : Nat → Nat) : Prop :=
  pc ≤ 8 * loops → ∀ k, k < accs →
    cleared k = (pc + 7) / 8 + if pc % 8 = 0 ∧ pc < 8 * loops ∧ k < iter then 1 else 0

theorem ClearedOk.start (loops accs : Nat) : ClearedOk loops accs 0 0 fun _ => 0 := by
  intro _ k _
  rw [if_neg (by omega)]

theorem ClearedOk.go (ok : ClearedOk loops accs pc iter cleared) (moved : pc' = pc ∨ pc' = pc + 1)
    (reset : ∀ e, e < loops → pc = 8 * e → pc' = pc + 1 ∧ accs ≤ iter) :
    ClearedOk loops accs pc' 0 cleared := by
  intro bound k below
  have old := ok (by omega) k below
  rw [if_neg (by omega)]
  split_ifs at old with middle
  · have := reset (pc / 8) (by omega) (by omega)
    omega
  · by_cases atReset : pc % 8 = 0 ∧ pc < 8 * loops
    · have := reset (pc / 8) (by omega) (by omega)
      omega
    · omega

theorem ClearedOk.store {e : Nat} (ok : ClearedOk loops accs pc iter cleared) (begun : e < loops)
    (here : pc = 8 * e) :
    ClearedOk loops accs pc (iter + 1) (Function.update cleared iter (pc / 8 + 1)) := by
  intro bound k below
  have old := ok bound k below
  by_cases same : k = iter
  · rw [same, Function.update_self, if_pos (by omega)]
    omega
  · rw [Function.update_of_ne same, old]
    split_ifs <;> omega

/-- Away from a reset the number of steps does not matter. -/
theorem ClearedOk.other (ok : ClearedOk loops accs pc iter cleared) (away : pc % 8 ≠ 0)
    (iter' : Nat) :
    ClearedOk loops accs pc iter' cleared := by
  intro bound k below
  have old := ok bound k below
  rw [if_neg (by omega)] at old ⊢
  exact old

end Cleared

/-! ## All threads -/

section Invariant

variable {job : Job} {Time : Type} [LinearOrder Time]

/-- Holds in every reachable state. -/
structure Inv (st : State job Time) : Prop where
  synced : Spmd.Synchronised (controlProgram job.params) (leader job) st.control
  entries : ∀ (i : Proc job) (t : Thread job),
    EntryOk (st.pc i t) (st.totalExecTimes i t) (st.written i t)
  scan : ∀ (i : Proc job) (t : Thread job) (s : Nat), s < job.params.sizes.length →
    st.pc i t = 16 * s + 15 → st.iter i t < job.threads →
      ScanOk job.threads (st.totalExecTimes i) (st.iter i t) (st.largest i t)
  cleared : ∀ i : Proc job, ClearedOk job.params.loops job.accs (st.pc i (leader job))
    (st.iter i (leader job)) (st.cleared i)
  computed : ∀ (i : Proc job) (t : Thread job) (s : Nat) (v : Time), st.computed i t s = some v →
    MaxOf job.threads (st.written i) s v
  statsRead : ∀ (i : Proc job) (s k c : Nat), st.statsRead i s k = some c → c = 2 * s + 2

variable {st st' : State job Time} {i i' : Proc job} {t t' : Thread job}

omit [LinearOrder Time] in
theorem pc_goTo (point : Spmd.Point) (i' : Proc job) (t' : Thread job) :
    (st.goTo i t point).pc i' t' = if i' = i ∧ t' = t then point.pc else st.pc i' t' := by
  simp only [State.pc, State.goTo, Spmd.Control.set_apply]
  split_ifs <;> rfl

omit [LinearOrder Time] in
theorem pc_recorded (time : Time) (i' : Proc job) (t' : Thread job) :
    (st.recorded i t time).pc i' t' = if i' = i ∧ t' = t then st.pc i t + 1 else st.pc i' t' :=
  pc_goTo _ i' t'

/-- While a thread takes the maximum for a size, the entries of its process are the times
of that size. -/
theorem Inv.current (inv : Inv st) {s : Nat} (below : s < job.params.sizes.length)
    (here : st.pc i t = 16 * s + 15) (u : Nat) (inTeam : u < job.threads) :
    st.written i u s = some (st.totalExecTimes i u) := by
  have around := around_report inv.synced below here ⟨u, inTeam⟩
  exact (inv.entries i ⟨u, inTeam⟩).latest s (Nat.lt_of_succ_le around.1)
    (around.2.trans (by omega))

theorem synced_step (inv : Inv st) (move : Move st st') :
    Spmd.Synchronised (controlProgram job.params) (leader job) st'.control := by
  cases move with
  | goTo i t point goes => exact inv.synced.step goes.control
  | record i t time s here control => exact inv.synced.step control
  | store i e below here => exact inv.synced
  | compare i t s here more => exact inv.synced
  | conclude i t s below here last => exact inv.synced
  | readStat i s below here low high => exact inv.synced

theorem entries_step (inv : Inv st) (move : Move st st') (i' : Proc job) (t' : Thread job) :
    EntryOk (st'.pc i' t') (st'.totalExecTimes i' t') (st'.written i' t') := by
  have old := inv.entries i' t'
  cases move with
  | goTo i t point goes =>
      rw [pc_goTo]
      split_ifs with same
      · obtain ⟨rfl, rfl⟩ := same
        exact old.go goes.pc goes.not_record
      · exact old
  | record i t time s here control =>
      rw [pc_recorded]
      split_ifs with same
      · obtain ⟨rfl, rfl⟩ := same
        simp only [State.recorded, put_same]
        rw [show st.pc i' t' / 16 = s by omega]
        exact old.record here time
      · have other : ¬ (i' = i ∧ t'.val = t.val) := fun both => same ⟨both.1, Fin.ext both.2⟩
        simp only [State.recorded, put_of_ne _ _ other]
        exact old
  | store i e below here => exact old
  | compare i t s here more => exact old
  | conclude i t s below here last => exact old
  | readStat i s below here low high => exact old

theorem scan_step (inv : Inv st) (move : Move st st') (i' : Proc job) (t' : Thread job) (s' : Nat)
    (inSizes : s' < job.params.sizes.length) (atReport : st'.pc i' t' = 16 * s' + 15)
    (scanning : st'.iter i' t' < job.threads) :
    ScanOk job.threads (st'.totalExecTimes i') (st'.iter i' t') (st'.largest i' t') := by
  cases move with
  | goTo i t point goes =>
      by_cases same : i' = i ∧ t' = t
      · obtain ⟨rfl, rfl⟩ := same
        simp only [State.goTo, put_same]
        exact ScanOk.start job.threads_pos _
      · rw [pc_goTo, if_neg same] at atReport
        simp only [State.goTo, put_of_ne _ _ same] at scanning ⊢
        exact inv.scan i' t' s' inSizes atReport scanning
  | record i t time s here control =>
      rw [pc_recorded] at atReport
      split_ifs at atReport with same
      · omega
      · simp only [State.recorded, State.goOn, State.goTo, put_of_ne _ _ same] at scanning ⊢
        by_cases team : i' = i
        · -- nobody records in a process where the maximum is being taken
          subst team
          have around := around_report inv.synced inSizes atReport t
          change _ ≤ st.pc i' t ∧ st.pc i' t ≤ _ at around
          omega
        · rw [put_row_of_ne _ _ _ team]
          exact inv.scan i' t' s' inSizes atReport scanning
  | store i e below here =>
      by_cases same : i' = i ∧ t' = leader job
      · obtain ⟨rfl, rfl⟩ := same
        have pc : st.pc i' (leader job) = 16 * s' + 15 := atReport
        omega
      · simp only [State.stored, put_of_ne _ _ same] at scanning ⊢
        exact inv.scan i' t' s' inSizes atReport scanning
  | compare i t s here more =>
      by_cases same : i' = i ∧ t' = t
      · obtain ⟨rfl, rfl⟩ := same
        simp only [State.compared, put_same]
        exact (inv.scan i' t' s' inSizes atReport (by omega)).compare more
      · simp only [State.compared, put_of_ne _ _ same] at scanning ⊢
        exact inv.scan i' t' s' inSizes atReport scanning
  | conclude i t s below here last =>
      by_cases same : i' = i ∧ t' = t
      · obtain ⟨rfl, rfl⟩ := same
        simp [State.concluded] at scanning
      · simp only [State.concluded, put_of_ne _ _ same] at scanning ⊢
        exact inv.scan i' t' s' inSizes atReport scanning
  | readStat i s below here low high =>
      by_cases same : i' = i ∧ t' = leader job
      · obtain ⟨rfl, rfl⟩ := same
        simp only [State.statRead, put_same] at scanning
        omega
      · simp only [State.statRead, put_of_ne _ _ same] at scanning ⊢
        exact inv.scan i' t' s' inSizes atReport scanning

theorem cleared_step (inv : Inv st) (move : Move st st') (i' : Proc job) :
    ClearedOk job.params.loops job.accs (st'.pc i' (leader job)) (st'.iter i' (leader job))
      (st'.cleared i') := by
  have old := inv.cleared i'
  cases move with
  | goTo i t point goes =>
      rw [pc_goTo]
      split_ifs with same
      · obtain ⟨rfl, rfl⟩ := same
        simp only [State.goTo, put_same]
        apply old.go goes.pc
        intro e below here
        exact ⟨(goes.reset e below here).1, (goes.reset e below here).2 rfl⟩
      · simp only [State.goTo, put_of_ne _ _ same]
        exact old
  | record i t time s here control =>
      rw [pc_recorded]
      split_ifs with same
      · obtain ⟨rfl, rfl⟩ := same
        simp only [State.recorded, State.goOn, State.goTo, put_same]
        apply old.go (.inr rfl)
        intro e _ atReset
        omega
      · simp only [State.recorded, State.goOn, State.goTo, put_of_ne _ _ same]
        exact old
  | store i e below here =>
      by_cases same : i' = i
      · subst same
        simp only [State.stored, put_same, put_row_same]
        exact old.store below here
      · simp only [State.stored, put_row_of_ne _ _ _ same]
        exact old
  | compare i t s here more =>
      by_cases same : i' = i ∧ leader job = t
      · obtain ⟨rfl, rfl⟩ := same
        exact old.other (by omega) _
      · simp only [State.compared, put_of_ne _ _ same]
        exact old
  | conclude i t s below here last =>
      by_cases same : i' = i ∧ leader job = t
      · obtain ⟨rfl, rfl⟩ := same
        exact old.other (by omega) _
      · simp only [State.concluded, put_of_ne _ _ same]
        exact old
  | readStat i s below here low high =>
      by_cases same : i' = i
      · subst same
        exact old.other (by omega) _
      · simp only [State.statRead, put_row_of_ne _ _ _ same]
        exact old

theorem computed_step (inv : Inv st) (move : Move st st') (i' : Proc job) (t' : Thread job)
    (s' : Nat)
    (v : Time) (found : st'.computed i' t' s' = some v) :
    MaxOf job.threads (st'.written i') s' v := by
  cases move with
  | goTo i t point goes => exact inv.computed i' t' s' v found
  | record i t time s here control =>
      have old := inv.computed i' t' s' v found
      apply old.congr
      intro u below
      by_cases same : i' = i ∧ u = t
      · obtain ⟨rfl, rfl⟩ := same
        -- the times of a size with a maximum are all written, and this one was not
        have other : s' ≠ st.pc i' t / 16 := by
          intro size
          obtain ⟨x, wrote, -⟩ := old.le t below
          rw [(inv.entries i' t).later s' (by omega)] at wrote
          cases wrote
        simp only [State.recorded, put_same, Function.update_of_ne other]
      · simp only [State.recorded, put_of_ne _ _ same]
  | store i e below here => exact inv.computed i' t' s' v found
  | compare i t s here more => exact inv.computed i' t' s' v found
  | conclude i t s below here last =>
      by_cases same : i' = i ∧ t' = t
      · obtain ⟨rfl, rfl⟩ := same
        simp only [State.concluded, put_same, show st.pc i' t' / 16 = s by omega] at found
        by_cases size : s' = s
        · subst size
          rw [Function.update_self] at found
          rw [← Option.some.inj found]
          exact (inv.scan i' t' s' below here (by omega)).maxOf last (inv.current below here)
        · rw [Function.update_of_ne size] at found
          exact inv.computed i' t' s' v found
      · simp only [State.concluded, put_of_ne _ _ same] at found
        exact inv.computed i' t' s' v found
  | readStat i s below here low high => exact inv.computed i' t' s' v found

theorem statsRead_step (inv : Inv st) (move : Move st st') (i' : Proc job) (s' k c : Nat)
    (found : st'.statsRead i' s' k = some c) : c = 2 * s' + 2 := by
  cases move with
  | goTo i t point goes => exact inv.statsRead i' s' k c found
  | record i t time s here control => exact inv.statsRead i' s' k c found
  | store i e below here => exact inv.statsRead i' s' k c found
  | compare i t s here more => exact inv.statsRead i' s' k c found
  | conclude i t s below here last => exact inv.statsRead i' s' k c found
  | readStat i s below here low high =>
      have old := inv.statsRead i' s' k c
      by_cases same : i' = i ∧ s' = st.pc i (leader job) / 16
      · obtain ⟨rfl, size⟩ := same
        simp only [State.statRead, ← size, put_same] at found
        by_cases acc : k = st.iter i' (leader job) - job.threads
        · rw [acc, Function.update_self] at found
          have loops : job.params.loops = 2 * job.params.sizes.length := rfl
          have count := inv.cleared i' (by omega) (st.iter i' (leader job) - job.threads) (by omega)
          rw [if_neg (by omega)] at count
          have := Option.some.inj found
          omega
        · rw [Function.update_of_ne acc] at found
          exact old found
      · simp only [State.statRead, put_of_ne _ _ same] at found
        exact old found

/-! ## All of it -/

theorem inv_init (zero : Time) : Inv (State.init zero : State job Time) where
  synced := Spmd.synchronised_start _ _
  entries := fun _ _ => EntryOk.start zero
  scan := fun _ _ _ _ _ _ => ScanOk.start job.threads_pos _
  cleared := fun _ => ClearedOk.start _ _
  computed := by
    intro i t s v found
    cases found
  statsRead := by
    intro i s k c found
    cases found

theorem Inv.move (inv : Inv st) (move : Move st st') : Inv st' where
  synced := synced_step inv move
  entries := entries_step inv move
  scan := scan_step inv move
  cleared := cleared_step inv move
  computed := computed_step inv move
  statsRead := statsRead_step inv move

theorem Reachable.inv {zero : Time} (reachable : Reachable zero st) : Inv st :=
  reachable.invariant Inv (inv_init zero) Inv.move

end Invariant

/-! ## Main theorem -/

/-- While a thread takes the maximum of `totalExecTimes` for size `s`, every entry is the
time that its thread wrote for size `s`, and no thread has written one for a later size.
So the maximum it takes is that of the times of size `s`, the same for all threads of the
process. The statistics that are read for size `s` were last cleared before its measured
loop, number `2 * s + 1`. -/
theorem reported_time_is_maximum (job : Job) (Time : Type) [LinearOrder Time] (zero : Time)
    (st : State job Time) (reachable : Reachable zero st) (i : Proc job) (t : Thread job)
    (s : Nat) :
    (∀ flag, st.instr i t = some (.report flag) → st.pc i t / 16 = s →
      ∀ u : Thread job, st.written i u s = some (st.totalExecTimes i u) ∧
        ∀ s', s < s' → st.written i u s' = none) ∧
    (∀ v, st.computed i t s = some v →
      (∀ u : Thread job, ∃ x, st.written i u s = some x ∧ x ≤ v) ∧
      ∃ u : Thread job, st.written i u s = some v) ∧
    (∀ (t' : Thread job) (v v' : Time), st.computed i t s = some v → st.computed i t' s = some v' →
      v = v') ∧
    (∀ k c, st.statsRead i s k = some c → c = 2 * s + 2) := by
  have inv := reachable.inv
  refine ⟨?_, ?_, ?_, ?_⟩
  · intro flag here size u
    obtain ⟨s₀, below, atReport, -⟩ := report_position here
    obtain rfl : s₀ = s := by omega
    have around := around_report inv.synced below atReport u
    refine ⟨inv.current below atReport u u.isLt, ?_⟩
    intro s' later
    exact (inv.entries i u).later s' (around.2.trans (by omega))
  · intro v found
    have max := inv.computed i t s v found
    obtain ⟨u, below, wrote⟩ := max.attained
    exact ⟨fun u => max.le u u.isLt, ⟨u, below⟩, wrote⟩
  · intro t' v v' found found'
    exact (inv.computed i t s v found).unique (inv.computed i t' s v' found')
  · intro k c found
    exact inv.statsRead i s k c found

/-- One process with two threads, one accumulator and one size. -/
def twoThreads : Job where
  params := ⟨0, 1, 1, [8]⟩
  procs := 1
  threads := 2
  accs := 1
  threads_pos := Nat.two_pos

/-- Both threads have taken the maximum of the times 5 and 3, and thread 0 has read an
accumulator that was cleared before the measured loop, which is the second one. -/
theorem reported_time_is_maximum_of_two :
    ∃ st : State twoThreads Nat, Reachable 0 st ∧
      st.computed ⟨0, by decide⟩ ⟨0, by decide⟩ 0 = some 5 ∧
      (∃ v, st.computed ⟨0, by decide⟩ ⟨1, by decide⟩ 0 = some v ∧ 5 = v) ∧
      (∃ x, st.written ⟨0, by decide⟩ 1 0 = some x ∧ x ≤ 5) ∧
      (∃ c, st.statsRead ⟨0, by decide⟩ 0 0 = some c ∧ c = 2) := by
  let proc : Proc twoThreads := ⟨0, by decide⟩
  let first : Thread twoThreads := ⟨0, by decide⟩
  let second : Thread twoThreads := ⟨1, by decide⟩
  let actions : List (Action twoThreads Nat) :=
    [.finish proc second, .sync proc second, .store proc, .finish proc first, .sync proc first,
      .sync proc first, .sync proc first, .sync proc first, .sync proc first, .sync proc second,
      .sync proc second, .sync proc second, .sync proc first, .finish proc first,
      .sync proc first, .sync proc second, .finish proc second, .sync proc second,
      .sync proc first, .sync proc first, .sync proc first, .sync proc first, .sync proc second,
      .sync proc second, .sync proc second, .sync proc first, .sync proc second,
      .finish proc second, .sync proc second, .store proc, .finish proc first, .sync proc first,
      .sync proc first, .sync proc first, .sync proc first, .sync proc first, .sync proc second,
      .sync proc second, .sync proc second, .sync proc first, .finish proc first,
      .record proc first 5, .sync proc first, .sync proc second, .finish proc second,
      .record proc second 3, .sync proc second, .sync proc first, .compare proc first,
      .conclude proc first, .readStat proc first, .finish proc first, .sync proc first,
      .sync proc second, .compare proc second, .conclude proc second]
  obtain ⟨st, run, computed, taken, read⟩ : ∃ st,
      Machine.runActions step (State.init 0) actions = some st ∧
        st.computed proc first 0 = some 5 ∧ (st.computed proc second 0).isSome = true ∧
        (st.statsRead proc 0 0).isSome = true :=
    Machine.exists_of_runActions (by decide +kernel)
  have reachable : Reachable 0 st := Machine.run_of_actions actions run
  obtain ⟨v, other⟩ := Option.isSome_iff_exists.mp taken
  obtain ⟨c, stats⟩ := Option.isSome_iff_exists.mp read
  have maximum := reported_time_is_maximum twoThreads Nat 0 st reachable proc first 0
  exact ⟨st, reachable, computed, ⟨v, other, maximum.2.2.1 second 5 v computed other⟩,
    (maximum.2.1 5 computed).1 second, c, stats, maximum.2.2.2 0 c stats⟩

end FabricBench.Timing
