import FabricBench.Lib.Variant
import FabricBench.Pmi1.Job
import Mathlib.Algebra.Order.BigOperators.Group.Finset

/-!
A job comes to its end.

Owns: the number that every step of a job lowers (`Job.left`), what the processes return
(`results_eq`), and the main facts: if all processes call as many barriers and every `get`
asks for what was put before an earlier barrier, every run is bounded, nobody waits for
ever, and every process returns the values that were put (`pmi1_job_completes`); and if
two processes do not call as many, the job ends in a deadlock
(`pmi1_uneven_deadlocks`).
-/

namespace FabricBench.Pmi1

open FabricBench.Lib
open FabricBench.Pmi (Key Value)

variable {n : Nat} {job : Job n} {s s' : JobState n}

/-! ## Every step lowers a number -/

/-- A reply has fewer characters than this, its end included. -/
def replyWeight : Nat := pmiuMaxline

/-- What is left to do for a process: its requests that have not been answered, the
characters on their way to it, and its requests that have not been taken. -/
def Job.leftFor (job : Job n) (s : JobState n) (r : Fin n) : Nat :=
  ((job.script r).length - (Bulk.answered s.history r).length) * replyWeight +
    ((job.replies s r).length - (heardIn (s.reads r)).length) +
    ((job.script r).length - (Bulk.made s.history r).length)

def Job.left (job : Job n) (s : JobState n) : Nat := ∑ r, job.leftFor s r

theorem Inv.length_answered_le (inv : Inv job s) (r : Fin n) :
    (Bulk.answered s.history r).length ≤ (job.script r).length := by
  rw [← Bulk.length_asked]
  exact (inv.asked_begins r).length_le

/-- One more answer is one more line. -/
theorem Inv.length_replies_of_answered (inv' : Inv job s') {r : Fin n} {request : Request}
    {found : Option Value}
    (answered : Bulk.answered s'.history r = Bulk.answered s.history r ++ [(request, found)]) :
    (job.replies s' r).length < (job.replies s r).length + replyWeight := by
  have gettable : GettableIfAny found := by
    refine inv'.gettable_whole r (request, found) (List.mem_append_left _ ?_)
    rw [answered]
    simp
  obtain ⟨tab, reply, -⟩ := job.manager.answers request found gettable
  have fits := reply.fits
  have longer : (job.replies s' r).length =
      (job.replies s r).length + ((job.manager.answer request found).length + 1) := by
    unfold Job.replies
    rw [answered, Manager.talkOf_append, replyText_append, List.length_append]
    simp [Manager.talkOf, Manager.talk, replyText, joinLines]
  rw [longer, replyWeight]
  omega

/-- An answer outweighs what it adds. -/
theorem Inv.leftFor_lt_of_answered (inv : Inv job s) (inv' : Inv job s') {r : Fin n}
    {request : Request} {found : Option Value}
    (answered : Bulk.answered s'.history r = Bulk.answered s.history r ++ [(request, found)])
    (made : Bulk.made s'.history r = Bulk.made s.history r) (reads : s'.reads r = s.reads r) :
    job.leftFor s' r < job.leftFor s r := by
  have longer := inv'.length_replies_of_answered answered
  have arrived := (inv.arrived r).begins.length_le
  have below := inv'.length_answered_le r
  have length : (Bulk.answered s'.history r).length = (Bulk.answered s.history r).length + 1 := by
    rw [answered, List.length_append, List.length_singleton]
  unfold Job.leftFor
  rw [length] at below ⊢
  rw [reads, made]
  have less : ((job.script r).length - (Bulk.answered s.history r).length) * replyWeight =
      ((job.script r).length - ((Bulk.answered s.history r).length + 1)) * replyWeight +
        replyWeight := by
    rw [← Nat.succ_mul]
    congr 1
    omega
  have weight : replyWeight = 1024 := rfl
  rw [less]
  omega

/-- Only what concerns a process counts for it. -/
theorem leftFor_congr {r : Fin n}
    (answered : Bulk.answered s'.history r = Bulk.answered s.history r)
    (made : Bulk.made s'.history r = Bulk.made s.history r) (reads : s'.reads r = s.reads r) :
    job.leftFor s' r = job.leftFor s r := by
  unfold Job.leftFor Job.replies
  rw [answered, made, reads]

theorem Inv.leftFor_lt_of_deliver (inv' : Inv job s') {r : Fin n} {first : Char} {rest : List Char}
    (history : s'.history = s.history)
    (heard : heardIn (s'.reads r) = heardIn (s.reads r) ++ first :: rest) :
    job.leftFor s' r < job.leftFor s r := by
  have arrived := (inv'.arrived r).begins.length_le
  have replies : job.replies s' r = job.replies s r := by
    unfold Job.replies
    rw [history]
  rw [replies, heard, List.length_append, List.length_cons] at arrived
  unfold Job.leftFor
  rw [replies, heard, List.length_append, List.length_cons, history]
  omega

theorem Inv.leftFor_lt_of_take (inv' : Inv job s') {r : Fin n} {request : Request}
    (answered : Bulk.answered s'.history r = Bulk.answered s.history r)
    (made : Bulk.made s'.history r = Bulk.made s.history r ++ [request])
    (reads : s'.reads r = s.reads r) : job.leftFor s' r < job.leftFor s r := by
  have below := (inv'.scripted.made r).length_le
  unfold Job.leftFor Job.replies
  rw [made, List.length_append, List.length_singleton] at below ⊢
  rw [answered, reads]
  omega

/-- Every step lowers what is left for one process. -/
theorem Inv.left_lt (inv : Inv job s) {action : JobAction n}
    (taken : Pmi1.step job s action = some s') : job.left s' < job.left s := by
  have inv' := inv.step taken
  suffices lower : ∃ r, job.leftFor s' r < job.leftFor s r ∧
      ∀ j, j ≠ r → job.leftFor s' j = job.leftFor s j by
    obtain ⟨r, less, others⟩ := lower
    refine Finset.sum_lt_sum (fun j _ => ?_) ⟨r, Finset.mem_univ r, less⟩
    by_cases same : j = r
    · rw [same]
      exact less.le
    · exact (others j same).le
  rcases step_cases taken with ⟨r, interrupts, first, rest, -, rfl⟩ | ⟨r, request, -, rfl⟩ |
    ⟨r, request, found, -, -, rfl⟩
  · have heard := heardIn_arrival (s.reads r) interrupts first rest
    rw [← Function.update_self r (s.reads r ++ arrival interrupts first rest) s.reads] at heard
    refine ⟨r, inv'.leftFor_lt_of_deliver rfl heard, fun j other => leftFor_congr rfl rfl ?_⟩
    exact Function.update_of_ne other _ _
  · have answered := Bulk.answered_ask s.history r request
    have made := Bulk.made_ask s.history r request
    exact ⟨r, inv'.leftFor_lt_of_take (answered r) ((made r).trans (if_pos rfl)) rfl,
      fun j other => leftFor_congr (answered j) ((made j).trans (if_neg other)) rfl⟩
  · have answered := Bulk.answered_tell s.history r request found
    have made := Bulk.made_tell s.history r request found
    exact ⟨r, inv.leftFor_lt_of_answered inv' ((answered r).trans (if_pos rfl)) (made r) rfl,
      fun j other => leftFor_congr ((answered j).trans (if_neg other)) (made j) rfl⟩

/-! ## What the processes return -/

/-- The result of a call, if every key has the value it is expected to have. -/
def Call.expected (expected : Key → Value) : Call → List Char
  | .get key _ => expected key
  | _ => []

/-- The results of calls. Behind `pmi_finalize` all fail. -/
def expectedResults (expected : Key → Value) : List Call → List (List Char)
  | [] => []
  | call :: others =>
      call.expected expected ::
        if call = .finalize then others.map Call.untouched else expectedResults expected others

theorem results_eq {expected : Key → Value} {calls : List Call} {answered : List Answered}
    (asked : answered.map Prod.fst = callRequests calls)
    (found : ∀ answer ∈ answered, ∀ key, answer.1 = .get key → answer.2 = some (expected key)) :
    results calls answered = expectedResults expected calls := by
  induction calls generalizing answered with
  | nil => rfl
  | cons call others inductionHypothesis =>
      rw [callRequests] at asked
      have own : call.result answered = call.expected expected := by
        cases call with
        | get key buffer =>
            obtain ⟨⟨_, value⟩, _, rfl, rfl, -⟩ := List.map_eq_cons_iff.mp asked
            have get := found _ List.mem_cons_self key rfl
            simp only at get
            simp [Call.result, Call.expected, get]
        | _ => cases answered <;> rfl
      rw [results, expectedResults, own]
      split_ifs at asked ⊢ with last
      · rfl
      · have rest : (answered.drop call.requests.length).map Prod.fst = callRequests others := by
          rw [List.map_drop, asked, List.drop_left]
        rw [inductionHypothesis rest fun answer member =>
          found answer (List.mem_of_mem_drop member)]

/-- Up to the end of the connection nothing fails. -/
theorem expectedResults_append {expected : Key → Value} {first : List Call}
    (open_ : Call.finalize ∉ first) (second : List Call) :
    expectedResults expected (first ++ second) =
      first.map (Call.expected expected) ++ expectedResults expected second := by
  induction first with
  | nil => rfl
  | cons call others inductionHypothesis =>
      have other : call ≠ .finalize := fun same => open_ (same ▸ List.mem_cons_self)
      have later := inductionHypothesis fun member => open_ (List.mem_cons_of_mem _ member)
      rw [List.cons_append, expectedResults, if_neg other, later]
      rfl

/-- The processes of a job find what they look for: nothing else is put under a key than
what is expected of it, and every key that is asked for has been put before a barrier that
comes earlier. -/
structure Job.Settled (job : Job n) (expected : Key → Value) : Prop where
  only : ∀ r key value, .put key value ∈ job.script r → value = expected key
  earlier : ∀ r before key, before ++ [.get key] <+: job.script r →
    ∃ r' before' value, before' ++ [.put key value] <+: job.script r' ∧
      Bulk.barriers Request.kind before' < Bulk.barriers Request.kind before

/-- Whatever has been answered so far was found as expected. -/
theorem Inv.found_expected (inv : Inv job s) {expected : Key → Value}
    (settled : job.Settled expected)
    {r : Fin n} {answer : Answered} (member : answer ∈ Bulk.answered s.history r) {key : Key}
    (isGet : answer.1 = .get key) : answer.2 = some (expected key) := by
  obtain ⟨before, after, split⟩ := List.append_of_mem member
  have begins : before ++ [answer] <+: Bulk.answered s.history r := ⟨after, by simp [split]⟩
  have kindEq : answer.1.kind = .get key := by
    rw [isGet]
    rfl
  have asked : before.map Prod.fst ++ [.get key] <+: job.script r := by
    have mapped := (begins.map Prod.fst).trans (inv.asked_begins r)
    rwa [List.map_append, List.map_singleton, isGet] at mapped
  obtain ⟨r', before', value, position, phase⟩ := settled.earlier r _ key asked
  have some_found := inv.scripted.found_some r before answer begins key kindEq r' before' _ position
    value rfl phase
  obtain ⟨found, isFound⟩ := Option.ne_none_iff_exists'.mp some_found
  obtain ⟨key', sameKey, j, request, put, isPut⟩ :=
    inv.scripted.found_put r answer member found isFound
  obtain rfl : key = key' := Bulk.Op.get.inj (kindEq.symm.trans sameKey)
  rw [kind_eq_put isPut] at put
  rw [isFound, settled.only j key found put]

/-- A process has returned, with these values. -/
def Job.Returns (job : Job n) (s : JobState n) (r : Fin n) (values : List (List Char)) : Prop :=
  ∃ c, job.outcome s r = .done values c

instance (job : Job n) (s : JobState n) (r : Fin n) (values : List (List Char)) :
    Decidable (job.Returns s r values) :=
  decidable_of_iff ((job.outcome s r).value? = some values) Outcome.value?_eq_some

/-- All processes have returned. -/
def Job.Returned (job : Job n) (s : JobState n) : Prop := ∀ r, ∃ values, job.Returns s r values

/-- Everything has been answered and has arrived. -/
def Job.Finished (job : Job n) (s : JobState n) (r : Fin n) : Prop :=
  heardIn (s.reads r) = job.replies s r ∧
    (Bulk.answered s.history r).length = (job.script r).length

/-- A process returns when it has been told everything, and not before. -/
theorem Inv.returns_iff (inv : Inv job s) {r : Fin n} {values : List (List Char)} :
    job.Returns s r values ↔ job.Finished s r ∧
      values = results (job.calls r) ((Bulk.answered s.history r).drop startRequests.length) := by
  by_cases all : heardIn (s.reads r) = job.replies s r
  · rcases (inv.written_of_all all).2 with ⟨more, c', blocked⟩ | ⟨length, c', done⟩
    · constructor
      · rintro ⟨c, done⟩
        exact nomatch blocked.symm.trans done
      · rintro ⟨⟨-, length⟩, -⟩
        exact absurd length more.ne
    · constructor
      · rintro ⟨c, done'⟩
        exact ⟨⟨all, length⟩, (Outcome.done.inj (done'.symm.trans done)).1⟩
      · rintro ⟨-, rfl⟩
        exact ⟨c', done⟩
  · obtain ⟨-, c', blocked⟩ := inv.written_of_part all
    constructor
    · rintro ⟨c, done⟩
      exact nomatch blocked.symm.trans done
    · rintro ⟨⟨arrived, -⟩, -⟩
      exact absurd arrived all

/-- Whoever returns has made all its requests. -/
theorem Inv.asked_of_returns (inv : Inv job s) {r : Fin n} {values : List (List Char)}
    (returns : job.Returns s r values) : Bulk.asked s.history r = job.script r := by
  have length := (inv.returns_iff.mp returns).1.2
  exact (inv.asked_begins r).eq_of_length (by rw [Bulk.length_asked, length])

/-- Whoever returns has got what was expected. -/
theorem Inv.values_expected (inv : Inv job s) {expected : Key → Value}
    (settled : job.Settled expected) {r : Fin n} {values : List (List Char)}
    (returns : job.Returns s r values) : values = expectedResults expected (job.calls r) := by
  have asked := inv.asked_of_returns returns
  obtain ⟨-, rfl⟩ := inv.returns_iff.mp returns
  refine results_eq ?_ fun answer member key isGet =>
    inv.found_expected settled (List.mem_of_mem_drop member) isGet
  rw [List.map_drop]
  change (Bulk.asked s.history r).drop startRequests.length = _
  rw [asked, Job.script, requests, List.drop_left]

/-! ## The end of a job -/

/-- All processes make the same number of barriers. -/
def Job.Even (job : Job n) : Prop :=
  ∀ r r', Bulk.barriers Request.kind (job.script r) = Bulk.barriers Request.kind (job.script r')

instance (job : Job n) : Decidable job.Even :=
  inferInstanceAs (Decidable (∀ r r',
    Bulk.barriers Request.kind (job.script r) = Bulk.barriers Request.kind (job.script r')))

/-- Nothing can happen only when everything has been answered and has arrived. -/
theorem Inv.final_iff_returned (inv : Inv job s) (even : job.Even) :
    Machine.Final (Pmi1.step job) s ↔ job.Returned s := by
  constructor
  · intro final r
    have arrived : ∀ r, heardIn (s.reads r) = job.replies s r := by
      intro r
      by_contra part
      obtain ⟨behind, whole⟩ := (inv.arrived r).begins
      cases behind with
      | nil => exact part (by simpa using whole)
      | cons first rest =>
          have way : job.undelivered s r = first :: rest := by
            rw [Job.undelivered, ← whole, List.drop_left]
          have stuck := final (.deliver r 0 1)
          simp [Pmi1.step, way, readMax] at stuck
    refine ⟨_, inv.returns_iff.mpr ⟨⟨arrived r, ?_⟩, rfl⟩⟩
    refine Nat.le_antisymm (inv.length_answered_le r) (Nat.le_of_not_lt fun left => ?_)
    obtain ⟨j, ⟨request, asks⟩ | ⟨request, found, waits, tells⟩⟩ :=
      inv.scripted.exists_step job.lawful even left
    · have stuck := final (.take j)
      rw [Pmi1.step, inv.pending_eq, if_pos (arrived j), asks] at stuck
      cases stuck
    · have stuck := final (.answer j found)
      simp [Pmi1.step, waits, tells] at stuck
  · intro returned action
    have finished : ∀ r, job.Finished s r := fun r =>
        (inv.returns_iff.mp (returned r).choose_spec).1
    cases action with
    | deliver r interrupts count =>
        have nothing : job.undelivered s r = [] := by
          rw [Job.undelivered, (finished r).1, List.drop_length]
        simp [Pmi1.step, nothing]
    | take r =>
        have asksNothing : Bulk.next job.script s.history r = none := by
          rw [Option.eq_none_iff_forall_not_mem]
          intro request asks
          obtain ⟨level, position⟩ := Bulk.next_eq_some.mp asks
          rw [level, (finished r).2, List.getElem?_eq_none (Nat.le_refl _)] at position
          cases position
        rw [Pmi1.step, inv.pending_eq, if_pos (finished r).1, asksNothing]
        rfl
    | answer r found =>
        have waitsNot : Bulk.outstanding s.history r = none := by
          rw [Bulk.outstanding, List.getElem?_eq_none_iff, (finished r).2]
          exact (inv.scripted.made r).length_le
        simp [Pmi1.step, waitsNot]

theorem variant_left (job : Job n) : Machine.Variant (Pmi1.step job) (Inv job) job.left where
  keeps inv := fun ⟨_, taken⟩ => inv.step taken
  lowers inv := fun ⟨_, taken⟩ => inv.left_lt taken

/-- The most steps that a job can take. -/
def Job.workload (job : Job n) : Nat :=
  ∑ r, ((job.script r).length * replyWeight + (job.script r).length)

theorem left_start (job : Job n) : job.left (JobState.start n) = job.workload := by
  refine Finset.sum_congr rfl fun r _ => ?_
  simp [Job.leftFor, Job.replies, JobState.start, Bulk.answered, Bulk.made, Manager.talkOf,
    replyText, joinLines, heardIn]

/-- What every run of an even job has: a bound, an end exactly when all have returned, and
a continuation to it. -/
theorem runs_end (even : job.Even) {actions : List (JobAction n)}
    (taken : Machine.runActions (Pmi1.step job) (JobState.start n) actions = some s) :
    Inv job s ∧ actions.length ≤ job.workload ∧
      (Machine.Final (Pmi1.step job) s ↔ job.Returned s) ∧
      ∃ more s', Machine.runActions (Pmi1.step job) s more = some s' ∧ job.Returned s' := by
  rw [← left_start]
  exact ⟨(variant_left job).inv_of_actions (inv_start job) taken,
    (variant_left job).completes (fun inv => inv.final_iff_returned even) (inv_start job) taken⟩

/-- In whatever order the manager takes the requests, and in whatever pieces and with
whatever interruptions its replies arrive: a job takes a bounded number of steps, it can
go no further exactly when every process has returned and it can always come to that, and
a process that has returned has the values that were put. -/
theorem pmi1_job_completes (job : Job n) (even : job.Even) {expected : Key → Value}
    (settled : job.Settled expected) (actions : List (JobAction n)) (s : JobState n)
    (taken : Machine.runActions (Pmi1.step job) (JobState.start n) actions = some s) :
    actions.length ≤ job.workload ∧ (Machine.Final (Pmi1.step job) s ↔ job.Returned s) ∧
      (∃ more s', Machine.runActions (Pmi1.step job) s more = some s' ∧ job.Returned s') ∧
      ∀ r values, job.Returns s r values → values = expectedResults expected (job.calls r) := by
  obtain ⟨inv, bound, final, more⟩ := runs_end even taken
  exact ⟨bound, final, more, fun r values returns => inv.values_expected settled returns⟩

/-- One request of a process, with its reply in one piece. -/
def turn {n : Nat} (r : Fin n) (found : Option Value) : List (JobAction n) :=
  [.take r, .answer r found, .deliver r 0 readMax]

def crossingKey (rank : Int) : Key := if rank = 0 then "a".toList else "b".toList

/-- Each of two processes puts a value and gets the other's. -/
def crossingCalls (rank : Int) : List Call :=
  [.put (crossingKey rank) "x".toList, .get (crossingKey (1 - rank)) [], .finalize]

theorem crossingCalls_fit (r : Fin 2) :
    ∀ request ∈ (crossingCalls (r : Nat)).flatMap Call.requests,
      request.Fits kvsManager.kvsname := by
  revert r
  decide

def crossing : Job 2 where
  toLaunch := pairLaunch
  program _ rank _ := crossingCalls rank
  manager := kvsManager
  server := Bulk.storing Request.kind
  lawful := lawful_storing_pair
  fits := crossingCalls_fit
  gettable r key value member := by
    obtain ⟨-, rfl⟩ : _ ∧ value = "x".toList := by
      simpa [crossingCalls, Call.requests] using member
    decide

theorem crossing_script (r : Fin 2) :
    crossing.script r = (startRequests ++ [.put (crossingKey (r : Nat)) "x".toList, .barrierIn]) ++
      [.get (crossingKey (1 - (r : Nat))), .finalize] :=
  rfl

theorem crossing_settled : crossing.Settled fun _ => "x".toList where
  only r key value member := by
    obtain ⟨-, rfl⟩ : _ ∧ value = "x".toList := by
      simpa [crossing_script, startRequests] using member
    rfl
  earlier r before key begins := by
    rw [crossing_script] at begins
    have asked : key = crossingKey (1 - (r : Nat)) := by
      simpa [startRequests] using begins.subset (List.mem_append_right before List.mem_cons_self)
    have behind := Bulk.begins_of_not_mem begins (by simp [startRequests])
    have passed : 1 ≤ Bulk.barriers Request.kind before := Bulk.barriers_mono Request.kind behind
    have other : ((1 - r : Fin 2) : Nat) = (1 - (r : Nat) : Int) := by omega
    refine ⟨1 - r, startRequests, "x".toList, ?_, passed⟩
    rw [crossing_script, asked, other]
    exact ⟨[.barrierIn, .get (crossingKey (1 - (1 - (r : Nat)))), .finalize], by simp⟩

/-- The first process has got the value of the second, which enters the barrier of its put
later and waits for a part of the reply to its get. -/
def crossingRun : List (JobAction 2) :=
  List.flatten [turn former none, turn former none, turn former none, turn former none,
    [.take former], turn latter none, turn latter none, turn latter none, turn latter none,
    turn latter none, [.answer former none, .deliver former 2 5, .deliver former 0 readMax],
    turn former (some "x".toList), turn former none,
    [.take latter, .answer latter (some "x".toList), .deliver latter 1 10]]

theorem crossingRun_reaches :
    ∃ s, Machine.runActions (Pmi1.step crossing) (JobState.start 2) crossingRun = some s ∧
      crossing.Returns s 0 [[], "x".toList, []] ∧ crossing.undelivered s 1 ≠ [] :=
  Machine.exists_of_runActions (by decide +kernel)

/-- The second process gets its value too, once the reply has arrived. -/
theorem pmi1_job_completes_crossing :
    ∃ s, Machine.runActions (Pmi1.step crossing) (JobState.start 2) crossingRun = some s ∧
      crossing.undelivered s 1 ≠ [] ∧ crossing.Returns s 0 [[], "x".toList, []] ∧
      ∃ more s', Machine.runActions (Pmi1.step crossing) s more = some s' ∧
        ∀ r, crossing.Returns s' r [[], "x".toList, []] := by
  obtain ⟨s, taken, returns, onTheWay⟩ := crossingRun_reaches
  have even : crossing.Even := by decide
  obtain ⟨-, -, ⟨more, s', rest, returned⟩, -⟩ :=
    pmi1_job_completes crossing even crossing_settled crossingRun s taken
  refine ⟨s, taken, onTheWay, returns, more, s', rest, fun r => ?_⟩
  obtain ⟨-, -, -, values⟩ := pmi1_job_completes crossing even crossing_settled _ s'
    (Machine.runActions_trans taken rest)
  obtain ⟨results, returnsLater⟩ := returned r
  rw [values r results returnsLater] at returnsLater
  exact returnsLater

/-- `pmi_put` and `pmi_barrier` are collective: if two processes enter different numbers of
barriers, those of the puts included, they never both return, and every run can be
continued to a state in which nothing can happen any more. -/
theorem pmi1_uneven_deadlocks (job : Job n) (r r' : Fin n)
    (uneven : Bulk.barriers Request.kind (job.script r) ≠
      Bulk.barriers Request.kind (job.script r'))
    (actions : List (JobAction n)) (s : JobState n)
    (taken : Machine.runActions (Pmi1.step job) (JobState.start n) actions = some s) :
    (∀ values values', ¬ (job.Returns s r values ∧ job.Returns s r' values')) ∧
      ∃ more s', Machine.runActions (Pmi1.step job) s more = some s' ∧
        Machine.Final (Pmi1.step job) s' ∧ ¬ job.Returned s' := by
  have variant := variant_left job
  have inv : Inv job s := variant.inv_of_actions (inv_start job) taken
  have never : ∀ {s}, Inv job s →
      ∀ values values', ¬ (job.Returns s r values ∧ job.Returns s r' values') := by
    rintro s inv values values' ⟨returns, returns'⟩
    apply uneven
    refine Nat.le_antisymm ?_ ?_
    · rw [← inv.asked_of_returns returns]
      exact (inv.scripted.even r r').trans (Bulk.barriers_mono _ (inv.scripted.made r'))
    · rw [← inv.asked_of_returns returns']
      exact (inv.scripted.even r' r).trans (Bulk.barriers_mono _ (inv.scripted.made r))
  refine ⟨never inv, ?_⟩
  obtain ⟨more, s', rest, final⟩ := variant.exists_final inv
  refine ⟨more, s', rest, final, fun returned => ?_⟩
  obtain ⟨values, returns⟩ := returned r
  obtain ⟨values', returns'⟩ := returned r'
  exact never (variant.inv_of_actions inv rest) values values' ⟨returns, returns'⟩

/-- Only the first of two processes has a context. -/
def lopsidedCalls (rank : Int) : List Call :=
  if rank = 0 then [.put "a".toList "x".toList, .finalize] else [.finalize]

theorem lopsidedCalls_fit (r : Fin 2) :
    ∀ request ∈ (lopsidedCalls (r : Nat)).flatMap Call.requests,
      request.Fits kvsManager.kvsname := by
  revert r
  decide

def lopsided : Job 2 where
  toLaunch := pairLaunch
  program _ rank _ := lopsidedCalls rank
  manager := kvsManager
  server := Bulk.storing Request.kind
  lawful := lawful_storing_pair
  fits := lopsidedCalls_fit
  gettable r key value member := by
    obtain rfl | rfl : r = 0 ∨ r = 1 := by omega
    · obtain ⟨-, rfl⟩ : _ ∧ value = "x".toList := by
        simpa [lopsidedCalls, Call.requests] using member
      decide
    · simp [lopsidedCalls, Call.requests] at member

/-- The second process has returned, and the first is in the barrier of its put. -/
def lopsidedRun : List (JobAction 2) :=
  List.flatten [turn former none, turn latter none, turn latter none, turn latter none,
    turn former none, turn former none, turn latter none, turn former none, [.take former]]

theorem lopsidedRun_reaches :
    ∃ s, Machine.runActions (Pmi1.step lopsided) (JobState.start 2) lopsidedRun = some s ∧
      lopsided.Returns s 1 [[]] :=
  Machine.exists_of_runActions (by decide +kernel)

theorem pmi1_uneven_deadlocks_lopsided :
    ∃ s, Machine.runActions (Pmi1.step lopsided) (JobState.start 2) lopsidedRun = some s ∧
      lopsided.Returns s 1 [[]] ∧ (∀ values, ¬ lopsided.Returns s 0 values) ∧
      ∃ more s', Machine.runActions (Pmi1.step lopsided) s more = some s' ∧
        Machine.Final (Pmi1.step lopsided) s' ∧ ¬ lopsided.Returned s' := by
  obtain ⟨s, taken, returns⟩ := lopsidedRun_reaches
  obtain ⟨never, deadlock⟩ := pmi1_uneven_deadlocks lopsided 0 1 (by decide) lopsidedRun s taken
  exact ⟨s, taken, returns, fun values first => never values [[]] ⟨first, returns⟩, deadlock⟩

end FabricBench.Pmi1
