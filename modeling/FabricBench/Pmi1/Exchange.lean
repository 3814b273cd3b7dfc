import FabricBench.Backend.Libfabric
import FabricBench.Backend.Verbs
import FabricBench.Pmi1.Completion
import FabricBench.PingpongPrg.Setup

/-!
The exchange of addresses over the connections to the process manager.

Owns: the calls that the benchmarks make of `pmi_wrapper.c` (`Exchange.calls`), and the
fact that every process reads the addresses of its target from them, whatever the order of
requests and the pieces in which replies arrive. For `pingpong_prg` these are the
addresses that its setup reads from a store in which all puts are visible.
-/

namespace FabricBench.Pmi1

open FabricBench.Lib
open FabricBench.Lib.Memory (Mem)
open FabricBench.Pmi (Key Value Space AddrFormat cInt)

variable {α : Type}

/-- What is printed by a format can be sent. -/
structure SendableFormat (format : AddrFormat α) : Prop where
  key : ∀ rank id, Sendable (format.putKey rank id)
  value : ∀ address, Sendable (format.putValue address)

/-- An exchange of `num` addresses of each rank. On the way a process enters
`deviceBarriers` barriers in `init_device`, and `loopBarriers` with its threads. -/
structure Exchange (α : Type) where
  format : AddrFormat α
  faithful : format.Faithful
  sendable : SendableFormat format
  address : Nat → Nat → α
  num : Nat
  num_fits : num ≤ 2 ^ 31
  deviceBarriers : Nat
  loopBarriers : Nat

namespace Exchange

variable (x : Exchange α)

/-- The calls up to `flush_ctx_addr`. -/
def putCalls (rank : Nat) : List Call :=
  List.replicate x.deviceBarriers .barrier ++
    (x.format.puts x.address x.num rank).map (fun entry => .put entry.1 entry.2)

/-- The loop of `get_ctx_addr`, with what is in its array before. -/
def getCalls (target : Nat) (buffer : Nat → List Char) : List Call :=
  (List.range x.num).map fun id => .get (x.format.getKey (cInt target) (cInt id)) (buffer id)

/-- The calls of a benchmark up to the barrier of `comm_free`. -/
def openCalls (size rank : Nat) (buffer : Nat → List Char) : List Call :=
  x.putCalls rank ++ (.barrier :: x.getCalls (targetRank size rank) buffer) ++
    List.replicate (x.loopBarriers + 1) .barrier

/-- All calls, to the end of `comm_free`. -/
def calls (size rank : Nat) (buffer : Nat → List Char) : List Call :=
  x.openCalls size rank buffer ++ [.finalize]

/-! ## Requests -/

theorem requests_barriers (k : Nat) :
    (List.replicate k Call.barrier).flatMap Call.requests = List.replicate k .barrierIn := by
  induction k with
  | zero => rfl
  | succ k inductionHypothesis =>
      rw [List.replicate_succ, List.flatMap_cons, inductionHypothesis]
      rfl

theorem barriers_replicate (k : Nat) :
    Bulk.barriers Request.kind (List.replicate k Request.barrierIn) = k := by
  rw [Bulk.barriers, List.countP_replicate]
  exact if_pos rfl

theorem barriers_puts (entries : List (Key × Value)) :
    Bulk.barriers Request.kind
      ((entries.map fun entry => Call.put entry.1 entry.2).flatMap Call.requests) =
        entries.length := by
  induction entries with
  | nil => rfl
  | cons entry others inductionHypothesis =>
      rw [List.map_cons, List.flatMap_cons, Bulk.barriers_append, inductionHypothesis,
        List.length_cons, Nat.add_comm]
      rfl

theorem barriers_gets {ι : Type} (key : ι → Key) (buffer : ι → List Char) (ids : List ι) :
    Bulk.barriers Request.kind
      ((ids.map fun id => Call.get (key id) (buffer id)).flatMap Call.requests) = 0 := by
  induction ids with
  | nil => rfl
  | cons id others inductionHypothesis =>
      rw [List.map_cons, List.flatMap_cons, Bulk.barriers_append, inductionHypothesis]
      rfl

/-- The requests before the flush. -/
def putRequests (rank : Nat) : List Request :=
  startRequests ++ (x.putCalls rank).flatMap Call.requests

/-- As many barriers as there are puts, and those of `init_device`. -/
theorem barriers_putRequests (rank : Nat) :
    Bulk.barriers Request.kind (x.putRequests rank) = x.deviceBarriers + x.num := by
  rw [putRequests, putCalls, List.flatMap_append, Bulk.barriers_append, Bulk.barriers_append,
    requests_barriers, barriers_replicate, barriers_puts]
  have start : Bulk.barriers Request.kind startRequests = 0 := by decide
  simp [start, AddrFormat.puts]

theorem finalize_not_mem_openCalls (size rank : Nat) (buffer : Nat → List Char) :
    Call.finalize ∉ x.openCalls size rank buffer := by
  simp [openCalls, putCalls, getCalls]

/-- The flush, what is got behind it, and the rest. -/
theorem requests_calls (size rank : Nat) (buffer : Nat → List Char) :
    requests (x.calls size rank buffer) = (x.putRequests rank ++ [.barrierIn]) ++
      ((x.getCalls (targetRank size rank) buffer).flatMap Call.requests ++
        (List.replicate (x.loopBarriers + 1) .barrierIn ++ [.finalize])) := by
  rw [requests, calls, callRequests_append (x.finalize_not_mem_openCalls size rank buffer),
    openCalls, List.flatMap_append, List.flatMap_append, List.flatMap_cons, requests_barriers,
      putRequests]
  simp [callRequests, Call.requests]

/-- The number of barriers does not depend on the rank. -/
theorem barriers_calls (size rank : Nat) (buffer : Nat → List Char) :
    Bulk.barriers Request.kind (requests (x.calls size rank buffer)) =
      x.deviceBarriers + x.num + 1 + (x.loopBarriers + 1) := by
  have flush : Bulk.barriers Request.kind [.barrierIn] = 1 := by decide
  have last : Bulk.barriers Request.kind [.finalize] = 0 := by decide
  rw [requests_calls, Bulk.barriers_append, Bulk.barriers_append, Bulk.barriers_append,
    Bulk.barriers_append, barriers_putRequests, flush, getCalls, barriers_gets, barriers_replicate,
      last]
  omega

/-! ## Keys and values -/

variable {x}

theorem mem_puts {rank : Nat} {key : Key} {value : Value} :
    (key, value) ∈ x.format.puts x.address x.num rank ↔
      ∃ id, id < x.num ∧ x.format.putKey (cInt rank) (cInt id) = key ∧
        x.format.putValue (x.address rank id) = value := by
  simp [AddrFormat.puts, AddrFormat.putCtxAddr]

/-- Only the entries of the format are put. -/
theorem put_mem_calls {size rank : Nat} {buffer : Nat → List Char} {key : Key} {value : Value}
    (member : .put key value ∈ (x.calls size rank buffer).flatMap Call.requests) :
    (key, value) ∈ x.format.puts x.address x.num rank := by
  obtain ⟨call, within, asks⟩ := List.mem_flatMap.mp member
  cases call with
  | put key' value' =>
      obtain ⟨rfl, rfl⟩ : key = key' ∧ value = value' := by simpa [Call.requests] using asks
      simp only [calls, openCalls, putCalls, getCalls, List.mem_append, List.mem_cons, List.mem_map,
        List.mem_replicate] at within
      simpa using within
  | barrier => exact absurd asks (by simp [Call.requests])
  | get key' buffer' => exact absurd asks (by simp [Call.requests])
  | finalize => exact absurd asks (by simp [Call.requests])

theorem get_mem_calls {size rank : Nat} {buffer : Nat → List Char} {key : Key}
    (member : .get key ∈ (x.calls size rank buffer).flatMap Call.requests) :
    ∃ id, id < x.num ∧ key = x.format.putKey (cInt (targetRank size rank)) (cInt id) := by
  obtain ⟨call, within, asks⟩ := List.mem_flatMap.mp member
  cases call with
  | get key' buffer' =>
      obtain rfl : key = key' := by simpa [Call.requests] using asks
      simp only [calls, openCalls, putCalls, getCalls, List.mem_append, List.mem_cons, List.mem_map,
        List.mem_replicate] at within
      obtain ⟨id, below, same, -⟩ : ∃ id, id < x.num ∧
          x.format.getKey (cInt (targetRank size rank)) (cInt id) = key ∧ buffer id = buffer' := by
        simpa using within
      exact ⟨id, below, by rw [← same, x.faithful.same_key]⟩
  | put key' value' => exact absurd asks (by simp [Call.requests])
  | barrier => exact absurd asks (by simp [Call.requests])
  | finalize => exact absurd asks (by simp [Call.requests])

theorem get_not_mem_putRequests {rank : Nat} {key : Key} : .get key ∉ x.putRequests rank := by
  intro member
  rcases List.mem_append.mp member with start | later
  · exact absurd start (by simp [startRequests])
  · obtain ⟨call, within, asks⟩ := List.mem_flatMap.mp later
    rcases List.mem_append.mp within with barrier | put
    · rw [List.eq_of_mem_replicate barrier] at asks
      exact absurd asks (by simp [Call.requests])
    · obtain ⟨entry, -, rfl⟩ := List.mem_map.mp put
      exact absurd asks (by simp [Call.requests])

theorem gettable_putValue (address : α) : Gettable (x.format.putValue address) := by
  refine ⟨x.sendable.value address, ?_⟩
  have fits := (x.faithful.value_fits address).2
  exact fits

/-- The requests of an exchange fit the buffers of a line. -/
theorem fits_calls (m : Manager) {size rank : Nat} {buffer : Nat → List Char} {request : Request}
    (member : request ∈ (x.calls size rank buffer).flatMap Call.requests) :
    request.Fits m.kvsname := by
  have nameSendable : Sendable m.kvsname := m.kvsname_gettable.1
  have nameShort : m.kvsname.length < 255 := m.kvsname_gettable.2
  have keyShort : ∀ r id, (x.format.putKey r id).length < 255 := fun r id =>
    (x.faithful.key_fits r id).2
  have puts : Sendable "put".toList ∧ Sendable "get".toList := by decide
  cases request with
  | init => exact m.fits_const.1
  | getMaxes => exact m.fits_const.2.1
  | getMyKvsname => exact m.fits_const.2.2.1
  | barrierIn => exact m.fits_const.2.2.2.1
  | finalize => exact m.fits_const.2.2.2.2
  | put key value =>
      obtain ⟨id, below, rfl, rfl⟩ := mem_puts.mp (put_mem_calls member)
      have valueShort : (x.format.putValue (x.address rank id)).length < 255 :=
        (gettable_putValue _).2
      have keyShort := keyShort (cInt rank) (cInt id)
      refine ⟨?_, ?_⟩
      · intro pair within
        simp only [Request.pairs, List.mem_cons, List.not_mem_nil, or_false] at within
        rcases within with rfl | rfl | rfl | rfl
        · exact puts.1
        · exact nameSendable
        · exact x.sendable.key _ _
        · exact x.sendable.value _
      · simp [Request.line, Request.pairs, joinPairs, pmiuMaxline]
        omega
  | get key =>
      obtain ⟨id, below, rfl⟩ := get_mem_calls member
      have keyShort := keyShort (cInt (targetRank size rank)) (cInt id)
      refine ⟨?_, ?_⟩
      · intro pair within
        simp only [Request.pairs, List.mem_cons, List.not_mem_nil, or_false] at within
        rcases within with rfl | rfl | rfl
        · exact puts.2
        · exact nameSendable
        · exact x.sendable.key _ _
      · simp [Request.line, Request.pairs, joinPairs, pmiuMaxline]
        omega

variable (x)

/-- The job of an exchange. -/
def job {n : Nat} (launch : Launch n) (m : Manager) {server : Bulk.Server (Fin n) Request Value}
    (lawful : Bulk.Lawful Request.kind server) (buffer : Nat → Nat → List Char) : Job n where
  toLaunch := launch
  program r rank size := x.calls size.toNat rank.toNat (buffer r)
  manager := m
  server := server
  lawful := lawful
  fits _ _ member := fits_calls m member
  gettable r key value member := by
    obtain ⟨id, -, -, rfl⟩ := mem_puts.mp (put_mem_calls member)
    exact gettable_putValue _

/-- The value that some rank puts under a key. -/
def expected (n : Nat) (key : Key) : Value :=
  (((List.range n).flatMap (x.format.puts x.address x.num)).find? fun entry =>
    entry.1 = key).elim []
    Prod.snd

variable {n : Nat} {launch : Launch n} {m : Manager} {server : Bulk.Server (Fin n) Request Value}
  {lawful : Bulk.Lawful Request.kind server} {buffer : Nat → Nat → List Char}

theorem even_job : (x.job launch m lawful buffer).Even := by
  intro r r'
  exact (x.barriers_calls n r (buffer r)).trans (x.barriers_calls n r' (buffer r')).symm

variable {x}

/-- No two contexts put different values under one key. -/
theorem value_unique (ranksFit : n ≤ 2 ^ 31) {rank rank' : Nat} (below : rank < n)
    (below' : rank' < n)
    {key : Key} {value value' : Value} (member : (key, value) ∈ x.format.puts x.address x.num rank)
    (member' : (key, value') ∈ x.format.puts x.address x.num rank') : value = value' := by
  have numFits := x.num_fits
  obtain ⟨id, idBelow, rfl, rfl⟩ := mem_puts.mp member
  obtain ⟨id', idBelow', sameKey, rfl⟩ := mem_puts.mp member'
  obtain ⟨ranks, ids⟩ := x.faithful.key_injective _ _ _ _ sameKey
  obtain rfl := FabricBench.Pmi.cInt_injective (by omega) (by omega) ranks
  obtain rfl := FabricBench.Pmi.cInt_injective (by omega) (by omega) ids
  rfl

theorem expected_eq (ranksFit : n ≤ 2 ^ 31) {rank : Nat} (below : rank < n) {key : Key}
    {value : Value}
    (member : (key, value) ∈ x.format.puts x.address x.num rank) : x.expected n key = value := by
  have found : ((List.range n).flatMap (x.format.puts x.address x.num)).find?
      (fun entry => entry.1 = key) ≠ none := by
    intro absent
    rw [List.find?_eq_none] at absent
    exact absent (key, value) (List.mem_flatMap.mpr ⟨rank, List.mem_range.mpr below, member⟩)
      (by simp)
  obtain ⟨⟨key', value'⟩, isFound⟩ := Option.ne_none_iff_exists'.mp found
  obtain rfl : key' = key := by simpa using List.find?_some isFound
  obtain ⟨rank', within, member'⟩ := List.mem_flatMap.mp (List.mem_of_find?_eq_some isFound)
  rw [expected, isFound]
  exact value_unique ranksFit (List.mem_range.mp within) below member' member

theorem expected_putKey (ranksFit : n ≤ 2 ^ 31) {rank id : Nat} (below : rank < n)
    (idBelow : id < x.num) :
    x.expected n (x.format.putKey (cInt rank) (cInt id)) = x.format.putValue (x.address rank id) :=
  expected_eq ranksFit below (mem_puts.mpr ⟨id, idBelow, rfl, rfl⟩)

/-- The flush comes before every get. -/
theorem flushed_before_get {size rank : Nat} {buffer : Nat → List Char} {before : List Request}
    {key : Key} (begins : before ++ [.get key] <+: requests (x.calls size rank buffer)) :
    x.deviceBarriers + x.num < Bulk.barriers Request.kind before := by
  have flushed : x.putRequests rank ++ [.barrierIn] <+: before := by
    rw [requests_calls] at begins
    refine Bulk.begins_of_not_mem begins ?_
    rw [List.mem_append]
    rintro (inPuts | last)
    · exact get_not_mem_putRequests inPuts
    · exact absurd last (by simp)
  have many : Bulk.barriers Request.kind (x.putRequests rank ++ [.barrierIn]) ≤
      Bulk.barriers Request.kind before := Bulk.barriers_mono _ flushed
  have one : Bulk.barriers Request.kind [.barrierIn] = 1 := rfl
  rw [Bulk.barriers_append, barriers_putRequests, one] at many
  omega

/-- Every put comes before the flush. -/
theorem exists_put_before_flush (size : Nat) (rank : Nat) (buffer : Nat → List Char) {id : Nat}
    (below : id < x.num) :
    ∃ before, before ++ [.put (x.format.putKey (cInt rank) (cInt id))
        (x.format.putValue (x.address rank id))] <+: requests (x.calls size rank buffer) ∧
      Bulk.barriers Request.kind before ≤ x.deviceBarriers + x.num := by
  have put : .put (x.format.putKey (cInt rank) (cInt id)) (x.format.putValue (x.address rank id)) ∈
      x.putRequests rank := by
    refine List.mem_append_right _ (List.mem_flatMap.mpr ⟨.put _ _, ?_, List.mem_cons_self⟩)
    exact List.mem_append_right _ (List.mem_map.mpr ⟨_, mem_puts.mpr ⟨id, below, rfl, rfl⟩, rfl⟩)
  obtain ⟨before, after, split⟩ := List.append_of_mem put
  refine ⟨before, ?_, ?_⟩
  · rw [requests_calls, split]
    refine List.IsPrefix.trans ⟨after, ?_⟩ ((List.prefix_append _ [.barrierIn]).trans
      (List.prefix_append _ _))
    rw [List.append_assoc, List.singleton_append]
  · rw [← x.barriers_putRequests rank, split]
    exact Bulk.barriers_mono _ (List.prefix_append _ _)

theorem settled_job (ranksFit : n ≤ 2 ^ 31) :
    (x.job launch m lawful buffer).Settled (x.expected n) where
  only r key value member := by
    rcases mem_requests member with start | later
    · exact absurd start (by simp [startRequests])
    · exact (expected_eq ranksFit r.isLt (put_mem_calls later)).symm
  earlier r before key begins := by
    obtain ⟨id, idBelow, rfl⟩ : ∃ id, id < x.num ∧
        key = x.format.putKey (cInt (targetRank n r)) (cInt id) := by
      rcases mem_requests (begins.subset (List.mem_append_right before List.mem_cons_self)) with
        start | later
      · exact absurd start (by simp [startRequests])
      · exact get_mem_calls later
    have target : targetRank n r < n := targetRank_lt r.isLt
    obtain ⟨before', position, few⟩ :=
      exists_put_before_flush n (targetRank n r) (buffer (targetRank n r)) idBelow
    exact ⟨⟨targetRank n r, target⟩, before', _, position,
      Nat.lt_of_le_of_lt few (flushed_before_get begins)⟩

/-! ## What is read -/

/-- Where the result of `get_ctx_addr` for a context is among the results of the calls. -/
def position (x : Exchange α) (id : Nat) : Nat := x.deviceBarriers + x.num + 1 + id

theorem openCalls_position (x : Exchange α) (size rank : Nat) (buffer : Nat → List Char) {id : Nat}
    (below : id < x.num) :
    (x.openCalls size rank buffer)[x.position id]? =
      some (.get (x.format.getKey (cInt (targetRank size rank)) (cInt id)) (buffer id)) := by
  have putLength : (x.putCalls rank).length = x.deviceBarriers + x.num := by
    simp [putCalls, AddrFormat.puts]
  have getLength : (x.getCalls (targetRank size rank) buffer).length = x.num := by simp [getCalls]
  have behind : x.position id - (x.putCalls rank).length = id + 1 := by
    rw [putLength, position]
    omega
  rw [openCalls, List.getElem?_append_left, List.getElem?_append_right, behind,
    List.getElem?_cons_succ]
  · simp [getCalls, below]
  · rw [putLength, position]
    omega
  · rw [List.length_append, List.length_cons, putLength, getLength, position]
    omega

/-- A process that has returned has read the addresses of its target. -/
theorem address_of_returns (x : Exchange α) (ranksFit : n ≤ 2 ^ 31) {s : JobState n}
    (inv : Inv (x.job launch m lawful buffer) s) {r : Fin n} {values : List (List Char)}
    (returns : (x.job launch m lawful buffer).Returns s r values) {id : Nat} (below : id < x.num)
    (stack : Mem) :
    (values[x.position id]?).map (x.format.getValue stack) =
      some (x.address (targetRank n r) id) := by
  have results : values[x.position id]? = some (x.expected n
      (x.format.getKey (cInt (targetRank n r)) (cInt id))) := by
    have opened := x.finalize_not_mem_openCalls n r (buffer r)
    rw [inv.values_expected (settled_job ranksFit) returns]
    change (expectedResults (x.expected n) (x.openCalls n r (buffer r) ++ [.finalize]))[_]? = _
    have call := x.openCalls_position n r (buffer r) below
    rw [expectedResults_append opened, List.getElem?_append_left, List.getElem?_map, call]
    · rfl
    · rw [List.length_map]
      exact (List.getElem?_eq_some_iff.mp call).1
  rw [results, Option.map_some, x.faithful.same_key,
    expected_putKey ranksFit (targetRank_lt r.isLt) below, x.faithful.round_trip]

end Exchange

/-! ## The two backends -/

theorem sendable_sprintf {format : String} {args : List Stdio.Arg}
    (lits : Sendable (Stdio.literals (Stdio.parseFormat none format.toList)))
    (numbers : ∀ s, .str s ∉ args) : Sendable (Stdio.sprintf format args) := by
  refine Stdio.forall_mem_print ?_ (by decide) _ _ lits fun s member => absurd member (numbers s)
  intro c digit
  refine ⟨?_, ?_⟩
  · have special : ∀ d, Stdio.isHexDigit d = false → c ≠ d := by
      rintro d other rfl
      exact absurd (digit.symm.trans other) (by decide)
    simp [valueChar, special ' ' (by decide), special '\n' (by decide)]
  · rintro rfl
    exact absurd digit (by decide)

theorem sendable_verbs : SendableFormat Verbs.addrFormat where
  key _ _ := sendable_sprintf (by decide) (by simp)
  value _ := sendable_sprintf (by decide) (by simp)

theorem sendable_libfabric : SendableFormat Libfabric.addrFormat where
  key _ _ := sendable_sprintf (by decide) (by simp)
  value _ := sendable_sprintf (by decide) (by simp)

/-! ## Every exchange -/

/-- In whatever order the manager takes and answers the requests and in whatever pieces its
replies arrive, an exchange of addresses comes to its end and not before every process has
returned, and a process that has returned has read exactly the addresses that its target
put. -/
theorem address_exchange_over_wire (x : Exchange α) {n : Nat} (ranksFit : n ≤ 2 ^ 31)
    (launch : Launch n) (m : Manager) {server : Bulk.Server (Fin n) Request Value}
    (lawful : Bulk.Lawful Request.kind server) (buffer : Nat → Nat → List Char)
    (actions : List (JobAction n)) (s : JobState n)
    (taken : Machine.runActions (step (x.job launch m lawful buffer)) (JobState.start n) actions =
      some s) :
    actions.length ≤ (x.job launch m lawful buffer).workload ∧
      (Machine.Final (step (x.job launch m lawful buffer)) s ↔
        (x.job launch m lawful buffer).Returned s) ∧
      (∃ more s', Machine.runActions (step (x.job launch m lawful buffer)) s more = some s' ∧
        (x.job launch m lawful buffer).Returned s') ∧
      ∀ r values, (x.job launch m lawful buffer).Returns s r values → ∀ id, id < x.num → ∀ stack,
        (values[x.position id]?).map (x.format.getValue stack) =
          some (x.address (targetRank n r) id) := by
  obtain ⟨inv, bound, final, more⟩ := runs_end x.even_job taken
  exact ⟨bound, final, more, fun r values returns id below stack =>
    x.address_of_returns ranksFit inv returns below stack⟩

/-- One queue pair on each of two ranks. -/
def verbsPair : Exchange Verbs.ConnInfo where
  format := Verbs.addrFormat
  faithful := Verbs.addrFormat_faithful
  sendable := sendable_verbs
  address rank _ := ⟨0xfffffffe#32, BitVec.ofNat 16 (rank + 7)⟩
  num := 1
  num_fits := by decide
  deviceBarriers := 0
  loopBarriers := 4

/-- Its job, with a manager that has one store. -/
def verbsPairJob : Job 2 :=
  verbsPair.job pairLaunch kvsManager lawful_storing_pair fun _ _ => []

/-- The second rank is slower: the first has read a part of the second's address when the
second has asked for the first's. -/
def verbsPairRun : List (JobAction 2) :=
  List.flatten [turn former none, turn former none, turn former none, turn former none,
    [.take former], turn latter none, turn latter none, turn latter none, turn latter none,
    turn latter none, [.take latter], [.answer former none, .deliver former 0 readMax],
    turn former none,
    [.answer latter none, .deliver latter 1 3, .take former,
      .answer former (some (Verbs.addrFormat.putValue (verbsPair.address 1 0))),
      .deliver former 0 30, .deliver latter 0 readMax, .take latter]]

theorem verbsPairRun_reaches :
    ∃ s, Machine.runActions (step verbsPairJob) (JobState.start 2) verbsPairRun = some s ∧
      verbsPairJob.undelivered s 0 ≠ [] ∧
      Bulk.outstanding s.history 1 = some (.get (Verbs.addrFormat.getKey 0 0)) :=
  Machine.exists_of_runActions (by decide +kernel)

/-- From there both come to have each other's address. -/
theorem address_exchange_over_wire_verbsPair :
    ∃ s, Machine.runActions (step verbsPairJob) (JobState.start 2) verbsPairRun = some s ∧
      verbsPairJob.undelivered s 0 ≠ [] ∧
      ∃ more s', Machine.runActions (step verbsPairJob) s more = some s' ∧
        ∀ r : Fin 2, ∃ values, verbsPairJob.Returns s' r values ∧ ∀ stack,
          (values[2]?).map (Verbs.addrFormat.getValue stack) =
            some ⟨0xfffffffe#32, BitVec.ofNat 16 (1 - r.val + 7)⟩ := by
  obtain ⟨s, taken, onTheWay, -⟩ := verbsPairRun_reaches
  obtain ⟨-, -, ⟨more, s', rest, returned⟩, -⟩ := address_exchange_over_wire verbsPair (by decide)
    pairLaunch kvsManager lawful_storing_pair (fun _ _ => []) verbsPairRun s taken
  refine ⟨s, taken, onTheWay, more, s', rest, fun r => ?_⟩
  obtain ⟨-, -, -, addresses⟩ := address_exchange_over_wire verbsPair (by decide) pairLaunch
    kvsManager lawful_storing_pair (fun _ _ => []) _ s' (Machine.runActions_trans taken rest)
  obtain ⟨values, returns⟩ := returned r
  refine ⟨values, returns, fun stack => ?_⟩
  have target : ∀ r : Fin 2, targetRank 2 r = 1 - r.val := by decide
  have address := addresses r values returns 0 (by decide) stack
  rw [target] at address
  exact address

/-! ## `pingpong_prg` -/

section PingpongPrg

open FabricBench.PingpongPrg (exchangedAddr numCtxAddr puts getLoop getLoop_eq)

/-- What `main` of `pingpong_prg` exchanges on a backend. -/
def pingpongPrgExchange (b : Backend) (cfg : PingpongPrg.Config) (faithful : b.format.Faithful)
    (sendable : SendableFormat b.format) (numFits : numCtxAddr b cfg ≤ 2 ^ 31)
    (deviceBarriers loopBarriers : Nat) : Exchange b.Addr where
  format := b.format
  faithful := faithful
  sendable := sendable
  address := exchangedAddr b cfg
  num := numCtxAddr b cfg
  num_fits := numFits
  deviceBarriers := deviceBarriers
  loopBarriers := loopBarriers

/-- Four queue pairs and a port. -/
def smallDevices : Verbs.Devices :=
  ⟨fun rank object => BitVec.ofNat 32 (100 * rank + object), fun rank => BitVec.ofNat 16 rank⟩

/-- The small job on verbs, with as many barriers as `proc_barrier` makes for two sizes. -/
def smallExchange : Exchange Verbs.ConnInfo :=
  pingpongPrgExchange (Verbs.backend smallDevices) PingpongPrg.smallJob
    Verbs.addrFormat_faithful sendable_verbs (by decide) 0 7

/-- Its processes, with a manager that has one store. -/
def smallWireJob : Job 2 :=
  smallExchange.job pairLaunch kvsManager lawful_storing_pair fun _ _ => []

/-- The second rank has put an address and is in the barrier of `pmi_put`; of the first
rank's address the manager has only the request. -/
def smallWireRun : List (JobAction 2) :=
  List.flatten [turn former none, turn latter none, turn latter none, turn former none,
    turn latter none, turn latter none, [.take latter], turn former none, [.take former]]

theorem smallWireRun_reaches :
    ∃ s, Machine.runActions (step smallWireJob) (JobState.start 2) smallWireRun = some s ∧
      Bulk.outstanding s.history 1 = some .barrierIn ∧
      Bulk.outstanding s.history 0 = some (.put (Verbs.addrFormat.putKey 0 0)
        (Verbs.addrFormat.putValue (smallExchange.address 0 0))) :=
  Machine.exists_of_runActions (by decide +kernel)

end PingpongPrg

end FabricBench.Pmi1
