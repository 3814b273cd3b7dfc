import FabricBench.Pmi1.Manager

/-!
A process of a job: it starts, looks its rank and the size of the job up, and then makes
calls of `pmi_wrapper.c`, as the benchmarks do.

Owns: the calls (`Call`), the requests that they amount to, and the conversation of the
whole process for any answers that the manager gives (`talks_process`). Behind
`pmi_finalize` there is no connection, and calls only fail.
-/

namespace FabricBench.Pmi1

open FabricBench.Lib
open FabricBench.Pmi (Key Value)

/-- A call of `pmi_put`, `pmi_barrier`, `pmi_get` or `pmi_finalize`; `buffer` is what is in
the caller's array before. -/
inductive Call where
  | put (key : Key) (value : Value)
  | barrier
  | get (key : Key) (buffer : List Char)
  | finalize
deriving DecidableEq, Repr

/-- What the caller has in its array afterwards, if it has one. -/
def Call.run : Call → Io Client (List Char)
  | .put key value => do
      pmiPut key value
      pure []
  | .barrier => do
      let _ ← pmiBarrier
      pure []
  | .get key buffer => pmiGet key buffer
  | .finalize => do
      let _ ← pmiFinalize
      pure []

/-- `comm_init`, and the calls that the program makes with its rank and the size. -/
def process (env : Env) (program : Int → Int → List Call) : Io Client (List (List Char)) := do
  pmiMasterInit env
  let rank ← pmiGetRank
  let size ← pmiGetSize
  Io.forEach Call.run (program rank size)

def Call.requests : Call → List Request
  | .put key value => [.put key value, .barrierIn]
  | .barrier => [.barrierIn]
  | .get key _ => [.get key]
  | .finalize => [.finalize]

def startRequests : List Request := [.init, .getMaxes, .getMyKvsname]

/-- The requests of calls in a row: none behind `pmi_finalize`. -/
def callRequests : List Call → List Request
  | [] => []
  | call :: others => call.requests ++ if call = .finalize then [] else callRequests others

/-- All requests of a process. -/
def requests (calls : List Call) : List Request := startRequests ++ callRequests calls

theorem callRequests_subset (calls : List Call) :
    callRequests calls ⊆ calls.flatMap Call.requests := by
  induction calls with
  | nil => exact List.Subset.refl _
  | cons call others inductionHypothesis =>
      rw [callRequests, List.flatMap_cons]
      split_ifs
      · rw [List.append_nil]
        exact List.subset_append_left _ _
      · exact List.append_subset.mpr ⟨List.subset_append_left _ _,
          List.subset_append_of_subset_right _ inductionHypothesis⟩

theorem mem_requests {calls : List Call} {request : Request} (member : request ∈ requests calls) :
    request ∈ startRequests ∨ request ∈ calls.flatMap Call.requests :=
  (List.mem_append.mp member).imp_right fun later => callRequests_subset calls later

/-- A request and what was found for it when it was answered. -/
abbrev Answered := Request × Option Value

def Manager.talkOf (m : Manager) (answered : List Answered) : Conversation Char :=
  answered.map fun step => m.talk step.1 step.2

/-- The result of a call whose requests have been answered. -/
def Call.result : Call → List Answered → List Char
  | .get _ buffer, (_, found) :: _ => found.getD buffer
  | _, _ => []

/-- The result of a call that fails. -/
def Call.untouched : Call → List Char
  | .get _ buffer => buffer
  | _ => []

/-- The results of calls whose requests have been answered. -/
def results : List Call → List Answered → List (List Char)
  | [], _ => []
  | call :: others, answered =>
      call.result answered ::
        if call = .finalize then others.map Call.untouched
        else results others (answered.drop call.requests.length)

variable {m : Manager} {v : Statics} {size rank : Int}

/-- The connection behind a call. -/
def After (v : Statics) (call : Call) : Client → Prop :=
  if call = .finalize then Gone v else At v

theorem Manager.talks_call (ready : Ready m size rank v) {call : Call}
    (fits : ∀ request ∈ call.requests, request.Fits m.kvsname) {answered : List Answered}
    (asked : answered.map Prod.fst = call.requests)
    (gettable : ∀ step ∈ answered, GettableIfAny step.2) :
    Talks (At v) call.run (m.talkOf answered) (call.result answered) (After v call) := by
  cases call with
  | put key value =>
      obtain ⟨⟨_, found⟩, others, rfl, rfl, rest⟩ := List.map_eq_cons_iff.mp asked
      obtain ⟨⟨_, found'⟩, others', rfl, rfl, rest'⟩ := List.map_eq_cons_iff.mp rest
      obtain rfl := List.map_eq_nil_iff.mp rest'
      have put := m.talks_pmiPut ready.started ready.named (fits _ List.mem_cons_self)
        (gettable _ List.mem_cons_self) (gettable _ (List.mem_cons_of_mem _ List.mem_cons_self))
      exact put.bind (Converses.pure [])
  | barrier =>
      obtain ⟨⟨_, found⟩, others, rfl, rfl, rest⟩ := List.map_eq_cons_iff.mp asked
      obtain rfl := List.map_eq_nil_iff.mp rest
      have barrier := m.talks_pmiBarrier ready.started (gettable _ List.mem_cons_self)
      exact barrier.bind (Converses.pure [])
  | get key buffer =>
      obtain ⟨⟨_, found⟩, others, rfl, rfl, rest⟩ := List.map_eq_cons_iff.mp asked
      obtain rfl := List.map_eq_nil_iff.mp rest
      exact m.talks_pmiGet ready.started ready.named (fits _ List.mem_cons_self)
        (gettable _ List.mem_cons_self) buffer
  | finalize =>
      obtain ⟨⟨_, found⟩, others, rfl, rfl, rest⟩ := List.map_eq_cons_iff.mp asked
      obtain rfl := List.map_eq_nil_iff.mp rest
      have finalize := m.talks_pmiFinalize ready.started (gettable _ List.mem_cons_self)
      exact finalize.bind (Converses.pure [])

theorem Manager.talks_call_gone (ready : Ready m size rank v) {call : Call}
    (fits : ∀ request ∈ call.requests, request.Fits m.kvsname) :
    Talks (Gone v) call.run [] call.untouched (Gone v) := by
  cases call with
  | put key value =>
      have put := m.talks_pmiPut_gone ready.started ready.named (fits _ List.mem_cons_self)
      exact put.bind (Converses.pure [])
  | barrier => exact (m.talks_pmiBarrier_gone ready.started).bind (Converses.pure [])
  | get key buffer =>
      exact m.talks_pmiGet_gone ready.started ready.named (fits _ List.mem_cons_self) buffer
  | finalize => exact (m.talks_pmiFinalize_gone ready.started).bind (Converses.pure [])

theorem Manager.talks_calls_gone (ready : Ready m size rank v) {calls : List Call}
    (fits : ∀ request ∈ calls.flatMap Call.requests, request.Fits m.kvsname) :
    Talks (Gone v) (Io.forEach Call.run calls) [] (calls.map Call.untouched) (Gone v) := by
  induction calls with
  | nil => exact Converses.pure []
  | cons call others inductionHypothesis =>
      rw [List.flatMap_cons] at fits
      have first := Manager.talks_call_gone ready fun request member =>
        fits request (List.mem_append_left _ member)
      have later := inductionHypothesis fun request member =>
        fits request (List.mem_append_right _ member)
      exact first.bind (later.bind (Converses.pure _))

/-- Only the answers to its own requests count for a call. -/
theorem Call.result_take (call : Call) (answered : List Answered) :
    call.result (answered.take call.requests.length) = call.result answered := by
  cases call <;> cases answered <;> rfl

theorem Manager.talkOf_append (m : Manager) (first second : List Answered) :
    m.talkOf (first ++ second) = m.talkOf first ++ m.talkOf second :=
  List.map_append

/-- The requests of a call are answered, and then those of the others. -/
theorem Manager.talkOf_take_drop (m : Manager) (answered : List Answered) (count : Nat) :
    m.talkOf (answered.take count) ++
      (m.talkOf (answered.drop count) ++ []) = m.talkOf answered := by
  rw [List.append_nil, ← m.talkOf_append, List.take_append_drop]

theorem Manager.talks_calls (ready : Ready m size rank v) {calls : List Call}
    (fits : ∀ request ∈ calls.flatMap Call.requests, request.Fits m.kvsname)
    {answered : List Answered} (asked : answered.map Prod.fst = callRequests calls)
    (gettable : ∀ step ∈ answered, GettableIfAny step.2) :
    Talks (At v) (Io.forEach Call.run calls) (m.talkOf answered) (results calls answered)
      (fun _ => True) := by
  induction calls generalizing answered with
  | nil =>
      obtain rfl := List.map_eq_nil_iff.mp asked
      exact (Converses.pure []).weaken (fun _ here => here) fun _ _ => trivial
  | cons call others inductionHypothesis =>
      rw [List.flatMap_cons] at fits
      rw [callRequests] at asked
      have own : (answered.take call.requests.length).map Prod.fst = call.requests := by
        rw [List.map_take, asked, List.take_left]
      have rest : (answered.drop call.requests.length).map Prod.fst =
          if call = .finalize then [] else callRequests others := by
        rw [List.map_drop, asked, List.drop_left]
      have first := Manager.talks_call ready
        (fun request member => fits request (List.mem_append_left _ member)) own
        fun step member => gettable step (List.mem_of_mem_take member)
      have fitsLater : ∀ request ∈ others.flatMap Call.requests, request.Fits m.kvsname :=
        fun request member => fits request (List.mem_append_right _ member)
      rw [call.result_take] at first
      rw [← m.talkOf_take_drop answered call.requests.length, results]
      split_ifs at rest ⊢ with last
      · -- The connection is closed, and the other calls fail.
        rw [After, if_pos last] at first
        rw [List.map_eq_nil_iff.mp rest]
        have later := Manager.talks_calls_gone ready fitsLater
        exact first.bind (later.bind ((Converses.pure _).weaken (fun _ here => here)
          fun _ _ => trivial))
      · rw [After, if_neg last] at first
        have later := inductionHypothesis fitsLater rest fun step member =>
          gettable step (List.mem_of_mem_drop member)
        exact first.bind (later.bind (Converses.pure _))

/-- The whole process, for any answers to its requests. -/
theorem Manager.talks_process (m : Manager) (pid : BitVec 32) (accepts : Option Int) {env : Env}
    (launched : env.Launched size rank) {program : Int → Int → List Call}
    (fits : ∀ request ∈ (program rank size).flatMap Call.requests, request.Fits m.kvsname)
    {answered : List Answered} (asked : answered.map Prod.fst = requests (program rank size))
    (gettable : ∀ step ∈ answered, GettableIfAny step.2) :
    Talks (Fresh pid accepts) (process env program) (m.talkOf answered)
      (results (program rank size) (answered.drop startRequests.length)) (fun _ => True) := by
  obtain ⟨⟨_, found⟩, others, rfl, rfl, rest⟩ := List.map_eq_cons_iff.mp asked
  obtain ⟨⟨_, found'⟩, others', rfl, rfl, rest'⟩ := List.map_eq_cons_iff.mp rest
  obtain ⟨⟨_, found''⟩, others'', rfl, rfl, rest''⟩ := List.map_eq_cons_iff.mp rest'
  obtain ⟨v, ready, init⟩ := m.talks_pmiMasterInit pid accepts launched
    (gettable _ List.mem_cons_self) (gettable _ (List.mem_cons_of_mem _ List.mem_cons_self))
    (gettable _ (List.mem_cons_of_mem _ (List.mem_cons_of_mem _ List.mem_cons_self)))
  have calls := Manager.talks_calls ready fits rest'' fun step member => gettable step
    (List.mem_cons_of_mem _ (List.mem_cons_of_mem _ (List.mem_cons_of_mem _ member)))
  refine init.bind (talks_getStatic (talks_getStatic ?_))
  have initialized : v.initialized ≠ .uninitialized := by simp [ready.started]
  rw [if_neg initialized, if_neg initialized, ready.rank_eq, ready.size_eq]
  exact calls

/-! ## Programs that finalize last -/

theorem callRequests_append {first : List Call} (open_ : Call.finalize ∉ first)
    (second : List Call) :
    callRequests (first ++ second) = first.flatMap Call.requests ++ callRequests second := by
  induction first with
  | nil => rfl
  | cons call others inductionHypothesis =>
      have other : call ≠ .finalize := fun same => open_ (same ▸ List.mem_cons_self)
      have later := inductionHypothesis fun member => open_ (List.mem_cons_of_mem _ member)
      rw [List.cons_append, callRequests, if_neg other, later, List.flatMap_cons, List.append_assoc]


end FabricBench.Pmi1
