import FabricBench.Lib.Bulk
import FabricBench.Lib.Machine
import FabricBench.Pmi1.Process

/-!
A job: processes that talk to their manager, each over a connection of its own.

Owns: the machine in which the manager takes and answers requests in any order that its
laws allow and the replies arrive in any pieces (`step`), and the fact that what it is
asked for is what the processes' scripts say, so that it keeps to the library's phases
(`Inv`).

The clients are the ones of `Client.lean`: what a process has written is what its program
writes when it is run on what has arrived so far. The manager is any whose replies have
the pairs that the client looks for (`Manager`) and whose store and barrier keep the laws
of `Bulk.Lawful`.
-/

namespace FabricBench.Pmi1

open FabricBench.Lib
open FabricBench.Pmi (Key Value)

/-- What a request is to the library's server. -/
def Request.kind : Request → Bulk.Op Key Value
  | .put key value => .put key value
  | .get key => .get key
  | .barrierIn => .barrier
  | _ => .other

/-- The processes as they are launched, with connections that do not fail. -/
structure Launch (n : Nat) where
  env : Fin n → Env
  pid : Fin n → BitVec 32
  writes : Fin n → List WriteResult
  launched : ∀ r, (env r).Launched n (r : Nat)
  opened : ∀ r, ∀ result ∈ writes r, result = .all ∨ result = .error .eintr

/-- With the calls that they make for the rank and the size that they are given, and their
manager. The requests fit the buffers, and what is put can be got. -/
structure Job (n : Nat) extends Launch n where
  program : Fin n → Int → Int → List Call
  manager : Manager
  server : Bulk.Server (Fin n) Request Value
  lawful : Bulk.Lawful Request.kind server
  fits : ∀ r, ∀ request ∈ (program r (r : Nat) n).flatMap Call.requests,
    request.Fits manager.kvsname
  gettable : ∀ r key value, .put key value ∈ (program r (r : Nat) n).flatMap Call.requests →
    Gettable value

/-- The processes of a pair. -/
def former : Fin 2 := ⟨0, Nat.two_pos⟩

def latter : Fin 2 := ⟨1, Nat.one_lt_two⟩

/-- Two processes, each with its connection as descriptor 5. -/
def pairLaunch : Launch 2 where
  env r := ⟨some "5".toList, some "2".toList,
    some (if r.val = 0 then "0".toList else "1".toList), none⟩
  pid _ := 0
  writes _ := []
  launched := by decide
  opened _ := by simp

/-- A manager of one key-value space. -/
def kvsManager : Manager := .plain "kvs_0".toList (by decide)

/-- It may answer a pair from a store. -/
theorem lawful_storing_pair :
    Bulk.Lawful Request.kind (Bulk.storing Request.kind : Bulk.Server (Fin 2) Request Value) :=
  Bulk.lawful_storing Request.kind

/-- What has happened at the manager, and what has arrived at each process. -/
structure JobState (n : Nat) where
  history : Bulk.History (Fin n) Request Value
  reads : Fin n → List ReadResult

def JobState.start (n : Nat) : JobState n := ⟨[], fun _ => []⟩

variable {n : Nat} (job : Job n) (s : JobState n)

/-- A process before its first call. -/
def launch (pid : BitVec 32) (reads : List ReadResult) (writes : List WriteResult) : Client where
  wire := ⟨[], -1, reads, writes, []⟩
  keyvalTab := []
  statics := Statics.start pid none
  closed := false

/-- How far a process has come. -/
def Job.outcome (r : Fin n) : Outcome Client (List (List Char)) :=
  process (job.env r) (job.program r) (launch (job.pid r) (s.reads r) (job.writes r))

/-- What has been written by the time a program returns or blocks. -/
def sentBy {α : Type} : Outcome Client α → List Char
  | .done _ c => c.wire.sent
  | .blocked c => c.wire.sent
  | .undefined => []

/-- The lines that a process has written. -/
def Job.written (r : Fin n) : List (List Char) := completeLines '\n' (sentBy (job.outcome s r))

/-- What the manager has written to a process. -/
def Job.replies (r : Fin n) : List Char :=
  replyText '\n' (job.manager.talkOf (Bulk.answered s.history r))

/-- What has arrived. -/
def heardIn (reads : List ReadResult) : List Char :=
  (reads.flatMap ReadResult.events).filterMap Event.char?

/-- What is still on its way to a process. -/
def Job.undelivered (r : Fin n) : List Char := (job.replies s r).drop (heardIn (s.reads r)).length

/-- The line of a process that the manager has not taken, as far as it understands it. -/
def Job.pending (r : Fin n) : Option Request :=
  (job.written s r)[(Bulk.made s.history r).length]?.bind (decode job.manager.kvsname)

/-- Up to `count` characters arrive in one `read`, after some that are interrupted; or the
manager takes a request, or answers one. -/
inductive JobAction (n : Nat) where
  | deliver (r : Fin n) (interrupts count : Nat)
  | take (r : Fin n)
  | answer (r : Fin n) (found : Option Value)
deriving DecidableEq, Repr

/-- The buffer of `PMIU_readline` has 1024 characters, one of which is left for a NUL. -/
def readMax : Nat := 1023

/-- Some interrupted reads and one that is not. -/
def arrival (interrupts : Nat) (first : Char) (rest : List Char) : List ReadResult :=
  List.replicate interrupts (.error .eintr) ++ [.data first rest]

def step (s : JobState n) : JobAction n → Option (JobState n)
  | .deliver r interrupts count =>
      match (job.undelivered s r).take (min count readMax) with
      | [] => none
      | first :: rest =>
          some { s with
            reads := Function.update s.reads r (s.reads r ++ arrival interrupts first rest) }
  | .take r =>
      (job.pending s r).map fun request => { s with history := s.history ++ [.asked r request] }
  | .answer r found =>
      match Bulk.outstanding s.history r with
      | none => none
      | some request =>
          if job.server s.history r found then
            some { s with history := s.history ++ [.told r request found] }
          else none

/-! ## What the manager is asked for -/

/-- The calls of the processes. -/
def Job.calls (r : Fin n) : List Call := job.program r (r : Nat) n

/-- Their requests. -/
def Job.script (r : Fin n) : List Request := requests (job.calls r)

/-- Only characters have arrived, and they are the first ones of what was written. -/
structure Arrived (reads : List ReadResult) (text : List Char) : Prop where
  chars : reads.flatMap ReadResult.events = (heardIn reads).map .char
  begins : heardIn reads <+: text

structure Inv : Prop where
  scripted : Bulk.Scripted Request.kind job.script s.history
  arrived : ∀ r, Arrived (s.reads r) (job.replies s r)

variable {job s}

theorem Arrived.launch {reads : List ReadResult} {text : List Char} (arrived : Arrived reads text)
    (pid : BitVec 32) {writes : List WriteResult}
    (opened : ∀ result ∈ writes, result = .all ∨ result = .error .eintr) :
    Fresh pid none (launch pid reads writes) ∧
      Client.channel.heard (launch pid reads writes) = heardIn reads := by
  refine ⟨⟨rfl, rfl, fun fd => ⟨.inl rfl, ?_, opened⟩⟩, ?_⟩
  · simpa [Pmi1.launch, Wire.plain, Wire.heard, Plain.heard, heardIn] using arrived.chars
  · simp [Client.channel, Pmi1.launch, Wire.plain, Wire.heard, Plain.heard, heardIn]

theorem Job.fits_script (job : Job n) {r : Fin n} {request : Request}
    (member : request ∈ job.script r) : request.Fits job.manager.kvsname := by
  rcases mem_requests member with start | later
  · have const := job.manager.fits_const
    simp only [startRequests, List.mem_cons, List.not_mem_nil, or_false] at start
    rcases start with rfl | rfl | rfl
    · exact const.1
    · exact const.2.1
    · exact const.2.2.1
  · exact job.fits r request later

theorem Job.gettable_script (job : Job n) {r : Fin n} {key : Key} {value : Value}
    (member : .put key value ∈ job.script r) : Gettable value := by
  rcases mem_requests member with start | later
  · exact absurd start (by simp [startRequests])
  · exact job.gettable r key value later

/-- The answers so far, and the requests that are left. -/
def Job.whole (job : Job n) (s : JobState n) (r : Fin n) : List Answered :=
  Bulk.answered s.history r ++
    ((job.script r).drop (Bulk.answered s.history r).length).map (·, none)

/-- What has been answered is the beginning of the script. -/
theorem Inv.asked_begins (inv : Inv job s) (r : Fin n) :
    Bulk.asked s.history r <+: job.script r :=
  (inv.scripted.asked r).trans (inv.scripted.made r)

theorem Inv.map_fst_whole (inv : Inv job s) (r : Fin n) :
    (job.whole s r).map Prod.fst = job.script r := by
  obtain ⟨rest, script⟩ := inv.asked_begins r
  have length := Bulk.length_asked s.history r
  have drop : (job.script r).drop (Bulk.answered s.history r).length = rest := by
    rw [← script, ← length, List.drop_left]
  rw [Job.whole, List.map_append, drop, List.map_map]
  simpa [Bulk.asked, Function.comp_def] using script

theorem kind_eq_put {request : Request} {key : Key} {value : Value}
    (isPut : request.kind = .put key value) : request = .put key value := by
  cases request with
  | put key' value' =>
      obtain ⟨rfl, rfl⟩ := Bulk.Op.put.inj isPut
      rfl
  | _ => exact nomatch isPut

theorem Inv.gettable_whole (inv : Inv job s) (r : Fin n) :
    ∀ answer ∈ job.whole s r, GettableIfAny answer.2 := by
  intro answer member value found
  rcases List.mem_append.mp member with before | after
  · obtain ⟨key, -, j, request, asked, isPut⟩ := inv.scripted.found_put r answer before value found
    rw [kind_eq_put isPut] at asked
    exact job.gettable_script asked
  · obtain ⟨request, -, rfl⟩ := List.mem_map.mp after
    exact nomatch found

/-- The conversation of a process, as far as it is known. -/
theorem Inv.talks (inv : Inv job s) (r : Fin n) :
    Talks (Fresh (job.pid r) none) (process (job.env r) (job.program r))
      (job.manager.talkOf (job.whole s r))
      (results (job.calls r) ((job.whole s r).drop startRequests.length)) (fun _ => True) :=
  job.manager.talks_process (job.pid r) none (job.launched r) (job.fits r) (inv.map_fst_whole r)
    (inv.gettable_whole r)

/-- The lines of the first requests of a script. -/
theorem Inv.completeLines_take (inv : Inv job s) (r : Fin n) (k : Nat) :
    completeLines '\n' (requestText '\n' ((job.manager.talkOf (job.whole s r)).take k)) =
      ((job.script r).take k).map (Request.line job.manager.kvsname) := by
  have lines : ((job.manager.talkOf (job.whole s r)).take k).map Prod.fst =
      ((job.script r).take k).map (Request.line job.manager.kvsname) := by
    rw [← inv.map_fst_whole r]
    simp [Manager.talkOf, Manager.talk, List.map_take, Function.comp_def]
  rw [requestText, lines]
  refine completeLines_joinLines ?_
  intro line member
  obtain ⟨request, asked, rfl⟩ := List.mem_map.mp member
  exact (job.fits_script (List.mem_of_mem_take asked)).one_line

theorem talkOf_prefix_whole (job : Job n) (s : JobState n) (r : Fin n) :
    job.manager.talkOf (Bulk.answered s.history r) <+: job.manager.talkOf (job.whole s r) := by
  rw [Job.whole, Manager.talkOf_append]
  exact List.prefix_append _ _

theorem length_talkOf (m : Manager) (answered : List Answered) :
    (m.talkOf answered).length = answered.length :=
  List.length_map _

/-- A process that has not been told everything waits for a reply that is on its way. -/
theorem Inv.written_of_part (inv : Inv job s) {r : Fin n}
    (part : heardIn (s.reads r) ≠ job.replies s r) :
    (job.written s r).length ≤ (Bulk.answered s.history r).length ∧
      ∃ c, job.outcome s r = .blocked c := by
  obtain ⟨fresh, heard⟩ := (inv.arrived r).launch (job.pid r) (job.opened r)
  obtain ⟨i, below, c, ran, said⟩ := (inv.talks r).of_heard_part (talkOf_prefix_whole job s r) fresh
    (heard ▸ (inv.arrived r).begins) (heard ▸ part)
  have written : job.written s r =
      ((job.script r).take (i + 1)).map (Request.line job.manager.kvsname) := by
    rw [← inv.completeLines_take, Job.written, Job.outcome, ran]
    exact congrArg _ said
  rw [length_talkOf] at below
  refine ⟨?_, c, ran⟩
  rw [written, List.length_map, List.length_take]
  omega

/-- A process that has been told everything has made its next request, or has returned. -/
theorem Inv.written_of_all (inv : Inv job s) {r : Fin n}
    (all : heardIn (s.reads r) = job.replies s r) :
    job.written s r = ((job.script r).take ((Bulk.answered s.history r).length + 1)).map
        (Request.line job.manager.kvsname) ∧
      ((Bulk.answered s.history r).length < (job.script r).length ∧
          (∃ c, job.outcome s r = .blocked c) ∨
        (Bulk.answered s.history r).length = (job.script r).length ∧ ∃ c, job.outcome s r =
          .done (results (job.calls r) ((Bulk.answered s.history r).drop startRequests.length))
            c) := by
  obtain ⟨fresh, heard⟩ := (inv.arrived r).launch (job.pid r) (job.opened r)
  have length : (job.whole s r).length = (job.script r).length := by
    rw [← inv.map_fst_whole r, List.length_map]
  rcases (inv.talks r).of_heard_all (talkOf_prefix_whole job s r) fresh (heard.trans all) with
    ⟨same, c, ran, said⟩ | ⟨more, c, ran, said⟩
  · have lengths := congrArg List.length same
    rw [length_talkOf, length_talkOf, length] at lengths
    have whole : job.whole s r = Bulk.answered s.history r := by
      rw [Job.whole, lengths, List.drop_length, List.map_nil, List.append_nil]
    refine ⟨?_, .inr ⟨lengths, c, ?_⟩⟩
    · rw [← inv.completeLines_take,
        List.take_of_length_le (by rw [length_talkOf, length, lengths]; exact Nat.le_succ _),
        Job.written, Job.outcome, ran]
      exact congrArg _ said
    · rw [Job.outcome, ran, whole]
  · rw [length_talkOf, length_talkOf, length] at more
    refine ⟨?_, .inl ⟨more, c, ran⟩⟩
    rw [← inv.completeLines_take, Job.written, Job.outcome, ran]
    rw [length_talkOf] at said
    exact congrArg _ said

/-- The manager understands the next request of a script when all its replies have
arrived, and nothing before that. -/
theorem Inv.pending_eq (inv : Inv job s) (r : Fin n) :
    job.pending s r =
      if heardIn (s.reads r) = job.replies s r then Bulk.next job.script s.history r else none := by
  have answers := (inv.scripted.asked r).length_le
  rw [Bulk.length_asked] at answers
  unfold Job.pending Bulk.next
  split_ifs with all level
  · rw [(inv.written_of_all all).1, level, List.getElem?_map,
      List.getElem?_take_of_lt (Nat.lt_succ_self _)]
    cases found : (job.script r)[(Bulk.answered s.history r).length]? with
    | none => rfl
    | some request => exact (job.fits_script (List.mem_of_getElem? found)).decode
  · -- The line that has been written is with the manager.
    have absent : (job.written s r)[(Bulk.made s.history r).length]? = none := by
      rw [(inv.written_of_all all).1, List.getElem?_eq_none_iff, List.length_map, List.length_take]
      omega
    rw [absent]
    rfl
  · have absent : (job.written s r)[(Bulk.made s.history r).length]? = none := by
      rw [List.getElem?_eq_none_iff]
      exact (inv.written_of_part all).1.trans answers
    rw [absent]
    rfl

/-! ## Every step keeps to the scripts -/

theorem heardIn_append (first second : List ReadResult) :
    heardIn (first ++ second) = heardIn first ++ heardIn second := by
  simp [heardIn]

theorem Arrived.mono {reads : List ReadResult} {text text' : List Char}
    (arrived : Arrived reads text)
    (more : text <+: text') : Arrived reads text' :=
  ⟨arrived.chars, arrived.begins.trans more⟩

theorem events_arrival (interrupts : Nat) (first : Char) (rest : List Char) :
    (arrival interrupts first rest).flatMap ReadResult.events = (first :: rest).map .char := by
  have silent :
      (List.replicate interrupts (ReadResult.error .eintr)).flatMap ReadResult.events = [] := by
    rw [List.flatMap_eq_nil_iff]
    intro result member
    rw [List.eq_of_mem_replicate member]
    rfl
  simp [arrival, silent, ReadResult.events]

theorem heardIn_arrival (reads : List ReadResult) (interrupts : Nat) (first : Char)
    (rest : List Char) :
    heardIn (reads ++ arrival interrupts first rest) = heardIn reads ++ first :: rest := by
  rw [heardIn_append, heardIn, heardIn, events_arrival, filterMap_char]

/-- Characters that were on their way arrive. -/
theorem Arrived.deliver {reads : List ReadResult} {text : List Char} (arrived : Arrived reads text)
    {first : Char} {rest : List Char} (interrupts : Nat)
    (next : first :: rest <+: text.drop (heardIn reads).length) :
    Arrived (reads ++ arrival interrupts first rest) text := by
  refine ⟨?_, ?_⟩
  · rw [heardIn_arrival, List.flatMap_append, events_arrival, arrived.chars, List.map_append]
  · rw [heardIn_arrival]
    obtain ⟨behind, whole⟩ := arrived.begins
    rw [← whole, List.drop_left] at next
    rw [← whole]
    exact (List.prefix_append_right_inj _).mpr next

/-- What a step does. -/
theorem step_cases {s' : JobState n} {action : JobAction n} (taken : step job s action = some s') :
    (∃ r interrupts first rest, first :: rest <+: job.undelivered s r ∧
      s' = { s with
        reads := Function.update s.reads r (s.reads r ++ arrival interrupts first rest) }) ∨
    (∃ r request, job.pending s r = some request ∧
      s' = { s with history := s.history ++ [.asked r request] }) ∨
    (∃ r request found, Bulk.outstanding s.history r = some request ∧
      job.server s.history r found = true ∧
      s' = { s with history := s.history ++ [.told r request found] }) := by
  cases action with
  | deliver r interrupts count =>
      cases chunk : (job.undelivered s r).take (min count readMax) with
      | nil =>
          simp only [step, chunk] at taken
          exact nomatch taken
      | cons first rest =>
          simp only [step, chunk, Option.some.injEq] at taken
          refine .inl ⟨r, interrupts, first, rest, ?_, taken.symm⟩
          rw [← chunk]
          exact List.take_prefix _ _
  | take r =>
      obtain ⟨request, pending, took⟩ := Option.map_eq_some_iff.mp taken
      exact .inr (.inl ⟨r, request, pending, took.symm⟩)
  | answer r found =>
      cases waits : Bulk.outstanding s.history r with
      | none =>
          simp only [step, waits] at taken
          exact nomatch taken
      | some request =>
          simp only [step, waits, Option.ite_none_right_eq_some, Option.some.injEq] at taken
          exact .inr (.inr ⟨r, request, found, waits, taken.1, taken.2.symm⟩)

theorem Inv.next_of_pending (inv : Inv job s) {r : Fin n} {request : Request}
    (pending : job.pending s r = some request) :
    heardIn (s.reads r) = job.replies s r ∧ Bulk.next job.script s.history r = some request := by
  rw [inv.pending_eq] at pending
  split_ifs at pending with all
  exact ⟨all, pending⟩

theorem replies_mono {s' : JobState n} {r : Fin n}
    (more : Bulk.answered s.history r <+: Bulk.answered s'.history r) :
    job.replies s r <+: job.replies s' r := by
  obtain ⟨rest, whole⟩ := more
  unfold Job.replies
  rw [← whole, Manager.talkOf_append, replyText_append]
  exact List.prefix_append _ _

theorem inv_start (job : Job n) : Inv job (JobState.start n) :=
  ⟨Bulk.scripted_nil, fun _ => ⟨rfl, List.nil_prefix⟩⟩

theorem Inv.step (inv : Inv job s) {s' : JobState n} {action : JobAction n}
    (taken : step job s action = some s') : Inv job s' := by
  rcases step_cases taken with ⟨r, interrupts, first, rest, chunk, rfl⟩ |
      ⟨r, request, pending, rfl⟩ |
    ⟨r, request, found, waits, tells, rfl⟩
  · refine ⟨inv.scripted, fun j => ?_⟩
    change Arrived (Function.update s.reads r _ j) (job.replies s j)
    by_cases same : j = r
    · subst same
      rw [Function.update_self]
      exact (inv.arrived j).deliver interrupts chunk
    · rw [Function.update_of_ne same]
      exact inv.arrived j
  · refine ⟨inv.scripted.ask (inv.next_of_pending pending).2, fun j => ?_⟩
    refine (inv.arrived j).mono (replies_mono ?_)
    rw [Bulk.answered_ask]
  · refine ⟨inv.scripted.tell job.lawful waits tells, fun j => ?_⟩
    exact (inv.arrived j).mono
      (replies_mono (Bulk.answered_prefix_tell s.history r request found j))

end FabricBench.Pmi1
