import FabricBench.Pmi1.Requests
import FabricBench.Pmi1.Talk

/-!
The process manager as its clients see it.

Owns: what a manager's replies have to contain (`Manager`), a manager with the shortest
replies (`Manager.plain`), and the conversations of the functions of the client with any
manager.

Real managers are programs of their own. What is assumed here is about their replies:
they are lines that the client can read and have the pairs that it looks for. What is
assumed of the values that a manager finds and of its barrier is in `Lib.Bulk.Lawful`.
-/

namespace FabricBench.Pmi1

open FabricBench.Lib
open FabricBench.Lib.Stdio (Arg sprintf)
open FabricBench.Pmi (Key Value)

/-! ## Replies -/

/-- The pairs that a reply has to a request, with `found` for the value of the key that a
`get` asks for. -/
def Answers (kvsname : List Char) (tab : KeyvalTab) : Request → Option Value → Prop
  | .init, _ => field tab "cmd".toList = some "response_to_init".toList ∧
      field tab "rc".toList = some "0".toList
  | .getMaxes, _ => field tab "cmd".toList = some "maxes".toList
  | .getMyKvsname, _ => field tab "cmd".toList = some "my_kvsname".toList ∧
      field tab "kvsname".toList = some kvsname
  | .put _ _, _ => field tab "cmd".toList = some "put_result".toList ∧
      ∀ rc, field tab "rc".toList = some rc → rc = "0".toList
  | .barrierIn, _ => field tab "cmd".toList = some "barrier_out".toList
  | .get _, some value => field tab "cmd".toList = some "get_result".toList ∧
      field tab "rc".toList = some "0".toList ∧ field tab "value".toList = some value
  | .get _, none => field tab "cmd".toList = some "get_result".toList ∧
      ∃ rc, field tab "rc".toList = some rc ∧ rc.length < pmiuMaxline ∧ atoi rc ≠ 0
  | .finalize, _ => field tab "cmd".toList = some "finalize_ack".toList

/-- A value that `pmi_get` can return. -/
def Gettable (value : Value) : Prop := Sendable value ∧ value.length < wrapperLength

instance (value : Value) : Decidable (Gettable value) :=
  inferInstanceAs (Decidable (Sendable value ∧ value.length < wrapperLength))

/-- What is found, if anything, can be returned. -/
def GettableIfAny (found : Option Value) : Prop := ∀ value, found = some value → Gettable value

/-- A process manager: the name of the key-value space, and its replies. -/
structure Manager where
  kvsname : List Char
  kvsname_gettable : Gettable kvsname
  answer : Request → Option Value → List Char
  answers : ∀ request found, GettableIfAny found →
    ∃ tab, ReplyLine (answer request found) tab ∧ Answers kvsname tab request found

/-- The pairs of the shortest replies. -/
def plainPairs (kvsname : List Char) : Request → Option Value → List (List Char × List Char)
  | .init, _ => [("cmd".toList, "response_to_init".toList), ("rc".toList, "0".toList)]
  | .getMaxes, _ => [("cmd".toList, "maxes".toList)]
  | .getMyKvsname, _ => [("cmd".toList, "my_kvsname".toList), ("kvsname".toList, kvsname)]
  | .put _ _, _ => [("cmd".toList, "put_result".toList), ("rc".toList, "0".toList)]
  | .barrierIn, _ => [("cmd".toList, "barrier_out".toList)]
  | .get _, some value => [("cmd".toList, "get_result".toList), ("rc".toList, "0".toList),
      ("value".toList, value)]
  | .get _, none => [("cmd".toList, "get_result".toList), ("rc".toList, "-1".toList)]
  | .finalize, _ => [("cmd".toList, "finalize_ack".toList)]

/-- A request and the reply to it. -/
def Manager.talk (m : Manager) (request : Request) (found : Option Value) : List Char × List Char :=
  (request.line m.kvsname, m.answer request found)

theorem accepted_of_field {tab : KeyvalTab} {expectedCmd : String}
    (cmd : field tab "cmd".toList = some expectedCmd.toList)
    (short : expectedCmd.toList.length < pmiuMaxline) : Accepted tab expectedCmd false :=
  ⟨pmiuGetval_of_field [] cmd short, nofun⟩

/-! ## A manager -/

theorem plainPairs_keys (kvsname : List Char) (request : Request) (found : Option Value) :
    ∀ pair ∈ plainPairs kvsname request found, pair.1 ∈ protocolKeys := by
  intro pair member
  cases request <;> cases found <;>
    simp only [plainPairs, List.mem_cons, List.not_mem_nil, or_false] at member <;>
    rcases member with rfl | rfl | rfl <;> simp [protocolKeys]

theorem plainPairs_sendable {kvsname : List Char} (named : Gettable kvsname) (request : Request)
    {found : Option Value} (gettable : GettableIfAny found) :
    ∀ pair ∈ plainPairs kvsname request found, Sendable pair.2 := by
  have const : ∀ text ∈ ["response_to_init".toList, "0".toList, "maxes".toList, "my_kvsname".toList,
      "put_result".toList, "barrier_out".toList, "get_result".toList, "-1".toList,
      "finalize_ack".toList], Sendable text := by
    decide
  intro pair member
  cases request <;> cases found <;>
    simp only [plainPairs, List.mem_cons, List.not_mem_nil, or_false] at member <;>
    rcases member with rfl | rfl | rfl <;>
    first
      | exact named.1
      | exact (gettable _ rfl).1
      | exact const _ (by simp)

theorem plainPairs_short {kvsname : List Char} (named : Gettable kvsname) (request : Request)
    {found : Option Value} (gettable : GettableIfAny found) :
    (joinPairs (plainPairs kvsname request found)).length + 1 < pmiuMaxline := by
  have nameShort : kvsname.length < 255 := named.2
  cases request with
  | getMyKvsname =>
      simp [plainPairs, joinPairs, pmiuMaxline]
      omega
  | get key =>
      cases found with
      | none => simp [plainPairs, joinPairs, pmiuMaxline]
      | some value =>
          have valueShort : value.length < 255 := (gettable value rfl).2
          simp [plainPairs, joinPairs, pmiuMaxline]
          omega
  | _ => simp [plainPairs, joinPairs, pmiuMaxline]

/-- The manager that replies what it has to, and nothing else. -/
def Manager.plain (kvsname : List Char) (named : Gettable kvsname) : Manager where
  kvsname := kvsname
  kvsname_gettable := named
  answer request found := joinPairs (plainPairs kvsname request found)
  answers request found gettable := by
    have short := plainPairs_short named request gettable
    have printable := printable_of_fits (plainPairs_keys kvsname request found)
      (plainPairs_sendable named request gettable) short
    have room : (plainPairs kvsname request found).length ≤ keyvalTabSize := by
      cases request <;> cases found <;> simp [plainPairs, keyvalTabSize]
    refine ⟨_, ⟨(joinPairs_one_line printable).1, short,
      pmiuParseKeyvals_joinPairs printable room⟩, ?_⟩
    cases request <;> cases found <;> simp [Answers, plainPairs, field, pmiuMaxline]
    decide

/-! ## The functions -/

variable {v : Statics} {m : Manager} {found found' found'' : Option Value}

/-- A request of `simple_pmi.c` is answered, and its reply accepted. -/
theorem Manager.talks_getResponse (m : Manager) {request : Request} {text : List Char}
    {expectedCmd : String} {checkRc : Bool} {tab : KeyvalTab}
    (printed : text = request.line m.kvsname ++ ['\n'])
    (fits : request.Fits m.kvsname)
    (reply : ReplyLine (m.answer request found) tab) (accepted : Accepted tab expectedCmd checkRc) :
    Talks (At v) (getResponse text expectedCmd checkRc) [m.talk request found] 0 (Heard v tab) := by
  rw [printed]
  exact Pmi1.talks_getResponse (Nat.lt_of_succ_lt fits.short) reply accepted

theorem Manager.fits_const (m : Manager) :
    Request.init.Fits m.kvsname ∧ Request.getMaxes.Fits m.kvsname ∧
      Request.getMyKvsname.Fits m.kvsname ∧ Request.barrierIn.Fits m.kvsname ∧
      Request.finalize.Fits m.kvsname :=
  ⟨Request.fits_of_const (fun _ => rfl) (by decide) (by decide) _,
    Request.fits_of_const (fun _ => rfl) (by decide) (by decide) _,
    Request.fits_of_const (fun _ => rfl) (by decide) (by decide) _,
    Request.fits_of_const (fun _ => rfl) (by decide) (by decide) _,
    Request.fits_of_const (fun _ => rfl) (by decide) (by decide) _⟩

theorem Manager.talks_pmiBarrier (m : Manager) (started : v.initialized = .normalInitWithPm)
    (gettable : GettableIfAny found) :
    Talks (At v) pmiBarrier [m.talk .barrierIn found] 0 (At v) := by
  obtain ⟨tab, reply, cmd⟩ := m.answers .barrierIn found gettable
  refine talks_getStatic ?_
  rw [started]
  have talks := m.talks_getResponse (v := v) rfl m.fits_const.2.2.2.1 reply
    (accepted_of_field cmd (by decide))
  exact talks.weaken (fun _ here => here) fun _ after => after.toAt

theorem Manager.talks_pmiFinalize (m : Manager) (started : v.initialized = .normalInitWithPm)
    (gettable : GettableIfAny found) :
    Talks (At v) pmiFinalize [m.talk .finalize found] 0 (Gone v) := by
  obtain ⟨tab, reply, cmd⟩ := m.answers .finalize found gettable
  refine talks_getStatic ?_
  rw [started]
  have talks := m.talks_getResponse (v := v) rfl m.fits_const.2.2.2.2 reply
    (accepted_of_field cmd (by decide))
  refine talks.bind (Converses.modify (fun c here => ⟨rfl, rfl, ?_⟩) (Converses.pure 0))
  exact ⟨here.statics, rfl⟩

/-- A text that is printed whole into the buffer of a request. -/
theorem snprintf_eq {format : String} {args : List Arg} {kvsname : List Char} {request : Request}
    (fits : request.Fits kvsname) (whole : sprintf format args = request.line kvsname ++ ['\n']) :
    snprintf pmiuMaxline format args = request.line kvsname ++ ['\n'] := by
  have short := fits.short
  rw [snprintf, whole, List.take_of_length_le]
  rw [List.length_append, List.length_singleton]
  omega

theorem sprintf_put (kvsname : List Char) (key : Key) (value : Value) :
    sprintf "cmd=put kvsname=%s key=%s value=%s\n" [.str kvsname, .str key, .str value] =
      (Request.put key value).line kvsname ++ ['\n'] := by
  have format : Stdio.parseFormat none "cmd=put kvsname=%s key=%s value=%s\n".toList =
      ("cmd".toList ++ '=' :: ("put".toList ++ ' ' :: ("kvsname".toList ++ ['=']))).map .lit ++
        .str ::
        ((' ' :: ("key".toList ++ ['='])).map .lit ++ .str ::
          ((' ' :: ("value".toList ++ ['='])).map .lit ++ [.str, .lit '\n'])) := by
    decide
  rw [sprintf, format]
  simp only [Stdio.print_lits, Stdio.print, Request.line, Request.pairs, joinPairs,
    List.append_assoc, List.cons_append, List.nil_append]

theorem sprintf_get (kvsname : List Char) (key : Key) :
    sprintf "cmd=get kvsname=%s key=%s\n" [.str kvsname, .str key] =
      (Request.get key).line kvsname ++ ['\n'] := by
  have format : Stdio.parseFormat none "cmd=get kvsname=%s key=%s\n".toList =
      ("cmd".toList ++ '=' :: ("get".toList ++ ' ' :: ("kvsname".toList ++ ['=']))).map .lit ++
        .str ::
        ((' ' :: ("key".toList ++ ['='])).map .lit ++ [.str, .lit '\n']) := by
    decide
  rw [sprintf, format]
  simp only [Stdio.print_lits, Stdio.print, Request.line, Request.pairs, joinPairs,
    List.append_assoc, List.cons_append, List.nil_append]

theorem Manager.talks_pmiPut (m : Manager) (started : v.initialized = .normalInitWithPm)
    (named : v.name = m.kvsname) {key : Key} {value : Value}
    (fits : (Request.put key value).Fits m.kvsname) (gettable : GettableIfAny found)
    (gettable' : GettableIfAny found') :
    Talks (At v) (pmiPut key value) [m.talk (.put key value) found, m.talk .barrierIn found'] ()
      (At v) := by
  obtain ⟨tab, reply, cmd, rc⟩ := m.answers (.put key value) found gettable
  have accepted : Accepted tab "put_result" true :=
    ⟨pmiuGetval_of_field [] cmd (by decide),
      fun _ text found => rc text (field_of_pmiuGetval (by decide) found)⟩
  have put : Talks (At v) (pmiKvsPut m.kvsname key value) [m.talk (.put key value) found] 0
      (At v) := by
    refine talks_getStatic ?_
    rw [started, if_neg (by decide)]
    have talks := m.talks_getResponse (v := v)
        (snprintf_eq fits (sprintf_put _ _ _)) fits reply accepted
    exact talks.weaken (fun _ here => here) fun _ after => after.toAt
  refine talks_getStatic ?_
  rw [named]
  exact put.bind ((m.talks_pmiBarrier started gettable').bind (Converses.pure ()))

theorem talks_pmiiInitIfSingleton (started : v.initialized = .normalInitWithPm) :
    Talks (At v) pmiiInitIfSingleton [] 0 (At v) := by
  refine talks_getStatic ?_
  rw [if_pos (.inl (by simp [started]))]
  exact Converses.pure 0

/-- The value of the reply is left in the buffer, up to what there is room for. -/
theorem talks_getResult_some {tab : KeyvalTab} {value : Value}
    (rc : field tab "rc".toList = some "0".toList) (found : field tab "value".toList = some value)
    (buffer : List Char) :
    Talks (Heard v tab) (getResult buffer wrapperLength) [] (0, value.take (wrapperLength - 1))
      (Heard v tab) := by
  refine talks_getval ?_
  rw [pmiuGetval_of_field [] rc (by decide)]
  have zero : atoi "0".toList = 0 := by decide
  simp only [zero, if_true]
  refine talks_getval ?_
  rw [← pmiuGetval_take buffer found (show 0 < wrapperLength by decide)]
  exact Converses.pure _

theorem talks_getResult_none {tab : KeyvalTab} {rc : List Char}
    (text : field tab "rc".toList = some rc) (short : rc.length < pmiuMaxline)
    (failed : atoi rc ≠ 0)
    (buffer : List Char) :
    Talks (Heard v tab) (getResult buffer wrapperLength) [] (-1, buffer) (Heard v tab) := by
  refine talks_getval ?_
  rw [pmiuGetval_of_field [] text short]
  simp only [failed, if_false]
  exact Converses.pure _

/-- `pmi_get`, for a reply that is accepted. -/
theorem talks_pmiGet_of_result (started : v.initialized = .normalInitWithPm) {key : Key}
    {line reply buffer value : List Char} {rc : Int} {tab : KeyvalTab}
    (printed : getRequest v.name key = line ++ ['\n']) (short : line.length < pmiuMaxline)
    (answer : ReplyLine reply tab) (cmd : field tab "cmd".toList = some "get_result".toList)
    (result : Talks (Heard v tab) (getResult buffer wrapperLength) [] (rc, value) (Heard v tab)) :
    Talks (At v) (pmiGet key buffer) [(line, reply)] value (At v) := by
  have get : Talks (At v) (pmiKvsGet v.name key buffer wrapperLength) [(line, reply)] (rc, value)
      (At v) := by
    refine (talks_pmiiInitIfSingleton started).bind ?_
    rw [printed]
    refine (talks_getResponse short answer (accepted_of_field cmd (by decide))).bind ?_
    rw [if_pos rfl]
    exact result.weaken (fun _ here => here) fun _ after => after.toAt
  exact talks_getStatic (get.bind (Converses.pure _))

/-- A key that has no value leaves the caller's buffer as it was. -/
theorem Manager.talks_pmiGet (m : Manager) (started : v.initialized = .normalInitWithPm)
    (named : v.name = m.kvsname) {key : Key} (fits : (Request.get key).Fits m.kvsname)
    (gettable : GettableIfAny found) (buffer : List Char) :
    Talks (At v) (pmiGet key buffer) [m.talk (.get key) found] (found.getD buffer) (At v) := by
  obtain ⟨tab, reply, answers⟩ := m.answers (.get key) found gettable
  have printed : getRequest v.name key = (Request.get key).line m.kvsname ++ ['\n'] := by
    rw [named]
    exact snprintf_eq fits (sprintf_get _ _)
  have short := Nat.lt_of_succ_lt fits.short
  cases found with
  | none =>
      obtain ⟨cmd, rc, text, rcShort, failed⟩ := answers
      exact talks_pmiGet_of_result started printed short reply cmd
        (talks_getResult_none text rcShort failed buffer)
  | some value =>
      obtain ⟨cmd, rc, text⟩ := answers
      have result := talks_pmiGet_of_result started printed short reply cmd
        (talks_getResult_some rc text buffer)
      rwa [List.take_of_length_le (Nat.le_sub_one_of_lt (gettable value rfl).2)] at result

/-! ## Calls behind `pmi_finalize` -/

theorem Manager.talks_getResponse_gone (m : Manager) {request : Request} {text : List Char}
    {expectedCmd : String} {checkRc : Bool} (printed : text = request.line m.kvsname ++ ['\n'])
    (fits : request.Fits m.kvsname) :
    Talks (Gone v) (getResponse text expectedCmd checkRc) [] (-1) (Gone v) := by
  rw [printed]
  exact Pmi1.talks_getResponse_gone (Nat.lt_of_succ_lt fits.short)

theorem Manager.talks_pmiBarrier_gone (m : Manager) (started : v.initialized = .normalInitWithPm) :
    Talks (Gone v) pmiBarrier [] (-1) (Gone v) := by
  refine talks_getStatic_gone ?_
  rw [started]
  exact m.talks_getResponse_gone rfl m.fits_const.2.2.2.1

theorem Manager.talks_pmiFinalize_gone (m : Manager) (started : v.initialized = .normalInitWithPm) :
    Talks (Gone v) pmiFinalize [] (-1) (Gone v) := by
  refine talks_getStatic_gone ?_
  rw [started]
  refine (m.talks_getResponse_gone rfl m.fits_const.2.2.2.2).bind ?_
  refine Converses.modify (fun c gone => ⟨rfl, rfl, ?_⟩) (Converses.pure (-1))
  exact ⟨gone.statics, rfl⟩

theorem Manager.talks_pmiPut_gone (m : Manager) (started : v.initialized = .normalInitWithPm)
    (named : v.name = m.kvsname) {key : Key} {value : Value}
    (fits : (Request.put key value).Fits m.kvsname) :
    Talks (Gone v) (pmiPut key value) [] () (Gone v) := by
  have put : Talks (Gone v) (pmiKvsPut m.kvsname key value) [] (-1) (Gone v) := by
    refine talks_getStatic_gone ?_
    rw [started, if_neg (by decide)]
    exact m.talks_getResponse_gone (snprintf_eq fits (sprintf_put _ _ _)) fits
  refine talks_getStatic_gone ?_
  rw [named]
  exact put.bind ((m.talks_pmiBarrier_gone started).bind (Converses.pure ()))

/-- The caller's buffer is left as it was. -/
theorem Manager.talks_pmiGet_gone (m : Manager) (started : v.initialized = .normalInitWithPm)
    (named : v.name = m.kvsname) {key : Key} (fits : (Request.get key).Fits m.kvsname)
    (buffer : List Char) : Talks (Gone v) (pmiGet key buffer) [] buffer (Gone v) := by
  have connected : Talks (Gone v) pmiiInitIfSingleton [] 0 (Gone v) := by
    refine talks_getStatic_gone ?_
    rw [if_pos (.inl (by simp [started]))]
    exact Converses.pure 0
  have get : Talks (Gone v) (pmiKvsGet m.kvsname key buffer wrapperLength) [] (-1, buffer)
      (Gone v) := by
    refine connected.bind ?_
    refine (m.talks_getResponse_gone (snprintf_eq fits (sprintf_get _ _)) fits).bind ?_
    exact Converses.pure _
  refine talks_getStatic_gone ?_
  rw [named]
  exact get.bind (Converses.pure _)

/-! ## The start of a process -/

/-- The environment in which a manager starts a process. -/
structure Env.Launched (env : Env) (size rank : Int) : Prop where
  connected : getPmiFd env ≠ -1
  size_eq : (env.pmiSize.map atoi).getD 1 = size
  rank_eq : (env.pmiRank.map atoi).getD 0 = rank
  no_debugger : (env.pmiTotalview.map atoi).getD 0 = 0

instance (env : Env) (size rank : Int) : Decidable (env.Launched size rank) :=
  decidable_of_iff (getPmiFd env ≠ -1 ∧ (env.pmiSize.map atoi).getD 1 = size ∧
    (env.pmiRank.map atoi).getD 0 = rank ∧ (env.pmiTotalview.map atoi).getD 0 = 0)
    ⟨fun all => ⟨all.1, all.2.1, all.2.2.1, all.2.2.2⟩,
      fun launched => ⟨launched.connected, launched.size_eq, launched.rank_eq,
        launched.no_debugger⟩⟩

/-- A process that has made no calls yet. -/
structure Fresh (pid : BitVec 32) (accepts : Option Int) (c : Client) : Prop where
  statics : c.statics = Statics.start pid accepts
  live : c.closed = false
  opened : ∀ fd, c.wire.Open fd

/-- The process has its place in the job, and a connection. -/
structure Ready (m : Manager) (size rank : Int) (v : Statics) : Prop where
  started : v.initialized = .normalInitWithPm
  named : v.name = m.kvsname
  size_eq : v.size = size
  rank_eq : v.rank = rank

/-- Whatever the limits of the manager are. -/
def Statics.withMaxes (v : Statics) (kvsnameMax keylenMax vallenMax : Int) : Statics :=
  { v with kvsnameMax := kvsnameMax, keylenMax := keylenMax, vallenMax := vallenMax }

theorem Manager.talks_checkInit {tab : KeyvalTab} (answers : Answers m.kvsname tab .init found) :
    Talks (Heard v tab) checkInit [] () (Heard v tab) := by
  refine talks_getval ?_
  rw [pmiuGetval_of_field [] answers.1 (by decide)]
  simp only [ne_eq, not_true_eq_false, if_false]
  refine talks_getval ?_
  rw [pmiuGetval_of_field [] answers.2 (by decide)]
  simp only [not_true_eq_false, if_false]
  exact Converses.pure ()

theorem Manager.talks_askMaxes (m : Manager) (v : Statics) (gettable : GettableIfAny found) :
    ∃ a b c, Talks (At v) askMaxes [m.talk .getMaxes found] 0 (At (v.withMaxes a b c)) := by
  obtain ⟨tab, reply, cmd⟩ := m.answers .getMaxes found gettable
  let limit (key : String) : Int := atoi (pmiuGetval tab key.toList [] pmiuMaxline).2
  refine ⟨limit "kvsname_max", limit "keylen_max", limit "vallen_max",
    (m.talks_getResponse rfl m.fits_const.2.1 reply (accepted_of_field cmd (by decide))).bind ?_⟩
  rw [if_pos rfl]
  refine talks_getval (talks_getval (talks_getval ?_))
  exact Talks.of_heard (talks_setStatics rfl (Converses.pure 0))

theorem Manager.talks_pmiiGetmaxes (m : Manager) (v : Statics) (gettable : GettableIfAny found)
    (gettable' : GettableIfAny found') :
    ∃ a b c, Talks (At v) pmiiGetmaxes [m.talk .init found, m.talk .getMaxes found'] 0
      (At (v.withMaxes a b c)) := by
  obtain ⟨tab, reply, answers⟩ := m.answers .init found gettable
  obtain ⟨a, b, c, maxes⟩ := m.talks_askMaxes v gettable'
  have printed : snprintf pmiuMaxline "cmd=init pmi_version=%d pmi_subversion=%d\n"
      [.int 1, .int 1] =
      Request.init.line m.kvsname ++ ['\n'] :=
    snprintf_eq m.fits_const.1 (by simp only [Request.line, Request.pairs]; decide)
  have rest : Talks (Heard v tab) (checkInit >>= fun _ => askMaxes) [m.talk .getMaxes found'] 0
      (At (v.withMaxes a b c)) :=
    (Manager.talks_checkInit answers).bind (Talks.of_heard maxes)
  refine ⟨a, b, c, talks_of_ask (Nat.lt_of_succ_lt m.fits_const.1.short) reply ?_ ?_ rest⟩
  · intro c c₁ c₂ c₃ wrote read parsed
    have positive : ¬ (((m.answer .init found).length : Int) + 1 < 0) := by omega
    rw [pmiiGetmaxes, printed, Io.bind_done wrote, if_neg (by simp), Io.bind_done read]
    simp only [positive, if_false]
    rw [Io.bind_done (Io.pure_apply _ _), Io.bind_done parsed]
  · intro c c₁ c₂ wrote read
    rw [pmiiGetmaxes, printed, Io.bind_done wrote, if_neg (by simp), Io.bind_blocked read]

theorem talks_waitTotalview (alone : v.totalview = 0) : Talks (At v) waitTotalview [] 0 (At v) := by
  refine talks_getStatic ?_
  rw [alone, if_neg (by decide)]
  exact Converses.pure 0

/-- A process that was launched has its size and its rank from the environment. -/
theorem Manager.talks_pmiInit (m : Manager) (pid : BitVec 32) (accepts : Option Int) {env : Env}
    {size rank : Int} (launched : env.Launched size rank) (gettable : GettableIfAny found)
    (gettable' : GettableIfAny found') :
    ∃ v : Statics, v.initialized = .normalInitWithPm ∧ v.size = size ∧ v.rank = rank ∧
      Talks (Fresh pid accepts) (pmiInit env) [m.talk .init found, m.talk .getMaxes found'] 0
        (At v) := by
  let connected : Statics := { Statics.start pid accepts with fd := getPmiFd env }
  let placed : Statics := { connected with size := size, rank := rank, totalview := 0 }
  obtain ⟨a, b, c, maxes⟩ := m.talks_pmiiGetmaxes placed gettable gettable'
  refine ⟨{ placed.withMaxes a b c with initialized := .normalInitWithPm }, rfl, rfl, rfl, ?_⟩
  have connect : ∀ c, Fresh pid accepts c → At connected
      { c with
        statics := { c.statics with initialized := .uninitialized, fd := getPmiFd env } } := by
    intro c fresh
    exact ⟨by rw [fresh.statics]; rfl, fresh.live, fresh.opened _⟩
  refine Converses.modify (fun c fresh => ⟨rfl, rfl, connect c fresh⟩) (talks_getStatic ?_)
  rw [if_neg launched.connected]
  refine talks_setStatics rfl ?_
  have place : { connected with
      size := (env.pmiSize.map atoi).getD 1, rank := (env.pmiRank.map atoi).getD 0,
      totalview := (env.pmiTotalview.map atoi).getD 0 } = placed := by
    rw [launched.size_eq, launched.rank_eq, launched.no_debugger]
  change Talks (At { connected with
      size := (env.pmiSize.map atoi).getD 1, rank := (env.pmiRank.map atoi).getD 0,
      totalview := (env.pmiTotalview.map atoi).getD 0 }) _ _ _ _
  rw [place]
  refine (talks_waitTotalview rfl).bind (maxes.bind ?_)
  exact talks_setStatics rfl (Converses.pure 0)

theorem Manager.talks_pmiKvsGetMyName (m : Manager) (started : v.initialized = .normalInitWithPm)
    (gettable : GettableIfAny found) (kvsname : List Char) :
    Talks (At v) (pmiKvsGetMyName kvsname wrapperLength) [m.talk .getMyKvsname found] (0, m.kvsname)
      (At v) := by
  obtain ⟨tab, reply, cmd, name⟩ := m.answers .getMyKvsname found gettable
  refine talks_getStatic ?_
  rw [started, if_neg (by decide)]
  refine (m.talks_getResponse rfl m.fits_const.2.2.1 reply
    (accepted_of_field cmd (by decide))).bind ?_
  rw [if_pos rfl]
  refine talks_getval ?_
  rw [pmiuGetval_of_field kvsname name m.kvsname_gettable.2]
  exact (Converses.pure _).weaken (fun _ here => here) fun _ after => after.toAt

/-- The whole start of a process. -/
theorem Manager.talks_pmiMasterInit (m : Manager) (pid : BitVec 32) (accepts : Option Int)
    {env : Env}
    {size rank : Int} (launched : env.Launched size rank) (gettable : GettableIfAny found)
    (gettable' : GettableIfAny found') (gettable'' : GettableIfAny found'') :
    ∃ v, Ready m size rank v ∧
      Talks (Fresh pid accepts) (pmiMasterInit env)
        [m.talk .init found, m.talk .getMaxes found', m.talk .getMyKvsname found''] () (At v) := by
  obtain ⟨v, started, size_eq, rank_eq, init⟩ :=
    m.talks_pmiInit pid accepts launched gettable gettable'
  refine ⟨{ v with name := m.kvsname }, ⟨started, rfl, size_eq, rank_eq⟩, ?_⟩
  refine init.bind (talks_getStatic ?_)
  refine (m.talks_pmiKvsGetMyName started gettable'' _).bind ?_
  have set : Talks (At v) (setStatics (fun v => { v with name := m.kvsname }) >>= pure) [] ()
      (At { v with name := m.kvsname }) :=
    talks_setStatics rfl (Converses.pure ())
  exact set

end FabricBench.Pmi1
