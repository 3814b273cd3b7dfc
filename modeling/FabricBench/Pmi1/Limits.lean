import FabricBench.Pmi1.Manager

/-!
What happens to texts that do not fit.

Owns: a put whose request does not fit its buffer, which is never written and whose reply
is waited for all the same (`pmiPut_written_if_fits`), and a value that does not fit the
caller's buffer, which is cut without an error code (`pmiGet_cuts_value`).
-/

namespace FabricBench.Pmi1

open FabricBench.Lib
open FabricBench.Pmi (Key Value)

variable {v : Statics} {c : Client}

/-! ## Requests -/

/-- The whole text of a put, of which `snprintf` keeps the first 1023 characters. -/
def putText (kvsname : List Char) (key : Key) (value : Value) : List Char :=
  (Request.put key value).line kvsname ++ ['\n']

theorem putRequest_take (kvsname : List Char) (key : Key) (value : Value) :
    putRequest kvsname key value = (putText kvsname key value).take (pmiuMaxline - 1) := by
  rw [putRequest, snprintf, sprintf_put, putText]

theorem put_line_one_line {kvsname : List Char} {key : Key} {value : Value}
    (name_line : '\n' ∉ kvsname)
    (key_line : '\n' ∉ key) (value_line : '\n' ∉ value) :
    '\n' ∉ (Request.put key value).line kvsname := by
  simp [Request.line, Request.pairs, joinPairs, name_line, key_line, value_line]

/-- A text without the end of a line is reported and not written. -/
theorem writeline_unended {first : Char} {rest : List Char}
    (short : (first :: rest).length ≤ pmiuMaxline) (unended : '\n' ∉ first :: rest)
    (live : c.closed = false) : writeline (first :: rest) c = .done 0 c := by
  have last : (first :: rest).getLast? = some ((first :: rest).getLast (List.cons_ne_nil _ _)) :=
    List.getLast?_eq_getLast_of_ne_nil _
  have other : (first :: rest).getLast (List.cons_ne_nil _ _) ≠ '\n' := fun same =>
    unended (same ▸ List.getLast_mem _)
  have silent : pmiuWriteline (first :: rest) c.wire = .done 0 c.wire := by
    rw [pmiuWriteline, if_neg (Nat.not_lt_of_le short), last]
    exact if_pos other
  rw [writeline, onWire, if_neg (by simp [live]), silent]

/-- A client that has heard nothing waits after its request, whether that was written or
not. -/
theorem getResponse_waits {request : List Char} {c₁ : Client}
    (wrote : writeline request c = .done 0 c₁)
    (here : At v c₁) (quiet : c₁.wire.heard = []) (expectedCmd : String) (checkRc : Bool) :
    ∃ c', getResponse request expectedCmd checkRc c = .blocked c' ∧
      c'.wire.sent = c₁.wire.sent := by
  have within : '\n' ∉ c₁.wire.heard := by simp [quiet]
  have fits : c₁.wire.heard.length + 1 < pmiuMaxline := by simp [quiet, pmiuMaxline]
  obtain ⟨wire', read, sent⟩ := here.opened.readline_blocked [] within fits
  have blocked : readline c₁ = .blocked { c₁ with wire := wire' } := by
    simp [readline, onWire, here.statics, here.live, read]
  refine ⟨{ c₁ with wire := wire' }, ?_, sent⟩
  rw [getResponse, Io.bind_done wrote, if_neg (by simp), Io.bind_blocked blocked]

/-- The request of a put is written exactly if all of it fits the buffer it is printed
into. In either case the reply is waited for, so that a process which puts a value that
is too long hangs. -/
theorem pmiPut_written_if_fits (here : At v c) (started : v.initialized = .normalInitWithPm)
    (quiet : c.wire.heard = []) (key : Key) (value : Value) (name_line : '\n' ∉ v.name)
    (key_line : '\n' ∉ key) (value_line : '\n' ∉ value) :
    ∃ c', pmiPut key value c = .blocked c' ∧
      c'.wire.sent = c.wire.sent ++
        if (putText v.name key value).length < pmiuMaxline then
          putText v.name key value else [] := by
  have waits : ∀ c₁, writeline (putRequest v.name key value) c = .done 0 c₁ → At v c₁ →
      c₁.wire.heard = [] → ∃ c', pmiPut key value c = .blocked c' ∧
        c'.wire.sent = c₁.wire.sent := by
    intro c₁ wrote here₁ quiet₁
    obtain ⟨c', blocked, sent⟩ := getResponse_waits wrote here₁ quiet₁ "put_result" true
    have put : pmiKvsPut v.name key value c = .blocked c' := by
      rw [pmiKvsPut, getStatic, Io.bind_done (Io.gets_apply _ c), here.statics, started,
        if_neg (by decide), blocked]
    refine ⟨c', ?_, sent⟩
    rw [pmiPut, getStatic, Io.bind_done (Io.gets_apply _ c), here.statics, Io.bind_blocked put]
  have one_line := put_line_one_line name_line key_line value_line
  rw [putRequest_take] at waits
  split
  · next fits =>
      have short : ((Request.put key value).line v.name).length < pmiuMaxline := by
        rw [putText, List.length_append] at fits
        omega
      obtain ⟨c₁, wrote, heard, sent, here₁⟩ := here.writeline short
      rw [List.take_of_length_le (by omega)] at waits
      obtain ⟨c', blocked, sent'⟩ := waits c₁ wrote here₁ (heard.trans quiet)
      exact ⟨c', blocked, sent'.trans sent⟩
  · next overlong =>
      -- What is kept of the text is a part of its only line.
      have long : pmiuMaxline - 1 ≤ ((Request.put key value).line v.name).length := by
        rw [putText, List.length_append, List.length_singleton] at overlong
        omega
      have kept : (putText v.name key value).take (pmiuMaxline - 1) =
          ((Request.put key value).line v.name).take (pmiuMaxline - 1) := by
        rw [putText, List.take_append_of_le_length long]
      have unended : '\n' ∉ ((Request.put key value).line v.name).take (pmiuMaxline - 1) :=
        fun member =>
        one_line (List.mem_of_mem_take member)
      have length : (((Request.put key value).line v.name).take (pmiuMaxline - 1)).length =
          pmiuMaxline - 1 := List.length_take_of_le long
      rw [kept] at waits
      cases text : ((Request.put key value).line v.name).take (pmiuMaxline - 1) with
      | nil =>
          rw [text] at length
          exact absurd length (by decide)
      | cons first rest =>
          rw [text] at waits unended length
          obtain ⟨c', blocked, sent⟩ := waits c
              (writeline_unended (by omega) unended here.live) here quiet
          exact ⟨c', blocked, by rw [sent, List.append_nil]⟩

/-- A process that has been started, in the space `kvs`, with a text that has come in. -/
def startedClient (buffer : List Char) : Client where
  wire := ⟨buffer, 5, [], [], []⟩
  keyvalTab := []
  statics := { Statics.start 7 none with
    fd := 5, size := 2, initialized := .normalInitWithPm, name := "kvs".toList }
  closed := false

theorem startedClient_heard (buffer : List Char) : (startedClient buffer).wire.heard = buffer := by
  have events : (startedClient buffer).wire.plain.events = buffer.map .char := List.append_nil _
  rw [Wire.heard, Plain.heard, events, filterMap_char]

theorem startedClient_at (buffer : List Char) :
    At (startedClient buffer).statics (startedClient buffer) := by
  refine ⟨rfl, rfl, .inr rfl, ?_, by simp [startedClient]⟩
  rw [startedClient_heard]
  simp [startedClient, Wire.plain]

/-- A value of a thousand characters is not sent. -/
theorem pmiPut_written_if_fits_thousand :
    ∃ c', pmiPut "key".toList (List.replicate 1000 'x') (startedClient []) = .blocked c' ∧
      c'.wire.sent = [] := by
  have one_line : '\n' ∉ List.replicate 1000 'x' := fun member =>
    absurd (List.eq_of_mem_replicate member) (by decide)
  have overlong : pmiuMaxline ≤
      (putText (startedClient []).statics.name "key".toList (List.replicate 1000 'x')).length := by
    simp only [putText, Request.line, Request.pairs, joinPairs, List.length_append,
      List.length_cons, List.length_replicate]
    decide
  obtain ⟨c', blocked, sent⟩ := pmiPut_written_if_fits (startedClient_at []) rfl rfl
    "key".toList (List.replicate 1000 'x') (by decide) (by decide) one_line
  rw [if_neg (Nat.not_lt_of_le overlong), List.append_nil] at sent
  exact ⟨c', blocked, sent⟩

/-! ## Values -/

/-- `pmi_get` leaves the first 254 characters of the value in the caller's buffer. That
there are more is no error to it: `PMIU_getval` prints a line, and nobody is told. -/
theorem pmiGet_cuts_value (here : At v c) (started : v.initialized = .normalInitWithPm)
    (key : Key) (fits : (Request.get key).Fits v.name) {reply rest : List Char} {tab : KeyvalTab}
    (answer : ReplyLine reply tab) (value : Value)
    (pairs : Answers v.name tab (.get key) (some value))
    (heard : c.wire.heard = reply ++ '\n' :: rest) (buffer : List Char) :
    ∃ c', pmiGet key buffer c = .done (value.take 254) c' ∧ c'.wire.heard = rest ∧
      c'.wire.sent = c.wire.sent ++ ((Request.get key).line v.name ++ ['\n']) := by
  obtain ⟨cmd, rc, text⟩ := pairs
  have talks := talks_pmiGet_of_result started (snprintf_eq fits (sprintf_get _ _))
    (Nat.lt_of_succ_lt fits.short) answer cmd (talks_getResult_some (v := v) rc text buffer)
  have begins : Client.channel.heard c = replyText '\n' [(reply, reply)] ++ rest := by
    simpa [Client.channel, replyText, joinLines] using heard
  obtain ⟨c', ran, left, said, -⟩ := talks.returns here begins
  exact ⟨c', ran, left, by simpa [Client.channel, requestText, joinLines] using said⟩

/-- The pairs of a reply with a value of three hundred characters. -/
def longResult : List (List Char × List Char) :=
  [("cmd".toList, "get_result".toList), ("rc".toList, "0".toList),
    ("value".toList, List.replicate 300 'x')]

theorem longResult_reply :
    ReplyLine (joinPairs longResult) (longResult.map fun pair => ⟨pair.1, pair.2⟩) := by
  have short : (joinPairs longResult).length + 1 < pmiuMaxline := by
    simp only [longResult, joinPairs, List.length_append, List.length_cons, List.length_replicate]
    decide
  have sendable : ∀ pair ∈ longResult, Sendable pair.2 := by
    intro pair member
    simp only [longResult, List.mem_cons, List.not_mem_nil, or_false] at member
    rcases member with rfl | rfl | rfl
    · decide
    · decide
    · intro c member
      rw [List.eq_of_mem_replicate member]
      decide
  have keys : ∀ pair ∈ longResult, pair.1 ∈ protocolKeys := by
    intro pair member
    simp only [longResult, List.mem_cons, List.not_mem_nil, or_false] at member
    rcases member with rfl | rfl | rfl <;> decide
  have printable := printable_of_fits keys sendable short
  exact ⟨(joinPairs_one_line printable).1, short,
    pmiuParseKeyvals_joinPairs printable (show 3 ≤ keyvalTabSize by decide)⟩

/-- Forty-six of its characters are lost. -/
theorem pmiGet_cuts_value_long :
    ∃ c', pmiGet "key".toList [] (startedClient (joinPairs longResult ++ ['\n'])) =
      .done (List.replicate 254 'x') c' := by
  have fits : (Request.get "key".toList).Fits "kvs".toList := by decide
  obtain ⟨c', ran, -⟩ := pmiGet_cuts_value
      (startedClient_at _) rfl "key".toList fits longResult_reply
    (List.replicate 300 'x') ⟨rfl, rfl, rfl⟩ (startedClient_heard _) []
  rw [List.take_replicate] at ran
  exact ⟨c', ran⟩

end FabricBench.Pmi1
