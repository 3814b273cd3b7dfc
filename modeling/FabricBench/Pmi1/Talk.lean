import FabricBench.Pmi1.Client

/-!
What the functions of the client say, and what they return, when every request is
answered by a line of the expected kind.

Owns: the conversation of each function of `simple_pmi.c` and `pmi_wrapper.c` that a
started process makes (`Converses`), for arbitrary replies with the pairs that the
function looks for.
-/

namespace FabricBench.Pmi1

open FabricBench.Lib
open FabricBench.Lib.Stdio (Arg sprintf)

/-- The process is connected, and its statics have the given values. -/
structure At (v : Statics) (c : Client) : Prop where
  statics : c.statics = v
  live : c.closed = false
  opened : c.wire.Open v.fd

/-- The process has closed its connection. -/
structure Gone (v : Statics) (c : Client) : Prop where
  statics : c.statics = v
  closed : c.closed = true

/-- And the table has the pairs of the last reply. -/
structure Heard (v : Statics) (tab : KeyvalTab) (c : Client) : Prop extends At v c where
  table : c.keyvalTab = tab

/-- A line that can be read in one piece and has the given pairs. -/
structure ReplyLine (line : List Char) (tab : KeyvalTab) : Prop where
  one_line : '\n' ∉ line
  fits : line.length + 1 < pmiuMaxline
  parsed : pmiuParseKeyvals (line ++ ['\n']) = some (0, tab)

/-- Talking on the connection to the process manager. -/
abbrev Talks {α : Type} (pre : Client → Prop) (program : Io Client α) (talk : Conversation Char)
    (value : α) (post : Client → Prop) : Prop :=
  Converses '\n' Client.channel pre program talk value post

variable {v : Statics} {tab : KeyvalTab} {c : Client} {α : Type}

/-! ## One request -/

theorem At.writeline (here : At v c) {request : List Char} (short : request.length < pmiuMaxline) :
    ∃ c', Pmi1.writeline (request ++ ['\n']) c = .done 0 c' ∧ c'.wire.heard = c.wire.heard ∧
      c'.wire.sent = c.wire.sent ++ (request ++ ['\n']) ∧ At v c' := by
  obtain ⟨wire', ran, heard, sent, opened⟩ := here.opened.writeline short
  refine ⟨{ c with wire := wire' }, ?_, heard, sent, here.statics, here.live, opened⟩
  simp [Pmi1.writeline, onWire, here.live, ran]

theorem At.readline (here : At v c) {reply rest : List Char} (answer : ReplyLine reply tab)
    (heard : c.wire.heard = reply ++ '\n' :: rest) :
    ∃ c', Pmi1.readline c = .done (reply.length + 1, reply ++ ['\n']) c' ∧ c'.wire.heard = rest ∧
      c'.wire.sent = c.wire.sent ∧ At v c' := by
  obtain ⟨wire', ran, rest, sent, opened⟩ :=
    here.opened.readline [] answer.one_line answer.fits heard
  refine ⟨{ c with wire := wire' }, ?_, rest, sent, here.statics, here.live, opened⟩
  simp [Pmi1.readline, onWire, here.live, here.statics, ran]

theorem At.readline_blocked (here : At v c) {reply : List Char} (answer : ReplyLine reply tab)
    (begun : c.wire.heard <+: reply) :
    ∃ c', Pmi1.readline c = .blocked c' ∧ c'.wire.sent = c.wire.sent := by
  have within : '\n' ∉ c.wire.heard := fun member => answer.one_line (begun.subset member)
  have fits : c.wire.heard.length + 1 < pmiuMaxline :=
    Nat.lt_of_le_of_lt (Nat.succ_le_succ begun.length_le) answer.fits
  obtain ⟨wire', ran, sent⟩ := here.opened.readline_blocked [] within fits
  refine ⟨{ c with wire := wire' }, ?_, sent⟩
  simp [Pmi1.readline, onWire, here.live, here.statics, ran]

/-- A program that writes a request, reads the reply and parses it, and then goes on. -/
theorem talks_of_ask {program next : Io Client α} {request reply : List Char}
    {talk : Conversation Char} {value : α} {post : Client → Prop}
    (short : request.length < pmiuMaxline) (answer : ReplyLine reply tab)
    (goes : ∀ c c₁ c₂ c₃, writeline (request ++ ['\n']) c = .done 0 c₁ →
      readline c₁ = .done (reply.length + 1, reply ++ ['\n']) c₂ →
      parseKeyvals (reply ++ ['\n']) c₂ = .done 0 c₃ → program c = next c₃)
    (waits : ∀ c c₁ c₂, writeline (request ++ ['\n']) c = .done 0 c₁ →
      readline c₁ = .blocked c₂ → program c = .blocked c₂)
    (continues : Talks (Heard v tab) next talk value post) :
    Talks (At v) program ((request, reply) :: talk) value post := by
  refine Converses.ask ?_ ?_ continues
  · intro c rest here heard
    obtain ⟨c₁, wrote, heard₁, sent₁, here₁⟩ := here.writeline short
    obtain ⟨c₂, read, heard₂, sent₂, here₂⟩ := here₁.readline answer (heard₁.trans heard)
    have parsed : parseKeyvals (reply ++ ['\n']) c₂ = .done 0 { c₂ with keyvalTab := tab } := by
      simp [parseKeyvals, answer.parsed]
    exact ⟨{ c₂ with keyvalTab := tab }, goes c c₁ c₂ _ wrote read parsed, heard₂,
      sent₂.trans sent₁, ⟨here₂.statics, here₂.live, here₂.opened⟩, rfl⟩
  · intro c here begun
    obtain ⟨c₁, wrote, heard₁, sent₁, here₁⟩ := here.writeline short
    have begun₁ : c₁.wire.heard <+: reply := by
      rw [heard₁]
      exact begun
    obtain ⟨c₂, read, sent₂⟩ := here₁.readline_blocked answer begun₁
    exact ⟨c₂, waits c c₁ c₂ wrote read, sent₂.trans sent₁⟩

/-! ## `GetResponse` -/

/-- The pairs pass the checks of `GetResponse`. -/
structure Accepted (tab : KeyvalTab) (expectedCmd : String) (checkRc : Bool) : Prop where
  cmd : pmiuGetval tab "cmd".toList [] pmiuMaxline = (true, expectedCmd.toList)
  rc : checkRc = true → ∀ rc, pmiuGetval tab "rc".toList [] pmiuMaxline = (true, rc) →
    rc = "0".toList

/-- A pair of the last reply is looked up. -/
theorem talks_getval {keystr : String} {valstr : List Char} {vallen : Nat}
    {rest : Bool × List Char → Io Client α} {talk : Conversation Char} {value : α}
    {post : Client → Prop}
    (continues : Talks (Heard v tab) (rest (pmiuGetval tab keystr.toList valstr vallen)) talk value
      post) :
    Talks (Heard v tab) (getval keystr valstr vallen >>= rest) talk value post :=
  Converses.gets (fun _ here => by rw [here.table]) continues

theorem talks_checkResponse {expectedCmd : String} {checkRc : Bool}
    (accepted : Accepted tab expectedCmd checkRc) :
    Talks (Heard v tab) (checkResponse expectedCmd checkRc) [] 0 (Heard v tab) := by
  refine talks_getval ?_
  rw [accepted.cmd]
  simp only [Bool.not_true, Bool.false_eq_true, if_false, ne_eq, not_true_eq_false]
  cases checkRc with
  | false => exact Converses.pure 0
  | true =>
      refine talks_getval ?_
      cases rc : pmiuGetval tab "rc".toList [] pmiuMaxline with
      | mk found text =>
          have fine : ¬ (found = true ∧ text ≠ "0".toList) := by
            rintro ⟨rfl, other⟩
            exact other (accepted.rc rfl text rc)
          simp only [fine, if_false]
          exact Converses.pure 0

theorem talks_getResponse {request reply : List Char} {expectedCmd : String} {checkRc : Bool}
    (short : request.length < pmiuMaxline) (answer : ReplyLine reply tab)
    (accepted : Accepted tab expectedCmd checkRc) :
    Talks (At v) (getResponse (request ++ ['\n']) expectedCmd checkRc) [(request, reply)] 0
      (Heard v tab) := by
  refine talks_of_ask short answer ?_ ?_ (talks_checkResponse accepted)
  · intro c c₁ c₂ c₃ wrote read parsed
    have positive : ¬ ((reply.length : Int) + 1 ≤ 0) := by omega
    rw [getResponse, Io.bind_done wrote, if_neg (by simp), Io.bind_done read]
    simp only [positive, if_false]
    rw [Io.bind_done parsed, if_neg (by simp)]
  · intro c c₁ c₂ wrote read
    rw [getResponse, Io.bind_done wrote, if_neg (by simp), Io.bind_blocked read]

/-! ## Behind `close` -/

/-- A line cannot be written. -/
theorem Gone.writeline (gone : Gone v c) {request : List Char}
    (short : request.length < pmiuMaxline) :
    ∃ c', Pmi1.writeline (request ++ ['\n']) c = .done (-1) c' ∧ c'.wire.heard = c.wire.heard ∧
      c'.wire.sent = c.wire.sent ∧ Gone v c' := by
  have fits : ¬ pmiuMaxline < request.length + 1 := by omega
  refine ⟨c, ?_, rfl, rfl, gone⟩
  obtain ⟨wire, keyvalTab, statics, closed⟩ := c
  obtain rfl : closed = true := gone.closed
  simp [Pmi1.writeline, onWire, Client.onClosed, pmiuWriteline, fits, writeRetry]

/-- A request fails. -/
theorem talks_getResponse_gone {request : List Char} {expectedCmd : String} {checkRc : Bool}
    (short : request.length < pmiuMaxline) :
    Talks (Gone v) (getResponse (request ++ ['\n']) expectedCmd checkRc) [] (-1) (Gone v) := by
  refine Converses.silent fun c gone => ?_
  obtain ⟨c', wrote, heard, sent, gone'⟩ := gone.writeline short
  refine ⟨c', ?_, heard, sent, gone'⟩
  rw [getResponse, Io.bind_done wrote, if_pos (by simp)]
  rfl

theorem talks_getStatic_gone {β : Type} {read : Statics → β} {rest : β → Io Client α}
    {talk : Conversation Char} {value : α} {post : Client → Prop}
    (continues : Talks (Gone v) (rest (read v)) talk value post) :
    Talks (Gone v) (getStatic read >>= rest) talk value post :=
  Converses.gets (fun _ gone => by rw [gone.statics]) continues

/-! ## Statics -/

theorem Talks.of_heard {program : Io Client α} {talk : Conversation Char} {value : α}
    {post : Client → Prop} (talks : Talks (At v) program talk value post) :
    Talks (Heard v tab) program talk value post :=
  talks.weaken (fun _ here => here.toAt) fun _ after => after

theorem talks_getStatic {β : Type} {read : Statics → β} {rest : β → Io Client α}
    {talk : Conversation Char} {value : α} {post : Client → Prop}
    (continues : Talks (At v) (rest (read v)) talk value post) :
    Talks (At v) (getStatic read >>= rest) talk value post :=
  Converses.gets (fun _ here => by rw [here.statics]) continues

theorem talks_setStatics {change : Statics → Statics} {rest : Unit → Io Client α}
    {talk : Conversation Char} {value : α} {post : Client → Prop} (same : (change v).fd = v.fd)
    (continues : Talks (At (change v)) (rest ()) talk value post) :
    Talks (At v) (setStatics change >>= rest) talk value post := by
  refine Converses.modify (fun c here => ⟨rfl, rfl, ?_⟩) continues
  exact ⟨congrArg change here.statics, here.live, same ▸ here.opened⟩

end FabricBench.Pmi1
