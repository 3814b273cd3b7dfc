import FabricBench.Lib.Conversation

/-!
The connection to the process manager, `PMIU_readline` and `PMIU_writeline` of
`simple_pmiutil.c`.

Owns: the results that `read` and `write` may give, the static buffer of
`PMIU_readline`, a reader without that buffer, and the fact that the buffered one does
the same on every stream, however it is cut into reads and wherever reads are
interrupted (`readlines_refine`).
-/

namespace FabricBench.Pmi1

open FabricBench.Lib

/-- The values of `errno` that make a difference. -/
inductive Errno where
  | eintr
  | other
deriving DecidableEq, Repr

/-- What a `read` returns: at least one character, 0, or -1. -/
inductive ReadResult where
  | data (first : Char) (rest : List Char)
  | eof
  | error (errno : Errno)
deriving DecidableEq, Repr

/-- What a `write` returns: everything has been written, a part of it, or -1. -/
inductive WriteResult where
  | all
  | part (n : Nat)
  | error (errno : Errno)
deriving DecidableEq, Repr

/-- The statics of `PMIU_readline`, of which `buffer` is what lies between `nextChar` and
`lastChar`; what the coming calls will return; and what has been written. A `read`
for which there is no result does not return; a `write` for which there is none writes
everything. -/
structure Wire where
  buffer : List Char
  lastfd : Int
  reads : List ReadResult
  writes : List WriteResult
  sent : List Char
deriving DecidableEq, Repr

/-! ## The functions -/

/-- The `read` that is made again while it is interrupted. -/
def readRetry : List ReadResult → Option (ReadResult × List ReadResult)
  | [] => none
  | .error .eintr :: reads => readRetry reads
  | result :: reads => some (result, reads)

/-- The loop of `PMIU_readline`, with `room` for `maxlen - curlen`. The value is what the
function returns and what it leaves in `buf`. -/
def readlineLoop (fd : Int) : Nat → List Char → Io Wire (Int × List Char)
  | 0, line => pure (line.length, line)
  | room + 1, line => fun wire =>
      match wire.buffer with
      | ch :: buffer =>
          if ch = '\n' then .done (line.length + 1, line ++ [ch]) { wire with buffer := buffer }
          else readlineLoop fd room (line ++ [ch]) { wire with buffer := buffer }
      | [] =>
          match readRetry wire.reads with
          | none => .blocked { wire with lastfd := fd, reads := [] }
          | some (.eof, reads) =>
              .done (line.length, line) { wire with lastfd := fd, reads := reads }
          | some (.error _, reads) =>
              .done (if line = [] then -1 else line.length, line)
                { wire with lastfd := fd, reads := reads }
          | some (.data ch buffer, reads) =>
              let wire := { wire with buffer := buffer, lastfd := fd, reads := reads }
              if ch = '\n' then .done (line.length + 1, line ++ [ch]) wire
              else readlineLoop fd room (line ++ [ch]) wire

/-- A buffer that was filled from another descriptor is an error, and `buf` is left as it
is. -/
def pmiuReadline (fd : Int) (maxlen : Nat) (buf : List Char) : Io Wire (Int × List Char) :=
  fun wire =>
    if wire.buffer ≠ [] ∧ fd ≠ wire.lastfd then .done (-1, buf) wire
    else readlineLoop fd (maxlen - 1) [] wire

def pmiuMaxline : Nat := 1024

/-- The `write` that is made again while it is interrupted. -/
def writeRetry : List WriteResult → WriteResult × List WriteResult
  | [] => (.all, [])
  | .error .eintr :: writes => writeRetry writes
  | result :: writes => (result, writes)

/-- A line that is too long or has no end is only reported, and so is a line of which a
part was written. The last character of an empty one would be the one before it. -/
def pmiuWriteline (buf : List Char) : Io Wire Int := fun wire =>
  if pmiuMaxline < buf.length then .done 0 wire
  else
    match buf.getLast? with
    | none => .undefined
    | some last =>
        if last ≠ '\n' then .done 0 wire
        else
          match writeRetry wire.writes with
          | (.all, writes) => .done 0 { wire with writes := writes, sent := wire.sent ++ buf }
          | (.part n, writes) =>
              .done 0 { wire with writes := writes, sent := wire.sent ++ buf.take n }
          | (.error _, writes) => .done (-1) { wire with writes := writes }

/-! ## The stream -/

/-- What a reader sees of its stream. -/
inductive Event where
  | char (c : Char)
  | eof
  | failed
deriving DecidableEq, Repr

def ReadResult.events : ReadResult → List Event
  | .data first rest => .char first :: rest.map .char
  | .eof => [.eof]
  | .error .eintr => []
  | .error .other => [.failed]

/-- A connection without a buffer, on which everything comes one at a time. -/
structure Plain where
  events : List Event
  writes : List WriteResult
  sent : List Char
deriving DecidableEq, Repr

def Wire.plain (wire : Wire) : Plain where
  events := wire.buffer.map .char ++ wire.reads.flatMap ReadResult.events
  writes := wire.writes
  sent := wire.sent

/-- The reader on a plain connection. -/
def plainLoop : Nat → List Char → Io Plain (Int × List Char)
  | 0, line => pure (line.length, line)
  | room + 1, line => fun wire =>
      match wire.events with
      | [] => .blocked wire
      | .char ch :: events =>
          if ch = '\n' then .done (line.length + 1, line ++ [ch]) { wire with events := events }
          else plainLoop room (line ++ [ch]) { wire with events := events }
      | .eof :: events => .done (line.length, line) { wire with events := events }
      | .failed :: events =>
          .done (if line = [] then -1 else line.length, line) { wire with events := events }

def plainReadline (maxlen : Nat) : Io Plain (Int × List Char) := plainLoop (maxlen - 1) []

/-- What is in the buffer came from `fd`. -/
def Wire.From (fd : Int) (wire : Wire) : Prop := wire.buffer = [] ∨ wire.lastfd = fd

/-- Interrupted reads do not show. -/
theorem readRetry_events (reads : List ReadResult) :
    reads.flatMap ReadResult.events =
      match readRetry reads with
      | none => []
      | some (result, rest) => result.events ++ rest.flatMap ReadResult.events := by
  induction reads with
  | nil => rfl
  | cons result others inductionHypothesis =>
      cases result with
      | data first rest => rfl
      | eof => rfl
      | error errno =>
          cases errno with
          | eintr => exact inductionHypothesis
          | other => rfl

theorem readRetry_ne_eintr {reads rest : List ReadResult} :
    readRetry reads ≠ some (.error .eintr, rest) := by
  induction reads with
  | nil => exact nofun
  | cons result others inductionHypothesis =>
      cases result with
      | data first chars => exact fun found => by simp [readRetry] at found
      | eof => exact fun found => by simp [readRetry] at found
      | error errno =>
          cases errno with
          | eintr => exact inductionHypothesis
          | other => exact fun found => by simp [readRetry] at found

theorem readlineLoop_refines (fd : Int) (room : Nat) (line : List Char) :
    Refines (Wire.From fd) Wire.plain (readlineLoop fd room line) (plainLoop room line) := by
  induction room generalizing line with
  | zero => exact .pure _
  | succ room inductionHypothesis =>
      rintro ⟨buffer, lastfd, reads, writes, sent⟩ origin
      have seen := readRetry_events reads
      cases buffer with
      | cons ch others =>
          have same : lastfd = fd := origin.resolve_left (List.cons_ne_nil _ _)
          by_cases ends : ch = '\n'
          · simp [readlineLoop, plainLoop, Wire.plain, ends, Wire.From, same]
          · have rest := inductionHypothesis (line ++ [ch]) ⟨others, lastfd, reads, writes, sent⟩
              (.inr same)
            simpa [readlineLoop, plainLoop, Wire.plain, ends] using rest
      | nil =>
          cases found : readRetry reads with
          | none =>
              rw [found] at seen
              simp [readlineLoop, plainLoop, Wire.plain, found, seen]
          | some next =>
              obtain ⟨result, later⟩ := next
              rw [found] at seen
              cases result with
              | eof =>
                  simp [readlineLoop, plainLoop, Wire.plain, found, seen, ReadResult.events,
                    Wire.From]
              | error errno =>
                  cases errno with
                  | eintr => exact absurd found readRetry_ne_eintr
                  | other =>
                      simp [readlineLoop, plainLoop, Wire.plain, found, seen, ReadResult.events,
                        Wire.From]
              | data ch others =>
                  by_cases ends : ch = '\n'
                  · simp [readlineLoop, plainLoop, Wire.plain, found, seen, ReadResult.events,
                      Wire.From, ends]
                  · have rest := inductionHypothesis (line ++ [ch])
                      ⟨others, fd, later, writes, sent⟩ (.inr rfl)
                    simpa [readlineLoop, plainLoop, Wire.plain, found, seen, ReadResult.events,
                      ends] using rest

theorem pmiuReadline_refines (fd : Int) (maxlen : Nat) (buf : List Char) :
    Refines (Wire.From fd) Wire.plain (pmiuReadline fd maxlen buf) (plainReadline maxlen) := by
  intro wire origin
  have consistent : ¬ (wire.buffer ≠ [] ∧ fd ≠ wire.lastfd) := by
    rintro ⟨filled, other⟩
    exact other (origin.resolve_left filled).symm
  rw [pmiuReadline, if_neg consistent]
  exact readlineLoop_refines fd _ [] wire origin

/-- Calls in a row return what they would return on the plain connection: neither the
sizes of the reads nor the interrupted ones among them make a difference, whatever the
lines, and up to and beyond an end of the stream or an error. -/
theorem readlines_refine (fd : Int) (maxlen : Nat) (bufs : List (List Char)) :
    Refines (Wire.From fd) Wire.plain (Io.forEach (pmiuReadline fd maxlen) bufs)
      (Io.forEach (fun _ => plainReadline maxlen) bufs) :=
  Refines.forEach (pmiuReadline_refines fd maxlen) bufs

/-- A reader with room for four characters, of a line that comes in three reads, one of
which is interrupted, and of a line that is too long for it. -/
example :
    Io.forEach (pmiuReadline 5 5) [[], [], []]
        ⟨[], -1, [.data 'a' [], .error .eintr, .data 'b' ['\n', 'c', 'd'], .data 'e' ['f', 'g'],
          .eof], [], []⟩ =
      .done [(3, ['a', 'b', '\n']), (4, ['c', 'd', 'e', 'f']), (1, ['g'])] ⟨[], 5, [], [], []⟩ := by
  rfl

/-! ## Nothing is lost -/

def Event.char? : Event → Option Char
  | .char c => some c
  | _ => none

def Plain.heard (wire : Plain) : List Char := wire.events.filterMap Event.char?

/-- The characters that have come in and have not been returned. -/
def Wire.heard (wire : Wire) : List Char := wire.plain.heard

/-- What a call that returns has taken off the stream: at most `room` characters, with the
end of a line only as the last of them. -/
theorem plainLoop_done {room : Nat} {begun : List Char} {wire wire' : Plain} {rc : Int}
    {line : List Char} (returns : plainLoop room begun wire = .done (rc, line) wire') :
    ∃ part, line = begun ++ part ∧ wire.heard = part ++ wire'.heard ∧ part.length ≤ room ∧
      '\n' ∉ part.dropLast := by
  induction room generalizing begun wire with
  | zero =>
      obtain ⟨same, rfl⟩ := Outcome.done.inj returns
      exact ⟨[], by simp [(Prod.mk.inj same).2], rfl, Nat.le_refl _, by simp⟩
  | succ room inductionHypothesis =>
      obtain ⟨events, writes, sent⟩ := wire
      cases events with
      | nil => exact nomatch returns
      | cons event events =>
          cases event with
          | char ch =>
              by_cases ends : ch = '\n'
              · simp only [plainLoop, ends, if_true, Outcome.done.injEq, Prod.mk.injEq] at returns
                obtain ⟨⟨-, rfl⟩, rfl⟩ := returns
                exact ⟨['\n'], rfl, by simp [Plain.heard, Event.char?, ends], by simp, by simp⟩
              · simp only [plainLoop, ends, if_false] at returns
                obtain ⟨part, rfl, rest, short, within⟩ := inductionHypothesis returns
                refine ⟨ch :: part, by simp, ?_, by simpa using short, ?_⟩
                · rw [List.cons_append, ← rest]
                  rfl
                · intro member
                  cases part with
                  | nil => exact nomatch member
                  | cons next others =>
                      rw [List.dropLast_cons_cons, List.mem_cons] at member
                      rcases member with same | later
                      · exact ends same.symm
                      · exact within later
          | eof =>
              obtain ⟨same, rfl⟩ := Outcome.done.inj returns
              exact ⟨[], by simp [(Prod.mk.inj same).2], rfl, Nat.zero_le _, by simp⟩
          | failed =>
              obtain ⟨same, rfl⟩ := Outcome.done.inj returns
              exact ⟨[], by simp [(Prod.mk.inj same).2], rfl, Nat.zero_le _, by simp⟩

theorem plainReadlines_done {maxlen : Nat} {bufs : List (List Char)} {wire wire' : Plain}
    {values : List (Int × List Char)}
    (returns : Io.forEach (fun _ => plainReadline maxlen) bufs wire = .done values wire') :
    wire.heard = values.flatMap Prod.snd ++ wire'.heard ∧
      ∀ value ∈ values, value.2.length ≤ maxlen - 1 ∧ '\n' ∉ value.2.dropLast := by
  induction bufs generalizing wire values with
  | nil =>
      obtain ⟨rfl, rfl⟩ := Outcome.done.inj returns
      exact ⟨rfl, by simp⟩
  | cons buf others inductionHypothesis =>
      obtain ⟨⟨rc, line⟩, between, first, rest⟩ := Io.bind_eq_done returns
      obtain ⟨values', last, later, done⟩ := Io.bind_eq_done rest
      obtain ⟨rfl, rfl⟩ := Outcome.done.inj done
      obtain ⟨part, lineEq, heard, short, within⟩ := plainLoop_done first
      obtain ⟨heard', lines⟩ := inductionHypothesis later
      rw [List.nil_append] at lineEq
      refine ⟨by simp [heard, heard', lineEq], ?_⟩
      intro value member
      rcases List.mem_cons.mp member with rfl | earlier
      · simp only [lineEq]
        exact ⟨short, within⟩
      · exact lines value earlier

/-- Calls in a row hand out the characters of the stream in order, none lost and none
twice, in texts of less than `maxlen` characters that have the end of a line only as their
last; an end of the stream and errors of `read` make no difference to this. -/
theorem readlines_partition (fd : Int) (maxlen : Nat) (bufs : List (List Char)) (wire wire' : Wire)
    (origin : wire.From fd) (values : List (Int × List Char))
    (returns : Io.forEach (pmiuReadline fd maxlen) bufs wire = .done values wire') :
    wire.heard = values.flatMap Prod.snd ++ wire'.heard ∧
      ∀ value ∈ values, value.2.length ≤ maxlen - 1 ∧ '\n' ∉ value.2.dropLast := by
  have plain := Refines.forEach (pmiuReadline_refines fd maxlen) bufs wire origin
  rw [returns] at plain
  exact plainReadlines_done plain.1

/-- A second line that an error of `read` ends early. -/
theorem readlines_partition_error :
    (⟨[], -1, [.data 'a' ['\n', 'b'], .error .other, .data 'c' []], [], []⟩ : Wire).heard =
      ['a', '\n', 'b'] ++ (⟨[], 5, [.data 'c' []], [], []⟩ : Wire).heard :=
  (readlines_partition 5 1024 [[], []]
    ⟨[], -1, [.data 'a' ['\n', 'b'], .error .other, .data 'c' []], [], []⟩
    ⟨[], 5, [.data 'c' []], [], []⟩ (.inl rfl) [(2, ['a', '\n']), (1, ['b'])] rfl).1

/-! ## Open connections -/

/-- Nothing but characters comes in, and every `write` that is not interrupted writes
everything. -/
structure Wire.Open (fd : Int) (wire : Wire) : Prop where
  origin : wire.From fd
  chars : wire.plain.events = wire.heard.map .char
  writes : ∀ result ∈ wire.writes, result = .all ∨ result = .error .eintr

theorem filterMap_char (text : List Char) :
    (text.map Event.char).filterMap Event.char? = text := by
  rw [List.filterMap_map]
  exact List.filterMap_some

/-- Characters within a line are collected. -/
theorem plainLoop_chars {part : List Char} (within : '\n' ∉ part) (room : Nat)
    (begun : List Char) (events : List Event) (writes : List WriteResult) (sent : List Char) :
    plainLoop (room + part.length) begun ⟨part.map .char ++ events, writes, sent⟩ =
      plainLoop room (begun ++ part) ⟨events, writes, sent⟩ := by
  induction part generalizing begun with
  | nil => simp
  | cons c others inductionHypothesis =>
      have other : c ≠ '\n' := fun same => within (by simp [same])
      have later : '\n' ∉ others := fun member => within (List.mem_cons_of_mem _ member)
      rw [List.length_cons, ← Nat.add_assoc, List.map_cons, List.cons_append, plainLoop]
      simpa [other] using inductionHypothesis later (begun ++ [c])

/-- A whole line is taken off the stream. -/
theorem plainLoop_line {line : List Char} (within : '\n' ∉ line) {room : Nat}
    (fits : line.length < room) (rest : List Event) (writes : List WriteResult)
    (sent : List Char) :
    plainLoop room [] ⟨line.map .char ++ .char '\n' :: rest, writes, sent⟩ =
      .done (line.length + 1, line ++ ['\n']) ⟨rest, writes, sent⟩ := by
  obtain ⟨left, rfl⟩ := Nat.exists_eq_add_of_lt fits
  have collected := plainLoop_chars within (left + 1) [] (.char '\n' :: rest) writes sent
  rw [show line.length + left + 1 = left + 1 + line.length by omega, collected]
  simp [plainLoop]

/-- A line that has not ended is waited for. -/
theorem plainLoop_part {part : List Char} (within : '\n' ∉ part) {room : Nat}
    (fits : part.length < room) (writes : List WriteResult) (sent : List Char) :
    plainLoop room [] ⟨part.map .char, writes, sent⟩ = .blocked ⟨[], writes, sent⟩ := by
  obtain ⟨left, rfl⟩ := Nat.exists_eq_add_of_lt fits
  have collected := plainLoop_chars within (left + 1) [] [] writes sent
  rw [List.append_nil] at collected
  rw [show part.length + left + 1 = left + 1 + part.length by omega, collected]
  simp [plainLoop]

variable {fd : Int} {wire : Wire}

theorem Wire.Open.readline (opened : wire.Open fd) {maxlen : Nat} (buf : List Char)
    {line rest : List Char} (within : '\n' ∉ line) (fits : line.length + 1 < maxlen)
    (heard : wire.heard = line ++ '\n' :: rest) :
    ∃ wire', pmiuReadline fd maxlen buf wire = .done (line.length + 1, line ++ ['\n']) wire' ∧
      wire'.heard = rest ∧ wire'.sent = wire.sent ∧ wire'.Open fd := by
  have plain : wire.plain = ⟨line.map .char ++ .char '\n' :: rest.map .char, wire.writes,
      wire.sent⟩ := by
    have events := opened.chars
    rw [heard, List.map_append, List.map_cons] at events
    rw [← events]
    rfl
  have returns := plainLoop_line within (show line.length < maxlen - 1 by omega)
    (rest.map .char) wire.writes wire.sent
  rw [← plain] at returns
  obtain ⟨wire', ran, after, origin⟩ :=
    (pmiuReadline_refines fd maxlen buf).done opened.origin returns
  have events : wire'.plain.events = rest.map .char := by rw [after]
  have rest' : wire'.heard = rest := by
    rw [Wire.heard, Plain.heard, events, filterMap_char]
  refine ⟨wire', by simpa using ran, rest', congrArg Plain.sent after, origin, ?_, ?_⟩
  · rw [events, rest']
  · have writes : wire'.writes = wire.writes := congrArg Plain.writes after
    rw [writes]
    exact opened.writes

theorem Wire.Open.readline_blocked (opened : wire.Open fd) {maxlen : Nat} (buf : List Char)
    (within : '\n' ∉ wire.heard) (fits : wire.heard.length + 1 < maxlen) :
    ∃ wire', pmiuReadline fd maxlen buf wire = .blocked wire' ∧ wire'.sent = wire.sent := by
  have plain : wire.plain = ⟨wire.heard.map .char, wire.writes, wire.sent⟩ := by
    rw [← opened.chars]
    rfl
  have blocks := plainLoop_part within (show wire.heard.length < maxlen - 1 by omega)
    wire.writes wire.sent
  rw [← plain] at blocks
  obtain ⟨wire', ran, after⟩ := (pmiuReadline_refines fd maxlen buf).blocked opened.origin blocks
  exact ⟨wire', ran, congrArg Plain.sent after⟩

/-- On an open connection a `write` is made until it is not interrupted. -/
theorem writeRetry_all {writes : List WriteResult}
    (opened : ∀ result ∈ writes, result = .all ∨ result = .error .eintr) :
    ∃ rest, writeRetry writes = (.all, rest) ∧ ∀ result ∈ rest, result ∈ writes := by
  induction writes with
  | nil => exact ⟨[], rfl, fun _ member => member⟩
  | cons result others inductionHypothesis =>
      rcases opened result List.mem_cons_self with rfl | rfl
      · exact ⟨others, rfl, fun _ member => List.mem_cons_of_mem _ member⟩
      · obtain ⟨rest, ran, subset⟩ := inductionHypothesis fun result member =>
          opened result (List.mem_cons_of_mem _ member)
        exact ⟨rest, ran, fun result member => List.mem_cons_of_mem _ (subset result member)⟩

theorem Wire.Open.writeline (opened : wire.Open fd) {line : List Char}
    (fits : line.length < pmiuMaxline) :
    ∃ wire', pmiuWriteline (line ++ ['\n']) wire = .done 0 wire' ∧ wire'.heard = wire.heard ∧
      wire'.sent = wire.sent ++ (line ++ ['\n']) ∧ wire'.Open fd := by
  obtain ⟨rest, ran, subset⟩ := writeRetry_all opened.writes
  have short : ¬ pmiuMaxline < (line ++ ['\n']).length := by
    rw [List.length_append, List.length_singleton]
    omega
  refine ⟨{ wire with writes := rest, sent := wire.sent ++ (line ++ ['\n']) }, ?_, rfl, rfl,
    opened.origin, opened.chars, fun result member => opened.writes result (subset result member)⟩
  rw [pmiuWriteline, if_neg short]
  simp [ran]

end FabricBench.Pmi1
