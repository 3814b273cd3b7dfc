import Mathlib.Data.List.TakeWhile
import Mathlib.Tactic.Common

/-!
The table of key-value pairs of `simple_pmiutil.c`.

Owns: `PMIU_parse_keyvals` and `PMIU_getval`, the lines that are accepted (`Line`), and the fact
that exactly these are, with exactly their pairs (`pmiuParseKeyvals_accepts_iff`).
-/

namespace FabricBench.Pmi1

/-- `MPIU_Strncpy(dest, src, n)`: what it returns and the string it leaves in `dest`. -/
def mpiuStrncpy (dest src : List Char) (n : Nat) : Int × List Char :=
  if n = 0 then (0, dest)
  else if src.length < n then (0, src)
  else (1, src.take (n - 1))

theorem mpiuStrncpy_of_lt (dest : List Char) {src : List Char} {n : Nat} (fits : src.length < n) :
    mpiuStrncpy dest src n = (0, src) := by
  have positive : n ≠ 0 := Nat.ne_zero_of_lt fits
  rw [mpiuStrncpy, if_neg positive, if_pos fits]

theorem mpiuStrncpy_take (dest src : List Char) {n : Nat} (positive : 0 < n) :
    (mpiuStrncpy dest src n).2 = src.take (n - 1) := by
  rw [mpiuStrncpy, if_neg positive.ne']
  split_ifs with fits
  · exact (List.take_of_length_le (Nat.le_sub_one_of_lt fits)).symm
  · rfl

/-! ## The table -/

def maxkeylen : Nat := 32

def maxvallen : Nat := 1024

/-- The number of entries of `PMIU_keyval_tab`. -/
def keyvalTabSize : Nat := 64

/-- `PMIU_keyval_pairs`. -/
structure KeyvalPair where
  key : List Char
  value : List Char
deriving DecidableEq, Repr

/-- The entries of `PMIU_keyval_tab` up to `PMIU_keyval_tab_idx`. -/
abbrev KeyvalTab := List KeyvalPair

def keyChar (c : Char) : Bool := c ≠ ' ' && c ≠ '=' && c ≠ '\n'

def valueChar (c : Char) : Bool := c ≠ ' ' && c ≠ '\n'

/-- The value is copied with all that follows it and then cut at its end. -/
def keyvalEntry (key valstart : List Char) : KeyvalPair where
  key := (mpiuStrncpy [] key maxkeylen).2
  value := (mpiuStrncpy [] valstart maxvallen).2.take (valstart.takeWhile valueChar).length

/-- The loop of `PMIU_parse_keyvals` at `p`. A pair behind the last entry of the table and
a value whose end is not in its array are stored elsewhere, which is undefined. -/
def parseLoop : Nat → List Char → KeyvalTab → Option (Int × KeyvalTab)
  | 0, _, tab => some (0, tab)
  | fuel + 1, p, tab =>
      let keystart := p.dropWhile (· = ' ')
      match keystart with
      | [] => some (0, tab)
      | c :: _ =>
          if c = '=' then some (-1, tab)
          else if c = '\n' then some (0, tab)
          else
            match keystart.dropWhile keyChar with
            | '=' :: valstart =>
                if keyvalTabSize ≤ tab.length ∨
                    maxvallen ≤ (valstart.takeWhile valueChar).length then none
                else
                  let tab := tab ++ [keyvalEntry (keystart.takeWhile keyChar) valstart]
                  match valstart.dropWhile valueChar with
                  | ' ' :: rest => parseLoop fuel (' ' :: rest) tab
                  | _ => some (0, tab)
            | _ => some (-1, tab)

/-- Every round of the loop takes at least one character. -/
def pmiuParseKeyvals (st : List Char) : Option (Int × KeyvalTab) :=
  parseLoop (st.length + 1) (st.takeWhile (· ≠ '\x00')) []

/-- Whether a pointer is returned, and what is left in `valstr`. -/
def pmiuGetval (tab : KeyvalTab) (keystr valstr : List Char) (vallen : Nat) : Bool × List Char :=
  match tab.find? fun pair => pair.key = keystr with
  | some pair =>
      let copied := mpiuStrncpy valstr pair.value vallen
      (copied.1 = 0, copied.2)
  | none => (false, [])

/-! ## The lines that are accepted -/

/-- A line with its pairs: blanks, and then either the end of the line or a pair that is
followed by a blank or by the end of the line. -/
inductive Line : List Char → List (List Char × List Char) → Prop where
  | ended (blanks : Nat) : Line (List.replicate blanks ' ') []
  | newline (blanks : Nat) (behind : List Char) :
    Line (List.replicate blanks ' ' ++ '\n' :: behind) []
  | pair (blanks : Nat) (key value : List Char) {tail : List Char}
      {pairs : List (List Char × List Char)} (some_key : key ≠ [])
      (key_chars : ∀ c ∈ key, keyChar c = true) (value_chars : ∀ c ∈ value, valueChar c = true)
      (ends : tail.takeWhile valueChar = []) (others : Line tail pairs) :
      Line (List.replicate blanks ' ' ++ (key ++ '=' :: (value ++ tail))) ((key, value) :: pairs)

/-- What the table holds of a pair. -/
def stored (pair : List Char × List Char) : KeyvalPair := ⟨pair.1.take (maxkeylen - 1), pair.2⟩

theorem keyvalEntry_eq (key : List Char) {value tail : List Char} (short : value.length < maxvallen)
    (chars : ∀ c ∈ value, valueChar c = true) (ends : tail.takeWhile valueChar = []) :
    keyvalEntry key (value ++ tail) = stored (key, value) := by
  have cut : (value ++ tail).takeWhile valueChar = value := by
    rw [List.takeWhile_append_of_pos chars, ends, List.append_nil]
  have copied : (mpiuStrncpy [] (value ++ tail) maxvallen).2 =
      (value ++ tail).take (maxvallen - 1) :=
    mpiuStrncpy_take _ _ (by decide)
  have copiedKey : (mpiuStrncpy [] key maxkeylen).2 = key.take (maxkeylen - 1) :=
    mpiuStrncpy_take _ _ (by decide)
  have within : value.length ≤ maxvallen - 1 := Nat.le_sub_one_of_lt short
  simp only [keyvalEntry, stored, cut, copied, copiedKey, List.take_take, Nat.min_eq_left within,
    List.take_left']

theorem dropWhile_blanks (blanks : Nat) (rest : List Char) :
    (List.replicate blanks ' ' ++ rest).dropWhile (· = ' ') = rest.dropWhile (· = ' ') :=
  List.dropWhile_append_of_pos fun c member => by simp [List.eq_of_mem_replicate member]

/-- At the end of a line the loop is left. -/
theorem parseLoop_end (fuel : Nat) (tab : KeyvalTab) (blanks : Nat) {rest : List Char}
    (ends : rest = [] ∨ ∃ behind, rest = '\n' :: behind) :
    parseLoop fuel (List.replicate blanks ' ' ++ rest) tab = some (0, tab) := by
  cases fuel with
  | zero => rfl
  | succ fuel =>
      rw [parseLoop, dropWhile_blanks]
      rcases ends with rfl | ⟨behind, rfl⟩
      · rfl
      · simp

/-- A pair is stored, if there is room for it, and the loop goes on behind it. -/
theorem parseLoop_pair (fuel : Nat) (tab : KeyvalTab) (blanks : Nat) {key value tail : List Char}
    (some_key : key ≠ []) (key_chars : ∀ c ∈ key, keyChar c = true)
    (value_chars : ∀ c ∈ value, valueChar c = true) (ends : tail.takeWhile valueChar = []) :
    parseLoop (fuel + 1) (List.replicate blanks ' ' ++ (key ++ '=' :: (value ++ tail))) tab =
      if keyvalTabSize ≤ tab.length ∨ maxvallen ≤ value.length then none
      else parseLoop fuel tail (tab ++ [stored (key, value)]) := by
  obtain ⟨c, others, rfl⟩ := List.exists_cons_of_ne_nil some_key
  have first := key_chars c List.mem_cons_self
  simp only [keyChar, ne_eq, decide_not, Bool.and_eq_true, Bool.not_eq_true',
    decide_eq_false_iff_not]
    at first
  obtain ⟨⟨notBlank, notEquals⟩, notNewline⟩ := first
  have keystart : (List.replicate blanks ' ' ++ (c :: others ++ '=' :: (value ++ tail))).dropWhile
      (· = ' ') = c :: (others ++ '=' :: (value ++ tail)) := by
    rw [dropWhile_blanks]
    simp [notBlank]
  have keyTaken : (c :: (others ++ '=' :: (value ++ tail))).takeWhile keyChar = c :: others := by
    rw [← List.cons_append, List.takeWhile_append_of_pos key_chars]
    simp [keyChar]
  have keyDropped : (c :: (others ++ '=' :: (value ++ tail))).dropWhile keyChar =
      '=' :: (value ++ tail) := by
    rw [← List.cons_append, List.dropWhile_append_of_pos key_chars]
    simp [keyChar]
  have valueTaken : (value ++ tail).takeWhile valueChar = value := by
    rw [List.takeWhile_append_of_pos value_chars, ends, List.append_nil]
  have valueDropped : (value ++ tail).dropWhile valueChar = tail := by
    rw [List.dropWhile_append_of_pos value_chars]
    calc tail.dropWhile valueChar = tail.takeWhile valueChar ++ tail.dropWhile valueChar := by
          rw [ends, List.nil_append]
      _ = tail := List.takeWhile_append_dropWhile
  rw [parseLoop, keystart]
  simp only [notEquals, notNewline, if_false, keyDropped, keyTaken, valueTaken, valueDropped]
  split_ifs with full
  · rfl
  · have entry : keyvalEntry (c :: others) (value ++ tail) = stored (c :: others, value) :=
      keyvalEntry_eq _ (by omega) value_chars ends
    rw [entry]
    -- Behind the value there is the end of the line or a blank.
    cases tail with
    | nil => exact (parseLoop_end fuel _ 0 (.inl rfl)).symm
    | cons d behind =>
        by_cases blank : d = ' '
        · subst blank
          rfl
        · have newline : d = '\n' := by
            by_contra other
            simp [valueChar, blank, other] at ends
          subst newline
          exact (parseLoop_end fuel _ 0 (.inr ⟨behind, rfl⟩)).symm

theorem parseLoop_of_line {text : List Char} {pairs : List (List Char × List Char)}
    (line : Line text pairs) {fuel : Nat} (enough : text.length < fuel) (tab : KeyvalTab)
    (room : tab.length + pairs.length ≤ keyvalTabSize)
    (short : ∀ pair ∈ pairs, pair.2.length < maxvallen) :
    parseLoop fuel text tab = some (0, tab ++ pairs.map stored) := by
  induction line generalizing fuel tab with
  | ended blanks =>
      have ended := parseLoop_end fuel tab blanks (.inl rfl)
      simpa using ended
  | newline blanks behind =>
      have ended := parseLoop_end fuel tab blanks (.inr ⟨behind, rfl⟩)
      simpa using ended
  | @pair blanks key value tail pairs some_key key_chars value_chars ends _ inductionHypothesis =>
      obtain ⟨fuel, rfl⟩ := Nat.exists_eq_add_of_lt (Nat.zero_lt_of_lt enough)
      have own := short (key, value) List.mem_cons_self
      simp only [List.length_append, List.length_cons] at enough room
      have left : ¬ (keyvalTabSize ≤ tab.length ∨ maxvallen ≤ value.length) := by
        rintro (full | long)
        · omega
        · exact absurd long (Nat.not_le_of_lt own)
      have rest := inductionHypothesis (show tail.length < 0 + fuel by omega)
        (tab ++ [stored (key, value)])
        (by rw [List.length_append, List.length_singleton]; omega)
        fun pair member => short pair (List.mem_cons_of_mem _ member)
      rw [parseLoop_pair _ _ _ some_key key_chars value_chars ends, if_neg left, rest]
      simp

/-- What is before the first character that is not a blank. -/
theorem exists_blanks (text : List Char) :
    ∃ blanks, text = List.replicate blanks ' ' ++ text.dropWhile (· = ' ') := by
  refine ⟨(text.takeWhile (· = ' ')).length, ?_⟩
  have all : text.takeWhile (· = ' ') = List.replicate (text.takeWhile (· = ' ')).length ' ' := by
    refine List.eq_replicate_of_mem fun c member => ?_
    simpa using List.mem_takeWhile_imp member
  conv_lhs => rw [← List.takeWhile_append_dropWhile (p := (· = ' ')) (l := text)]
  rw [← all]

theorem takeWhile_dropWhile_eq_nil (p : Char → Bool) (text : List Char) :
    (text.dropWhile p).takeWhile p = [] := by
  cases start : text.dropWhile p with
  | nil => rfl
  | cons c rest =>
      have stops := List.head_dropWhile_not p (l := text) (by simp [start])
      simp only [start, List.head_cons] at stops
      simp [stops]

/-- What can stand at `p`: the end of the line, a pair, or something that is an error. -/
theorem parse_cases (text : List Char) :
    (∃ blanks rest, text = List.replicate blanks ' ' ++ rest ∧
      (rest = [] ∨ ∃ behind, rest = '\n' :: behind)) ∨
    (∃ blanks key value tail, text = List.replicate blanks ' ' ++ (key ++ '=' :: (value ++ tail)) ∧
      key ≠ [] ∧ (∀ c ∈ key, keyChar c = true) ∧ (∀ c ∈ value, valueChar c = true) ∧
      tail.takeWhile valueChar = []) ∨
    ∀ fuel tab, parseLoop (fuel + 1) text tab = some (-1, tab) := by
  obtain ⟨blanks, shape⟩ := exists_blanks text
  have notBlank := takeWhile_dropWhile_eq_nil (· = ' ') text
  cases start : text.dropWhile (· = ' ') with
  | nil => exact .inl ⟨blanks, [], start ▸ shape, .inl rfl⟩
  | cons c rest =>
      rw [start] at shape notBlank
      by_cases equals : c = '='
      · exact .inr (.inr fun fuel tab => by simp [parseLoop, start, equals])
      · by_cases newline : c = '\n'
        · exact .inl ⟨blanks, c :: rest, shape, .inr ⟨rest, by rw [newline]⟩⟩
        · cases delimiter : (c :: rest).dropWhile keyChar with
          | nil =>
              exact .inr (.inr fun fuel tab => by
                simp [parseLoop, start, equals, newline, delimiter])
          | cons d valstart =>
              by_cases assigned : d = '='
              · refine .inr (.inl ⟨blanks, (c :: rest).takeWhile keyChar,
                  valstart.takeWhile valueChar, valstart.dropWhile valueChar, ?_, ?_,
                  fun d => List.mem_takeWhile_imp, fun d => List.mem_takeWhile_imp,
                  takeWhile_dropWhile_eq_nil valueChar valstart⟩)
                · rw [List.takeWhile_append_dropWhile, ← assigned, ← delimiter,
                    List.takeWhile_append_dropWhile]
                  exact shape
                · have blank : c ≠ ' ' := fun same => by simp [same] at notBlank
                  simp [keyChar, equals, newline, blank]
              · exact .inr (.inr fun fuel tab => by
                  simp [parseLoop, start, equals, newline, delimiter, assigned])

theorem line_of_parseLoop {fuel : Nat} {text : List Char} {tab tab' : KeyvalTab}
    (enough : text.length < fuel) (room : tab.length ≤ keyvalTabSize)
    (accepted : parseLoop fuel text tab = some (0, tab')) :
    ∃ pairs, Line text pairs ∧ tab.length + pairs.length ≤ keyvalTabSize ∧
      (∀ pair ∈ pairs, pair.2.length < maxvallen) ∧ tab' = tab ++ pairs.map stored := by
  induction fuel generalizing text tab with
  | zero => exact absurd enough (Nat.not_lt_zero _)
  | succ fuel inductionHypothesis =>
      rcases parse_cases text with ⟨blanks, rest, rfl, ends⟩ |
        ⟨blanks, key, value, tail, rfl, someKey, keyChars, valueChars, ends⟩ | error
      · rw [parseLoop_end _ _ _ ends, Option.some.injEq, Prod.mk.injEq] at accepted
        refine ⟨[], ?_, room, by simp, by simp [accepted.2]⟩
        rcases ends with rfl | ⟨behind, rfl⟩
        · rw [List.append_nil]
          exact .ended blanks
        · exact .newline blanks behind
      · rw [parseLoop_pair _ _ _ someKey keyChars valueChars ends] at accepted
        obtain ⟨left, rest⟩ := Option.ite_none_left_eq_some.mp accepted
        simp only [List.length_append, List.length_cons] at enough
        have below : (tab ++ [stored (key, value)]).length ≤ keyvalTabSize := by
          rw [List.length_append, List.length_singleton]
          omega
        obtain ⟨pairs, line, fits, values, filled⟩ := inductionHypothesis (by omega) below rest
        refine ⟨(key, value) :: pairs, .pair blanks key value someKey keyChars valueChars ends line,
          ?_, ?_, ?_⟩
        · rw [List.length_append, List.length_singleton] at fits
          rw [List.length_cons]
          omega
        · intro pair member
          rcases List.mem_cons.mp member with rfl | later
          · exact Nat.lt_of_not_le fun long => left (.inr long)
          · exact values pair later
        · rw [filled, List.append_assoc, List.map_cons, List.singleton_append]
      · rw [error] at accepted
        simp at accepted

theorem length_cString_lt (st : List Char) :
    (st.takeWhile (· ≠ '\x00')).length < st.length + 1 := by
  have cut := List.takeWhile_prefix (· ≠ '\x00') (l := st)
  exact Nat.lt_succ_of_le cut.length_le

theorem pmiuParseKeyvals_of_line {st : List Char} {pairs : List (List Char × List Char)}
    (line : Line (st.takeWhile (· ≠ '\x00')) pairs) (room : pairs.length ≤ keyvalTabSize)
    (short : ∀ pair ∈ pairs, pair.2.length < maxvallen) :
    pmiuParseKeyvals st = some (0, pairs.map stored) := by
  have accepted := parseLoop_of_line line (length_cString_lt st) [] (by simpa using room) short
  rw [pmiuParseKeyvals, accepted, List.nil_append]

/-- Exactly the lines of the grammar are accepted, of up to 64 pairs with values of up to
1023 characters. The table then holds their pairs in order, with keys cut to 31
characters. -/
theorem pmiuParseKeyvals_accepts_iff (st : List Char) (tab : KeyvalTab) :
    pmiuParseKeyvals st = some (0, tab) ↔
      ∃ pairs, Line (st.takeWhile (· ≠ '\x00')) pairs ∧ pairs.length ≤ keyvalTabSize ∧
        (∀ pair ∈ pairs, pair.2.length < maxvallen) ∧ tab = pairs.map stored := by
  constructor
  · intro accepted
    have found := line_of_parseLoop (length_cString_lt st) (Nat.zero_le _) accepted
    simpa using found
  · rintro ⟨pairs, line, room, short, rfl⟩
    exact pmiuParseKeyvals_of_line line room short

/-- Two pairs, the second with an empty value, and what is behind the end of the line. -/
example : pmiuParseKeyvals "  cmd=put_result  rc=\nx y".toList =
    some (0, [⟨"cmd".toList, "put_result".toList⟩, ⟨"rc".toList, []⟩]) := by
  decide

/-! ## Room for the pairs -/

theorem parseLoop_ne_none {fuel : Nat} {text : List Char} {tab : KeyvalTab}
    (short : text.length < maxvallen) (few : tab.length + text.count '=' ≤ keyvalTabSize) :
    parseLoop fuel text tab ≠ none := by
  induction fuel generalizing text tab with
  | zero => simp [parseLoop]
  | succ fuel inductionHypothesis =>
      rcases parse_cases text with ⟨blanks, rest, rfl, ends⟩ |
        ⟨blanks, key, value, tail, rfl, someKey, keyChars, valueChars, ends⟩ | error
      · simp [parseLoop_end _ _ _ ends]
      · simp only [List.length_append, List.length_cons] at short
        simp only [List.count_append, List.count_cons_self] at few
        have left : ¬ (keyvalTabSize ≤ tab.length ∨ maxvallen ≤ value.length) := by omega
        rw [parseLoop_pair _ _ _ someKey keyChars valueChars ends, if_neg left]
        apply inductionHypothesis (by omega)
        rw [List.length_append, List.length_singleton]
        omega
      · simp [error]

/-- A line as `PMIU_readline` returns it never makes a value leave its array, and with up
to 64 equals signs it does not make the pairs leave the table. -/
theorem pmiuParseKeyvals_in_table {st : List Char} (short : st.length < maxvallen)
    (few : st.count '=' ≤ keyvalTabSize) : pmiuParseKeyvals st ≠ none := by
  have cut := List.takeWhile_prefix (· ≠ '\x00') (l := st)
  refine parseLoop_ne_none (Nat.lt_of_le_of_lt cut.length_le short) ?_
  rw [List.length_nil, Nat.zero_add]
  exact Nat.le_trans (cut.sublist.count_le '=') few

theorem pmiuParseKeyvals_in_table_put_result :
    pmiuParseKeyvals "cmd=put_result rc=0\n".toList ≠ none :=
  pmiuParseKeyvals_in_table (by decide) (by decide)

/-- 65 pairs fit a line, but not the table. -/
example : ((List.replicate 65 "a= ".toList).flatten.length < maxvallen) ∧
    pmiuParseKeyvals (List.replicate 65 "a= ".toList).flatten = none := by
  decide +kernel

/-! ## Printed pairs -/

/-- Pairs as they are printed in requests, with a blank between them. -/
def joinPairs : List (List Char × List Char) → List Char
  | [] => []
  | [(key, value)] => key ++ '=' :: value
  | (key, value) :: next :: others => key ++ '=' :: (value ++ ' ' :: joinPairs (next :: others))

/-- The pair is read as it was printed. -/
structure Printable (pair : List Char × List Char) : Prop where
  some_key : pair.1 ≠ []
  key_chars : ∀ c ∈ pair.1, keyChar c = true ∧ c ≠ '\x00'
  value_chars : ∀ c ∈ pair.2, valueChar c = true ∧ c ≠ '\x00'
  key_fits : pair.1.length < maxkeylen
  value_fits : pair.2.length < maxvallen

theorem line_blank {text : List Char} {pairs : List (List Char × List Char)}
    (line : Line text pairs) : Line (' ' :: text) pairs := by
  cases line with
  | ended blanks => exact .ended (blanks + 1)
  | newline blanks behind => exact .newline (blanks + 1) behind
  | pair blanks key value someKey keyChars valueChars ends others =>
      exact .pair (blanks + 1) key value someKey keyChars valueChars ends others

theorem line_joinPairs {pairs : List (List Char × List Char)}
    (printable : ∀ pair ∈ pairs, Printable pair) : Line (joinPairs pairs ++ ['\n']) pairs := by
  induction pairs with
  | nil => exact .newline 0 []
  | cons pair others inductionHypothesis =>
      obtain ⟨key, value⟩ := pair
      have own := printable _ List.mem_cons_self
      have keyChars : ∀ c ∈ key, keyChar c = true := fun c member => (own.key_chars c member).1
      have valueChars : ∀ c ∈ value, valueChar c = true := fun c member =>
        (own.value_chars c member).1
      have later := inductionHypothesis fun pair member =>
          printable pair (List.mem_cons_of_mem _ member)
      cases others with
      | nil =>
          have line := Line.pair 0 key value own.some_key keyChars valueChars rfl (.newline 0 [])
          simpa [joinPairs] using line
      | cons next others =>
          have line := Line.pair 0 key value own.some_key keyChars valueChars rfl (line_blank later)
          simpa [joinPairs] using line

/-- Characters of the separators only, and of the pairs. -/
theorem mem_joinPairs {pairs : List (List Char × List Char)} {c : Char}
    (member : c ∈ joinPairs pairs) :
    c = '=' ∨ c = ' ' ∨ ∃ pair ∈ pairs, c ∈ pair.1 ∨ c ∈ pair.2 := by
  induction pairs with
  | nil => exact absurd member List.not_mem_nil
  | cons pair others inductionHypothesis =>
      obtain ⟨key, value⟩ := pair
      cases others with
      | nil =>
          simp only [joinPairs, List.mem_append, List.mem_cons] at member
          rcases member with inKey | equals | inValue
          · exact .inr (.inr ⟨_, List.mem_cons_self, .inl inKey⟩)
          · exact .inl equals
          · exact .inr (.inr ⟨_, List.mem_cons_self, .inr inValue⟩)
      | cons next others =>
          simp only [joinPairs, List.mem_append, List.mem_cons] at member
          rcases member with inKey | equals | inValue | blank | later
          · exact .inr (.inr ⟨_, List.mem_cons_self, .inl inKey⟩)
          · exact .inl equals
          · exact .inr (.inr ⟨_, List.mem_cons_self, .inr inValue⟩)
          · exact .inr (.inl blank)
          · rcases inductionHypothesis later with equals | blank | ⟨pair, found, within⟩
            · exact .inl equals
            · exact .inr (.inl blank)
            · exact .inr (.inr ⟨pair, List.mem_cons_of_mem _ found, within⟩)

/-- Printed pairs are one line without NUL. -/
theorem joinPairs_one_line {pairs : List (List Char × List Char)}
    (printable : ∀ pair ∈ pairs, Printable pair) :
    '\n' ∉ joinPairs pairs ∧ '\x00' ∉ joinPairs pairs := by
  constructor
  · intro member
    rcases mem_joinPairs member with equals | blank | ⟨pair, found, inKey | inValue⟩
    · exact absurd equals (by decide)
    · exact absurd blank (by decide)
    · exact absurd ((printable pair found).key_chars _ inKey).1 (by decide)
    · exact absurd ((printable pair found).value_chars _ inValue).1 (by decide)
  · intro member
    rcases mem_joinPairs member with equals | blank | ⟨pair, found, inKey | inValue⟩
    · exact absurd equals (by decide)
    · exact absurd blank (by decide)
    · exact ((printable pair found).key_chars _ inKey).2 rfl
    · exact ((printable pair found).value_chars _ inValue).2 rfl

/-- What is printed is parsed back. -/
theorem pmiuParseKeyvals_joinPairs {pairs : List (List Char × List Char)}
    (printable : ∀ pair ∈ pairs, Printable pair) (room : pairs.length ≤ keyvalTabSize) :
    pmiuParseKeyvals (joinPairs pairs ++ ['\n']) =
      some (0, pairs.map fun pair => ⟨pair.1, pair.2⟩) := by
  have whole : (joinPairs pairs ++ ['\n']).takeWhile (· ≠ '\x00') = joinPairs pairs ++ ['\n'] := by
    rw [List.takeWhile_eq_self_iff]
    intro c member
    refine decide_eq_true fun nul => ?_
    rw [nul, List.mem_append] at member
    rcases member with within | newline
    · exact (joinPairs_one_line printable).2 within
    · exact absurd newline (by decide)
  have line : Line ((joinPairs pairs ++ ['\n']).takeWhile (· ≠ '\x00')) pairs := by
    rw [whole]
    exact line_joinPairs printable
  rw [pmiuParseKeyvals_of_line line room fun pair member => (printable pair member).value_fits]
  refine congrArg (fun tab => some (0, tab)) (List.map_congr_left fun pair member => ?_)
  have fits := (printable pair member).key_fits
  rw [stored, List.take_of_length_le (Nat.le_sub_one_of_lt fits)]

/-! ## Looking pairs up -/

/-- The value of the first pair with the key. -/
def field (tab : KeyvalTab) (keystr : List Char) : Option (List Char) :=
  (tab.find? fun pair => pair.key = keystr).map KeyvalPair.value

theorem pmiuGetval_of_field {tab : KeyvalTab} {keystr value : List Char} (valstr : List Char)
    {vallen : Nat} (found : field tab keystr = some value) (fits : value.length < vallen) :
    pmiuGetval tab keystr valstr vallen = (true, value) := by
  obtain ⟨pair, first, rfl⟩ := Option.map_eq_some_iff.mp found
  simp [pmiuGetval, first, mpiuStrncpy_of_lt valstr fits]

/-- Whether or not it fits, the value is left up to what there is room for. -/
theorem pmiuGetval_take {tab : KeyvalTab} {keystr value : List Char} (valstr : List Char)
    {vallen : Nat} (found : field tab keystr = some value) (positive : 0 < vallen) :
    (pmiuGetval tab keystr valstr vallen).2 = value.take (vallen - 1) := by
  obtain ⟨pair, first, rfl⟩ := Option.map_eq_some_iff.mp found
  simp [pmiuGetval, first, mpiuStrncpy_take valstr _ positive]

theorem field_of_pmiuGetval {tab : KeyvalTab} {keystr valstr value : List Char} {vallen : Nat}
    (positive : 0 < vallen) (found : pmiuGetval tab keystr valstr vallen = (true, value)) :
    field tab keystr = some value := by
  unfold pmiuGetval at found
  cases first : tab.find? fun pair => pair.key = keystr with
  | none =>
      rw [first] at found
      exact absurd (congrArg Prod.fst found) (by simp)
  | some pair =>
      simp only [first, Prod.mk.injEq, decide_eq_true_eq] at found
      by_cases fits : pair.value.length < vallen
      · rw [mpiuStrncpy_of_lt valstr fits] at found
        have text : pair.value = value := found.2
        simp [field, first, text]
      · simp [mpiuStrncpy, positive.ne', fits] at found

end FabricBench.Pmi1
