import Mathlib.Data.List.TakeWhile
import Mathlib.Tactic.NormNum

/-!
The part of `printf` and `scanf` that programs use to exchange numbers as text.

Owns: format strings and their directives (`parseFormat`), printing (`sprintf`),
scanning (`sscanf`), and the law that scanning inverts printing wherever no number
runs into the text behind it (`scan_print`).

Texts are lists of characters without the closing NUL. The directives are `%d`,
`%s` and the zero padded `%0Nx` and `%0Nlx`. A number that does not fit its type is
cut off, as storing it does; the saturation of `strtol` beyond 64 bits is not
modelled.
-/

namespace FabricBench.Lib.Stdio

/-! ## Formats -/

inductive Directive where
  | lit (c : Char)
  | dec
  | str
  | hex (width : Nat) (long : Bool)
deriving DecidableEq, Repr

/-- What is read of a conversion between its `%` and its last character. -/
structure Spec where
  zero : Bool
  width : Nat
  long : Bool
deriving DecidableEq, Repr

/-- A conversion, if it is one of those supported. -/
def conversion (spec : Spec) (c : Char) : Option Directive :=
  if c = 'd' ∧ spec = ⟨false, 0, false⟩ then some .dec
  else if c = 's' ∧ spec = ⟨false, 0, false⟩ then some .str
  else if c = 'x' ∧ spec.zero = true ∧ 0 < spec.width then some (.hex spec.width spec.long)
  else none

/-- Read a format; `spec` is set inside a conversion. A conversion that is not
supported ends the format. -/
def parseFormat : Option Spec → List Char → List Directive
  | _, [] => []
  | none, c :: rest =>
      if c = '%' then parseFormat (some ⟨false, 0, false⟩) rest else .lit c :: parseFormat none rest
  | some spec, c :: rest =>
      if c = '0' ∧ spec = ⟨false, 0, false⟩ then parseFormat (some ⟨true, 0, false⟩) rest
      else if c.isDigit ∧ spec.long = false then
        parseFormat (some { spec with width := 10 * spec.width + (c.toNat - '0'.toNat) }) rest
      else if c = 'l' then parseFormat (some { spec with long := true }) rest
      else
        match conversion spec c with
        | some directive => directive :: parseFormat none rest
        | none => []

/-- A value that is printed, or that is stored by a scan: an `int` or `unsigned`, a
`long`, or a string. -/
inductive Arg where
  | int (v : BitVec 32)
  | long (v : BitVec 64)
  | str (s : List Char)
deriving DecidableEq, Repr

/-! ## Printing -/

def printDec (v : Int) : List Char :=
  if v < 0 then '-' :: Nat.toDigits 10 v.natAbs else Nat.toDigits 10 v.natAbs

def printHex (width n : Nat) : List Char := List.leftpad width '0' (Nat.toDigits 16 n)

/-- A missing or wrong argument, which is undefined in C, ends the text. -/
def print : List Directive → List Arg → List Char
  | .lit c :: rest, args => c :: print rest args
  | .dec :: rest, .int v :: args => printDec v.toInt ++ print rest args
  | .str :: rest, .str s :: args => s ++ print rest args
  | .hex width false :: rest, .int v :: args => printHex width v.toNat ++ print rest args
  | .hex width true :: rest, .long v :: args => printHex width v.toNat ++ print rest args
  | _, _ => []

def sprintf (format : String) (args : List Arg) : List Char :=
  print (parseFormat none format.toList) args

/-! ## Scanning -/

/-- The sign of a number, if there is one, and what follows. -/
def scanSign : List Char → Bool × List Char
  | '-' :: rest => (true, rest)
  | '+' :: rest => (false, rest)
  | text => (false, text)

/-- `%d`: the number and what follows it. -/
def scanDec (text : List Char) : Option (BitVec 32 × List Char) :=
  let signed := scanSign (text.dropWhile Char.isWhitespace)
  let digits := signed.2.takeWhile Char.isDigit
  let n : Int := Nat.ofDigitChars 10 digits 0
  if digits = [] then none
  else some (BitVec.ofInt 32 (if signed.1 then -n else n), signed.2.dropWhile Char.isDigit)

def hexValue (c : Char) : Nat :=
  if c.isDigit then c.toNat - '0'.toNat
  else if 'a' ≤ c ∧ c ≤ 'f' then c.toNat - 'a'.toNat + 10
  else c.toNat - 'A'.toNat + 10

def isHexDigit (c : Char) : Bool :=
  c.isDigit || decide ('a' ≤ c ∧ c ≤ 'f') || decide ('A' ≤ c ∧ c ≤ 'F')

def hexNumber (digits : List Char) : Nat := digits.foldl (fun n c => 16 * n + hexValue c) 0

def strip0x : List Char → List Char
  | '0' :: 'x' :: rest => rest
  | '0' :: 'X' :: rest => rest
  | text => text

/-- `%0Nx` and `%0Nlx`: a scan takes the digits before the conversion as the most
characters to read, sign and `0x` included. -/
def scanHex (width bits : Nat) (text : List Char) : Option (BitVec bits × List Char) :=
  let text := text.dropWhile Char.isWhitespace
  let signed := scanSign (text.take width)
  let body := strip0x signed.2
  let digits := body.takeWhile isHexDigit
  let n : Int := hexNumber digits
  if digits = [] then none
  else
    some (BitVec.ofInt bits (if signed.1 then -n else n),
      body.dropWhile isHexDigit ++ text.drop width)

/-- The values stored by a scan, up to the first directive that does not match. -/
def scan : List Directive → List Char → List Arg
  | [], _ => []
  | .lit c :: rest, text =>
      if c.isWhitespace then scan rest (text.dropWhile Char.isWhitespace)
      else if text.head? = some c then scan rest text.tail
      else []
  | .dec :: rest, text =>
      match scanDec text with
      | some (v, text) => .int v :: scan rest text
      | none => []
  | .hex width false :: rest, text =>
      match scanHex width 32 text with
      | some (v, text) => .int v :: scan rest text
      | none => []
  | .hex width true :: rest, text =>
      match scanHex width 64 text with
      | some (v, text) => .long v :: scan rest text
      | none => []
  -- `%s` stores a string; no scan here uses it
  | .str :: _, _ => []

def sscanf (text : List Char) (format : String) : List Arg :=
  scan (parseFormat none format.toList) text

/-! ## Decimal numbers -/

/-- No number goes on at the start of the text. -/
def NoDigit (text : List Char) : Prop := text.takeWhile Char.isDigit = []

theorem dropWhile_of_noDigit {text : List Char} (ends : NoDigit text) :
    text.dropWhile Char.isDigit = text := by
  have whole := List.takeWhile_append_dropWhile (p := Char.isDigit) (l := text)
  rwa [ends, List.nil_append] at whole

/-- A character that is printed for a number is no blank and no sign. -/
theorem not_blank_of_isDigit {c : Char} (digit : c.isDigit = true) :
    c.isWhitespace = false ∧ c ≠ '-' ∧ c ≠ '+' := by
  refine ⟨?_, ?_, ?_⟩
  · by_contra blank
    simp only [Char.isWhitespace, Bool.not_eq_false, Bool.or_eq_true, decide_eq_true_eq] at blank
    rcases blank with ((rfl | rfl) | rfl) | rfl <;> exact absurd digit (by decide)
  · rintro rfl
    exact absurd digit (by decide)
  · rintro rfl
    exact absurd digit (by decide)

theorem scanSign_digits {c : Char} (rest : List Char) (minus : c ≠ '-') (plus : c ≠ '+') :
    scanSign (c :: rest) = (false, c :: rest) := by
  unfold scanSign
  split
  · next same => exact absurd (List.cons.inj same).1 minus
  · next same => exact absurd (List.cons.inj same).1 plus
  · rfl

/-- The digits of a number in front of a text that does not go on with a digit. -/
theorem span_digits (n : Nat) {rest : List Char} (ends : NoDigit rest) :
    (Nat.toDigits 10 n ++ rest).takeWhile Char.isDigit = Nat.toDigits 10 n ∧
      (Nat.toDigits 10 n ++ rest).dropWhile Char.isDigit = rest := by
  have digits : ∀ c ∈ Nat.toDigits 10 n, c.isDigit = true := fun c member =>
    Nat.isDigit_of_mem_toDigits (by omega) (by omega) member
  rw [List.takeWhile_append_of_pos digits, List.dropWhile_append_of_pos digits, ends,
    dropWhile_of_noDigit ends, List.append_nil]
  exact ⟨rfl, rfl⟩

theorem scanDec_printDec (v : BitVec 32) {rest : List Char} (ends : NoDigit rest) :
    scanDec (printDec v.toInt ++ rest) = some (v, rest) := by
  obtain ⟨taken, dropped⟩ := span_digits v.toInt.natAbs ends
  have value : Nat.ofDigitChars 10 (Nat.toDigits 10 v.toInt.natAbs) 0 = v.toInt.natAbs :=
    Nat.ofDigitChars_ten_toDigits
  unfold scanDec printDec
  split_ifs with negative
  · have sign : scanSign (List.dropWhile Char.isWhitespace
        (('-' :: Nat.toDigits 10 v.toInt.natAbs) ++ rest)) =
          (true, Nat.toDigits 10 v.toInt.natAbs ++ rest) := rfl
    simp only [sign, taken, dropped, value, if_neg Nat.toDigits_ne_nil, if_true]
    rw [show -(v.toInt.natAbs : Int) = v.toInt by omega, BitVec.ofInt_toInt]
  · have sign : scanSign (List.dropWhile Char.isWhitespace
        (Nat.toDigits 10 v.toInt.natAbs ++ rest)) =
          (false, Nat.toDigits 10 v.toInt.natAbs ++ rest) := by
      obtain ⟨c, others, shape⟩ := List.exists_cons_of_ne_nil
        (Nat.toDigits_ne_nil (n := v.toInt.natAbs) (b := 10))
      have member : c ∈ Nat.toDigits 10 v.toInt.natAbs := by
        rw [shape]
        exact List.mem_cons_self
      have digit : c.isDigit = true := Nat.isDigit_of_mem_toDigits (by omega) (by omega) member
      obtain ⟨blank, minus, plus⟩ := not_blank_of_isDigit digit
      rw [shape, List.cons_append, List.dropWhile_cons, blank]
      exact scanSign_digits _ minus plus
    simp only [sign, taken, dropped, value, if_neg Nat.toDigits_ne_nil]
    rw [show (v.toInt.natAbs : Int) = v.toInt by omega]
    simp [BitVec.ofInt_toInt]

/-! ## Hexadecimal numbers -/

theorem hexNumber_append_digit (digits : List Char) (c : Char) :
    hexNumber (digits ++ [c]) = 16 * hexNumber digits + hexValue c := by
  simp [hexNumber]

theorem hexValue_digitChar : ∀ d, d < 16 → hexValue (Nat.digitChar d) = d := by decide

theorem isHexDigit_digitChar : ∀ d, d < 16 → isHexDigit (Nat.digitChar d) = true := by decide

theorem hexNumber_toDigits (n : Nat) : hexNumber (Nat.toDigits 16 n) = n := by
  induction n using Nat.strongRecOn with
  | ind n inductionHypothesis =>
      rw [Nat.toDigits_eq_if (by omega)]
      split_ifs with single
      · have value := hexValue_digitChar n single
        simpa [hexNumber] using value
      · rw [hexNumber_append_digit, inductionHypothesis (n / 16) (by omega),
          hexValue_digitChar (n % 16) (by omega)]
        omega

theorem isHexDigit_toDigits (n : Nat) : ∀ c ∈ Nat.toDigits 16 n, isHexDigit c = true := by
  induction n using Nat.strongRecOn with
  | ind n inductionHypothesis =>
      intro c member
      rw [Nat.toDigits_eq_if (by omega)] at member
      split_ifs at member with single
      · rw [List.mem_singleton.mp member]
        exact isHexDigit_digitChar n single
      · rcases List.mem_append.mp member with earlier | last
        · exact inductionHypothesis (n / 16) (by omega) c earlier
        · rw [List.mem_singleton.mp last]
          exact isHexDigit_digitChar (n % 16) (by omega)

/-- Leading zeros do not count. -/
theorem hexNumber_printHex (width n : Nat) : hexNumber (printHex width n) = n := by
  have zeros : ∀ count,
      (List.replicate count '0').foldl (fun n c => 16 * n + hexValue c) 0 = 0 := by
    intro count
    induction count with
    | zero => rfl
    | succ count inductionHypothesis =>
        rw [List.replicate_succ, List.foldl_cons]
        exact inductionHypothesis
  unfold hexNumber printHex List.leftpad
  rw [List.foldl_append, zeros]
  exact hexNumber_toDigits n

theorem isHexDigit_printHex (width n : Nat) : ∀ c ∈ printHex width n, isHexDigit c = true := by
  intro c member
  rcases List.mem_append.mp member with pad | digit
  · rw [List.eq_of_mem_replicate pad]
    rfl
  · exact isHexDigit_toDigits n c digit

theorem length_printHex {width n : Nat} (positive : 0 < width) (fits : n < 16 ^ width) :
    (printHex width n).length = width := by
  have short : (Nat.toDigits 16 n).length ≤ width :=
    (Nat.length_toDigits_le_iff (by omega) positive).mpr fits
  simp only [printHex, List.leftpad, List.length_append, List.length_replicate]
  omega

/-- A hexadecimal digit is no blank, no sign and not the `x` of `0x`. -/
theorem not_special_of_isHexDigit {c : Char} (digit : isHexDigit c = true) :
    c.isWhitespace = false ∧ c ≠ '-' ∧ c ≠ '+' ∧ c ≠ 'x' ∧ c ≠ 'X' := by
  refine ⟨?_, ?_, ?_, ?_, ?_⟩
  · by_contra blank
    simp only [Char.isWhitespace, Bool.not_eq_false, Bool.or_eq_true, decide_eq_true_eq] at blank
    rcases blank with ((rfl | rfl) | rfl) | rfl <;> exact absurd digit (by decide)
  all_goals
    rintro rfl
    exact absurd digit (by decide)

theorem strip0x_of_hexDigits {text : List Char} (digits : ∀ c ∈ text, isHexDigit c = true) :
    strip0x text = text := by
  unfold strip0x
  split
  · exact absurd rfl (not_special_of_isHexDigit (digits 'x' (by simp))).2.2.2.1
  · exact absurd rfl (not_special_of_isHexDigit (digits 'X' (by simp))).2.2.2.2
  · rfl

theorem scanHex_printHex {width bits : Nat} (v : BitVec bits) (positive : 0 < width)
    (fits : v.toNat < 16 ^ width) (rest : List Char) :
    scanHex width bits (printHex width v.toNat ++ rest) = some (v, rest) := by
  have length := length_printHex positive fits
  have digits := isHexDigit_printHex width v.toNat
  obtain ⟨c, others, shape⟩ : ∃ c others, printHex width v.toNat = c :: others :=
    List.exists_cons_of_length_pos (by omega)
  obtain ⟨blank, minus, plus, -, -⟩ := not_special_of_isHexDigit
    (digits c (by rw [shape]; exact List.mem_cons_self))
  have skipped : (printHex width v.toNat ++ rest).dropWhile Char.isWhitespace =
      printHex width v.toNat ++ rest := by
    rw [shape, List.cons_append, List.dropWhile_cons, blank]
    rfl
  have field : (printHex width v.toNat ++ rest).take width = printHex width v.toNat :=
    List.take_left' length
  have behind : (printHex width v.toNat ++ rest).drop width = rest := List.drop_left' length
  have sign : scanSign (printHex width v.toNat) = (false, printHex width v.toNat) := by
    rw [shape]
    exact scanSign_digits others minus plus
  have all : (printHex width v.toNat).takeWhile isHexDigit = printHex width v.toNat :=
    List.takeWhile_eq_self_iff.mpr digits
  have none : (printHex width v.toNat).dropWhile isHexDigit = [] :=
    List.dropWhile_eq_nil_iff.mpr digits
  unfold scanHex
  simp only [skipped, field, behind, sign, strip0x_of_hexDigits digits, all, none,
    hexNumber_printHex]
  rw [if_neg (by rw [shape]; simp)]
  simp

/-! ## Scanning what was printed -/

/-- Behind these directives a decimal number is over. -/
def endsNumber : List Directive → Bool
  | [] => true
  | .lit c :: _ => !c.isDigit
  | _ => false

/-- The arguments fit the directives, and every decimal number ends before the next
directive. -/
def Scannable : List Directive → List Arg → Prop
  | [], args => args = []
  | .lit c :: rest, args => c.isWhitespace = false ∧ Scannable rest args
  | .dec :: rest, .int _ :: args => endsNumber rest = true ∧ Scannable rest args
  | .hex width false :: rest, .int v :: args =>
      0 < width ∧ v.toNat < 16 ^ width ∧ Scannable rest args
  | .hex width true :: rest, .long v :: args =>
      0 < width ∧ v.toNat < 16 ^ width ∧ Scannable rest args
  | _, _ => False

theorem noDigit_print {directives : List Directive} (ends : endsNumber directives = true)
    (args : List Arg) : NoDigit (print directives args) := by
  cases directives with
  | nil => rfl
  | cons directive rest =>
      cases directive with
      | lit c =>
          have other : c.isDigit = false := by simpa [endsNumber] using ends
          simp [print, NoDigit, other]
      | dec => exact absurd ends (by simp [endsNumber])
      | str => exact absurd ends (by simp [endsNumber])
      | hex width long => exact absurd ends (by simp [endsNumber])

/-- Scanning inverts printing. -/
theorem scan_print (directives : List Directive) (args : List Arg)
    (scannable : Scannable directives args) : scan directives (print directives args) = args := by
  induction directives generalizing args with
  | nil => exact scannable.symm
  | cons directive rest inductionHypothesis =>
      cases directive with
      | lit c =>
          obtain ⟨visible, others⟩ := scannable
          simp only [print, scan, visible, List.head?_cons, List.tail_cons, if_true]
          exact inductionHypothesis args others
      | dec =>
          match args, scannable with
          | .int v :: args, ⟨ends, others⟩ =>
              simp only [print, scan, scanDec_printDec v (noDigit_print ends args)]
              rw [inductionHypothesis args others]
      | str =>
          match args, scannable with
          | [], impossible => exact impossible.elim
          | _ :: _, impossible => exact impossible.elim
      | hex width long =>
          cases long with
          | false =>
              match args, scannable with
              | .int v :: args, ⟨positive, fits, others⟩ =>
                  simp only [print, scan, scanHex_printHex v positive fits]
                  rw [inductionHypothesis args others]
          | true =>
              match args, scannable with
              | .long v :: args, ⟨positive, fits, others⟩ =>
                  simp only [print, scan, scanHex_printHex v positive fits]
                  rw [inductionHypothesis args others]

/-- So what is printed determines the arguments. -/
theorem print_injective {directives : List Directive} {args args' : List Arg}
    (scannable : Scannable directives args) (scannable' : Scannable directives args')
    (same : print directives args = print directives args') : args = args' := by
  rw [← scan_print directives args scannable, same, scan_print directives args' scannable']

/-- Text in front of the first conversion is printed as it is. -/
theorem print_lits (text : List Char) (rest : List Directive) (args : List Arg) :
    print (text.map Directive.lit ++ rest) args = text ++ print rest args := by
  induction text with
  | nil => rfl
  | cons c others inductionHypothesis =>
      rw [List.map_cons, List.cons_append, print, inductionHypothesis, List.cons_append]

/-! ## Lengths -/

theorem length_printDec_le (v : BitVec 32) : (printDec v.toInt).length ≤ 11 := by
  have low := BitVec.le_toInt v
  have high := BitVec.toInt_lt (x := v)
  have digits : (Nat.toDigits 10 v.toInt.natAbs).length ≤ 10 :=
    (Nat.length_toDigits_le_iff (by omega) (by omega)).mpr (by omega)
  unfold printDec
  split_ifs
  · rw [List.length_cons]
    omega
  · omega

/-! ## Characters -/

/-- The characters that a format prints as they are. -/
def literals (directives : List Directive) : List Char :=
  directives.filterMap fun
    | .lit c => some c
    | _ => none

/-- Printed are digits, signs, the literals of the format and the strings among the
arguments. -/
theorem forall_mem_print {p : Char → Prop} (digit : ∀ c, isHexDigit c = true → p c) (minus : p '-')
    (directives : List Directive) (args : List Arg) (lits : ∀ c ∈ literals directives, p c)
    (strs : ∀ s, .str s ∈ args → ∀ c ∈ s, p c) : ∀ c ∈ print directives args, p c := by
  have dec : ∀ (v : BitVec 32), ∀ c ∈ printDec v.toInt, p c := by
    intro v c member
    have digits : ∀ c ∈ Nat.toDigits 10 v.toInt.natAbs, p c := fun c member =>
      digit c (by simp [isHexDigit, Nat.isDigit_of_mem_toDigits (by omega) (by omega) member])
    unfold printDec at member
    split_ifs at member
    · rcases List.mem_cons.mp member with rfl | later
      · exact minus
      · exact digits c later
    · exact digits c member
  have hex : ∀ width n, ∀ c ∈ printHex width n, p c := fun width n c member =>
    digit c (isHexDigit_printHex width n c member)
  have others : ∀ {arg : Arg} {args : List Arg}, (∀ s, .str s ∈ arg :: args → ∀ c ∈ s, p c) →
      ∀ s, .str s ∈ args → ∀ c ∈ s, p c := fun strs s member =>
    strs s (List.mem_cons_of_mem _ member)
  fun_induction print directives args with
  | case1 c rest args inductionHypothesis =>
      have own : p c := lits c List.mem_cons_self
      exact List.forall_mem_cons.mpr
        ⟨own, inductionHypothesis (fun c within => lits c (List.mem_cons_of_mem _ within)) strs⟩
  | case2 rest v args inductionHypothesis =>
      exact List.forall_mem_append.mpr ⟨dec v, inductionHypothesis lits (others strs)⟩
  | case3 rest s args inductionHypothesis =>
      exact List.forall_mem_append.mpr
        ⟨strs s List.mem_cons_self, inductionHypothesis lits (others strs)⟩
  | case4 rest width v args inductionHypothesis =>
      exact List.forall_mem_append.mpr ⟨hex _ _, inductionHypothesis lits (others strs)⟩
  | case5 rest width v args inductionHypothesis =>
      exact List.forall_mem_append.mpr ⟨hex _ _, inductionHypothesis lits (others strs)⟩
  | case6 => exact fun c member => nomatch member

end FabricBench.Lib.Stdio
