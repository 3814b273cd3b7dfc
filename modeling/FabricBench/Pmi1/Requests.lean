import FabricBench.Backend.Pmi
import FabricBench.Pmi1.Keyvals
import FabricBench.Pmi1.Wire

/-!
Owns the requests that a process makes of its manager (`Request`), the lines that they are
printed as, and how a manager reads them (`decode`).
-/

namespace FabricBench.Pmi1

open FabricBench.Pmi (Key Value)

inductive Request where
  | init
  | getMaxes
  | getMyKvsname
  | put (key : Key) (value : Value)
  | barrierIn
  | get (key : Key)
  | finalize
deriving DecidableEq, Repr

/-- The pairs of a request. -/
def Request.pairs (kvsname : List Char) : Request → List (List Char × List Char)
  | .init => [("cmd".toList, "init".toList), ("pmi_version".toList, "1".toList),
      ("pmi_subversion".toList, "1".toList)]
  | .getMaxes => [("cmd".toList, "get_maxes".toList)]
  | .getMyKvsname => [("cmd".toList, "get_my_kvsname".toList)]
  | .put key value =>
      [("cmd".toList, "put".toList), ("kvsname".toList, kvsname), ("key".toList, key),
      ("value".toList, value)]
  | .barrierIn => [("cmd".toList, "barrier_in".toList)]
  | .get key => [("cmd".toList, "get".toList), ("kvsname".toList, kvsname), ("key".toList, key)]
  | .finalize => [("cmd".toList, "finalize".toList)]

/-- The line without its end. -/
def Request.line (kvsname : List Char) (request : Request) : List Char :=
  joinPairs (request.pairs kvsname)

/-- A text that can be the value of a pair. -/
def Sendable (text : List Char) : Prop := ∀ c ∈ text, valueChar c = true ∧ c ≠ '\x00'

-- By the characters of the text, and not by all characters.
instance (text : List Char) : Decidable (Sendable text) :=
  List.decidableBAll (fun c => valueChar c = true ∧ c ≠ '\x00') text

/-- The request can be printed into a buffer for a line and read from it. -/
structure Request.Fits (kvsname : List Char) (request : Request) : Prop where
  sendable : ∀ pair ∈ request.pairs kvsname, Sendable pair.2
  short : (request.line kvsname).length + 1 < pmiuMaxline

instance (kvsname : List Char) (request : Request) : Decidable (request.Fits kvsname) :=
  decidable_of_iff ((∀ pair ∈ request.pairs kvsname, Sendable pair.2) ∧
    (request.line kvsname).length + 1 < pmiuMaxline) ⟨fun both => ⟨both.1, both.2⟩,
      fun fits => ⟨fits.sendable, fits.short⟩⟩

/-- A manager looks the pairs of a line up as its clients do. -/
def decode (kvsname line : List Char) : Option Request :=
  match pmiuParseKeyvals (line ++ ['\n']) with
  | some (0, tab) =>
      let cmd := field tab "cmd".toList
      if cmd = some "init".toList then some .init
      else if cmd = some "get_maxes".toList then some .getMaxes
      else if cmd = some "get_my_kvsname".toList then some .getMyKvsname
      else if cmd = some "barrier_in".toList then some .barrierIn
      else if cmd = some "finalize".toList then some .finalize
      else if field tab "kvsname".toList ≠ some kvsname then none
      else if cmd = some "put".toList then
        (field tab "key".toList).bind fun key => (field tab "value".toList).map (.put key)
      else if cmd = some "get".toList then (field tab "key".toList).map .get
      else none
  | _ => none

theorem length_le_length_joinPairs {pairs : List (List Char × List Char)}
    {pair : List Char × List Char}
    (member : pair ∈ pairs) : pair.1.length + pair.2.length < (joinPairs pairs).length := by
  induction pairs with
  | nil => exact absurd member List.not_mem_nil
  | cons first others inductionHypothesis =>
      obtain ⟨key, value⟩ := first
      cases others with
      | nil =>
          obtain rfl := List.mem_singleton.mp member
          simp only [joinPairs, List.length_append, List.length_cons]
          omega
      | cons next others =>
          simp only [joinPairs, List.length_append, List.length_cons]
          rcases List.mem_cons.mp member with rfl | later
          · simp only
            omega
          · have longer := inductionHypothesis later
            omega

/-- The keys of the protocol. -/
def protocolKeys : List (List Char) :=
  ["cmd".toList, "rc".toList, "pmi_version".toList, "pmi_subversion".toList, "kvsname".toList,
    "key".toList, "value".toList]

theorem protocolKeys_printable : ∀ key ∈ protocolKeys,
    key ≠ [] ∧ (∀ c ∈ key, keyChar c = true ∧ c ≠ '\x00') ∧ key.length < maxkeylen := by
  have chars : ∀ key ∈ protocolKeys, key.all fun c => keyChar c && c != '\x00' := by decide
  have lengths : ∀ key ∈ protocolKeys, key ≠ [] ∧ key.length < maxkeylen := by decide
  intro key member
  refine ⟨(lengths key member).1, fun c within => ?_, (lengths key member).2⟩
  simpa using List.all_eq_true.mp (chars key member) c within

/-- Pairs of the protocol that fit a line can be read from it. -/
theorem printable_of_fits {pairs : List (List Char × List Char)}
    (keys : ∀ pair ∈ pairs, pair.1 ∈ protocolKeys) (sendable : ∀ pair ∈ pairs, Sendable pair.2)
    (short : (joinPairs pairs).length + 1 < pmiuMaxline) : ∀ pair ∈ pairs, Printable pair := by
  intro pair member
  obtain ⟨some_key, key_chars, key_fits⟩ := protocolKeys_printable pair.1 (keys pair member)
  refine ⟨some_key, key_chars, sendable pair member, key_fits, ?_⟩
  have longer := length_le_length_joinPairs member
  have within : (joinPairs pairs).length + 1 < maxvallen := short
  omega

theorem Request.keys (kvsname : List Char) (request : Request) :
    ∀ pair ∈ request.pairs kvsname, pair.1 ∈ protocolKeys := by
  intro pair member
  cases request <;>
    simp only [Request.pairs, List.mem_cons, List.not_mem_nil, or_false] at member <;>
    rcases member with rfl | rfl | rfl | rfl <;> simp [protocolKeys]

theorem Request.Fits.printable {kvsname : List Char} {request : Request}
    (fits : request.Fits kvsname) : ∀ pair ∈ request.pairs kvsname, Printable pair :=
  printable_of_fits (request.keys kvsname) fits.sendable fits.short

theorem Request.Fits.parsed {kvsname : List Char} {request : Request}
    (fits : request.Fits kvsname) :
    pmiuParseKeyvals (request.line kvsname ++ ['\n']) =
      some (0, (request.pairs kvsname).map fun pair => ⟨pair.1, pair.2⟩) := by
  refine pmiuParseKeyvals_joinPairs fits.printable ?_
  cases request <;> simp [Request.pairs, keyvalTabSize]

theorem Request.Fits.one_line {kvsname : List Char} {request : Request}
    (fits : request.Fits kvsname) : '\n' ∉ request.line kvsname :=
  (joinPairs_one_line fits.printable).1

/-- A request that does not name the space fits. -/
theorem Request.fits_of_const {request : Request}
    (const : ∀ kvsname, request.pairs kvsname = request.pairs [])
    (sendable : ∀ pair ∈ request.pairs [], Sendable pair.2)
    (short : (request.line []).length + 1 < pmiuMaxline) (kvsname : List Char) :
    request.Fits kvsname := by
  refine ⟨?_, ?_⟩
  · rw [const kvsname]
    exact sendable
  · rw [Request.line, const kvsname]
    exact short

/-- A request of another kind than those that say nothing but what they are. -/
theorem decode_of_named {kvsname line cmd : List Char} {tab : KeyvalTab}
    (parsed : pmiuParseKeyvals (line ++ ['\n']) = some (0, tab))
    (kind : field tab "cmd".toList = some cmd)
    (other : ∀ const ∈ ["init", "get_maxes", "get_my_kvsname", "barrier_in", "finalize"],
      some cmd ≠ some const.toList)
    (named : field tab "kvsname".toList = some kvsname) :
    decode kvsname line =
      if some cmd = some "put".toList then
        (field tab "key".toList).bind fun key => (field tab "value".toList).map (.put key)
      else if some cmd = some "get".toList then (field tab "key".toList).map .get
      else none := by
  rw [decode, parsed]
  simp only [kind, named]
  rw [if_neg (other _ (by simp)), if_neg (other _ (by simp)), if_neg (other _ (by simp)),
    if_neg (other _ (by simp)), if_neg (other _ (by simp)), if_neg fun differ => differ rfl]

/-- The manager reads the request that was printed. -/
theorem Request.Fits.decode {kvsname : List Char} {request : Request}
    (fits : request.Fits kvsname) : decode kvsname (request.line kvsname) = some request := by
  cases request with
  | put key value =>
      rw [decode_of_named fits.parsed rfl (by decide) rfl, if_pos rfl]
      rfl
  | get key =>
      rw [decode_of_named fits.parsed rfl (by decide) rfl, if_neg (by decide), if_pos rfl]
      rfl
  | _ =>
      rw [Pmi1.decode, fits.parsed]
      simp [Request.pairs, field]

end FabricBench.Pmi1
