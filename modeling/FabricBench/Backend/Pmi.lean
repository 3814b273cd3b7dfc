import FabricBench.Lib.Kvs
import FabricBench.Lib.Memory

/-!
The key-value space of PMI as `pmi_wrapper.c` uses it, and the address exchange that
the backends build on it.

Owns: `pmi_get` with its limit, the formats in which a backend writes and reads an
address (`AddrFormat`), what makes them faithful, and the main fact: with a faithful
format every rank reads exactly the record that its target wrote, in whatever order
the ranks put theirs (`AddrFormat.Faithful.exchange`). A barrier makes all puts
before it visible; that is assumed of PMI.
-/

namespace FabricBench.Pmi

open FabricBench.Lib
open FabricBench.Lib.Memory (Mem)

abbrev Key := List Char

abbrev Value := List Char

abbrev Space := Kvs.Store Key Value

/-- The buffers for keys and values are `char[256]`. -/
def bufLen : Nat := 256

/-- The length that `pmi_get` passes for its buffer. -/
def getLimit : Nat := 255

/-- A text with its closing NUL fits both. -/
def Fits (text : List Char) : Prop := text.length + 1 ≤ bufLen ∧ text.length + 1 ≤ getLimit

theorem fits_of_length_le {text : List Char} {length : Nat} (bound : text.length ≤ length)
    (small : length < getLimit) : Fits text := by
  unfold Fits bufLen getLimit
  unfold getLimit at small
  omega

/-- A value is cut to what fits with its closing NUL. `none` is for a key that has no
value, for which the caller's buffer is left as it was. -/
def pmiGet (space : Space) (key : Key) : Option Value :=
  (space key).map (List.take (getLimit - 1))

theorem pmiGet_of_length {space : Space} {key : Key} {value : Value}
    (stored : space key = some value)
    (fits : value.length + 1 ≤ getLimit) : pmiGet space key = some value := by
  rw [pmiGet, stored, Option.map_some, List.take_of_length_le (Nat.le_sub_one_of_lt fits)]

/-- A loop index or a rank as a C `int`. -/
def cInt (n : Nat) : BitVec 32 := BitVec.ofNat 32 n

theorem cInt_injective {m n : Nat} (mBelow : m < 2 ^ 31) (nBelow : n < 2 ^ 31)
    (same : cInt m = cInt n) : m = n := by
  have values := congrArg BitVec.toNat same
  simp only [cInt, BitVec.toNat_ofNat] at values
  omega

/-! ## Keys -/

/-- A key that ends with two numbers. -/
def pairKey (name : List Char) (m n : BitVec 32) : Key :=
  name ++ Stdio.print [.dec, .lit '_', .dec] [.int m, .int n]

theorem pairKey_injective {name : List Char} {m n m' n' : BitVec 32}
    (same : pairKey name m n = pairKey name m' n') : m = m' ∧ n = n' := by
  have args := Stdio.print_injective (by simp [Stdio.Scannable, Stdio.endsNumber])
    (by simp [Stdio.Scannable, Stdio.endsNumber]) (List.append_cancel_left same)
  simpa using args

theorem length_pairKey_le (name : List Char) (m n : BitVec 32) :
    (pairKey name m n).length ≤ name.length + 23 := by
  have first := Stdio.length_printDec_le m
  have second := Stdio.length_printDec_le n
  simp only [pairKey, Stdio.print, List.length_append, List.length_cons, List.length_nil]
  omega

/-! ## Address formats -/

variable {α : Type}

/-- How a backend exchanges the address of a context: the keys printed by
`put_ctx_addr` and by `get_ctx_addr`, the value printed, and what is read back from
it on a stack with arbitrary contents. -/
structure AddrFormat (α : Type) where
  putKey : BitVec 32 → BitVec 32 → Key
  getKey : BitVec 32 → BitVec 32 → Key
  putValue : α → Value
  getValue : Mem → Value → α

/-- The keys of different contexts differ and are the ones asked for, values are read
back as they were, and everything fits its buffer. -/
structure AddrFormat.Faithful (format : AddrFormat α) : Prop where
  same_key : ∀ rank id, format.getKey rank id = format.putKey rank id
  key_injective : ∀ rank id rank' id', format.putKey rank id = format.putKey rank' id' →
    rank = rank' ∧ id = id'
  round_trip : ∀ stack address, format.getValue stack (format.putValue address) = address
  key_fits : ∀ rank id, Fits (format.putKey rank id)
  value_fits : ∀ address, Fits (format.putValue address)

/-- `put_ctx_addr(ctx, id)`. -/
def AddrFormat.putCtxAddr (format : AddrFormat α) (commRank : Nat) (address : α) (id : Nat) :
    Key × Value :=
  (format.putKey (cInt commRank) (cInt id), format.putValue address)

/-- `get_ctx_addr(rank, id)`. -/
def AddrFormat.getCtxAddr (format : AddrFormat α) (space : Space) (stack : Mem) (rank id : Nat) :
    Option α :=
  (pmiGet space (format.getKey (cInt rank) (cInt id))).map (format.getValue stack)

/-- What a rank puts in its loop over `num` contexts. -/
def AddrFormat.puts (format : AddrFormat α) (address : Nat → Nat → α) (num rank : Nat) :
    List (Key × Value) :=
  (List.range num).map fun id => format.putCtxAddr rank (address rank id) id

/-- `get_ctx_addr(rank, id)` reads what that rank put for its context `id`, whatever
the order in which the ranks put theirs before the barrier. -/
theorem AddrFormat.Faithful.exchange {format : AddrFormat α} (faithful : format.Faithful)
    {ranks num : Nat} (ranksFit : ranks ≤ 2 ^ 31) (numFits : num ≤ 2 ^ 31)
    (address : Nat → Nat → α) {order : List (Nat × (Key × Value))}
    (interleaving : Kvs.Interleaving ranks (format.puts address num) order) (space : Space)
    (stack : Mem) {rank id : Nat} (rankBelow : rank < ranks) (idBelow : id < num) :
    format.getCtxAddr (Kvs.putAll space (order.map Prod.snd)) stack rank id =
      some (address rank id) := by
  have stored : Kvs.putAll space (order.map Prod.snd) (format.putKey (cInt rank) (cInt id)) =
      some (format.putValue (address rank id)) := by
    refine interleaving.get space rankBelow ?_ fun rank' rankBelow' value' found => ?_
    · exact List.mem_map.mpr ⟨id, List.mem_range.mpr idBelow, rfl⟩
    · obtain ⟨id', idMember, same⟩ := List.mem_map.mp found
      have idBelow' := List.mem_range.mp idMember
      obtain ⟨sameKey, sameValue⟩ := Prod.mk.inj same
      obtain ⟨ranksEq, idsEq⟩ := faithful.key_injective _ _ _ _ sameKey
      obtain rfl := cInt_injective (by omega) (by omega) ranksEq
      obtain rfl := cInt_injective (by omega) (by omega) idsEq
      exact sameValue.symm
  rw [AddrFormat.getCtxAddr, faithful.same_key, pmiGet_of_length stored (faithful.value_fits _).2,
    Option.map_some, faithful.round_trip]

end FabricBench.Pmi
