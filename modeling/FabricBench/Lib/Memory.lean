import FabricBench.Lib.Stdio
import Mathlib.Tactic.NormNum

/-!
Owns byte-addressed memory with little-endian stores and loads of any size, and the
stores that a scan makes at the addresses it is given.
-/

namespace FabricBench.Lib.Memory

open Stdio

abbrev Byte := BitVec 8

abbrev Mem := Nat → Byte

/-- Byte `k` of a number, the lowest first. -/
def byteAt (n k : Nat) : Byte := BitVec.ofNat 8 (n / 256 ^ k)

def store (mem : Mem) (addr size n : Nat) : Mem :=
  fun a => if addr ≤ a ∧ a < addr + size then byteAt n (a - addr) else mem a

def load (mem : Mem) (addr : Nat) : Nat → Nat
  | 0 => 0
  | size + 1 => (mem addr).toNat + 256 * load mem (addr + 1) size

/-- The `n` bytes from `addr` on. -/
def readBytes (mem : Mem) (addr n : Nat) : List Byte := (List.range n).map fun k => mem (addr + k)

/-- `memcpy` to `addr`. -/
def writeBytes (mem : Mem) (addr : Nat) (data : List Byte) : Mem :=
  fun a => if addr ≤ a then (data[a - addr]?).getD (mem a) else mem a

/-! ## Loads and stores -/

theorem store_inside (mem : Mem) {addr size k : Nat} (n : Nat) (inside : k < size) :
    store mem addr size n (addr + k) = byteAt n k := by
  rw [store, if_pos (by omega), Nat.add_sub_cancel_left]

theorem store_outside (mem : Mem) {addr size a : Nat} (n : Nat)
    (outside : a < addr ∨ addr + size ≤ a) : store mem addr size n a = mem a := by
  rw [store, if_neg (by omega)]

/-- A load gives the number whose bytes are there. -/
theorem load_of_bytes {mem : Mem} {addr n size : Nat}
    (bytes : ∀ k, k < size → mem (addr + k) = byteAt n k) :
    load mem addr size = n % 256 ^ size := by
  induction size generalizing addr n with
  | zero => simp [load, Nat.mod_one]
  | succ size inductionHypothesis =>
      have low : (mem addr).toNat = n % 256 := by
        have first := bytes 0 (Nat.succ_pos size)
        rw [Nat.add_zero] at first
        simp [first, byteAt]
      have high : load mem (addr + 1) size = n / 256 % 256 ^ size := by
        refine inductionHypothesis fun k below => ?_
        have next := bytes (k + 1) (by omega)
        rw [Nat.add_comm k 1, ← Nat.add_assoc] at next
        rw [next, byteAt, byteAt, Nat.add_comm 1 k, Nat.pow_succ', Nat.div_div_eq_div_mul]
      rw [load, low, high, Nat.pow_succ', Nat.mod_mul]

theorem load_store (mem : Mem) (addr n : Nat) {size size' : Nat} (within : size' ≤ size) :
    load (store mem addr size n) addr size' = n % 256 ^ size' :=
  load_of_bytes fun _ below => store_inside mem n (by omega)

theorem load_congr {mem mem' : Mem} {addr size : Nat}
    (same : ∀ k, k < size → mem (addr + k) = mem' (addr + k)) :
    load mem addr size = load mem' addr size := by
  induction size generalizing addr with
  | zero => rfl
  | succ size inductionHypothesis =>
      have first := same 0 (Nat.succ_pos size)
      rw [Nat.add_zero] at first
      have rest : load mem (addr + 1) size = load mem' (addr + 1) size := by
        refine inductionHypothesis fun k below => ?_
        have next := same (k + 1) (by omega)
        rwa [Nat.add_comm k 1, ← Nat.add_assoc] at next
      rw [load, load, first, rest]

theorem load_store_disjoint (mem : Mem) {addr addr' size size' : Nat} (n : Nat)
    (disjoint : addr' + size' ≤ addr ∨ addr + size ≤ addr') :
    load (store mem addr size n) addr' size' = load mem addr' size' :=
  load_congr fun _ below => store_outside mem n (by omega)

/-- The bytes of a loaded number are those it was loaded from. -/
theorem byteAt_load (mem : Mem) (addr : Nat) {size k : Nat} (below : k < size) :
    byteAt (load mem addr size) k = mem (addr + k) := by
  induction size generalizing addr k with
  | zero => omega
  | succ size inductionHypothesis =>
      have low : (mem addr).toNat < 256 := (mem addr).isLt
      rw [load]
      cases k with
      | zero =>
          apply BitVec.eq_of_toNat_eq
          rw [byteAt, Nat.pow_zero, Nat.div_one, BitVec.toNat_ofNat]
          change _ = (mem addr).toNat
          omega
      | succ k =>
          have rest := inductionHypothesis (addr + 1) (Nat.lt_of_succ_lt_succ below)
          rw [byteAt] at rest ⊢
          rw [Nat.pow_succ', ← Nat.div_div_eq_div_mul,
            show ((mem addr).toNat + 256 * load mem (addr + 1) size) / 256 =
              load mem (addr + 1) size by
              omega, rest, Nat.add_assoc, Nat.add_comm 1 k]

/-! ## Copies -/

@[simp] theorem length_readBytes (mem : Mem) (addr n : Nat) :
    (readBytes mem addr n).length = n := by
  simp [readBytes]

theorem readBytes_add (mem : Mem) (addr m n : Nat) :
    readBytes mem addr (m + n) = readBytes mem addr m ++ readBytes mem (addr + m) n := by
  simp [readBytes, List.range_add, Nat.add_assoc]

theorem readBytes_writeBytes (mem : Mem) (addr : Nat) (data : List Byte) :
    readBytes (writeBytes mem addr data) addr data.length = data := by
  apply List.ext_getElem
  · simp
  · intro k _ below
    simp [readBytes, writeBytes, below]

theorem writeBytes_outside (mem : Mem) {addr a : Nat} {data : List Byte}
    (outside : addr + data.length ≤ a) : writeBytes mem addr data a = mem a := by
  rw [writeBytes, if_pos (by omega), List.getElem?_eq_none (by omega)]
  rfl

/-! ## The stores of a scan -/

/-- The bytes a scan stores for a value: 4 for `%d` and `%x`, 8 for `%lx`. -/
def argSize : Arg → Nat
  | .int _ => 4
  | .long _ => 8
  | .str s => s.length + 1

def argValue : Arg → Nat
  | .int v => v.toNat
  | .long v => v.toNat
  -- no scan here stores a string
  | .str _ => 0

/-- Store the values in order at the addresses in order. -/
def storeAll (mem : Mem) : List Nat → List Arg → Mem
  | addr :: addrs, arg :: args => storeAll (store mem addr (argSize arg) (argValue arg)) addrs args
  | _, _ => mem

/-- All stores fall into the first `size` bytes. -/
def InBounds (size : Nat) : List Nat → List Arg → Prop
  | addr :: addrs, arg :: args => addr + argSize arg ≤ size ∧ InBounds size addrs args
  | _, _ => True

end FabricBench.Lib.Memory
