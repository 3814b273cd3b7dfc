import FabricBench.PingpongPrgUcx.Receive

/-!
What a message of the UCX benchmarks is on its way from `isend_tag` to `recv_msg_cb`.

Owns: how the two send paths pack a message, the callback of `pingpong_sym_ucx`, what it
means that a message is delivered (`Delivers`), and exactly for which sizes it is.
`uct_ep_am_short` delivers the eight bytes of its header and then the payload,
`uct_ep_am_bcopy` what its callback packed.
-/

namespace FabricBench

open FabricBench.Lib
open FabricBench.Lib.Memory

/-! ## Packing -/

/-- `am_short_args_t`. The payload is an address or `NULL`. -/
structure Ucx.AmShortArgs where
  header : Nat
  payload : Option Nat
  len : Nat

/-- `sizeof(args->header)`. -/
def Ucx.headerSize : Nat := 8

def Ucx.amShortParamsPack (mem : Mem) (buf len : Nat) : Ucx.AmShortArgs :=
  if Ucx.headerSize < len then
    { header := load mem buf Ucx.headerSize
      payload := some (buf + Ucx.headerSize)
      len := len - Ucx.headerSize }
  else
    { header := load mem buf Ucx.headerSize
      payload := none
      len := 0 }

/-- What `uct_ep_am_short` delivers. -/
def Ucx.amShort (mem : Mem) (args : Ucx.AmShortArgs) : List Byte :=
  (List.range Ucx.headerSize).map (byteAt args.header) ++
    match args.payload with
    | none => []
    | some payload => readBytes mem payload args.len

/-- `am_bcopy_args_t`. -/
structure Ucx.AmBcopyArgs where
  data : Nat
  len : Nat

/-- The buffer of the transport after `am_bcopy_data_pack_cb`, and the length it returns. -/
def Ucx.amBcopyDataPackCb (mem dest : Mem) (args : Ucx.AmBcopyArgs) : Mem × Nat :=
  (writeBytes dest 0 (readBytes mem args.data args.len), args.len)

/-- What `uct_ep_am_bcopy` delivers. -/
def Ucx.amBcopy (mem dest : Mem) (args : Ucx.AmBcopyArgs) : List Byte :=
  let packed := Ucx.amBcopyDataPackCb mem dest args
  readBytes packed.1 0 packed.2

/-- The message that `isend_tag(ctx, src, size, tag)` gets delivered. -/
def Ucx.message (maxAmShortSize : Nat) (mem dest : Mem) (src size : Nat) : List Byte :=
  if size ≤ maxAmShortSize then Ucx.amShort mem (Ucx.amShortParamsPack mem src size)
  else Ucx.amBcopy mem dest ⟨src, size⟩

/-! ## Receiving -/

/-- The variables of the callback of `pingpong_sym_ucx`. -/
structure PingpongSymUcx.Receiver where
  syncs : Nat → Int
  bufs : Nat → Mem

/-- `recv_msg_cb` of `pingpong_sym_ucx`, registered for worker `workerNum`. -/
def PingpongSymUcx.recvMsgCb (workerNum : Nat) (data : List Byte) (s : PingpongSymUcx.Receiver) :
    PingpongSymUcx.Receiver where
  bufs := Function.update s.bufs workerNum (writeBytes (s.bufs workerNum) 0 data)
  syncs := Function.update s.syncs workerNum (s.syncs workerNum + 1)

/-- The callback gets the bytes that were sent, and neither program's callback writes
behind the `max_size` bytes of a buffer. -/
structure Delivers (maxSize maxAmShortSize : Nat) (mem dest : Mem) (src size : Nat) : Prop where
  length_eq : (Ucx.message maxAmShortSize mem dest src size).length = size
  bytes : Ucx.message maxAmShortSize mem dest src size = readBytes mem src size
  prg : ∀ txThreadNum rxThreadNum prgThreadId (s : PingpongPrgUcx.Receiver) w a, maxSize ≤ a →
    (PingpongPrgUcx.recvMsgCb txThreadNum rxThreadNum prgThreadId
      (Ucx.message maxAmShortSize mem dest src size) s).bufs w a = s.bufs w a
  sym : ∀ workerNum (s : PingpongSymUcx.Receiver) w a, maxSize ≤ a →
    (PingpongSymUcx.recvMsgCb workerNum (Ucx.message maxAmShortSize mem dest src size) s).bufs w a =
      s.bufs w a

/-! ## The two paths -/

/-- The short path delivers at least the header. -/
theorem Ucx.amShort_eq (mem : Mem) (src size : Nat) :
    Ucx.amShort mem (Ucx.amShortParamsPack mem src size) =
      readBytes mem src (max Ucx.headerSize size) := by
  have header : (List.range Ucx.headerSize).map (byteAt (load mem src Ucx.headerSize)) =
      readBytes mem src Ucx.headerSize := by
    apply List.map_congr_left
    intro k mem_range
    exact byteAt_load mem src (List.mem_range.mp mem_range)
  unfold Ucx.amShort Ucx.amShortParamsPack
  split_ifs with long
  · rw [header, ← readBytes_add, Nat.add_sub_of_le long.le, Nat.max_eq_right long.le]
  · rw [header, List.append_nil, Nat.max_eq_left (Nat.not_lt.mp long)]

theorem Ucx.amBcopy_eq (mem dest : Mem) (src size : Nat) :
    Ucx.amBcopy mem dest ⟨src, size⟩ = readBytes mem src size := by
  have packed := readBytes_writeBytes dest 0 (readBytes mem src size)
  rw [length_readBytes] at packed
  exact packed

theorem Ucx.message_eq (maxAmShortSize : Nat) (mem dest : Mem) (src size : Nat) :
    Ucx.message maxAmShortSize mem dest src size =
      readBytes mem src (if size ≤ maxAmShortSize then max Ucx.headerSize size else size) := by
  unfold Ucx.message
  split_ifs with short
  · exact Ucx.amShort_eq mem src size
  · exact Ucx.amBcopy_eq mem dest src size

/-- A copy of at most `maxSize` bytes leaves what is behind them. -/
theorem update_writeBytes_outside (bufs : Nat → Mem) (workerNum w : Nat) {data : List Byte}
    {maxSize a : Nat} (fits : data.length ≤ maxSize) (behind : maxSize ≤ a) :
    Function.update bufs workerNum (writeBytes (bufs workerNum) 0 data) w a = bufs w a := by
  by_cases same : w = workerNum
  · subst same
    rw [Function.update_self, writeBytes_outside _ (by omega)]
  · rw [Function.update_of_ne same]

/-! ## Main theorem -/

/-- A message is delivered as it was sent exactly when it has at least the eight bytes of
the header, or is too long for the short path. -/
theorem delivers_iff (maxSize maxAmShortSize : Nat) (mem dest : Mem) (src size : Nat)
    (fits : size ≤ maxSize) :
    Delivers maxSize maxAmShortSize mem dest src size ↔
      Ucx.headerSize ≤ size ∨ maxAmShortSize < size := by
  have message := Ucx.message_eq maxAmShortSize mem dest src size
  constructor
  · intro delivers
    have length := delivers.length_eq
    rw [message, length_readBytes] at length
    split_ifs at length with short
    · exact .inl (by omega)
    · exact .inr (by omega)
  · intro large
    have whole : Ucx.message maxAmShortSize mem dest src size = readBytes mem src size := by
      rw [message]
      split_ifs with short
      · rw [Nat.max_eq_right (by omega)]
      · rfl
    have length : (Ucx.message maxAmShortSize mem dest src size).length = size := by
      rw [whole, length_readBytes]
    constructor
    case length_eq => exact length
    case bytes => exact whole
    case prg =>
      intro txThreadNum rxThreadNum prgThreadId s w a behind
      exact update_writeBytes_outside s.bufs _ w (by omega) behind
    case sym =>
      intro workerNum s w a behind
      exact update_writeBytes_outside s.bufs _ w (by omega) behind

/-- Eight bytes, on the short path. -/
theorem delivers_eight : Delivers 8 92 (fun a => BitVec.ofNat 8 a) (fun _ => 0) 0 8 :=
  (delivers_iff 8 92 (fun a => BitVec.ofNat 8 a) (fun _ => 0) 0 8 (by decide)).mpr (by decide)

/-- Four bytes arrive as eight, and the callback writes behind a buffer of four. -/
theorem short_message_too_long :
    Ucx.message 92 (fun a => BitVec.ofNat 8 (a + 1)) (fun _ => 0) 0 4 = [1, 2, 3, 4, 5, 6, 7, 8] ∧
      ¬ Delivers 4 92 (fun a => BitVec.ofNat 8 (a + 1)) (fun _ => 0) 0 4 ∧
      (PingpongSymUcx.recvMsgCb 0 (Ucx.message 92 (fun a => BitVec.ofNat 8 (a + 1))
        (fun _ => 0) 0 4)
        ⟨fun _ => 0, fun _ _ => 0⟩).bufs 0 4 = 5 := by
  refine ⟨by decide, ?_, by decide⟩
  intro delivers
  exact absurd delivers.length_eq (by decide)

end FabricBench
