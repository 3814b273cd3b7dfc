import FabricBench.Backend.Fabric

/-!
The verbs backend, `bench_ib.hpp`.

Owns: contexts around queue pairs and shared receive queues, the exchange of a queue
pair's number and its port's lid as two decimal numbers, and the fact that the
exchange is faithful.
-/

namespace FabricBench.Verbs

open FabricBench.Lib
open FabricBench.Lib.Stdio
open FabricBench.Lib.Memory (Mem load storeAll)
open FabricBench.Pmi

/-- `conn_info`: `qp_num` in its bytes 0 to 3, `lid` in 4 and 5, and two bytes of
padding. -/
structure ConnInfo where
  qpNum : BitVec 32
  lid : BitVec 16
deriving DecidableEq, Repr

/-! ## `put_ctx_addr` and `get_ctx_addr` -/

def putKey (commRank id : BitVec 32) : Key := sprintf "_IB_KEY_%d_%d" [.int commRank, .int id]

/-- `qp_num` is unsigned but printed with `%d`; `lid` is widened to an `int`. -/
def putValue (info : ConnInfo) : Value :=
  sprintf "%d-%d" [.int info.qpNum, .int (info.lid.setWidth 32)]

def getKey (rank id : BitVec 32) : Key := sprintf "_IB_KEY_%d_%d" [.int rank, .int id]

/-- Both conversions store four bytes: the second one `lid` and the padding. -/
def getValue (stack : Mem) (value : Value) : ConnInfo :=
  let remoteInfo := storeAll stack [0, 4] (sscanf value "%d-%d")
  ⟨BitVec.ofNat 32 (load remoteInfo 0 4), BitVec.ofNat 16 (load remoteInfo 4 2)⟩

def addrFormat : AddrFormat ConnInfo where
  putKey := putKey
  getKey := getKey
  putValue := putValue
  getValue := getValue

/-! ## Both are inverse to each other -/

theorem putKey_eq (rank id : BitVec 32) : putKey rank id = pairKey "_IB_KEY_".toList rank id := by
  have format : parseFormat none "_IB_KEY_%d_%d".toList =
      "_IB_KEY_".toList.map Directive.lit ++ [.dec, .lit '_', .dec] := by
    decide
  unfold putKey sprintf
  rw [format]
  exact print_lits _ _ _

theorem valueFormat : parseFormat none "%d-%d".toList = [.dec, .lit '-', .dec] := by decide

theorem putKey_injective {rank id rank' id' : BitVec 32}
    (same : putKey rank id = putKey rank' id') :
    rank = rank' ∧ id = id' := by
  rw [putKey_eq, putKey_eq] at same
  exact pairKey_injective same

theorem sscanf_putValue (info : ConnInfo) :
    sscanf (putValue info) "%d-%d" = [.int info.qpNum, .int (info.lid.setWidth 32)] := by
  unfold putValue sprintf sscanf
  rw [valueFormat]
  exact scan_print _ _ (by simp [Scannable, endsNumber])

theorem getValue_putValue (stack : Mem) (info : ConnInfo) :
    getValue stack (putValue info) = info := by
  unfold getValue
  rw [sscanf_putValue]
  simp only [storeAll, Memory.argSize, Memory.argValue]
  rw [Memory.load_store_disjoint _ _ (by omega), Memory.load_store _ _ _ (le_refl 4),
    Memory.load_store _ _ _ (by omega)]
  have qpNum : BitVec.ofNat 32 (info.qpNum.toNat % 256 ^ 4) = info.qpNum := by
    apply BitVec.eq_of_toNat_eq
    have := info.qpNum.isLt
    simp only [BitVec.toNat_ofNat]
    omega
  have lid : BitVec.ofNat 16 ((info.lid.setWidth 32).toNat % 256 ^ 2) = info.lid := by
    apply BitVec.eq_of_toNat_eq
    have := info.lid.isLt
    simp only [BitVec.toNat_ofNat, BitVec.toNat_setWidth]
    omega
  rw [qpNum, lid]

theorem length_putKey_le (rank id : BitVec 32) : (putKey rank id).length ≤ 31 := by
  rw [putKey_eq]
  exact length_pairKey_le _ rank id

theorem length_putValue_le (info : ConnInfo) : (putValue info).length ≤ 23 := by
  have numLe := length_printDec_le info.qpNum
  have lidLe := length_printDec_le (info.lid.setWidth 32)
  unfold putValue sprintf
  rw [valueFormat]
  simp only [print, List.length_cons, List.length_append, List.length_nil]
  omega

theorem addrFormat_faithful : addrFormat.Faithful where
  same_key _ _ := rfl
  key_injective _ _ _ _ := putKey_injective
  round_trip := getValue_putValue
  key_fits rank id := fits_of_length_le (length_putKey_le rank id) (by decide)
  value_fits info := fits_of_length_le (length_putValue_le info) (by decide)

/-! ## Contexts -/

/-- A queue pair: its completion queues, the shared receive queue it was created with,
and the queue pair it is connected to. -/
structure Qp where
  object : Nat
  sendCq : Ptr
  recvCq : Ptr
  srq : Ptr
  dest : Option ConnInfo
deriving DecidableEq, Repr

/-- `ctx_t`. -/
structure Ctx where
  qp : Option Qp
  localConnInfo : ConnInfo
  srq : Ptr
deriving DecidableEq, Repr

/-- What the devices of the job assign: the numbers of queue pairs and the lids of
ports. -/
structure Devices where
  qpNum : Nat → Nat → BitVec 32
  lid : Nat → BitVec 16

/-- No two queue pairs of a job in which every rank creates at most `objects` objects
have the same number at the same lid. -/
def Devices.Distinct (devices : Devices) (ranks objects : Nat) : Prop :=
  ∀ r, r < ranks → ∀ r', r' < ranks → ∀ n, n < objects → ∀ n', n' < objects →
    devices.qpNum r n = devices.qpNum r' n' → devices.lid r = devices.lid r' → r = r' ∧ n = n'

/-- A receive-only context is only the shared receive queue; any other one is a queue
pair. -/
def initCtx (devices : Devices) (rank : Nat) (sendCq recvCq srq : Ptr) (mode : CtxMode)
    (created : Nat) : Ctx × Nat :=
  if mode = ctxRx then (⟨none, ⟨0, 0⟩, srq⟩, created)
  else
    (⟨some ⟨created, sendCq, recvCq, srq, none⟩, ⟨devices.qpNum rank created, devices.lid rank⟩,
      none⟩, created + 1)

/-- The address names the queue pair to connect to. -/
def connectCtx (ctx : Ctx) (target : Option ConnInfo) : Ctx :=
  { ctx with qp := ctx.qp.map fun qp => { qp with dest := target } }

/-- A connected queue pair sends to its partner whatever address is given, receives
what is sent to its number at its lid, and takes buffers from its shared receive
queue. `irecv` posts to the context's shared receive queue if it has one. -/
def backend (devices : Devices) : Backend where
  Addr := ConnInfo
  Ctx := Ctx
  nullCtx := ⟨none, ⟨0, 0⟩, none⟩
  format := addrFormat
  initSrq created := (some created, created + 1)
  initCq created := (some created, created + 1)
  initCtx := initCtx devices
  getNumCtxAddr numSender _ := numSender
  getExchangedCtxs txCtxs _ := txCtxs
  ctxAddr _ ctx := ctx.localConnInfo
  connectCtx := connectCtx
  sendTarget ctx _ := ctx.qp.bind Qp.dest
  Receives _ ctx address := ctx.qp.isSome = true ∧ ctx.localConnInfo = address
  recvCq ctx := ctx.qp.bind Qp.recvCq
  recvQueue ctx := ctx.qp.bind fun qp => qp.srq <|> some qp.object
  postQueue ctx := ctx.srq <|> ctx.qp.map Qp.object

end FabricBench.Verbs
