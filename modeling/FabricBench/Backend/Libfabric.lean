import FabricBench.Backend.Fabric
import Mathlib.Tactic.IntervalCases

/-!
The libfabric backend, `bench_ofi.hpp`.

Owns: contexts around endpoints, the exchange of an endpoint's name as six 64-bit
words in hexadecimal, and the fact that the exchange is faithful.
-/

namespace FabricBench.Libfabric

open FabricBench.Lib
open FabricBench.Lib.Stdio
open FabricBench.Lib.Memory (Mem load storeAll)
open FabricBench.Pmi

/-- The words of `my_addr`, `EP_ADDR_LEN` of them. -/
abbrev EpAddr := Fin 6 → BitVec 64

/-! ## `put_ctx_addr` and `get_ctx_addr` -/

def putKey (commRank id : BitVec 32) : Key := sprintf "_FB_KEY_%d_%d" [.int commRank, .int id]

def putValue (myAddr : EpAddr) : Value :=
  sprintf "%016lx-%016lx-%016lx-%016lx-%016lx-%016lx"
    [.long (myAddr 0), .long (myAddr 1), .long (myAddr 2), .long (myAddr 3), .long (myAddr 4),
      .long (myAddr 5)]

def getKey (rank id : BitVec 32) : Key := sprintf "_FB_KEY_%d_%d" [.int rank, .int id]

/-- `peer_addr` is an array of words on the stack. -/
def getValue (stack : Mem) (value : Value) : EpAddr :=
  let peerAddr := storeAll stack [0, 8, 16, 24, 32, 40]
    (sscanf value "%016lx-%016lx-%016lx-%016lx-%016lx-%016lx")
  fun k => BitVec.ofNat 64 (load peerAddr (8 * k) 8)

def addrFormat : AddrFormat EpAddr where
  putKey := putKey
  getKey := getKey
  putValue := putValue
  getValue := getValue

/-! ## Both are inverse to each other -/

theorem putKey_eq (rank id : BitVec 32) : putKey rank id = pairKey "_FB_KEY_".toList rank id := by
  have format : parseFormat none "_FB_KEY_%d_%d".toList =
      "_FB_KEY_".toList.map Directive.lit ++ [.dec, .lit '_', .dec] := by
    decide
  unfold putKey sprintf
  rw [format]
  exact print_lits _ _ _

theorem valueFormat : parseFormat none "%016lx-%016lx-%016lx-%016lx-%016lx-%016lx".toList =
    [.hex 16 true, .lit '-', .hex 16 true, .lit '-', .hex 16 true, .lit '-', .hex 16 true,
      .lit '-', .hex 16 true, .lit '-', .hex 16 true] := by
  decide

theorem putKey_injective {rank id rank' id' : BitVec 32}
    (same : putKey rank id = putKey rank' id') :
    rank = rank' ∧ id = id' := by
  rw [putKey_eq, putKey_eq] at same
  exact pairKey_injective same

/-- A word has at most 16 hexadecimal digits. -/
theorem word_fits (v : BitVec 64) : v.toNat < 16 ^ 16 := by
  have := v.isLt
  omega

theorem sscanf_putValue (myAddr : EpAddr) :
    sscanf (putValue myAddr) "%016lx-%016lx-%016lx-%016lx-%016lx-%016lx" =
      [.long (myAddr 0), .long (myAddr 1), .long (myAddr 2), .long (myAddr 3), .long (myAddr 4),
        .long (myAddr 5)] := by
  unfold putValue sprintf sscanf
  rw [valueFormat]
  exact scan_print _ _ (by simp [Scannable, word_fits, -Nat.reducePow])

theorem getValue_putValue (stack : Mem) (myAddr : EpAddr) :
    getValue stack (putValue myAddr) = myAddr := by
  have word : ∀ v : BitVec 64, BitVec.ofNat 64 (v.toNat % 256 ^ 8) = v := by
    intro v
    apply BitVec.eq_of_toNat_eq
    have := v.isLt
    simp only [BitVec.toNat_ofNat]
    omega
  unfold getValue
  rw [sscanf_putValue]
  funext k
  simp only [storeAll, Memory.argSize, Memory.argValue]
  -- the stores of the other words are elsewhere
  obtain ⟨k, below⟩ := k
  interval_cases k <;>
    simp (disch := omega) only [Memory.load_store_disjoint, Memory.load_store, word] <;> rfl

theorem length_putKey_le (rank id : BitVec 32) : (putKey rank id).length ≤ 31 := by
  rw [putKey_eq]
  exact length_pairKey_le _ rank id

theorem length_putValue (myAddr : EpAddr) : (putValue myAddr).length = 101 := by
  have length : ∀ v : BitVec 64, (printHex 16 v.toNat).length = 16 := fun v =>
    length_printHex (by decide) (word_fits v)
  unfold putValue sprintf
  rw [valueFormat]
  simp only [print, List.length_cons, List.length_append, List.length_nil, length]

theorem addrFormat_faithful : addrFormat.Faithful where
  same_key _ _ := rfl
  key_injective _ _ _ _ := putKey_injective
  round_trip := getValue_putValue
  key_fits rank id := fits_of_length_le (length_putKey_le rank id) (by decide)
  value_fits myAddr := fits_of_length_le (length_putValue myAddr).le (by decide)

/-! ## Contexts -/

/-- A completion queue bound to an endpoint, with its flags `FI_SEND` and `FI_RECV`. -/
structure Binding where
  cq : Ptr
  send : Bool
  recv : Bool
deriving DecidableEq, Repr

/-- `ctx_t`: the endpoint and the completion queues bound to it. -/
structure Ctx where
  ep : Ptr
  bindings : List Binding
deriving DecidableEq, Repr

/-- What the providers of the job assign: the words that `fi_getname` leaves for an
endpoint, and what of such words names it in an address vector. -/
structure Providers where
  Name : Type
  getname : Nat → Nat → EpAddr
  nameOf : EpAddr → Name

/-- No two endpoints of a job in which every rank creates at most `objects` objects
have the same name. -/
def Providers.Distinct (providers : Providers) (ranks objects : Nat) : Prop :=
  ∀ r, r < ranks → ∀ r', r' < ranks → ∀ n, n < objects → ∀ n', n' < objects →
    providers.nameOf (providers.getname r n) = providers.nameOf (providers.getname r' n') →
      r = r' ∧ n = n'

/-- An endpoint for both directions has a queue for each; any other one has a single
queue for both. -/
def initCtx (sendCq recvCq : Ptr) (mode : CtxMode) (created : Nat) : Ctx × Nat :=
  let both := mode.tx && mode.rx
  let sendBinding : List Binding := if mode.tx then [⟨sendCq, true, !both⟩] else []
  let recvBinding : List Binding := if mode.rx then [⟨recvCq, !both, true⟩] else []
  (⟨some created, sendBinding ++ recvBinding⟩, created + 1)

/-- A message goes to the address that is given. An endpoint receives what is sent to
its name, reports it to the queue bound for receives, and has its own receive
queue. -/
def backend (providers : Providers) : Backend where
  Addr := EpAddr
  Ctx := Ctx
  nullCtx := ⟨none, []⟩
  format := addrFormat
  initSrq created := (none, created)
  initCq created := (some created, created + 1)
  initCtx _ sendCq recvCq _ mode created := initCtx sendCq recvCq mode created
  getNumCtxAddr _ numReceiver := numReceiver
  getExchangedCtxs _ rxCtxs := rxCtxs
  ctxAddr rank ctx := providers.getname rank (ctx.ep.getD 0)
  connectCtx ctx _ := ctx
  sendTarget _ address := address
  Receives rank ctx address := ∃ ep, ctx.ep = some ep ∧
    providers.nameOf address = providers.nameOf (providers.getname rank ep)
  recvCq ctx := (ctx.bindings.find? Binding.recv).bind Binding.cq
  recvQueue ctx := ctx.ep
  postQueue ctx := ctx.ep

end FabricBench.Libfabric
