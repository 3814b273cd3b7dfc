import FabricBench.Backend.Pmi

/-!
What the benchmarks see of a backend with contexts and completion queues
(`bench_fabric.hpp`), and what the transport below it does with a message.

Owns: `Backend`. Its first part are the functions of the interface as the backend
implements them; its second part says for the backend's contexts where a message
sent with one goes, which messages one receives, and which queues are involved.
-/

namespace FabricBench

open FabricBench.Pmi

/-- A pointer to an object of the transport: null, or the number of the object among
those its rank has created. -/
abbrev Ptr := Option Nat

/-- The bits `CTX_TX` and `CTX_RX`. -/
structure CtxMode where
  tx : Bool
  rx : Bool
deriving DecidableEq, Repr

/-- `CTX_TX`. -/
def ctxTx : CtxMode := ⟨true, false⟩

/-- `CTX_RX`. -/
def ctxRx : CtxMode := ⟨false, true⟩

/-- Functions that create objects take the number of objects created so far and return
it updated. -/
structure Backend where
  /-- The address of a context. -/
  Addr : Type
  Ctx : Type
  /-- A context as `calloc` leaves it. -/
  nullCtx : Ctx
  format : AddrFormat Addr
  initSrq : Nat → Ptr × Nat
  initCq : Nat → Ptr × Nat
  /-- The arguments are the rank, the two completion queues, the shared receive queue
  and the mode. -/
  initCtx : Nat → Ptr → Ptr → Ptr → CtxMode → Nat → Ctx × Nat
  getNumCtxAddr : Nat → Nat → Nat
  getExchangedCtxs : (Nat → Ctx) → (Nat → Ctx) → Nat → Ctx
  /-- The address that `put_ctx_addr` finds in a context of a rank. -/
  ctxAddr : Nat → Ctx → Addr
  connectCtx : Ctx → Option Addr → Ctx
  /-- Where a message sent with a context and an address goes. -/
  sendTarget : Ctx → Option Addr → Option Addr
  /-- A context of a rank receives the messages to an address. -/
  Receives : Nat → Ctx → Addr → Prop
  /-- Where a received message is reported. -/
  recvCq : Ctx → Ptr
  /-- The queue that a received message takes its buffer from. -/
  recvQueue : Ctx → Ptr
  /-- The queue that `irecv` with a context posts to. -/
  postQueue : Ctx → Ptr

end FabricBench
