import FabricBench.Backend.Ucx
import FabricBench.Lib.ForLoop
import FabricBench.PingpongPrg.Model

/-!
What `main` of `pingpong_prg_ucx` sets up before its threads start: contexts with
their endpoints, the exchange of addresses, the calls that connect the endpoints, and
the active-message handlers.

Two loops connect: one over the workers, and one over the progress threads with an
inner loop over the workers that a progress thread serves. A call that would index a
vector past its end is `none` in the lists of calls.
-/

namespace FabricBench.PingpongPrgUcx

open FabricBench.Lib
open FabricBench.Lib.Memory (Mem)
open FabricBench.PingpongPrg
open FabricBench.Pmi
open FabricBench.Ucx

/-- Ranks and thread numbers are C `int`s. -/
structure FitsInt (cfg : Config) : Prop where
  size_le : cfg.size ≤ 2 ^ 31
  tx_le : cfg.txThreadNum ≤ 2 ^ 31

/-- What the interfaces of the job report: the lengths of addresses, the device address
of every context, and the address of every endpoint created on it. -/
structure Interfaces where
  devAddrLen : Nat
  epAddrLen : Nat
  devAddr : Nat → AddrType → Nat → Mem
  epAddr : Nat → AddrType → Nat → Nat → Mem

variable (cfg : Config) (ifaces : Interfaces)

def worksPerProgressThread : Nat := cfg.txThreadNum / cfg.rxThreadNum

/-! ## Contexts -/

/-- `init_ctx(ctx, numEP)`: `init_ep` appends one endpoint at a time. -/
def initCtx (numEP rank : Nat) (addrType : AddrType) (id : Nat) : CtxAddrs where
  ownDev := ifaces.devAddr rank addrType id
  ownEpAddrs := forLoop numEP (fun addrs k => addrs ++ [ifaces.epAddr rank addrType id k]) []

def progressCtx (rank i : Nat) : CtxAddrs :=
  initCtx ifaces (worksPerProgressThread cfg) rank .p i

def workerCtx (rank i : Nat) : CtxAddrs := initCtx ifaces 1 rank .w i

/-- The puts of the two initialising loops, progress contexts first. -/
def puts (rank : Nat) : List (Key × Value) :=
  ((List.range cfg.rxThreadNum).flatMap fun i =>
    putCtxAddr (progressCtx cfg ifaces rank i) rank i .p) ++
    (List.range cfg.txThreadNum).flatMap fun i => putCtxAddr (workerCtx ifaces rank i) rank i .w

/-- `remote_recv_ep_addrs[i]`. -/
def remoteRecvEpAddrs (heap : Mem) (space : Space) (rank i : Nat) : Option PeerAddrs :=
  getCtxAddr ifaces.devAddrLen ifaces.epAddrLen (progressCtx cfg ifaces rank i).ownEpAddrs.length
    heap space (targetRank cfg.size rank) i .p

/-- `remote_send_ep_addrs[i]`. -/
def remoteSendEpAddrs (heap : Mem) (space : Space) (rank i : Nat) : Option PeerAddrs :=
  getCtxAddr ifaces.devAddrLen ifaces.epAddrLen (workerCtx ifaces rank i).ownEpAddrs.length
    heap space (targetRank cfg.size rank) i .w

/-! ## Connections -/

/-- An endpoint of a rank: `eps[ep]` of its context number `ctx`. -/
structure EpId where
  addrType : AddrType
  ctx : Nat
  ep : Nat
deriving DecidableEq, Repr

/-- A call of `uct_ep_connect_to_ep` with the addresses of device and endpoint. -/
structure Call where
  local_ : EpId
  dev : Mem
  ep : Mem

/-- The loop that connects the workers. -/
def workerCalls (heap : Mem) (space : Space) (rank : Nat) : List (Option Call) :=
  (List.range cfg.txThreadNum).map fun i => do
    let remote ← remoteRecvEpAddrs cfg ifaces heap space rank (i % cfg.rxThreadNum)
    let ep ← remote.peerEpAddrs[i / cfg.rxThreadNum]?
    return ⟨⟨.w, i, 0⟩, remote.peerDev, ep⟩

/-- The values of `j` in `for (j = start; j < bound; j += step)`, for at most `fuel`
iterations. -/
def strideLoop (bound step : Nat) : Nat → Nat → List Nat
  | 0, _ => []
  | fuel + 1, j => if j < bound then j :: strideLoop bound step fuel (j + step) else []

/-- The loops that connect the progress threads. -/
def progressCalls (heap : Mem) (space : Space) (rank : Nat) : List (Option Call) :=
  (List.range cfg.rxThreadNum).flatMap fun i =>
    (strideLoop cfg.txThreadNum cfg.rxThreadNum cfg.txThreadNum i).map fun j => do
      let remote ← remoteSendEpAddrs cfg ifaces heap space rank j
      let ep ← remote.peerEpAddrs[0]?
      return ⟨⟨.p, i, j / cfg.rxThreadNum⟩, remote.peerDev, ep⟩

def connectCalls (heap : Mem) (space : Space) (rank : Nat) : List (Option Call) :=
  workerCalls cfg ifaces heap space rank ++ progressCalls cfg ifaces heap space rank

/-! ## Active messages -/

/-- `uct_iface_set_am_handler` for every progress context: the argument with which
`recv_msg_cb` is registered for an active-message id. `accepts` says for which ids an
interface takes a handler; a refusal is printed and nothing else comes of it. -/
def amHandlers (accepts : Nat → Bool) : Nat → Nat → Option Nat :=
  forLoop cfg.rxThreadNum
    (fun handlers i => Function.update handlers i
      (if accepts i then Function.update (handlers i) i (some i) else handlers i))
    (fun _ _ => none)

/-- `dest_message_id` of a worker. -/
def destMessageId (threadId : Nat) : Nat := threadId % cfg.rxThreadNum

end FabricBench.PingpongPrgUcx
