import FabricBench.Backend.Libfabric
import FabricBench.Backend.Verbs
import FabricBench.Lib.ForLoop
import FabricBench.PingpongPrg.Model

/-!
What `main` of `pingpong_prg` sets up before its threads start, over any backend:
completion queues and contexts, the exchange of addresses, and the connections.

Owns: the loops of `main` (`initLoops`, `puts`, `getLoop`, `connectLoop`), the process
they leave on every rank (`process`), what a loop of `get_ctx_addr` leaves in `addrs`
for a faithful format, and what the first two loops create on each of the two
backends.
-/

namespace FabricBench.PingpongPrg

open FabricBench.Lib
open FabricBench.Lib.Memory (Mem)
open FabricBench.Pmi

/-! ## The loops of `main` -/

/-- The arrays of `main`, which `calloc` zeroes, and the number of objects created. -/
structure Setup (b : Backend) where
  created : Nat
  txCqs : Nat → Ptr
  rxCqs : Nat → Ptr
  srqs : Nat → Ptr
  txCtxs : Nat → b.Ctx
  rxCtxs : Nat → b.Ctx

variable (b : Backend) (cfg : Config)

def Setup.zeroed : Setup b where
  created := 0
  txCqs _ := none
  rxCqs _ := none
  srqs _ := none
  txCtxs _ := b.nullCtx
  rxCtxs _ := b.nullCtx

variable {b}

/-- `init_srq`, `init_cq` and `init_ctx` for a progress thread. The transmit queue that
is passed has not been created yet. -/
def rxBody (rank : Nat) (s : Setup b) (i : Nat) : Setup b :=
  let srq := b.initSrq s.created
  let srqs := Function.update s.srqs i srq.1
  let cq := b.initCq srq.2
  let rxCqs := Function.update s.rxCqs i cq.1
  let ctx := b.initCtx rank (s.txCqs i) (rxCqs i) (srqs (i % cfg.rxThreadNum)) ctxRx cq.2
  { s with created := ctx.2, srqs, rxCqs, rxCtxs := Function.update s.rxCtxs i ctx.1 }

/-- `init_cq` and `init_ctx` for a worker. -/
def txBody (rank : Nat) (s : Setup b) (i : Nat) : Setup b :=
  let cq := b.initCq s.created
  let txCqs := Function.update s.txCqs i cq.1
  let ctx := b.initCtx rank (txCqs i) (s.rxCqs (i % cfg.rxThreadNum))
    (s.srqs (i % cfg.rxThreadNum)) ctxTx cq.2
  { s with created := ctx.2, txCqs, txCtxs := Function.update s.txCtxs i ctx.1 }

variable (b) in
/-- The arrays after both loops. -/
def initLoops (rank : Nat) : Setup b :=
  forLoop cfg.txThreadNum (txBody cfg rank)
    (forLoop cfg.rxThreadNum (rxBody cfg rank) (Setup.zeroed b))

variable (b) in
def numCtxAddr : Nat := b.getNumCtxAddr cfg.txThreadNum cfg.rxThreadNum

variable (b) in
/-- The address of `exchanged_ctxs[i]` on a rank. -/
def exchangedAddr (rank i : Nat) : b.Addr :=
  b.ctxAddr rank (b.getExchangedCtxs (initLoops b cfg rank).txCtxs (initLoops b cfg rank).rxCtxs i)

variable (b) in
/-- The loop of `put_ctx_addr`. -/
def puts (rank : Nat) : List (Key × Value) :=
  b.format.puts (exchangedAddr b cfg) (numCtxAddr b cfg) rank

variable (b) in
/-- The loop of `get_ctx_addr`: the array `addrs`. -/
def getLoop (space : Space) (stack : Mem) (rank : Nat) : Nat → Option b.Addr :=
  forLoop (numCtxAddr b cfg)
    (fun addrs i => Function.update addrs i
      (b.format.getCtxAddr space stack (targetRank cfg.size rank) i))
    (fun _ => none)

/-- The loop of `connect_ctx`. It runs over the workers also where `addrs` is
shorter. -/
def connectLoop (addrs : Nat → Option b.Addr) (txCtxs : Nat → b.Ctx) : Nat → b.Ctx :=
  forLoop cfg.txThreadNum
    (fun txCtxs i => Function.update txCtxs i (b.connectCtx (txCtxs i) (addrs i))) txCtxs

/-- A rank when its threads start. -/
structure Process (b : Backend) extends Setup b where
  addrs : Nat → Option b.Addr

variable (b) in
/-- What `main` leaves on a rank, where `order` are the puts of all ranks before the
barrier. -/
def process (order : List (Nat × (Key × Value))) (space : Space) (stack : Mem) (rank : Nat) :
    Process b :=
  let setup := initLoops b cfg rank
  let addrs := getLoop b cfg (Kvs.putAll space (order.map Prod.snd)) stack rank
  { setup with txCtxs := connectLoop cfg addrs setup.txCtxs, addrs }

/-! ## Addresses and connections -/

variable {cfg}

/-- With a faithful format `addrs[i]` is the address of the partner's context `i`. -/
theorem getLoop_eq {order : List (Nat × (Key × Value))} (faithful : b.format.Faithful)
    (ranksFit : cfg.size ≤ 2 ^ 31) (numFits : numCtxAddr b cfg ≤ 2 ^ 31)
    (interleaving : Kvs.Interleaving cfg.size (puts b cfg) order) (space : Space) (stack : Mem)
    (r : Rank cfg) {i : Nat} (below : i < numCtxAddr b cfg) :
    getLoop b cfg (Kvs.putAll space (order.map Prod.snd)) stack r i =
      some (exchangedAddr b cfg (partner r) i) := by
  unfold getLoop
  have written := forLoop_update (numCtxAddr b cfg)
    (fun i _ => b.format.getCtxAddr (Kvs.putAll space (order.map Prod.snd)) stack
      (targetRank cfg.size r) i) (fun _ => none) i
  rw [written, if_pos below]
  exact faithful.exchange ranksFit numFits (exchangedAddr b cfg) interleaving space stack
    (partner r).isLt below

theorem connectLoop_eq (addrs : Nat → Option b.Addr) (txCtxs : Nat → b.Ctx) {i : Nat}
    (below : i < cfg.txThreadNum) :
    connectLoop cfg addrs txCtxs i = b.connectCtx (txCtxs i) (addrs i) := by
  unfold connectLoop
  have written := forLoop_update cfg.txThreadNum (fun i ctx => b.connectCtx ctx (addrs i)) txCtxs i
  rw [written, if_pos below]

/-! ## What is created on the verbs backend -/

section Verbs

variable {devices : Verbs.Devices}

/-- After `k` iterations of the first loop: shared receive queues and completion queues
alternate. -/
structure VerbsRx (k : Nat) (s : Setup (Verbs.backend devices)) : Prop where
  srqs : ∀ j, j < k → s.srqs j = some (2 * j)
  rxCqs : ∀ j, j < k → s.rxCqs j = some (2 * j + 1)
  rxCtxs : ∀ j, j < k → s.rxCtxs j = ⟨none, ⟨0, 0⟩, some (2 * j)⟩

theorem verbs_rxLoop (cfg : Config) (devices : Verbs.Devices) (rank : Nat) :
    (forLoop cfg.rxThreadNum (rxBody cfg rank) (Setup.zeroed (Verbs.backend devices))).created =
        2 * cfg.rxThreadNum ∧
      VerbsRx cfg.rxThreadNum
        (forLoop cfg.rxThreadNum (rxBody cfg rank) (Setup.zeroed (Verbs.backend devices))) := by
  refine forLoop_invariant (fun k (s : Setup (Verbs.backend devices)) =>
    s.created = 2 * k ∧ VerbsRx k s) ⟨rfl, ?_⟩ ?_
  · exact ⟨fun j below => by omega, fun j below => by omega, fun j below => by omega⟩
  · rintro k s below ⟨created, rx⟩
    have own : k % cfg.rxThreadNum = k := Nat.mod_eq_of_lt below
    refine ⟨?_, ?_⟩
    · simp [rxBody, Verbs.backend, Verbs.initCtx, created]
      omega
    · refine ⟨fun j jBelow => ?_, fun j jBelow => ?_, fun j jBelow => ?_⟩ <;>
        rcases Nat.lt_succ_iff_lt_or_eq.mp jBelow with earlier | rfl
      · simp only [rxBody, Function.update_of_ne earlier.ne]
        exact rx.srqs j earlier
      · simp [rxBody, Verbs.backend, created]
      · simp only [rxBody, Function.update_of_ne earlier.ne]
        exact rx.rxCqs j earlier
      · simp [rxBody, Verbs.backend, created]
      · simp only [rxBody, Function.update_of_ne earlier.ne]
        exact rx.rxCtxs j earlier
      · simp [rxBody, Verbs.backend, Verbs.initCtx, created, own]

/-- After `k` iterations of the second loop: completion queues and queue pairs
alternate. -/
structure VerbsTx (cfg : Config) (rank k : Nat) (s : Setup (Verbs.backend devices)) : Prop where
  rx : VerbsRx cfg.rxThreadNum s
  txCqs : ∀ j, j < k → s.txCqs j = some (2 * cfg.rxThreadNum + 2 * j)
  txCtxs : ∀ j, j < k → s.txCtxs j =
    ⟨some ⟨2 * cfg.rxThreadNum + 2 * j + 1, some (2 * cfg.rxThreadNum + 2 * j),
        some (2 * (j % cfg.rxThreadNum) + 1), some (2 * (j % cfg.rxThreadNum)), none⟩,
      ⟨devices.qpNum rank (2 * cfg.rxThreadNum + 2 * j + 1), devices.lid rank⟩, none⟩

theorem verbs_initLoops (cfg : Config) (devices : Verbs.Devices) (rank : Nat) :
    VerbsTx cfg rank cfg.txThreadNum (initLoops (Verbs.backend devices) cfg rank) := by
  obtain ⟨start, startRx⟩ := verbs_rxLoop cfg devices rank
  refine (forLoop_invariant (fun k (s : Setup (Verbs.backend devices)) =>
    s.created = 2 * cfg.rxThreadNum + 2 * k ∧ VerbsTx cfg rank k s) ⟨start, startRx, ?_, ?_⟩ ?_).2
  · intro j below
    omega
  · intro j below
    omega
  · rintro k s below ⟨created, tx⟩
    have residue : k % cfg.rxThreadNum < cfg.rxThreadNum := Nat.mod_lt _ cfg.rx_pos
    refine ⟨?_, ⟨tx.rx.srqs, tx.rx.rxCqs, tx.rx.rxCtxs⟩, fun j jBelow => ?_, fun j jBelow => ?_⟩
    · simp [txBody, Verbs.backend, Verbs.initCtx, ctxTx, ctxRx, created]
      omega
    all_goals rcases Nat.lt_succ_iff_lt_or_eq.mp jBelow with earlier | rfl
    · simp only [txBody, Function.update_of_ne earlier.ne]
      exact tx.txCqs j earlier
    · simp [txBody, Verbs.backend, created]
    · simp only [txBody, Function.update_of_ne earlier.ne]
      exact tx.txCtxs j earlier
    · simp [txBody, Verbs.backend, Verbs.initCtx, ctxTx, ctxRx, created, tx.rx.srqs _ residue,
        tx.rx.rxCqs _ residue]

end Verbs

/-! ## What is created on the libfabric backend -/

section Libfabric

variable {providers : Libfabric.Providers}

/-- After `k` iterations of the first loop: completion queues and endpoints alternate,
and there are no shared receive queues. -/
structure LibfabricRx (k : Nat) (s : Setup (Libfabric.backend providers)) : Prop where
  rxCqs : ∀ j, j < k → s.rxCqs j = some (2 * j)
  rxCtxs : ∀ j, j < k → s.rxCtxs j = ⟨some (2 * j + 1), [⟨some (2 * j), true, true⟩]⟩

theorem libfabric_rxLoop (cfg : Config) (providers : Libfabric.Providers) (rank : Nat) :
    (forLoop cfg.rxThreadNum (rxBody cfg rank)
        (Setup.zeroed (Libfabric.backend providers))).created = 2 * cfg.rxThreadNum ∧
      LibfabricRx cfg.rxThreadNum
        (forLoop cfg.rxThreadNum (rxBody cfg rank)
          (Setup.zeroed (Libfabric.backend providers))) := by
  refine forLoop_invariant (fun k (s : Setup (Libfabric.backend providers)) =>
    s.created = 2 * k ∧ LibfabricRx k s) ⟨rfl, ?_⟩ ?_
  · exact ⟨fun j below => by omega, fun j below => by omega⟩
  · rintro k s below ⟨created, rx⟩
    refine ⟨?_, ?_⟩
    · simp [rxBody, Libfabric.backend, Libfabric.initCtx, created]
      omega
    · refine ⟨fun j jBelow => ?_, fun j jBelow => ?_⟩ <;>
        rcases Nat.lt_succ_iff_lt_or_eq.mp jBelow with earlier | rfl
      · simp only [rxBody, Function.update_of_ne earlier.ne]
        exact rx.rxCqs j earlier
      · simp [rxBody, Libfabric.backend, created]
      · simp only [rxBody, Function.update_of_ne earlier.ne]
        exact rx.rxCtxs j earlier
      · simp [rxBody, Libfabric.backend, Libfabric.initCtx, ctxRx, created]

structure LibfabricTx (cfg : Config) (k : Nat) (s : Setup (Libfabric.backend providers)) :
    Prop where
  rx : LibfabricRx cfg.rxThreadNum s
  txCqs : ∀ j, j < k → s.txCqs j = some (2 * cfg.rxThreadNum + 2 * j)
  txCtxs : ∀ j, j < k → s.txCtxs j =
    ⟨some (2 * cfg.rxThreadNum + 2 * j + 1), [⟨some (2 * cfg.rxThreadNum + 2 * j), true, true⟩]⟩

theorem libfabric_initLoops (cfg : Config) (providers : Libfabric.Providers) (rank : Nat) :
    LibfabricTx cfg cfg.txThreadNum (initLoops (Libfabric.backend providers) cfg rank) := by
  obtain ⟨start, startRx⟩ := libfabric_rxLoop cfg providers rank
  refine (forLoop_invariant (fun k (s : Setup (Libfabric.backend providers)) =>
    s.created = 2 * cfg.rxThreadNum + 2 * k ∧ LibfabricTx cfg k s) ⟨start, startRx, ?_, ?_⟩ ?_).2
  · intro j below
    omega
  · intro j below
    omega
  · rintro k s below ⟨created, tx⟩
    refine ⟨?_, ⟨tx.rx.rxCqs, tx.rx.rxCtxs⟩, fun j jBelow => ?_, fun j jBelow => ?_⟩
    · simp [txBody, Libfabric.backend, Libfabric.initCtx, created]
      omega
    all_goals rcases Nat.lt_succ_iff_lt_or_eq.mp jBelow with earlier | rfl
    · simp only [txBody, Function.update_of_ne earlier.ne]
      exact tx.txCqs j earlier
    · simp [txBody, Libfabric.backend, created]
    · simp only [txBody, Function.update_of_ne earlier.ne]
      exact tx.txCtxs j earlier
    · simp [txBody, Libfabric.backend, Libfabric.initCtx, ctxTx, created]

end Libfabric

end FabricBench.PingpongPrg
