import FabricBench.Lib.Stride
import FabricBench.PingpongPrgUcx.Setup
import Mathlib.Data.List.Nodup
import Mathlib.Data.List.ProdSigma

/-!
The wiring of `pingpong_prg_ucx`: worker `i` with endpoint `i / rx_thread_num` of the
partner's progress context `i % rx_thread_num`, and back.

Owns: the calls that connect the endpoints, one for each of them (`connectCalls_eq`), and
when they have the addresses of the right endpoints (`endpoints_wired_pairwise`): where
`put_ctx_addr` prints all of an address, and UCT takes the handlers.
-/

namespace FabricBench.PingpongPrgUcx

open FabricBench.Lib
open FabricBench.Lib.Memory (Mem)
open FabricBench.PingpongPrg (Config Rank Worker partner route one_serves_two)
open FabricBench.Pmi
open FabricBench.Ucx

variable {cfg : Config} {ifaces : Interfaces}

/-! ## Indices -/

theorem works_mul (cfg : Config) : worksPerProgressThread cfg * cfg.rxThreadNum = cfg.txThreadNum :=
  Nat.div_mul_cancel cfg.dvd

theorem works_le (cfg : Config) : worksPerProgressThread cfg ≤ cfg.txThreadNum :=
  Nat.div_le_self _ _

theorem quotient_lt {i : Nat} (below : i < cfg.txThreadNum) :
    i / cfg.rxThreadNum < worksPerProgressThread cfg := by
  rw [Nat.div_lt_iff_lt_mul cfg.rx_pos, works_mul]
  exact below

/-- Worker `c + k * rx_thread_num` is the one with residue `c` and quotient `k`. -/
theorem worker_lt {c k : Nat} (cBelow : c < cfg.rxThreadNum)
    (kBelow : k < worksPerProgressThread cfg) :
    c + k * cfg.rxThreadNum < cfg.txThreadNum :=
  (Stride.index_lt_iff cfg.dvd cBelow k).mpr kBelow

/-- The progress endpoint of a worker. -/
def progressEp (i : Worker cfg) : Fin cfg.rxThreadNum × Fin (worksPerProgressThread cfg) :=
  (route i, ⟨i / cfg.rxThreadNum, quotient_lt i.isLt⟩)

theorem progressEp_bijective (cfg : Config) :
    Function.Bijective (progressEp : Worker cfg → _) := by
  constructor
  · intro i i' same
    obtain ⟨residues, quotients⟩ := Prod.mk.inj same
    have residue : i % cfg.rxThreadNum = i' % cfg.rxThreadNum := Fin.val_eq_of_eq residues
    have quotient := Fin.val_eq_of_eq quotients
    simp only at residue quotient
    apply Fin.ext
    rw [← Nat.mod_add_div' i.val cfg.rxThreadNum, ← Nat.mod_add_div' i'.val cfg.rxThreadNum,
      residue, quotient]
  · rintro ⟨c, k⟩
    refine ⟨⟨c + k * cfg.rxThreadNum, worker_lt c.isLt k.isLt⟩, ?_⟩
    exact Prod.ext (Fin.ext (Stride.index_mod c.isLt k)) (Fin.ext (Stride.index_div c.isLt k))

/-- The inner loop of progress thread `c` goes through its workers. -/
theorem strideLoop_eq {c : Nat} (cBelow : c < cfg.rxThreadNum) :
    strideLoop cfg.txThreadNum cfg.rxThreadNum cfg.txThreadNum c =
      (List.range (worksPerProgressThread cfg)).map fun k => c + k * cfg.rxThreadNum := by
  have general : ∀ fuel m, worksPerProgressThread cfg ≤ m + fuel →
      strideLoop cfg.txThreadNum cfg.rxThreadNum fuel (c + m * cfg.rxThreadNum) =
        (List.range' m (worksPerProgressThread cfg - m)).map fun k => c + k * cfg.rxThreadNum := by
    intro fuel
    induction fuel with
    | zero =>
        intro m enough
        rw [show worksPerProgressThread cfg - m = 0 by omega]
        rfl
    | succ fuel inductionHypothesis =>
        intro m enough
        by_cases more : m < worksPerProgressThread cfg
        · rw [strideLoop, if_pos (worker_lt cBelow more), Nat.add_assoc, ← Nat.succ_mul,
            inductionHypothesis (m + 1) (by omega),
            show worksPerProgressThread cfg - m = worksPerProgressThread cfg - (m + 1) + 1 by omega,
            List.range'_succ, List.map_cons]
        · have past : ¬ c + m * cfg.rxThreadNum < cfg.txThreadNum := by
            rw [Stride.index_lt_iff cfg.dvd cBelow]
            exact more
          rw [strideLoop, if_neg past, show worksPerProgressThread cfg - m = 0 by omega]
          rfl
  have start := general cfg.txThreadNum 0 (by have := works_le cfg; omega)
  rw [Nat.zero_mul, Nat.add_zero, Nat.sub_zero, ← List.range_eq_range'] at start
  exact start

/-! ## Contexts -/

theorem ownEpAddrs_eq (numEP rank : Nat) (addrType : AddrType) (id : Nat) :
    (initCtx ifaces numEP rank addrType id).ownEpAddrs =
      (List.range numEP).map (ifaces.epAddr rank addrType id) := by
  refine forLoop_invariant (fun k (addrs : List Mem) =>
    addrs = (List.range k).map (ifaces.epAddr rank addrType id)) rfl ?_
  rintro k addrs - rfl
  rw [List.range_succ, List.map_append]
  rfl

/-- `eps.size()` of a context. -/
theorem length_ownEpAddrs (numEP rank : Nat) (addrType : AddrType) (id : Nat) :
    (initCtx ifaces numEP rank addrType id).ownEpAddrs.length = numEP := by
  rw [ownEpAddrs_eq, List.length_map, List.length_range]

/-- All contexts of the job. -/
def table (cfg : Config) (fits : FitsInt cfg) (ifaces : Interfaces) : CtxTable where
  ctx rank addrType id :=
    match addrType with
    | .p => progressCtx cfg ifaces rank id
    | .w => workerCtx ifaces rank id
  numEp_le rank addrType id := by
    cases addrType with
    | p =>
        rw [progressCtx, length_ownEpAddrs]
        exact (works_le cfg).trans fits.tx_le
    | w =>
        rw [workerCtx, length_ownEpAddrs]
        decide

def contexts (cfg : Config) : List (AddrType × Nat) :=
  (List.range cfg.rxThreadNum).map (Prod.mk .p) ++ (List.range cfg.txThreadNum).map (Prod.mk .w)

theorem puts_eq (fits : FitsInt cfg) (rank : Nat) :
    puts cfg ifaces rank = (contexts cfg).flatMap fun context =>
      putCtxAddr ((table cfg fits ifaces).ctx rank context.1 context.2) rank context.2
        context.1 := by
  simp [puts, contexts, List.flatMap_append, List.flatMap_map, table]

theorem progress_mem_contexts {i : Nat} (below : i < cfg.rxThreadNum) :
    (AddrType.p, i) ∈ contexts cfg := by
  simp [contexts, below]

theorem worker_mem_contexts {i : Nat} (below : i < cfg.txThreadNum) :
    (AddrType.w, i) ∈ contexts cfg := by
  simp [contexts, below]

/-- After the barrier every rank sees what all ranks put, in whatever order. -/
theorem visible_of_interleaving {order : List (Nat × (Key × Value))} (fits : FitsInt cfg)
    (interleaving : Kvs.Interleaving cfg.size (puts cfg ifaces) order) (start : Space)
    {rank : Nat} (rankBelow : rank < cfg.size) {addrType : AddrType} {id : Nat}
    (present : (addrType, id) ∈ contexts cfg) :
    Visible (Kvs.putAll start (order.map Prod.snd)) ((table cfg fits ifaces).ctx rank addrType id)
      rank id addrType := by
  have idsFit : ∀ context ∈ contexts cfg, context.2 < 2 ^ 31 := by
    have rxLe := cfg.rxThreadNum_le
    have txLe := fits.tx_le
    simp only [contexts, List.mem_append, List.mem_map, List.mem_range]
    rintro context (⟨i, below, rfl⟩ | ⟨i, below, rfl⟩) <;> simp only <;> omega
  rw [show puts cfg ifaces = _ from funext (puts_eq fits)] at interleaving
  exact (table cfg fits ifaces).visible fits.size_le idsFit interleaving start rankBelow present

/-! ## Calls -/

/-- What a partner gets as the device address of a context. -/
def devImage (ifaces : Interfaces) (heap : Mem) (rank : Nat) (addrType : AddrType) (id : Nat) :
    Mem :=
  getDev ifaces.devAddrLen heap (devValue (ifaces.devAddr rank addrType id))

/-- What a partner gets as the address of an endpoint. -/
def epImage (ifaces : Interfaces) (heap : Mem) (rank : Nat) (addrType : AddrType) (id k : Nat) :
    Mem :=
  getEp ifaces.epAddrLen heap (epValue (ifaces.epAddr rank addrType id k))

section Calls

variable {order : List (Nat × (Key × Value))} {start : Space} {heap : Mem}

theorem remoteRecv_eq (fits : FitsInt cfg)
    (interleaving : Kvs.Interleaving cfg.size (puts cfg ifaces) order)
    (r : Rank cfg) {i : Nat} (below : i < cfg.rxThreadNum) :
    remoteRecvEpAddrs cfg ifaces heap (Kvs.putAll start (order.map Prod.snd)) r i =
      some ⟨devImage ifaces heap (partner r) .p i,
        (List.range (worksPerProgressThread cfg)).map (epImage ifaces heap (partner r) .p i)⟩ := by
  have visible : Visible _ (progressCtx cfg ifaces (partner r) i) (partner r) i .p :=
    visible_of_interleaving fits interleaving start (partner r).isLt (progress_mem_contexts below)
  have got := visible.getCtxAddr ifaces.devAddrLen ifaces.epAddrLen heap
  unfold remoteRecvEpAddrs
  rw [progressCtx, length_ownEpAddrs] at got ⊢
  rw [ownEpAddrs_eq, List.map_map] at got
  exact got

theorem remoteSend_eq (fits : FitsInt cfg)
    (interleaving : Kvs.Interleaving cfg.size (puts cfg ifaces) order)
    (r : Rank cfg) {i : Nat} (below : i < cfg.txThreadNum) :
    remoteSendEpAddrs cfg ifaces heap (Kvs.putAll start (order.map Prod.snd)) r i =
      some ⟨devImage ifaces heap (partner r) .w i, [epImage ifaces heap (partner r) .w i 0]⟩ := by
  have visible : Visible _ (workerCtx ifaces (partner r) i) (partner r) i .w :=
    visible_of_interleaving fits interleaving start (partner r).isLt (worker_mem_contexts below)
  have got := visible.getCtxAddr ifaces.devAddrLen ifaces.epAddrLen heap
  unfold remoteSendEpAddrs
  rw [workerCtx, length_ownEpAddrs] at got ⊢
  rw [ownEpAddrs_eq, List.map_map] at got
  exact got

/-- The call for the endpoint of worker `i`. -/
def workerCall (cfg : Config) (ifaces : Interfaces) (heap : Mem) (target i : Nat) : Call :=
  ⟨⟨.w, i, 0⟩, devImage ifaces heap target .p (i % cfg.rxThreadNum),
    epImage ifaces heap target .p (i % cfg.rxThreadNum) (i / cfg.rxThreadNum)⟩

/-- The call for endpoint `k` of progress context `c`. -/
def progressCall (cfg : Config) (ifaces : Interfaces) (heap : Mem) (target c k : Nat) : Call :=
  ⟨⟨.p, c, k⟩, devImage ifaces heap target .w (c + k * cfg.rxThreadNum),
    epImage ifaces heap target .w (c + k * cfg.rxThreadNum) 0⟩

/-- All calls: one for every worker and one for every progress endpoint. -/
def expectedCalls (cfg : Config) (ifaces : Interfaces) (heap : Mem) (target : Nat) : List Call :=
  (List.range cfg.txThreadNum).map (workerCall cfg ifaces heap target) ++
    (List.range cfg.rxThreadNum ×ˢ List.range (worksPerProgressThread cfg)).map fun pair =>
      progressCall cfg ifaces heap target pair.1 pair.2

theorem connectCalls_eq (fits : FitsInt cfg)
    (interleaving : Kvs.Interleaving cfg.size (puts cfg ifaces) order)
    (r : Rank cfg) :
    connectCalls cfg ifaces heap (Kvs.putAll start (order.map Prod.snd)) r =
      (expectedCalls cfg ifaces heap (partner r)).map some := by
  have workers : workerCalls cfg ifaces heap (Kvs.putAll start (order.map Prod.snd)) r =
      ((List.range cfg.txThreadNum).map (workerCall cfg ifaces heap (partner r))).map some := by
    rw [List.map_map]
    refine List.map_congr_left fun i member => ?_
    have below := quotient_lt (List.mem_range.mp member)
    simp [remoteRecv_eq fits interleaving r (cfg.residue_lt i), below, workerCall]
  have progress : progressCalls cfg ifaces heap (Kvs.putAll start (order.map Prod.snd)) r =
      ((List.range cfg.rxThreadNum ×ˢ List.range (worksPerProgressThread cfg)).map fun pair =>
        progressCall cfg ifaces heap (partner r) pair.1 pair.2).map some := by
    simp only [progressCalls, SProd.sprod, List.product, List.map_flatMap, List.map_map]
    refine List.flatMap_congr fun c member => ?_
    have cBelow := List.mem_range.mp member
    rw [strideLoop_eq cBelow, List.map_map]
    refine List.map_congr_left fun k kMember => ?_
    have below := worker_lt cBelow (List.mem_range.mp kMember)
    simp [remoteSend_eq fits interleaving r below, Stride.index_div cBelow, progressCall]
  rw [connectCalls, workers, progress, expectedCalls, List.map_append]

end Calls

/-! ## Exactly one call for every endpoint -/

/-- In a list with distinct keys the members with the key of one of them are just this
one. -/
theorem filter_key_eq_singleton {α β : Type} [DecidableEq β] {key : α → β} {l : List α}
    (distinct : (l.map key).Nodup) {a : α} (member : a ∈ l) :
    (l.filter fun x => key x = key a) = [a] := by
  induction l with
  | nil => exact absurd member List.not_mem_nil
  | cons head rest inductionHypothesis =>
      rw [List.map_cons, List.nodup_cons] at distinct
      obtain ⟨fresh, restDistinct⟩ := distinct
      rcases List.mem_cons.mp member with rfl | later
      · have none : (rest.filter fun x => key x = key a) = [] := by
          refine List.filter_eq_nil_iff.mpr fun x xMember => ?_
          have different : key x ≠ key a := fun same =>
            fresh (same ▸ List.mem_map_of_mem xMember)
          simpa using different
        rw [List.filter_cons_of_pos (by simp), none]
      · have different : key head ≠ key a := fun same =>
          fresh (same ▸ List.mem_map_of_mem later)
        rw [List.filter_cons_of_neg (by simpa using different)]
        exact inductionHypothesis restDistinct later

theorem expectedCalls_distinct (heap : Mem) (target : Nat) :
    ((expectedCalls cfg ifaces heap target).map Call.local_).Nodup := by
  unfold expectedCalls
  rw [List.map_append, List.map_map, List.map_map, List.nodup_append]
  refine ⟨?_, ?_, ?_⟩
  · exact List.nodup_range.map fun i i' same => congrArg EpId.ctx same
  · refine (List.nodup_range.product List.nodup_range).map fun pair pair' same => ?_
    exact Prod.ext (congrArg EpId.ctx same) (congrArg EpId.ep same)
  · rintro worker workerMember progress progressMember rfl
    obtain ⟨i, -, rfl⟩ := List.mem_map.mp workerMember
    obtain ⟨pair, -, same⟩ := List.mem_map.mp progressMember
    exact absurd (congrArg EpId.addrType same) (by simp [workerCall, progressCall])

/-- The call is for the given endpoint. -/
def isFor (ep : EpId) (call : Option Call) : Bool := decide (call.map Call.local_ = some ep)

/-- The calls of a rank for the endpoint of an expected call are just this one. -/
theorem filter_expectedCalls (heap : Mem) (target : Nat) {call : Call}
    (member : call ∈ expectedCalls cfg ifaces heap target) :
    ((expectedCalls cfg ifaces heap target).map some).filter (isFor call.local_) = [some call] := by
  have single := filter_key_eq_singleton (expectedCalls_distinct heap target) member
  rw [List.filter_map, show isFor call.local_ ∘ some =
    fun x => decide (x.local_ = call.local_) from funext fun x => by simp [isFor], single]
  rfl

theorem workerCall_mem (heap : Mem) (target : Nat) (i : Worker cfg) :
    workerCall cfg ifaces heap target i ∈ expectedCalls cfg ifaces heap target :=
  List.mem_append_left _ (List.mem_map.mpr ⟨i, List.mem_range.mpr i.isLt, rfl⟩)

theorem progressCall_mem (heap : Mem) (target : Nat) (i : Worker cfg) :
    progressCall cfg ifaces heap target (i % cfg.rxThreadNum) (i / cfg.rxThreadNum) ∈
      expectedCalls cfg ifaces heap target := by
  refine List.mem_append_right _ (List.mem_map.mpr ⟨(_, _), ?_, rfl⟩)
  exact List.mem_product.mpr
    ⟨List.mem_range.mpr (cfg.residue_lt i), List.mem_range.mpr (quotient_lt i.isLt)⟩

/-- Seen from worker `i` the progress call is back to this worker. -/
theorem progressCall_eq (heap : Mem) (target i : Nat) :
    progressCall cfg ifaces heap target (i % cfg.rxThreadNum) (i / cfg.rxThreadNum) =
      ⟨⟨.p, i % cfg.rxThreadNum, i / cfg.rxThreadNum⟩, devImage ifaces heap target .w i,
        epImage ifaces heap target .w i 0⟩ := by
  have back : i % cfg.rxThreadNum + i / cfg.rxThreadNum * cfg.rxThreadNum = i :=
    Nat.mod_add_div' i cfg.rxThreadNum
  rw [progressCall, back]

/-! ## Active messages -/

theorem amHandlers_eq {i : Nat} (below : i < cfg.rxThreadNum) (accepts : Nat → Bool) (id : Nat) :
    amHandlers cfg accepts i id = if accepts i = true ∧ id = i then some i else none := by
  have written := forLoop_update cfg.rxThreadNum
    (fun i (handler : Nat → Option Nat) =>
      if accepts i then Function.update handler i (some i) else handler) (fun _ _ => none) i
  unfold amHandlers
  rw [written, if_pos below]
  by_cases taken : accepts i = true
  · rw [if_pos taken, Function.update_apply]
    simp [taken]
  · simp [taken]

/-- The message of a worker is handled where it arrives, exactly if the handler was
taken. -/
theorem amHandlers_destMessageId (accepts : Nat → Bool) (i : Worker cfg) :
    amHandlers cfg accepts (i % cfg.rxThreadNum) (destMessageId cfg i) =
      some (i % cfg.rxThreadNum) ↔ accepts (i % cfg.rxThreadNum) = true := by
  rw [amHandlers_eq (cfg.residue_lt i)]
  simp [destMessageId]

/-! ## The wiring -/

/-- An endpoint whose addresses arrive as they are: they are zero behind the bytes that
`put_ctx_addr` prints, and long enough for the stores of `get_ctx_addr`. -/
structure Interfaces.Printed (ifaces : Interfaces) (rank : Nat) (addrType : AddrType) (id k : Nat) :
    Prop where
  dev_zero : ∀ a, 3 ≤ a → a < ifaces.devAddrLen → ifaces.devAddr rank addrType id a = 0
  dev_room : 6 ≤ ifaces.devAddrLen
  ep_zero : ∀ a, 5 ≤ a → a < ifaces.epAddrLen → ifaces.epAddr rank addrType id k a = 0
  ep_room : 8 ≤ ifaces.epAddrLen

/-- A call connects its endpoint to endpoint `k` of a context of another rank: it has the
addresses that the owner has, and no store of the scans left their buffers. -/
structure ConnectsTo (ifaces : Interfaces) (call : Call) (rank : Nat) (addrType : AddrType)
    (id k : Nat) : Prop where
  dev : ∀ a, a < ifaces.devAddrLen → call.dev a = ifaces.devAddr rank addrType id a
  dev_inBounds : Memory.InBounds ifaces.devAddrLen [0, 1, 2]
    (devScan (devValue (ifaces.devAddr rank addrType id)))
  ep : ∀ a, a < ifaces.epAddrLen → call.ep a = ifaces.epAddr rank addrType id k a
  ep_inBounds : Memory.InBounds ifaces.epAddrLen [0, 1, 2, 3, 4]
    (epScan (epValue (ifaces.epAddr rank addrType id k)))

theorem connectsTo_iff (heap : Mem) (local_ : EpId) (rank : Nat) (addrType : AddrType)
    (id k : Nat) :
    ConnectsTo ifaces ⟨local_, devImage ifaces heap rank addrType id,
        epImage ifaces heap rank addrType id k⟩ rank addrType id k ↔
      ifaces.Printed rank addrType id k := by
  constructor
  · rintro ⟨dev, devBounds, ep, epBounds⟩
    exact ⟨(getDev_exact_iff _ heap _).mp dev, (dev_inBounds_iff _ _).mp devBounds,
      (getEp_exact_iff _ heap _).mp ep, (ep_inBounds_iff _ _).mp epBounds⟩
  · rintro ⟨devZero, devRoom, epZero, epRoom⟩
    exact ⟨(getDev_exact_iff _ heap _).mpr devZero, (dev_inBounds_iff _ _).mpr devRoom,
      (getEp_exact_iff _ heap _).mpr epZero, (ep_inBounds_iff _ _).mpr epRoom⟩

/-- Worker `i` and endpoint `(i % R, i / R)` of the partner's progress contexts are
connected to each other by one call each, and messages of the worker are handled there. -/
structure Wired (cfg : Config) (ifaces : Interfaces) (accepts : Nat → Nat → Bool)
    (calls : Nat → List (Option Call)) (r : Rank cfg) (i : Worker cfg) : Prop where
  worker : ∃ call, (calls r).filter (isFor ⟨.w, i, 0⟩) = [some call] ∧
    ConnectsTo ifaces call (partner r) .p (i % cfg.rxThreadNum) (i / cfg.rxThreadNum)
  progress : ∃ call,
    (calls (partner r)).filter (isFor ⟨.p, i % cfg.rxThreadNum, i / cfg.rxThreadNum⟩) =
      [some call] ∧
      ConnectsTo ifaces call r .w i 0
  handled : amHandlers cfg (accepts (partner r)) (i % cfg.rxThreadNum) (destMessageId cfg i) =
    some (i % cfg.rxThreadNum)

section Wiring

variable {order : List (Nat × (Key × Value))}

/-- The only call for the endpoint of a worker. -/
theorem filter_workerCall (fits : FitsInt cfg)
    (interleaving : Kvs.Interleaving cfg.size (puts cfg ifaces) order) (heap : Mem) (start : Space)
    (r : Rank cfg) (i : Worker cfg) :
    (connectCalls cfg ifaces heap (Kvs.putAll start (order.map Prod.snd)) r).filter
        (isFor ⟨.w, i, 0⟩) = [some (workerCall cfg ifaces heap (partner r) i)] := by
  rw [connectCalls_eq fits interleaving]
  exact filter_expectedCalls heap _ (workerCall_mem heap (partner r) i)

/-- The only call for the progress endpoint of a worker of the partner. -/
theorem filter_progressCall (fits : FitsInt cfg)
    (interleaving : Kvs.Interleaving cfg.size (puts cfg ifaces) order) (heap : Mem) (start : Space)
    (r : Rank cfg) (i : Worker cfg) :
    (connectCalls cfg ifaces heap (Kvs.putAll start (order.map Prod.snd)) (partner r)).filter
        (isFor ⟨.p, i % cfg.rxThreadNum, i / cfg.rxThreadNum⟩) =
      [some ⟨⟨.p, i % cfg.rxThreadNum, i / cfg.rxThreadNum⟩, devImage ifaces heap r .w i,
        epImage ifaces heap r .w i 0⟩] := by
  have mutual_ : partner (partner r) = r := partnerRank_partnerRank r
  have member : _ ∈ expectedCalls cfg ifaces heap r := progressCall_mem heap r i
  have back := filter_expectedCalls heap r member
  rw [progressCall_eq] at back
  rw [connectCalls_eq fits interleaving, mutual_]
  exact back

theorem wired_iff (fits : FitsInt cfg)
    (interleaving : Kvs.Interleaving cfg.size (puts cfg ifaces) order) (accepts : Nat → Nat → Bool)
    (heap : Mem) (start : Space) (r : Rank cfg) (i : Worker cfg) :
    Wired cfg ifaces accepts (connectCalls cfg ifaces heap (Kvs.putAll start (order.map Prod.snd)))
        r i ↔
      ifaces.Printed (partner r) .p (i % cfg.rxThreadNum) (i / cfg.rxThreadNum) ∧
        ifaces.Printed r .w i 0 ∧ accepts (partner r) (i % cfg.rxThreadNum) = true := by
  have worker := filter_workerCall fits interleaving heap start r i
  have progress := filter_progressCall fits interleaving heap start r i
  constructor
  · rintro ⟨⟨call, only, toProgress⟩, ⟨call', only', toWorker⟩, handled⟩
    obtain rfl : workerCall cfg ifaces heap (partner r) i = call := by
      simpa using worker.symm.trans only
    obtain rfl := Option.some.inj (List.singleton_inj.mp (progress.symm.trans only'))
    exact ⟨(connectsTo_iff heap _ _ _ _ _).mp toProgress,
      (connectsTo_iff heap _ _ _ _ _).mp toWorker, (amHandlers_destMessageId _ i).mp handled⟩
  · rintro ⟨printedProgress, printedWorker, taken⟩
    exact ⟨⟨_, worker, (connectsTo_iff heap _ _ _ _ _).mpr printedProgress⟩,
      ⟨_, progress, (connectsTo_iff heap _ _ _ _ _).mpr printedWorker⟩,
      (amHandlers_destMessageId _ i).mpr taken⟩

end Wiring

/-- The map from workers to progress endpoints is a bijection, every endpoint of a rank is
connected by exactly one call, and no index leaves its vector. All workers and progress
endpoints are wired to each other exactly if their addresses are such that they arrive as
they are, and every rank's interfaces take the handlers of the ids up to the number of
progress threads. -/
theorem endpoints_wired_pairwise (cfg : Config) (fits : FitsInt cfg) (ifaces : Interfaces)
    (accepts : Nat → Nat → Bool) (heap : Mem) (start : Space) (order : List (Nat × (Key × Value)))
    (interleaving : Kvs.Interleaving cfg.size (puts cfg ifaces) order)
    (calls : Nat → List (Option Call))
    (made : calls = connectCalls cfg ifaces heap (Kvs.putAll start (order.map Prod.snd))) :
    Function.Bijective (progressEp : Worker cfg → _) ∧
    (∀ (r : Rank cfg) (i : Worker cfg),
      (∃ call, (calls r).filter (isFor ⟨.w, i, 0⟩) = [some call]) ∧
      (∃ call, (calls (partner r)).filter
        (isFor ⟨.p, i % cfg.rxThreadNum, i / cfg.rxThreadNum⟩) = [some call]) ∧
      none ∉ calls r ∧
      i / cfg.rxThreadNum < worksPerProgressThread cfg ∧
      (∃ remote, remoteRecvEpAddrs cfg ifaces heap (Kvs.putAll start (order.map Prod.snd)) r
          (i % cfg.rxThreadNum) = some remote ∧
        remote.peerEpAddrs.length = worksPerProgressThread cfg) ∧
      (∃ remote, remoteSendEpAddrs cfg ifaces heap (Kvs.putAll start (order.map Prod.snd)) r i =
          some remote ∧ remote.peerEpAddrs.length = 1) ∧
      (progressCtx cfg ifaces r (i % cfg.rxThreadNum)).ownEpAddrs.length =
        worksPerProgressThread cfg ∧
      (workerCtx ifaces r i).ownEpAddrs.length = 1) ∧
    ((∀ r i, Wired cfg ifaces accepts calls r i) ↔
      (∀ (r : Rank cfg) (i : Worker cfg), ifaces.Printed r .w i 0 ∧
        ifaces.Printed r .p (i % cfg.rxThreadNum) (i / cfg.rxThreadNum)) ∧
      ∀ (r : Rank cfg) (c : Nat), c < cfg.rxThreadNum → accepts r c = true) := by
  subst made
  refine ⟨progressEp_bijective cfg, fun r i => ?_, ?_, ?_⟩
  · refine ⟨⟨_, filter_workerCall fits interleaving heap start r i⟩,
      ⟨_, filter_progressCall fits interleaving heap start r i⟩, ?_, quotient_lt i.isLt,
      ⟨_, remoteRecv_eq fits interleaving r (cfg.residue_lt i), by simp⟩,
      ⟨_, remoteSend_eq fits interleaving r i.isLt, rfl⟩, length_ownEpAddrs _ _ _ _,
        length_ownEpAddrs _ _ _ _⟩
    rw [connectCalls_eq fits interleaving]
    simp
  · intro wired
    have conditions := fun r i => (wired_iff fits interleaving accepts heap start r i).mp
        (wired r i)
    have mutual_ : ∀ r : Rank cfg, partner (partner r) = r := partnerRank_partnerRank
    refine ⟨fun r i => ⟨(conditions r i).2.1, ?_⟩, fun r c below => ?_⟩
    · have printed := (conditions (partner r) i).1
      rwa [mutual_] at printed
    · have taken := (conditions (partner r) ⟨c, below.trans_le cfg.rxThreadNum_le⟩).2.2
      rwa [mutual_, Nat.mod_eq_of_lt below] at taken
  · rintro ⟨printed, taken⟩ r i
    exact (wired_iff fits interleaving accepts heap start r i).mpr
      ⟨(printed (partner r) i).2, (printed r i).1,
      taken (partner r) _ (cfg.residue_lt i)⟩

/-- Addresses of 8 bytes, of which the first ones tell the ranks and endpoints apart. -/
def tidyIfaces : Interfaces where
  devAddrLen := 8
  epAddrLen := 8
  devAddr rank _ _ a := if a = 1 then BitVec.ofNat 8 rank else 0
  epAddr _ _ id k a := if a = 0 then BitVec.ofNat 8 (8 * id + k) else 0

theorem tidyIfaces_printed (rank : Nat) (addrType : AddrType) (id k : Nat) :
    tidyIfaces.Printed rank addrType id k where
  dev_zero _ low _ := if_neg (by omega)
  dev_room := by decide
  ep_zero _ low _ := if_neg (by omega)
  ep_room := by decide

/-- The small job is wired as it should be on such interfaces, if they take handlers for
two ids. -/
theorem endpoints_wired_pairwise_smallJob :
    FitsInt PingpongPrg.smallJob ∧
      ∀ r i, Wired PingpongPrg.smallJob tidyIfaces (fun _ id => decide (id < 2))
        (connectCalls PingpongPrg.smallJob tidyIfaces (fun _ => 0) (Kvs.putAll (fun _ => none)
          ((Kvs.sequential 2 (puts PingpongPrg.smallJob tidyIfaces)).map Prod.snd))) r i := by
  have fits : FitsInt PingpongPrg.smallJob := ⟨by decide, by decide⟩
  obtain ⟨-, -, wired⟩ := endpoints_wired_pairwise PingpongPrg.smallJob fits tidyIfaces
    (fun _ id => decide (id < 2)) (fun _ => 0) (fun _ => none) _
    (Kvs.interleaving_sequential 2 (puts PingpongPrg.smallJob tidyIfaces)) _ rfl
  refine ⟨fits, wired.mpr ⟨fun _ _ => ?_, fun _ _ below => decide_eq_true below⟩⟩
  exact ⟨tidyIfaces_printed _ _ _ _, tidyIfaces_printed _ _ _ _⟩

/-- Two ranks with two workers and one progress thread each. -/
def twoWorkers : Config where
  half := 1
  txThreadNum := 2
  rxThreadNum := 1
  maxSize := 8
  params := ⟨1, skip, total, [8]⟩
  tx_pos := Nat.two_pos
  rx_pos := Nat.one_pos
  dvd := one_serves_two

/-- Endpoint addresses of 8 bytes that differ in the sixth. -/
def clippedIfaces : Interfaces where
  devAddrLen := 8
  epAddrLen := 8
  devAddr _ _ _ _ := 0
  epAddr _ _ _ k a := if a = 5 then BitVec.ofNat 8 (k + 1) else 0

/-- Both workers of rank 0 are connected to one address, which is that of neither of the
two endpoints of the partner's progress context. -/
theorem endpoints_connected_to_one_address :
    let calls := connectCalls twoWorkers clippedIfaces (fun _ => 0) (Kvs.putAll (fun _ => none)
      ((Kvs.sequential 2 (puts twoWorkers clippedIfaces)).map Prod.snd))
    (∃ dev ep, (calls 0).filter (isFor ⟨.w, 0, 0⟩) = [some ⟨⟨.w, 0, 0⟩, dev, ep⟩] ∧
      (calls 0).filter (isFor ⟨.w, 1, 0⟩) = [some ⟨⟨.w, 1, 0⟩, dev, ep⟩] ∧
      ep 5 ≠ clippedIfaces.epAddr 1 .p 0 0 5 ∧ ep 5 ≠ clippedIfaces.epAddr 1 .p 0 1 5) ∧
      ∀ accepts r i, ¬ Wired twoWorkers clippedIfaces accepts calls r i := by
  intro calls
  have fits : FitsInt twoWorkers := ⟨by decide, by decide⟩
  have interleaving := Kvs.interleaving_sequential 2 (puts twoWorkers clippedIfaces)
  have worker := filter_workerCall fits interleaving (fun _ => 0) (fun _ => none) ⟨0, by decide⟩
  have clipped : epImage clippedIfaces (fun _ => 0) 1 .p 0 0 5 = 0 := by decide
  refine ⟨⟨devImage clippedIfaces (fun _ => 0) 1 .p 0, epImage clippedIfaces (fun _ => 0) 1 .p 0 0,
    worker ⟨0, by decide⟩, worker ⟨1, by decide⟩, ?_, ?_⟩, fun accepts r i wired => ?_⟩
  · rw [clipped]
    decide
  · rw [clipped]
    decide
  · obtain ⟨-, printed, -⟩ := (wired_iff fits interleaving accepts _ _ r i).mp wired
    have nonzero : clippedIfaces.epAddr r .w i 0 5 = 1 := rfl
    have zero := printed.ep_zero 5 (by decide) (by decide)
    rw [nonzero] at zero
    exact absurd zero (by decide)

end FabricBench.PingpongPrgUcx
