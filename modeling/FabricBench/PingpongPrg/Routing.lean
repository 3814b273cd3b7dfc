import FabricBench.PingpongPrg.Invariant
import FabricBench.PingpongPrg.Setup

/-!
Where the messages of a worker go on the two backends, once `main` has set up all
ranks: to the progress thread of the partner with the worker's residue, and to no
other thread.
-/

namespace FabricBench.PingpongPrg

open FabricBench.Lib
open FabricBench.Lib.Memory (Mem)
open FabricBench.Pmi

/-! ## Definitions -/

section Definitions

variable {b : Backend} (cfg : Config) (procs : Nat → Process b)

/-- The message that worker `i` of rank `r` sends with its context and the address
`addrs[i % rx_thread_num]` arrives at a context of rank `r'`. -/
structure Lands (r i r' : Nat) (ctx : b.Ctx) : Prop where
  rank : r' < cfg.size
  present : (∃ j, j < cfg.txThreadNum ∧ ctx = (procs r').txCtxs j) ∨
    ∃ j, j < cfg.rxThreadNum ∧ ctx = (procs r').rxCtxs j
  addressed : ∃ address, b.sendTarget ((procs r).txCtxs i)
    ((procs r).addrs (i % cfg.rxThreadNum)) = some address ∧ b.Receives r' ctx address

/-- Every message of the worker arrives, only at the partner. It is reported in the
queue polled by the progress thread with the worker's residue and in none polled by
another thread, and that progress thread posts to the queue the message took its
buffer from. -/
structure Routed (r : Rank cfg) (i : Worker cfg) : Prop where
  lands : ∃ ctx, Lands cfg procs r i (partner r) ctx
  only : ∀ r' ctx, Lands cfg procs r i r' ctx → r' = partner r
  reported : ∀ r' ctx, Lands cfg procs r i r' ctx → ∀ p, p < cfg.rxThreadNum →
    ((procs r').rxCqs p = b.recvCq ctx ↔ p = i % cfg.rxThreadNum)
  not_worker : ∀ r' ctx, Lands cfg procs r i r' ctx → ∀ j, j < cfg.txThreadNum →
    (procs r').txCqs j ≠ b.recvCq ctx
  refilled : ∀ r' ctx, Lands cfg procs r i r' ctx →
    b.postQueue ((procs r').rxCtxs (i % cfg.rxThreadNum)) = b.recvQueue ctx

/-- The objects that `main` creates on a rank. -/
def objects : Nat := 2 * cfg.rxThreadNum + 2 * cfg.txThreadNum

end Definitions

variable {cfg : Config}

/-! ## Verbs -/

section Verbs

variable {devices : Verbs.Devices}

/-- The number and lid of the queue pair of worker `i` on a rank. -/
def connInfo (cfg : Config) (devices : Verbs.Devices) (rank i : Nat) : Verbs.ConnInfo :=
  ⟨devices.qpNum rank (2 * cfg.rxThreadNum + 2 * i + 1), devices.lid rank⟩

/-- A rank when its threads start: what was created, and the queue pair of every worker
`j` is connected to that of the target's worker `j`. -/
structure VerbsReady (cfg : Config) (devices : Verbs.Devices) (rank target : Nat)
    (proc : Process (Verbs.backend devices)) : Prop where
  rx : VerbsRx cfg.rxThreadNum proc.toSetup
  txCqs : ∀ j, j < cfg.txThreadNum → proc.txCqs j = some (2 * cfg.rxThreadNum + 2 * j)
  txCtxs : ∀ j, j < cfg.txThreadNum → proc.txCtxs j =
    ⟨some ⟨2 * cfg.rxThreadNum + 2 * j + 1, some (2 * cfg.rxThreadNum + 2 * j),
        some (2 * (j % cfg.rxThreadNum) + 1), some (2 * (j % cfg.rxThreadNum)),
        some (connInfo cfg devices target j)⟩,
      connInfo cfg devices rank j, none⟩

theorem verbs_ready (ranksFit : cfg.size ≤ 2 ^ 31) (txFits : cfg.txThreadNum ≤ 2 ^ 31)
    {order : List (Nat × (Key × Value))}
    (interleaving : Kvs.Interleaving cfg.size (puts (Verbs.backend devices) cfg) order)
    (space : Space) (stack : Mem) (r : Rank cfg) :
    VerbsReady cfg devices r (partner r)
      (process (Verbs.backend devices) cfg order space stack r) := by
  have own := verbs_initLoops cfg devices r
  have theirs := verbs_initLoops cfg devices (partner r)
  refine ⟨⟨own.rx.srqs, own.rx.rxCqs, own.rx.rxCtxs⟩, own.txCqs, fun j below => ?_⟩
  have address := getLoop_eq (b := Verbs.backend devices) Verbs.addrFormat_faithful ranksFit txFits
    interleaving space stack r below
  have theirAddress : exchangedAddr (Verbs.backend devices) cfg (partner r) j =
      connInfo cfg devices (partner r) j := by
    change Verbs.Ctx.localConnInfo
      ((initLoops (Verbs.backend devices) cfg (partner r)).txCtxs j) = _
    rw [theirs.txCtxs j below]
    rfl
  unfold process
  simp only [connectLoop_eq _ _ below, address, own.txCtxs j below, theirAddress]
  rfl

variable {procs : Nat → Process (Verbs.backend devices)}

/-- A message of worker `i` arrives at the queue pair of the partner's worker `i` and
nowhere else. -/
theorem verbs_lands_iff (ready : ∀ r : Rank cfg, VerbsReady cfg devices r (partner r) (procs r))
    (distinct : devices.Distinct cfg.size (objects cfg)) (r : Rank cfg) (i : Worker cfg) (r' : Nat)
    (ctx : Verbs.Ctx) :
    Lands cfg procs r i r' ctx ↔ r' = partner r ∧ ctx = (procs (partner r)).txCtxs i := by
  have own := (ready r).txCtxs i i.isLt
  have theirs := (ready (partner r)).txCtxs i i.isLt
  constructor
  · rintro ⟨rankBelow, present, address, sent, hasQp, same⟩
    have target : connInfo cfg devices (partner r) i = address := by
      rw [own] at sent
      exact Option.some.inj sent
    rcases present with ⟨j, jBelow, rfl⟩ | ⟨j, jBelow, rfl⟩
    · have there := (ready ⟨r', rankBelow⟩).txCtxs j jBelow
      rw [there, ← target] at same
      obtain ⟨number, lid⟩ := Verbs.ConnInfo.mk.inj same
      have jRoom : 2 * cfg.rxThreadNum + 2 * j + 1 < objects cfg := by
        unfold objects
        omega
      have iRoom : 2 * cfg.rxThreadNum + 2 * i.val + 1 < objects cfg := by
        have := i.isLt
        unfold objects
        omega
      obtain ⟨rankEq, objectEq⟩ :=
        distinct _ rankBelow _ (partner r).isLt _ jRoom _ iRoom number lid
      obtain rfl : j = i := by omega
      rw [rankEq]
      exact ⟨rfl, rfl⟩
    · -- the context of a progress thread has no queue pair
      have there := (ready ⟨r', rankBelow⟩).rx.rxCtxs j jBelow
      rw [there] at hasQp
      exact absurd hasQp (by simp)
  · rintro ⟨rfl, rfl⟩
    refine ⟨(partner r).isLt, Or.inl ⟨i, i.isLt, rfl⟩, connInfo cfg devices (partner r) i, ?_, ?_⟩
    · rw [own]
      rfl
    · rw [theirs]
      exact ⟨rfl, rfl⟩

theorem verbs_routed (ready : ∀ r : Rank cfg, VerbsReady cfg devices r (partner r) (procs r))
    (distinct : devices.Distinct cfg.size (objects cfg)) (r : Rank cfg) (i : Worker cfg) :
    Routed cfg procs r i := by
  have theirs := (ready (partner r)).txCtxs i i.isLt
  have rx := (ready (partner r)).rx
  have residue := cfg.residue_lt i
  refine ⟨⟨_, (verbs_lands_iff ready distinct r i _ _).mpr ⟨rfl, rfl⟩⟩, ?_, ?_, ?_, ?_⟩ <;>
    intro r' ctx lands <;>
    obtain ⟨rfl, rfl⟩ := (verbs_lands_iff ready distinct r i r' ctx).mp lands
  · rfl
  · intro p below
    rw [rx.rxCqs p below, theirs]
    simp [Verbs.backend]
  · intro j below
    rw [(ready (partner r)).txCqs j below, theirs]
    simp only [Verbs.backend, Option.bind_some, ne_eq, Option.some.injEq]
    omega
  · rw [rx.rxCtxs _ residue, theirs]
    rfl

end Verbs

/-! ## Libfabric -/

section Libfabric

variable {providers : Libfabric.Providers}

/-- A rank when its threads start: what was created, and `addrs[j]` holds the name of
the target's receive context `j`. -/
structure LibfabricReady (cfg : Config) (providers : Libfabric.Providers) (target : Nat)
    (proc : Process (Libfabric.backend providers)) : Prop where
  rx : LibfabricRx cfg.rxThreadNum proc.toSetup
  txCqs : ∀ j, j < cfg.txThreadNum → proc.txCqs j = some (2 * cfg.rxThreadNum + 2 * j)
  txCtxs : ∀ j, j < cfg.txThreadNum → proc.txCtxs j =
    ⟨some (2 * cfg.rxThreadNum + 2 * j + 1), [⟨some (2 * cfg.rxThreadNum + 2 * j), true, true⟩]⟩
  addrs : ∀ j, j < cfg.rxThreadNum → proc.addrs j = some (providers.getname target (2 * j + 1))

theorem libfabric_ready (ranksFit : cfg.size ≤ 2 ^ 31) (txFits : cfg.txThreadNum ≤ 2 ^ 31)
    {order : List (Nat × (Key × Value))}
    (interleaving : Kvs.Interleaving cfg.size (puts (Libfabric.backend providers) cfg) order)
    (space : Space) (stack : Mem) (r : Rank cfg) :
    LibfabricReady cfg providers (partner r)
      (process (Libfabric.backend providers) cfg order space stack r) := by
  have own := libfabric_initLoops cfg providers r
  have theirs := libfabric_initLoops cfg providers (partner r)
  have rxFits : cfg.rxThreadNum ≤ 2 ^ 31 := cfg.rxThreadNum_le.trans txFits
  refine ⟨⟨own.rx.rxCqs, own.rx.rxCtxs⟩, own.txCqs, fun j below => ?_, fun j below => ?_⟩
  · unfold process
    simp only [connectLoop_eq _ _ below]
    exact own.txCtxs j below
  · have address := getLoop_eq (b := Libfabric.backend providers) Libfabric.addrFormat_faithful
      ranksFit rxFits interleaving space stack r below
    have theirAddress : exchangedAddr (Libfabric.backend providers) cfg (partner r) j =
        providers.getname (partner r) (2 * j + 1) := by
      change providers.getname (partner r) (Option.getD (Libfabric.Ctx.ep
        ((initLoops (Libfabric.backend providers) cfg (partner r)).rxCtxs j)) 0) = _
      rw [theirs.rx.rxCtxs j below]
      rfl
    rw [theirAddress] at address
    exact address

variable {procs : Nat → Process (Libfabric.backend providers)}

/-- A message of worker `i` arrives at the partner's receive context of its residue
and nowhere else. -/
theorem libfabric_lands_iff
    (ready : ∀ r : Rank cfg, LibfabricReady cfg providers (partner r) (procs r))
    (distinct : providers.Distinct cfg.size (objects cfg)) (r : Rank cfg) (i : Worker cfg)
    (r' : Nat) (ctx : Libfabric.Ctx) :
    Lands cfg procs r i r' ctx ↔
      r' = partner r ∧ ctx = (procs (partner r)).rxCtxs (i % cfg.rxThreadNum) := by
  have residue := cfg.residue_lt i
  have own := (ready r).addrs _ residue
  have theirs := (ready (partner r)).rx.rxCtxs _ residue
  have room : 2 * (i.val % cfg.rxThreadNum) + 1 < objects cfg := by
    unfold objects
    omega
  constructor
  · rintro ⟨rankBelow, present, address, sent, ep, hasEp, same⟩
    obtain rfl : providers.getname (partner r) (2 * (i % cfg.rxThreadNum) + 1) = address :=
      Option.some.inj (own.symm.trans sent)
    rcases present with ⟨j, jBelow, rfl⟩ | ⟨j, jBelow, rfl⟩
    · -- the endpoint of a worker has another number
      have there := (ready ⟨r', rankBelow⟩).txCtxs j jBelow
      rw [there] at hasEp
      obtain rfl := Option.some.inj hasEp
      have jRoom : 2 * cfg.rxThreadNum + 2 * j + 1 < objects cfg := by
        unfold objects
        omega
      obtain ⟨-, objectEq⟩ := distinct _ (partner r).isLt _ rankBelow _ room _ jRoom same
      omega
    · have there := (ready ⟨r', rankBelow⟩).rx.rxCtxs j jBelow
      rw [there] at hasEp
      obtain rfl := Option.some.inj hasEp
      have jRoom : 2 * j + 1 < objects cfg := by
        unfold objects
        omega
      obtain ⟨rankEq, objectEq⟩ := distinct _ (partner r).isLt _ rankBelow _ room _ jRoom same
      obtain rfl : i.val % cfg.rxThreadNum = j := by omega
      rw [← rankEq]
      exact ⟨rfl, rfl⟩
  · rintro ⟨rfl, rfl⟩
    refine ⟨(partner r).isLt, Or.inr ⟨_, residue, rfl⟩, _, own, ?_⟩
    rw [theirs]
    exact ⟨_, rfl, rfl⟩

theorem libfabric_routed
    (ready : ∀ r : Rank cfg, LibfabricReady cfg providers (partner r) (procs r))
    (distinct : providers.Distinct cfg.size (objects cfg)) (r : Rank cfg) (i : Worker cfg) :
    Routed cfg procs r i := by
  have residue := cfg.residue_lt i
  have rx := (ready (partner r)).rx
  refine ⟨⟨_, (libfabric_lands_iff ready distinct r i _ _).mpr ⟨rfl, rfl⟩⟩, ?_, ?_, ?_, ?_⟩ <;>
    intro r' ctx lands <;>
    obtain ⟨rfl, rfl⟩ := (libfabric_lands_iff ready distinct r i r' ctx).mp lands
  · rfl
  · intro p below
    rw [rx.rxCqs p below, rx.rxCtxs _ residue]
    simp [Libfabric.backend]
  · intro j below
    rw [(ready (partner r)).txCqs j below, rx.rxCtxs _ residue]
    simp only [Libfabric.backend, List.find?_cons, Option.bind_some, ne_eq, Option.some.injEq]
    omega
  · rfl

end Libfabric

/-! ## Dispatch -/

/-- A progress thread hands its tokens to workers of its own residue. -/
theorem Reachable.bump_residue {s : State cfg} (reachable : Reachable s) {r : Rank cfg}
    {p : Prg cfg}
    {workerIdx : Nat} (stage : (s.prg r p).stage = .bump workerIdx) :
    workerIdx < cfg.txThreadNum ∧ workerIdx % cfg.rxThreadNum = p := by
  have aligned := reachable.inv.aligned r p
  rw [stage] at aligned
  obtain ⟨-, j, below, rfl⟩ := aligned
  exact ⟨groupWorker_lt p below, Stride.index_mod p.isLt j⟩

/-! ## Both backends -/

/-- On the verbs backend the queue pairs of partner workers are connected to each
other, with the receive queues of the worker's residue. On the libfabric backend the
address a worker sends to names the receive context of its residue. On both, the
messages of worker `i` are routed to the partner's progress thread `i % rx_thread_num`,
which hands them to workers of that residue. -/
theorem backends_route_alike (cfg : Config) (ranksFit : cfg.size ≤ 2 ^ 31)
    (txFits : cfg.txThreadNum ≤ 2 ^ 31) (space : Space) (stack : Mem) :
    (∀ devices : Verbs.Devices, devices.Distinct cfg.size (objects cfg) →
      ∀ order, Kvs.Interleaving cfg.size (puts (Verbs.backend devices) cfg) order →
      ∀ procs, procs = process (Verbs.backend devices) cfg order space stack →
      ∀ (r : Rank cfg) (i : Worker cfg), ∃ qp qp',
        ((procs r).txCtxs i).qp = some qp ∧ ((procs (partner r)).txCtxs i).qp = some qp' ∧
        qp.dest = some ((procs (partner r)).txCtxs i).localConnInfo ∧
        qp'.dest = some ((procs r).txCtxs i).localConnInfo ∧
        qp'.recvCq = (procs (partner r)).rxCqs (i % cfg.rxThreadNum) ∧
        qp'.srq = (procs (partner r)).srqs (i % cfg.rxThreadNum) ∧
        Routed cfg procs r i) ∧
    (∀ providers : Libfabric.Providers, providers.Distinct cfg.size (objects cfg) →
      ∀ order, Kvs.Interleaving cfg.size (puts (Libfabric.backend providers) cfg) order →
      ∀ procs, procs = process (Libfabric.backend providers) cfg order space stack →
      ∀ (r : Rank cfg) (i : Worker cfg), ∃ ep binding,
        ((procs (partner r)).rxCtxs (i % cfg.rxThreadNum)).ep = some ep ∧
        (procs r).addrs (i % cfg.rxThreadNum) = some (providers.getname (partner r) ep) ∧
        binding ∈ ((procs (partner r)).rxCtxs (i % cfg.rxThreadNum)).bindings ∧
        binding.recv = true ∧ binding.cq = (procs (partner r)).rxCqs (i % cfg.rxThreadNum) ∧
        Routed cfg procs r i) ∧
    (∀ s : State cfg, Reachable s → ∀ (r : Rank cfg) (i : Worker cfg) (workerIdx : Nat),
      (s.prg (partner r) (route i)).stage = .bump workerIdx →
        workerIdx < cfg.txThreadNum ∧ workerIdx % cfg.rxThreadNum = i % cfg.rxThreadNum) := by
  refine ⟨?_, ?_, ?_⟩
  · rintro devices distinct order interleaving procs rfl r i
    have ready := verbs_ready ranksFit txFits interleaving space stack
    have own := (ready r).txCtxs i i.isLt
    have theirs := (ready (partner r)).txCtxs i i.isLt
    have rx := (ready (partner r)).rx
    have residue := cfg.residue_lt i
    refine ⟨_, _, congrArg Verbs.Ctx.qp own, congrArg Verbs.Ctx.qp theirs, ?_, ?_, ?_, ?_,
      verbs_routed ready distinct r i⟩
    · rw [theirs]
    · have mutual_ : partner (partner r) = r := partnerRank_partnerRank r
      rw [own, mutual_]
    · exact (rx.rxCqs _ residue).symm
    · exact (rx.srqs _ residue).symm
  · rintro providers distinct order interleaving procs rfl r i
    have ready := libfabric_ready ranksFit txFits interleaving space stack
    have rx := (ready (partner r)).rx
    have residue := cfg.residue_lt i
    have theirs := rx.rxCtxs _ residue
    refine ⟨_, ⟨some (2 * (i % cfg.rxThreadNum)), true, true⟩, congrArg Libfabric.Ctx.ep theirs,
      (ready r).addrs _ residue, ?_, rfl, (rx.rxCqs _ residue).symm,
      libfabric_routed ready distinct r i⟩
    rw [theirs]
    exact List.mem_singleton.mpr rfl
  · intro s reachable r i workerIdx stage
    exact reachable.bump_residue stage

/-- Two ranks at one lid with four workers and two progress threads each, whose queue
pair numbers and endpoint names tell the ranks apart. -/
theorem backends_route_alike_small_job :
    let devices : Verbs.Devices := ⟨fun r n => BitVec.ofNat 32 (1000 * r + n), fun _ => 1⟩
    let providers : Libfabric.Providers :=
      ⟨BitVec 64, fun r n _ => BitVec.ofNat 64 (1000 * r + n), fun words => words 0⟩
    Routed smallJob (process (Verbs.backend devices) smallJob
        (Kvs.sequential smallJob.size (puts (Verbs.backend devices) smallJob)) (fun _ => none)
        fun _ => 0) ⟨0, by decide⟩ ⟨3, by decide⟩ ∧
      Routed smallJob (process (Libfabric.backend providers) smallJob
        (Kvs.sequential smallJob.size (puts (Libfabric.backend providers) smallJob)) (fun _ => none)
        fun _ => 0) ⟨0, by decide⟩ ⟨3, by decide⟩ := by
  intro devices providers
  have numbers : ∀ {w r r' n n' : Nat}, 16 ≤ w → r < smallJob.size → r' < smallJob.size →
      n < objects smallJob → n' < objects smallJob →
      BitVec.ofNat w (1000 * r + n) = BitVec.ofNat w (1000 * r' + n') → r = r' ∧ n = n' := by
    intro w r r' n n' wide rBelow rBelow' nBelow nBelow' same
    have size : smallJob.size = 2 := rfl
    have count : objects smallJob = 12 := rfl
    have room : 2 ^ 16 ≤ 2 ^ w := Nat.pow_le_pow_right (by omega) wide
    have values := congrArg BitVec.toNat same
    rw [BitVec.toNat_ofNat, BitVec.toNat_ofNat, Nat.mod_eq_of_lt (by omega),
      Nat.mod_eq_of_lt (by omega)] at values
    omega
  have devicesDistinct : devices.Distinct smallJob.size (objects smallJob) :=
    fun r rBelow r' rBelow' n nBelow n' nBelow' number _ =>
      numbers (by decide) rBelow rBelow' nBelow nBelow' number
  have providersDistinct : providers.Distinct smallJob.size (objects smallJob) :=
    fun r rBelow r' rBelow' n nBelow n' nBelow' name =>
      numbers (by decide) rBelow rBelow' nBelow nBelow' name
  have routed := backends_route_alike smallJob (by decide) (by decide) (fun _ => none) fun _ => 0
  obtain ⟨_, _, -, -, -, -, -, -, verbs⟩ := routed.1 devices devicesDistinct _
    (Kvs.interleaving_sequential _ _) _ rfl ⟨0, by decide⟩ ⟨3, by decide⟩
  obtain ⟨_, _, -, -, -, -, -, libfabric⟩ := routed.2.1 providers providersDistinct _
    (Kvs.interleaving_sequential _ _) _ rfl ⟨0, by decide⟩ ⟨3, by decide⟩
  exact ⟨verbs, libfabric⟩

end FabricBench.PingpongPrg
