import FabricBench.PingpongPrg.Invariant
import FabricBench.PingpongPrg.Setup

/-!
The accesses of `pingpong_prg` to its arrays with an entry per worker, per progress
thread or per address, on both backends.

Owns: the arrays and their lengths, the accesses of the loops of `main` and of every
action of the threads (`mainAccesses`, `workerAccesses`, `prgAccesses`,
`State.accesses`), and exactly when all of them are in bounds.
-/

namespace FabricBench.PingpongPrg

open FabricBench.Lib

/-- The backend that the benchmark is built for. -/
inductive Library where
  | verbs (devices : Verbs.Devices)
  | libfabric (providers : Libfabric.Providers)

def Library.backend : Library → Backend
  | .verbs devices => Verbs.backend devices
  | .libfabric providers => Libfabric.backend providers

/-- The arrays that `main` allocates. -/
inductive Arr where
  | txCqs
  | txCtxs
  | syncs
  | computeTimeAccs
  | idleTimeAccs
  | totalExecTimes
  | rxCqs
  | rxCtxs
  | srqs
  | nextWorkerIdxes
  | progressCounters
  | addrs
deriving DecidableEq, Repr

variable (lib : Library) (cfg : Config)

def Arr.length : Arr → Nat
  | .txCqs => cfg.txThreadNum
  | .txCtxs => cfg.txThreadNum
  | .syncs => cfg.txThreadNum
  | .computeTimeAccs => cfg.txThreadNum
  | .idleTimeAccs => cfg.txThreadNum
  | .totalExecTimes => cfg.txThreadNum
  | .rxCqs => cfg.rxThreadNum
  | .rxCtxs => cfg.rxThreadNum
  | .srqs => cfg.rxThreadNum
  | .nextWorkerIdxes => cfg.rxThreadNum
  | .progressCounters => cfg.rxThreadNum
  | .addrs => numCtxAddr lib.backend cfg

/-- The array that `get_exchanged_ctxs` returns. -/
def Library.exchangedCtxs : Library → Arr
  | .verbs _ => .txCtxs
  | .libfabric _ => .rxCtxs

structure Access where
  arr : Arr
  index : Nat
deriving DecidableEq, Repr

def Access.InBounds (access : Access) : Prop := access.index < access.arr.length lib cfg

/-! ## The accesses -/

/-- The loop that sets up the receive side. -/
def rxLoopAccesses (i : Nat) : List Access :=
  [⟨.srqs, i⟩, ⟨.rxCqs, i⟩, ⟨.txCqs, i⟩, ⟨.srqs, i % cfg.rxThreadNum⟩, ⟨.rxCtxs, i⟩]

/-- The loop that sets up the send contexts. -/
def txLoopAccesses (i : Nat) : List Access :=
  [⟨.txCqs, i⟩, ⟨.rxCqs, i % cfg.rxThreadNum⟩, ⟨.srqs, i % cfg.rxThreadNum⟩, ⟨.txCtxs, i⟩]

/-- The loops of `main`, in order. -/
def mainAccesses : List Access :=
  (List.range cfg.rxThreadNum).flatMap (rxLoopAccesses cfg) ++
  (List.range cfg.txThreadNum).flatMap (txLoopAccesses cfg) ++
  (List.range (numCtxAddr lib.backend cfg)).flatMap (fun i => [⟨lib.exchangedCtxs, i⟩]) ++
  (List.range (numCtxAddr lib.backend cfg)).flatMap (fun i => [⟨.addrs, i⟩]) ++
  -- `connect_ctx`
  (List.range cfg.txThreadNum).flatMap (fun i => [⟨.txCtxs, i⟩, ⟨.addrs, i⟩]) ++
  (List.range cfg.txThreadNum).flatMap (fun i => [⟨.syncs, i⟩]) ++
  -- clean up
  (List.range cfg.txThreadNum).flatMap (fun i => [⟨.txCtxs, i⟩, ⟨.txCqs, i⟩]) ++
  (List.range cfg.rxThreadNum).flatMap (fun i => [⟨.rxCtxs, i⟩, ⟨.rxCqs, i⟩])

variable {cfg}

/-- The references that `send_thread` and `recv_thread` take first, and what they test and
poll while they wait. -/
def workerAccesses (t : Worker cfg) : List Access :=
  [⟨.addrs, t % cfg.rxThreadNum⟩, ⟨.txCtxs, t⟩, ⟨.txCqs, t⟩, ⟨.computeTimeAccs, t⟩,
    ⟨.idleTimeAccs, t⟩, ⟨.syncs, t⟩]

/-- The references that `progress_thread` takes first, and the queue it polls. -/
def prgAccesses (p : Prg cfg) : List Access :=
  [⟨.rxCtxs, p⟩, ⟨.progressCounters, p⟩, ⟨.nextWorkerIdxes, p⟩, ⟨.rxCqs, p⟩]

variable (cfg) in
/-- `get_additional_stats`. -/
def statsAccesses : List Access :=
  (List.range cfg.txThreadNum).flatMap (fun i => [⟨.computeTimeAccs, i⟩]) ++
  (List.range cfg.txThreadNum).flatMap (fun i => [⟨.idleTimeAccs, i⟩]) ++
  (List.range cfg.rxThreadNum).flatMap (fun i => [⟨.progressCounters, i⟩])

/-- What a thread accesses at the end of a stretch of work. -/
def finishAccesses (t : Worker cfg) : Option Instr → List Access
  | some .recordTime => [⟨.totalExecTimes, t⟩]
  | some (.report true) => statsAccesses cfg
  | _ => []

variable (cfg) in
/-- Store number `i` of `reset_counters`. -/
def storeAccesses (i : Nat) : List Access :=
  if i < cfg.txThreadNum then [⟨.syncs, i⟩, ⟨.computeTimeAccs, i⟩, ⟨.idleTimeAccs, i⟩]
  else [⟨.nextWorkerIdxes, i - cfg.txThreadNum⟩, ⟨.progressCounters, i - cfg.txThreadNum⟩]

/-- The next step of a progress thread. -/
def progressAccesses (p : Prg cfg) : PrgStage → List Access
  | .poll => []
  | .read => [⟨.nextWorkerIdxes, p⟩, ⟨.rxCtxs, p⟩]
  | .fetch _ => [⟨.nextWorkerIdxes, p⟩]
  | .store _ _ => [⟨.nextWorkerIdxes, p⟩]
  | .wrap _ => [⟨.nextWorkerIdxes, p⟩]
  | .bump workerIdx => [⟨.syncs, workerIdx⟩]

/-- What an action accesses. Workers and progress threads go through the references they
took at their start. -/
def State.accesses (s : State cfg) : Action cfg → List Access
  | .sync _ _ => []
  | .finish r t => finishAccesses t (s.instr r t)
  | .send _ t => [⟨.addrs, t % cfg.rxThreadNum⟩, ⟨.txCtxs, t⟩, ⟨.txCqs, t⟩]
  | .observe _ t => [⟨.syncs, t⟩, ⟨.txCqs, t⟩, ⟨.idleTimeAccs, t⟩]
  | .consume _ t => [⟨.syncs, t⟩, ⟨.computeTimeAccs, t⟩]
  | .store r => storeAccesses cfg (s.loc r (leader cfg)).iter
  | .deliver _ _ _ => []
  | .poll _ p _ => [⟨.rxCqs, p⟩, ⟨.progressCounters, p⟩]
  | .progress r p => progressAccesses p (s.prg r p).stage

variable (cfg) in
/-- No access is out of bounds: in `main`, at the start of a thread, and in any action
that is possible in a reachable state. -/
structure AllInBounds : Prop where
  main : ∀ access ∈ mainAccesses lib cfg, access.InBounds lib cfg
  worker : ∀ t : Worker cfg, ∀ access ∈ workerAccesses t, access.InBounds lib cfg
  prg : ∀ p : Prg cfg, ∀ access ∈ prgAccesses p, access.InBounds lib cfg
  action : ∀ (s s' : State cfg) (action : Action cfg), Reachable s → step s action = some s' →
    ∀ access ∈ s.accesses action, access.InBounds lib cfg

/-! ## In bounds -/

section InBounds

variable {lib} {s s' : State cfg}

/-- A loop is in bounds if its body is. -/
theorem inBounds_loop {n : Nat} {body : Nat → List Access}
    (inside : ∀ i, i < n → ∀ access ∈ body i, access.InBounds lib cfg) :
    ∀ access ∈ (List.range n).flatMap body, access.InBounds lib cfg := by
  intro access mem
  obtain ⟨i, below, inBody⟩ := List.mem_flatMap.mp mem
  exact inside i (List.mem_range.mp below) access inBody

/-- The exchanged contexts are as many as the addresses. -/
theorem length_exchangedCtxs : lib.exchangedCtxs.length lib cfg = numCtxAddr lib.backend cfg := by
  cases lib with
  | verbs devices => rfl
  | libfabric providers => rfl

theorem rx_le_numCtxAddr : cfg.rxThreadNum ≤ numCtxAddr lib.backend cfg := by
  cases lib with
  | verbs devices => exact cfg.rxThreadNum_le
  | libfabric providers => exact Nat.le_refl _

/-- With an address for every worker the loops of `main` are in bounds. -/
theorem mainAccesses_inBounds (long : cfg.txThreadNum ≤ numCtxAddr lib.backend cfg) :
    ∀ access ∈ mainAccesses lib cfg, access.InBounds lib cfg := by
  have le := cfg.rxThreadNum_le
  have rest := cfg.residue_lt
  have exchanged : ∀ access ∈ (List.range (numCtxAddr lib.backend cfg)).flatMap
      (fun i => [Access.mk lib.exchangedCtxs i]), access.InBounds lib cfg := by
    apply inBounds_loop
    intro i below access mem
    rw [List.mem_singleton.mp mem, Access.InBounds, length_exchangedCtxs]
    exact below
  simp only [mainAccesses, List.forall_mem_append]
  refine ⟨⟨⟨⟨⟨⟨⟨?_, ?_⟩, exchanged⟩, ?_⟩, ?_⟩, ?_⟩, ?_⟩, ?_⟩
  all_goals
    apply inBounds_loop
    intro i below
    have := rest i
    simp only [rxLoopAccesses, txLoopAccesses, Access.InBounds, Arr.length, List.forall_mem_cons,
      List.not_mem_nil, false_implies, implies_true, and_true]
    omega

theorem workerAccesses_inBounds (t : Worker cfg) :
    ∀ access ∈ workerAccesses t, access.InBounds lib cfg := by
  have := t.isLt
  have := Nat.mod_lt t.val cfg.rx_pos
  have := @rx_le_numCtxAddr lib cfg
  simp only [workerAccesses, Access.InBounds, Arr.length, List.forall_mem_cons, List.not_mem_nil,
    false_implies, implies_true, and_true]
  omega

theorem prgAccesses_inBounds (p : Prg cfg) : ∀ access ∈ prgAccesses p, access.InBounds lib cfg := by
  have := p.isLt
  simp only [prgAccesses, Access.InBounds, Arr.length, List.forall_mem_cons, List.not_mem_nil,
    false_implies, implies_true, and_true]
  omega

theorem statsAccesses_inBounds : ∀ access ∈ statsAccesses cfg, access.InBounds lib cfg := by
  simp only [statsAccesses, List.forall_mem_append]
  refine ⟨⟨?_, ?_⟩, ?_⟩
  all_goals
    apply inBounds_loop
    intro i below access mem
    rw [List.mem_singleton.mp mem]
    exact below

theorem finishAccesses_inBounds (t : Worker cfg) (instr : Option Instr) :
    ∀ access ∈ finishAccesses t instr, access.InBounds lib cfg := by
  unfold finishAccesses
  split
  · intro access mem
    rw [List.mem_singleton.mp mem]
    exact t.isLt
  · exact statsAccesses_inBounds
  · simp

theorem storeAccesses_inBounds {i : Nat} (below : i < cfg.txThreadNum + cfg.rxThreadNum) :
    ∀ access ∈ storeAccesses cfg i, access.InBounds lib cfg := by
  unfold storeAccesses
  split_ifs with counters
  all_goals
    simp only [Access.InBounds, Arr.length, List.forall_mem_cons, List.not_mem_nil, false_implies,
      implies_true, and_true]
    omega

/-- The worker that a progress thread has chosen is one of its group. -/
theorem progressAccesses_inBounds (inv : Inv s) (r : Rank cfg) (p : Prg cfg) :
    ∀ access ∈ progressAccesses p (s.prg r p).stage, access.InBounds lib cfg := by
  have aligned := inv.aligned r p
  have := p.isLt
  cases stage : (s.prg r p).stage with
  | poll => simp [progressAccesses]
  | read => simp [progressAccesses, Access.InBounds, Arr.length]
  | fetch workerIdx => simp [progressAccesses, Access.InBounds, Arr.length]
  | store workerIdx cursor => simp [progressAccesses, Access.InBounds, Arr.length]
  | wrap workerIdx => simp [progressAccesses, Access.InBounds, Arr.length]
  | bump workerIdx =>
      rw [stage] at aligned
      obtain ⟨-, j, below, rfl⟩ := aligned
      simpa [progressAccesses, Access.InBounds, Arr.length] using groupWorker_lt p below

theorem accesses_inBounds (reachable : Reachable s) {action : Action cfg}
    (taken : step s action = some s') : ∀ access ∈ s.accesses action, access.InBounds lib cfg := by
  cases action with
  | sync r t => simp [State.accesses]
  | finish r t => exact finishAccesses_inBounds t _
  | send r t =>
      intro access mem
      apply workerAccesses_inBounds t
      simp only [State.accesses, workerAccesses, List.mem_cons] at mem ⊢
      tauto
  | observe r t =>
      intro access mem
      apply workerAccesses_inBounds t
      simp only [State.accesses, workerAccesses, List.mem_cons] at mem ⊢
      tauto
  | consume r t =>
      intro access mem
      apply workerAccesses_inBounds t
      simp only [State.accesses, workerAccesses, List.mem_cons] at mem ⊢
      tauto
  | store r =>
      apply storeAccesses_inBounds
      simp only [step] at taken
      split at taken
      · simp only [State.storeNext] at taken
        split_ifs at taken
        · omega
        · omega
      · cases taken
  | deliver r p k => simp [State.accesses]
  | poll r p count =>
      intro access mem
      apply prgAccesses_inBounds p
      simp only [State.accesses, prgAccesses, List.mem_cons] at mem ⊢
      tauto
  | progress r p => exact progressAccesses_inBounds reachable.inv r p

end InBounds

/-! ## Main theorem -/

/-- All accesses are in bounds exactly if there is an address for every worker: on verbs
always, on libfabric only if there are no more workers than progress threads. The loop
that connects the workers reads an address for each. -/
theorem allInBounds_iff (lib : Library) (cfg : Config) :
    AllInBounds lib cfg ↔ (∃ devices, lib = .verbs devices) ∨
      cfg.txThreadNum = cfg.rxThreadNum := by
  have long_iff : cfg.txThreadNum ≤ numCtxAddr lib.backend cfg ↔
      (∃ devices, lib = .verbs devices) ∨ cfg.txThreadNum = cfg.rxThreadNum := by
    have le := cfg.rxThreadNum_le
    cases lib with
    | verbs devices => exact ⟨fun _ => .inl ⟨devices, rfl⟩, fun _ => Nat.le_refl _⟩
    | libfabric providers =>
        constructor
        · intro long
          exact .inr (Nat.le_antisymm long le)
        · rintro (⟨devices, same⟩ | equal)
          · cases same
          · exact equal.le
  rw [← long_iff]
  constructor
  · intro all
    by_contra short
    -- the address of the worker behind the last one
    have last : Access.mk .addrs (numCtxAddr lib.backend cfg) ∈ mainAccesses lib cfg := by
      have inside : numCtxAddr lib.backend cfg < cfg.txThreadNum := Nat.not_le.mp short
      simp [mainAccesses, inside]
    exact absurd (all.main _ last) (Nat.lt_irrefl _)
  · intro long
    constructor
    case main => exact mainAccesses_inBounds long
    case worker => exact workerAccesses_inBounds
    case prg => exact prgAccesses_inBounds
    case action =>
      intro s s' action reachable taken
      exact accesses_inBounds reachable taken

/-- With four workers and two progress threads on libfabric, `main` reads `addrs[2]` of
an array of two. -/
theorem connect_loop_over_read :
    Access.mk .addrs 2 ∈ mainAccesses (.libfabric ⟨Unit, fun _ _ _ => 0, fun _ => ()⟩) smallJob ∧
      ¬ (Access.mk .addrs 2).InBounds (.libfabric ⟨Unit, fun _ _ _ => 0, fun _ => ()⟩) smallJob ∧
      ¬ AllInBounds (.libfabric ⟨Unit, fun _ _ _ => 0, fun _ => ()⟩) smallJob := by
  have read : Access.mk .addrs 2 ∈
      mainAccesses (.libfabric ⟨Unit, fun _ _ _ => 0, fun _ => ()⟩) smallJob := by decide
  have outside : ¬ (Access.mk .addrs 2).InBounds
      (.libfabric ⟨Unit, fun _ _ _ => 0, fun _ => ()⟩) smallJob := Nat.lt_irrefl 2
  exact ⟨read, outside, fun all => outside (all.main _ read)⟩

end FabricBench.PingpongPrg
