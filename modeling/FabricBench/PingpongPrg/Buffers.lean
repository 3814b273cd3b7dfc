import FabricBench.CommExp.Sweep
import FabricBench.Lib.Slots
import FabricBench.PingpongPrg.Invariant

/-!
The buffers of `pingpong_prg`: slots of the heap, two for each worker.

Owns: the send slots, the buffers that a progress thread's receives have at any time
(`State.buffers`), and that they are slots of its own group. From this follow where
ranges lie and that they never meet (`heap_slots_disjoint`), and when a token points at
the buffer its message is in (`dispatched_buffer`).
-/

namespace FabricBench.PingpongPrg

open FabricBench.Lib
open FabricBench.Lib.CInt

variable {cfg : Config}

variable (cfg) in
/-- The heap offset of the send buffer of worker `threadId`. -/
def sendSlot (threadId : Nat) : Nat := threadId * 2 * cfg.maxSize

/-- The buffers of a progress thread's receives: posted, completed, and in hand. -/
def State.buffers (s : State cfg) (r : Rank cfg) (p : Prg cfg) : List Nat :=
  s.rq r p ++ (s.cq r p).map Completion.buf ++ (s.prg r p).batch.map Completion.buf

/-- A receive of the progress thread is into `buf`. -/
def PrgSide.Uses (a : PrgSide) (buf : Nat) : Prop :=
  buf ∈ a.rq ∨ (∃ c ∈ a.cq, c.buf = buf) ∨ ∃ c ∈ a.thread.batch, c.buf = buf

theorem mem_buffers {s : State cfg} {r : Rank cfg} {p : Prg cfg} {buf : Nat} :
    buf ∈ s.buffers r p ↔ (s.prgSide r p).Uses buf := by
  simp only [State.buffers, PrgSide.Uses, State.prgSide, List.mem_append, List.mem_map, or_assoc]

/-! ## Where buffers come from -/

/-- A buffer is new only behind a refill, and then it is the slot at the cursor. -/
theorem PrgMove.uses {p : Prg cfg} {a b : PrgSide} (move : PrgMove p a b) {buf : Nat}
    (uses : b.Uses buf) :
    a.Uses buf ∨ a.thread.stage = .read ∧ buf = recvSlot cfg a.cursor := by
  cases move with
  | other => exact .inl uses
  | storeCursor => exact .inl uses
  | deliver msg head rest posted =>
      left
      unfold PrgSide.Uses
      rw [posted]
      rcases uses with inRest | ⟨c, inCq, rfl⟩ | inBatch
      · exact .inl (List.mem_cons_of_mem _ inRest)
      · rcases List.mem_append.mp inCq with before | new
        · exact .inr (.inl ⟨c, before, rfl⟩)
        · rw [List.mem_singleton.mp new]
          exact .inl List.mem_cons_self
      · exact .inr (.inr inBatch)
  | poll count stage positive few available =>
      left
      rcases uses with inRq | ⟨c, inCq, rfl⟩ | ⟨c, inBatch, rfl⟩
      · exact .inl inRq
      · exact .inr (.inl ⟨c, List.mem_of_mem_drop inCq, rfl⟩)
      · exact .inr (.inl ⟨c, List.mem_of_mem_take inBatch, rfl⟩)
  | refill stage batch =>
      rcases uses with inRq | inCq | ⟨c, inBatch, -⟩
      · rcases List.mem_append.mp inRq with before | new
        · exact .inl (.inl before)
        · exact .inr ⟨stage, List.eq_of_mem_replicate new⟩
      · exact .inl (.inr (.inl inCq))
      · cases inBatch
  | read head tail stage batch => exact .inl uses
  | fetch workerIdx stage => exact .inl uses
  | store workerIdx cursor stage => exact .inl uses
  | wrap workerIdx stage => exact .inl uses
  | bump workerIdx stage =>
      left
      rcases uses with inRq | inCq | ⟨c, inBatch, rfl⟩
      · exact .inl inRq
      · exact .inr (.inl inCq)
      · exact .inr (.inr ⟨c, List.mem_of_mem_tail inBatch, rfl⟩)

/-- Every receive is into a slot of the group of its progress thread. -/
def BuffersInGroup (s : State cfg) : Prop :=
  ∀ r p, ∀ buf ∈ s.buffers r p, ∃ c, InGroup p c ∧ buf = recvSlot cfg c

theorem buffersInGroup_init (cfg : Config) : BuffersInGroup (State.init cfg) := by
  intro r p buf mem
  have preposted : buf ∈ List.replicate numPrepostRecv (recvSlot cfg p) := by
    simpa [mem_buffers, PrgSide.Uses, State.prgSide, State.init] using mem
  exact ⟨p, inGroup_first p, List.eq_of_mem_replicate preposted⟩

/-- Whenever a receive is posted the cursor is in the group. -/
theorem BuffersInGroup.move {s s' : State cfg} (own : BuffersInGroup s) (inv : Inv s)
    (move : Move s s') : BuffersInGroup s' := by
  intro r p buf mem
  rcases (move.prgSide r p).uses (mem_buffers.mp mem) with before | ⟨stage, rfl⟩
  · exact own r p buf (mem_buffers.mpr before)
  · have aligned := inv.aligned r p
    change (s.prg r p).stage = .read at stage
    rw [stage] at aligned
    exact ⟨_, aligned, rfl⟩

theorem Reachable.buffersInGroup {s : State cfg} (reachable : Reachable s) : BuffersInGroup s := by
  have both : Inv s ∧ BuffersInGroup s := by
    apply reachable.invariant fun s => Inv s ∧ BuffersInGroup s
    · exact ⟨inv_init cfg, buffersInGroup_init cfg⟩
    · intro s s' old move
      exact ⟨old.1.move move, old.2.move old.1 move⟩
  exact both.2

/-! ## Slots -/

/-- Workers of different groups are different. -/
theorem InGroup.ne {p p' : Prg cfg} {c c' : Nat} (own : InGroup p c) (own' : InGroup p' c')
    (different : p ≠ p') : c ≠ c' := by
  obtain ⟨j, -, rfl⟩ := own
  obtain ⟨j', -, rfl⟩ := own'
  intro same
  have mod := congrArg (· % cfg.rxThreadNum) same
  simp only [Stride.index_mod p.isLt, Stride.index_mod p'.isLt] at mod
  exact different (Fin.ext mod)

theorem InGroup.lt {p : Prg cfg} {c : Nat} (own : InGroup p c) : c < cfg.txThreadNum := by
  obtain ⟨j, below, rfl⟩ := own
  exact groupWorker_lt p below

theorem sendSlot_eq (threadId : Nat) : sendSlot cfg threadId = 2 * threadId * cfg.maxSize := by
  rw [sendSlot, Nat.mul_comm threadId 2]

variable (cfg) in
/-- What worker `threadId` sends of its buffer. -/
def sendRange (threadId msgSize : Nat) : Set Nat := Slots.bytes (sendSlot cfg threadId) msgSize

variable (cfg) in
/-- What a receive into `buf` may write. -/
def recvRange (buf : Nat) : Set Nat := Slots.bytes buf cfg.maxSize

/-- No size of a sweep is larger than `max_size`. -/
theorem le_maxSize_of_mem_sweep {minSize maxSize : BitVec 32} {fuel msgSize : Nat}
    (bound : maxSize.toInt = cfg.maxSize)
    (mem : msgSize ∈ (sweepSizes minSize maxSize fuel).map BitVec.toNat) :
    msgSize ≤ cfg.maxSize := by
  obtain ⟨size, inSweep, rfl⟩ := List.mem_map.mp mem
  have le := le_of_mem_sweepRounds inSweep
  have same := @toNat_toSizeT_of_nonneg maxSize (by omega)
  omega

/-! ## Main theorems -/

/-- All ranges are inside the heap. Send ranges of different workers, receive and send
ranges, and receive ranges of different progress threads, at whatever times they are
posted, do not meet. -/
theorem heap_slots_disjoint (cfg : Config) (minSize maxSize : BitVec 32) (fuel : Nat)
    (bound : maxSize.toInt = cfg.maxSize)
    (sweep : cfg.params.sizes = (sweepSizes minSize maxSize fuel).map BitVec.toNat)
    (room : 2 * cfg.txThreadNum * cfg.maxSize ≤ heapSize) {s s' : State cfg}
    (reachable : Reachable s) (reachable' : Reachable s') (r : Rank cfg) :
    (∀ i : Worker cfg, ∀ msgSize ∈ cfg.params.sizes, sendRange cfg i msgSize ⊆ Set.Ico 0 heapSize) ∧
    (∀ p, ∀ buf ∈ s.buffers r p, (∃ c, InGroup p c ∧ buf = recvSlot cfg c) ∧
      recvRange cfg buf ⊆ Set.Ico 0 heapSize) ∧
    (∀ i j : Worker cfg, i ≠ j → ∀ msgSize ∈ cfg.params.sizes, ∀ msgSize' ∈ cfg.params.sizes,
      Disjoint (sendRange cfg i msgSize) (sendRange cfg j msgSize')) ∧
    (∀ p, ∀ buf ∈ s.buffers r p, ∀ i : Worker cfg, ∀ msgSize ∈ cfg.params.sizes,
      Disjoint (recvRange cfg buf) (sendRange cfg i msgSize)) ∧
    (∀ p p', p ≠ p' → ∀ buf ∈ s.buffers r p, ∀ buf' ∈ s'.buffers r p',
      Disjoint (recvRange cfg buf) (recvRange cfg buf')) := by
  have fits : ∀ msgSize ∈ cfg.params.sizes, msgSize ≤ cfg.maxSize := by
    intro msgSize mem
    rw [sweep] at mem
    exact le_maxSize_of_mem_sweep bound mem
  refine ⟨?_, ?_, ?_, ?_, ?_⟩
  · intro i msgSize mem
    rw [sendRange, sendSlot_eq]
    exact Slots.bytes_subset (by omega) (fits msgSize mem) room
  · intro p buf mem
    obtain ⟨c, own, rfl⟩ := reachable.buffersInGroup r p buf mem
    have below := own.lt
    exact ⟨⟨c, own, rfl⟩, Slots.bytes_subset (by omega) le_rfl room⟩
  · intro i j different msgSize mem msgSize' mem'
    have other : i.val ≠ j.val := fun same => different (Fin.ext same)
    rw [sendRange, sendRange, sendSlot_eq, sendSlot_eq]
    exact Slots.bytes_disjoint (by omega) (fits msgSize mem) (fits msgSize' mem')
  · intro p buf mem i msgSize inSweep
    obtain ⟨c, -, rfl⟩ := reachable.buffersInGroup r p buf mem
    rw [sendRange, sendSlot_eq]
    exact Slots.bytes_disjoint (by omega) le_rfl (fits msgSize inSweep)
  · intro p p' different buf mem buf' mem'
    obtain ⟨c, own, rfl⟩ := reachable.buffersInGroup r p buf mem
    obtain ⟨c', own', rfl⟩ := reachable'.buffersInGroup r p' buf' mem'
    have other := own.ne own' different
    exact Slots.bytes_disjoint (by omega) le_rfl le_rfl

/-- A job with 8 and 16 byte messages whose heap demand is 128 bytes, behind a refill: the first
progress thread has a receive into the slot of worker 2, and the message of worker 1 is in
the slot of worker 1 at the second. -/
theorem heap_slots_disjoint_smallRun :
    ∃ s : State smallJob, Reachable s ∧
      recvSlot smallJob 2 ∈ s.buffers pong evens ∧
      recvSlot smallJob 1 ∈ s.buffers pong odds ∧
      recvRange smallJob (recvSlot smallJob 2) ⊆ Set.Ico 0 heapSize ∧
      Disjoint (recvRange smallJob (recvSlot smallJob 2)) (sendRange smallJob 3 16) ∧
      Disjoint (recvRange smallJob (recvSlot smallJob 2))
        (recvRange smallJob (recvSlot smallJob 1)) := by
  obtain ⟨s, taken, there⟩ := smallRun_ends
  have reachable : Reachable s := Machine.run_of_actions smallRun taken
  obtain ⟨-, arrived, -, -, -, refilled⟩ := there
  have posted : recvSlot smallJob 2 ∈ s.buffers pong evens :=
    mem_buffers.mpr (.inl (List.mem_of_getLast? refilled))
  have received : recvSlot smallJob 1 ∈ s.buffers pong odds := by
    refine mem_buffers.mpr (.inr (.inl ⟨⟨⟨1, 8, 4⟩, recvSlot smallJob 1⟩, ?_, rfl⟩))
    change _ ∈ s.cq pong odds
    rw [arrived]
    exact List.mem_singleton_self _
  obtain ⟨-, inside, -, apart, others⟩ :=
    heap_slots_disjoint smallJob 8 16 4 (by decide) (by decide)
    (by decide) reachable reachable pong
  exact ⟨s, reachable, posted, received, (inside _ _ posted).2,
    apart _ _ posted (3 : Fin 4) 16 (by decide),
    others _ _ (show evens ≠ odds by decide) _ posted _ received⟩

/-! ## Tokens -/

/-- Nothing is in flight, waiting or in hand. -/
def Silent (s : State cfg) : Prop :=
  ∀ r p, s.net r p = [] ∧ s.cq r p = [] ∧ (s.prg r p).batch = []

/-- Without iterations nothing is ever sent. -/
theorem Silent.move {s s' : State cfg} (silent : Silent s)
    (none : ∀ e, e < cfg.params.loops → cfg.params.iters e = 0) (move : Move s s') : Silent s' := by
  -- what a progress thread does leaves it without messages
  have keeps : ∀ r p stage batch completed, batch = [] →
      ∀ r' p', (put s.prg r p ⟨stage, batch, completed⟩ r' p').batch = [] := by
    intro r p stage batch completed empty
    refine forall_entries r p ?_ ?_
    · rw [put_same]
      exact empty
    · intro r' p' different
      rw [put_of_ne _ _ different]
      exact (silent r' p').2.2
  cases move with
  | sync r t point move => exact silent
  | finish r t instr here done => exact silent
  | send r t iters msgSize here more stage =>
      obtain ⟨e, below, -, rfl⟩ := loop_position here
      rw [none e below] at more
      exact absurd more (Nat.not_lt_zero _)
  | observe r t iters msgSize here more stage token => exact silent
  | consume r t iters msgSize here more stage => exact silent
  | storeSync r syncCount i here iter below => exact silent
  | storeCursor r syncCount i here iter below => exact silent
  | deliver r p k msg buf rest found posted =>
      rw [(silent r p).1] at found
      exact absurd found (by simp)
  | poll r p count stage positive few available =>
      rw [(silent r p).2.1] at available
      exact absurd (positive.trans_le available) (Nat.lt_irrefl 0)
  | refill r p stage batch =>
      exact fun r' p' => ⟨(silent r' p').1, (silent r' p').2.1, keeps r p _ _ _ rfl r' p'⟩
  | read r p head tail stage batch =>
      rw [(silent r p).2.2] at batch
      exact absurd batch (by simp)
  | fetch r p workerIdx stage =>
      exact fun r' p' =>
        ⟨(silent r' p').1, (silent r' p').2.1, keeps r p _ _ _ (silent r p).2.2 r' p'⟩
  | store r p workerIdx cursor stage =>
      exact fun r' p' =>
        ⟨(silent r' p').1, (silent r' p').2.1, keeps r p _ _ _ (silent r p).2.2 r' p'⟩
  | wrap r p workerIdx stage =>
      exact fun r' p' =>
        ⟨(silent r' p').1, (silent r' p').2.1, keeps r p _ _ _ (silent r p).2.2 r' p'⟩
  | bump r p workerIdx stage =>
      refine fun r' p' => ⟨(silent r' p').1, (silent r' p').2.1, keeps r p _ _ _ ?_ r' p'⟩
      exact congrArg List.tail (silent r p).2.2

theorem Reachable.silent {s : State cfg} (reachable : Reachable s)
    (none : ∀ e, e < cfg.params.loops → cfg.params.iters e = 0) : Silent s :=
  reachable.invariant Silent (fun _ _ => ⟨rfl, rfl, rfl⟩) fun silent move => silent.move none move

/-- If every worker has a progress thread of its own, a token points at the buffer its
message is in. If no loop has an iteration, as when there is no size, there are no tokens. -/
theorem dispatched_buffer (cfg : Config)
    (holds : cfg.txThreadNum = cfg.rxThreadNum ∨
      ∀ e, e < cfg.params.loops → cfg.params.iters e = 0) {s : State cfg}
    (reachable : Reachable s) (r : Rank cfg) (p : Prg cfg) (workerIdx : Nat) (head : Completion)
    (tail : List Completion) (stage : (s.prg r p).stage = .bump workerIdx)
    (batch : (s.prg r p).batch = head :: tail) : head.buf = recvSlot cfg workerIdx := by
  rcases holds with equal | none
  · have single : cfg.perGroup = 1 := by
      rw [Config.perGroup, equal, Nat.div_self cfg.rx_pos]
    -- a group of one has only its first worker
    have only : ∀ c, InGroup p c → c = p := by
      rintro c ⟨j, below, rfl⟩
      obtain rfl : j = 0 := by omega
      simp
    have aligned := reachable.inv.aligned r p
    rw [stage] at aligned
    have held : head.buf ∈ s.buffers r p := by
      apply mem_buffers.mpr
      exact .inr (.inr ⟨head, by simp [State.prgSide, batch], rfl⟩)
    obtain ⟨c, own, slot⟩ := reachable.buffersInGroup r p _ held
    rw [slot, only c own, only workerIdx aligned.2]
  · rw [(reachable.silent none r p).2.2] at batch
    exact absurd batch (by simp)

/-- Two ranks with `workers` workers and one progress thread each, and one size. -/
def oneProgressThread (workers : Nat) (positive : 0 < workers) : Config where
  half := 1
  txThreadNum := workers
  rxThreadNum := 1
  maxSize := 8
  params := ⟨0, skip, total, [8]⟩
  tx_pos := positive
  rx_pos := Nat.one_pos
  dvd := Nat.one_dvd workers

/-- The only message of a job with one worker is in the worker's slot. -/
theorem dispatched_buffer_one_worker :
    ∃ s : State (oneProgressThread 1 Nat.one_pos), Reachable s ∧
      ∃ head tail, (s.prg ⟨1, by decide⟩ ⟨0, by decide⟩).batch = head :: tail ∧
        head.buf = recvSlot (oneProgressThread 1 Nat.one_pos) 0 := by
  let ping : Rank (oneProgressThread 1 Nat.one_pos) := ⟨0, by decide⟩
  let pong : Rank (oneProgressThread 1 Nat.one_pos) := ⟨1, by decide⟩
  let only : Worker (oneProgressThread 1 Nat.one_pos) := ⟨0, by decide⟩
  let prg : Prg (oneProgressThread 1 Nat.one_pos) := ⟨0, by decide⟩
  let actions : List (Action (oneProgressThread 1 Nat.one_pos)) :=
    [.store ping, .store ping, .finish ping only, .sync ping only, .sync ping only, .sync ping only,
      .store pong, .store pong, .finish pong only, .sync pong only, .sync pong only,
      .sync pong only, .sync ping only, .sync ping only, .sync ping only, .send ping only,
      .deliver pong prg 0, .poll pong prg 1] ++ List.replicate 4 (.progress pong prg)
  have counted : ((Machine.runActions step (State.init _) actions).map fun s => s.prg pong prg) =
      some ⟨.bump 0, [⟨⟨0, 8, 4⟩, 8⟩], 1⟩ := by
    decide +kernel
  obtain ⟨s, run, thread⟩ := Option.map_eq_some_iff.mp counted
  have reachable : Reachable s := Machine.run_of_actions actions run
  refine ⟨s, reachable, ⟨⟨0, 8, 4⟩, 8⟩, [], by rw [thread], ?_⟩
  exact dispatched_buffer _ (.inl rfl) reachable pong prg 0 _ [] (by rw [thread]) (by rw [thread])

/-- Of two workers that share a progress thread, the second is handed a token for a
message that is in the slot of the first. -/
theorem dispatched_buffer_two_workers :
    ∃ s : State (oneProgressThread 2 Nat.two_pos), Reachable s ∧
      (s.prg ⟨1, by decide⟩ ⟨0, by decide⟩).stage = .bump 1 ∧
      (s.prg ⟨1, by decide⟩ ⟨0, by decide⟩).batch.map Completion.buf =
        [recvSlot (oneProgressThread 2 Nat.two_pos) 0] ∧
      recvSlot (oneProgressThread 2 Nat.two_pos) 0 ≠
        recvSlot (oneProgressThread 2 Nat.two_pos) 1 := by
  let ping : Rank (oneProgressThread 2 Nat.two_pos) := ⟨0, by decide⟩
  let pong : Rank (oneProgressThread 2 Nat.two_pos) := ⟨1, by decide⟩
  let first : Worker (oneProgressThread 2 Nat.two_pos) := ⟨0, by decide⟩
  let second : Worker (oneProgressThread 2 Nat.two_pos) := ⟨1, by decide⟩
  let prg : Prg (oneProgressThread 2 Nat.two_pos) := ⟨0, by decide⟩
  let actions : List (Action (oneProgressThread 2 Nat.two_pos)) :=
    [.finish ping second, .sync ping second, .finish pong second, .sync pong second,
      .store ping, .store ping, .store ping, .finish ping first,
      .sync ping first, .sync ping first, .sync ping first,
      .sync ping second, .sync ping second, .sync ping second,
      .store pong, .store pong, .store pong, .finish pong first,
      .sync pong first, .sync pong first, .sync pong first,
      .sync ping first, .sync ping first, .sync ping first, .sync ping second,
      .send ping first, .send ping second, .deliver pong prg 0, .deliver pong prg 0,
      .poll pong prg 2] ++ List.replicate 9 (.progress pong prg)
  have counted : ((Machine.runActions step (State.init _) actions).map fun s => s.prg pong prg) =
      some ⟨.bump 1, [⟨⟨1, 8, 4⟩, 8⟩], 2⟩ := by
    decide +kernel
  obtain ⟨s, run, thread⟩ := Option.map_eq_some_iff.mp counted
  have reachable : Reachable s := Machine.run_of_actions actions run
  refine ⟨s, reachable, ?_, ?_, by decide⟩
  · rw [thread]
  · rw [thread]
    rfl

end FabricBench.PingpongPrg
