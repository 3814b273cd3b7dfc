import FabricBench.Backend.Send
import FabricBench.Config
import FabricBench.Lib.ForLoop
import Mathlib.Logic.Function.Basic

/-!
The receive operations of the verbs and the libfabric backend, as programs over the
results that the transport gives to their calls.

Owns: `irecv` of both, with the chain of work requests that the one builds and the loop
of calls that the other makes, and `progress` of both. `irecv_exact` and `irecv_returns`
say that `irecv` posts exactly as many receives as it is asked for.
-/

namespace FabricBench

open FabricBench.Lib
open FabricBench.Lib.Calls

/-- A receive as the transport holds it: where the message goes, and how long it may be. -/
structure RecvRequest where
  addr : Nat
  length : Nat
deriving DecidableEq, Repr

/-! ## Verbs -/

/-- `ibv_recv_wr`: the index of the next work request of the array or `NULL`, and the
entry of the scatter list. -/
structure Verbs.RecvWr where
  next : Option Nat
  sge : RecvRequest

/-- The array `wrs`, built over whatever is on the stack. -/
def Verbs.recvWrs (stack : Nat → Verbs.RecvWr) (request : RecvRequest) (count : Nat) :
    Nat → Verbs.RecvWr :=
  let wrs := forLoop count (fun wrs i => Function.update wrs i ⟨some (i + 1), request⟩) stack
  Function.update wrs (count - 1) { wrs (count - 1) with next := none }

/-- `ibv_post_srq_recv` posts the work requests from `wr` on along their `next`. A chain
of more than `fuel` of them is `none`. -/
def Verbs.postChain (wrs : Nat → Verbs.RecvWr) : Nat → Option Nat → Option (List RecvRequest)
  | _, none => some []
  | 0, some _ => none
  | fuel + 1, some wr => (Verbs.postChain wrs fuel (wrs wr).next).map ((wrs wr).sge :: ·)

/-- The receives that `irecv` posts. The array has `count` entries. -/
def Verbs.irecv (stack : Nat → Verbs.RecvWr) (request : RecvRequest) (count : Nat) :
    Prog Int (List RecvRequest) :=
  if count = 0 then return []
  else do
    safecall (← call)
    match Verbs.postChain (Verbs.recvWrs stack request count) count (some 0) with
    | some posted => return posted
    -- the call follows the chain without end
    | none => fun _ => .error .waiting

/-- `ibv_poll_cq` returns a number of completions or a negative error; each completion
has a status. -/
def Verbs.progress (numCompleted : Int) (success : Bool) : Except Stop Nat :=
  if numCompleted < 0 then .error .exited
  else if 0 < numCompleted ∧ success = false then .error .exited
  else .ok numCompleted.toNat

/-! ## Libfabric -/

/-- The loop of `irecv`, with what it has posted. -/
def Libfabric.irecvLoop (request : RecvRequest) :
    Nat → List RecvRequest → Prog Int (List RecvRequest)
  | 0, posted => return posted
  | more + 1, posted => do
      Libfabric.check (← doWhile (· == fiAgain))
      Libfabric.irecvLoop request more (posted ++ [request])

def Libfabric.irecv (request : RecvRequest) (count : Nat) : Prog Int (List RecvRequest) :=
  if count = 0 then return [] else Libfabric.irecvLoop request count []

/-- `fi_cq_read` returns a number of completions, or a negative error. -/
def Libfabric.progress (ret : Int) : Except Stop Nat :=
  if 0 < ret then .ok ret.toNat
  else if ret = fiAgain then .ok 0
  else .error .exited

/-! ## Both -/

/-- A backend with completion queues. For verbs with what is on its stack when `irecv` is
called. -/
inductive QueueBackend where
  | verbs (stack : Nat → Verbs.RecvWr)
  | libfabric

def QueueBackend.irecv : QueueBackend → RecvRequest → Nat → Prog Int (List RecvRequest)
  | .verbs stack => Verbs.irecv stack
  | .libfabric => Libfabric.irecv

def QueueBackend.progress : QueueBackend → Int → Bool → Except Stop Nat
  | .verbs _, numCompleted, success => Verbs.progress numCompleted success
  | .libfabric, ret, _ => Libfabric.progress ret

/-- Results on which `irecv` does not exit: one zero for the whole chain, or one for each
receive, behind any number of "try again". -/
def QueueBackend.Accepts : QueueBackend → Nat → List Int → Prop
  | .verbs _, count, results => count ≠ 0 → ∃ rest, results = 0 :: rest
  | .libfabric, count, results => ∃ (retries : List Nat) (rest : List Int), retries.length = count ∧
      results = retries.flatMap (fun n => List.replicate n fiAgain ++ [0]) ++ rest

/-- `progress` returns the number of completions that the poll took, and nothing was
taken when it returns zero. -/
theorem QueueBackend.progress_eq_ok {backend : QueueBackend} {result : Int} {success : Bool}
    {n : Nat}
    (returned : backend.progress result success = .ok n) : n = result.toNat := by
  cases backend with
  | verbs stack =>
      simp only [QueueBackend.progress, Verbs.progress] at returned
      split_ifs at returned
      cases returned
      rfl
  | libfabric =>
      simp only [QueueBackend.progress, Libfabric.progress] at returned
      split_ifs at returned with some again
      · cases returned
        rfl
      · cases returned
        rw [again]
        rfl

/-! ## The chain -/

section Chain

variable {stack : Nat → Verbs.RecvWr} {request : RecvRequest} {count : Nat}

theorem Verbs.recvWrs_of_lt {i : Nat} (below : i < count) :
    Verbs.recvWrs stack request count i =
      ⟨if i + 1 = count then none else some (i + 1), request⟩ := by
  have entry : forLoop count (fun wrs i => Function.update wrs i ⟨some (i + 1), request⟩) stack i =
      ⟨some (i + 1), request⟩ := by
    rw [forLoop_update count (fun i _ => ⟨some (i + 1), request⟩) stack i, if_pos below]
  unfold Verbs.recvWrs
  by_cases last : i = count - 1
  · rw [← last, Function.update_self, entry, if_pos (by omega)]
  · rw [Function.update_of_ne last, entry, if_neg (by omega)]

/-- From entry `i` on the chain goes through the rest of the array. -/
theorem Verbs.postChain_recvWrs (more i : Nat) (end_eq : i + more + 1 = count) :
    Verbs.postChain (Verbs.recvWrs stack request count) (more + 1) (some i) =
      some (List.replicate (more + 1) request) := by
  induction more generalizing i with
  | zero =>
      rw [Verbs.postChain, Verbs.recvWrs_of_lt (by omega), if_pos (by omega)]
      rfl
  | succ more inductionHypothesis =>
      rw [Verbs.postChain, Verbs.recvWrs_of_lt (by omega), if_neg (by omega),
        inductionHypothesis (i + 1) (by omega)]
      rfl

end Chain

/-! ## Exactly `count` receives -/

section Exact

variable {request : RecvRequest} {script script' : Script Int} {posted : List RecvRequest}

theorem Verbs.irecv_exact {stack : Nat → Verbs.RecvWr} {count : Nat}
    (ran : Verbs.irecv stack request count script = .ok (posted, script')) :
    posted = List.replicate count request := by
  unfold Verbs.irecv at ran
  split_ifs at ran with zero
  · cases ran
    rw [zero]
    rfl
  · obtain ⟨more, rfl⟩ : ∃ more, count = more + 1 := ⟨count - 1, by omega⟩
    rw [Verbs.postChain_recvWrs more 0 (by omega)] at ran
    obtain ⟨err, middle, -, rest⟩ := bind_eq_ok ran
    obtain ⟨-, last, -, returned⟩ := bind_eq_ok rest
    cases returned
    rfl

theorem Libfabric.irecvLoop_exact {more : Nat} {before : List RecvRequest}
    (ran : Libfabric.irecvLoop request more before script = .ok (posted, script')) :
    posted = before ++ List.replicate more request := by
  induction more generalizing before script with
  | zero =>
      cases ran
      rw [List.replicate_zero, List.append_nil]
  | succ more inductionHypothesis =>
      obtain ⟨ret, middle, -, rest⟩ := bind_eq_ok ran
      obtain ⟨-, last, -, loop⟩ := bind_eq_ok rest
      rw [inductionHypothesis loop, List.append_assoc]
      rfl

theorem Libfabric.irecv_exact {count : Nat}
    (ran : Libfabric.irecv request count script = .ok (posted, script')) :
    posted = List.replicate count request := by
  unfold Libfabric.irecv at ran
  split_ifs at ran with zero
  · cases ran
    rw [zero]
    rfl
  · exact Libfabric.irecvLoop_exact ran

/-- Whatever the transport answers: if `irecv` returns, it has posted `count` receives. -/
theorem QueueBackend.irecv_exact (backend : QueueBackend) {count : Nat}
    (ran : backend.irecv request count script = .ok (posted, script')) :
    posted = List.replicate count request := by
  cases backend with
  | verbs stack => exact Verbs.irecv_exact ran
  | libfabric => exact Libfabric.irecv_exact ran

end Exact

section Returns

variable {request : RecvRequest}

theorem Libfabric.irecvLoop_eq (retries : List Nat) (before : List RecvRequest)
    (made rest : List Int) :
    ∃ script', Libfabric.irecvLoop request retries.length before
        ⟨made, retries.flatMap (fun n => List.replicate n fiAgain ++ [0]) ++ rest⟩ =
      .ok (before ++ List.replicate retries.length request, script') := by
  induction retries generalizing before made with
  | nil => exact ⟨_, by simp [Libfabric.irecvLoop]; rfl⟩
  | cons n retries inductionHypothesis =>
      have again : ∀ result ∈ List.replicate n fiAgain, (result == fiAgain) = true := by
        intro result mem
        rw [List.eq_of_mem_replicate mem]
        rfl
      have loop := doWhile_eq made
          (retries.flatMap (fun n => List.replicate n fiAgain ++ [0]) ++ rest)
        again (show ((0 : Int) == fiAgain) = false by decide)
      obtain ⟨script', ran⟩ := inductionHypothesis (before ++ [request])
        (made ++ List.replicate n fiAgain ++ [0])
      refine ⟨script', ?_⟩
      rw [List.flatMap_cons, List.append_assoc, List.append_assoc, List.length_cons,
        Libfabric.irecvLoop, List.singleton_append, bind_ok loop, bind_ok (Libfabric.check_eq 0 _),
        ran, List.append_assoc]
      rfl

theorem QueueBackend.exists_accepts (backend : QueueBackend) (count : Nat) :
    ∃ results, backend.Accepts count results := by
  cases backend with
  | verbs stack => exact ⟨[0], fun _ => ⟨[], rfl⟩⟩
  | libfabric => exact ⟨_, List.replicate count 0, [], List.length_replicate, rfl⟩

/-- With results that accept them, `irecv` posts the receives and returns. -/
theorem QueueBackend.irecv_returns (backend : QueueBackend) (request : RecvRequest) {count : Nat}
    {results : List Int} (accepts : backend.Accepts count results) :
    ∃ script', backend.irecv request count ⟨[], results⟩ =
      .ok (List.replicate count request, script') := by
  by_cases zero : count = 0
  · subst zero
    cases backend with
    | verbs stack => exact ⟨_, rfl⟩
    | libfabric => exact ⟨_, rfl⟩
  · cases backend with
    | verbs stack =>
        obtain ⟨rest, rfl⟩ := accepts zero
        obtain ⟨more, rfl⟩ : ∃ more, count = more + 1 := ⟨count - 1, by omega⟩
        have ran : call ⟨[], (0 : Int) :: rest⟩ = .ok (0, ⟨[0], rest⟩) := rfl
        refine ⟨⟨[0], rest⟩, ?_⟩
        rw [QueueBackend.irecv, Verbs.irecv, if_neg zero, bind_ok ran, bind_ok (safecall_eq 0 _),
          Verbs.postChain_recvWrs more 0 (by omega)]
        rfl
    | libfabric =>
        obtain ⟨retries, rest, rfl, rfl⟩ := accepts
        rw [QueueBackend.irecv, Libfabric.irecv, if_neg zero]
        exact Libfabric.irecvLoop_eq retries [] [] rest

end Returns

end FabricBench
