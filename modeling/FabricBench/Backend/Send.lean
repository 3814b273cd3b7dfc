import FabricBench.Lib.Calls

/-!
The send operations of the three backends, as programs over the results that the
transport gives to their submissions.

Owns: `isend` of verbs and of libfabric and `isend_tag` of UCX with its two paths, what
their callers rely on (`AcceptedOnce`), and exactly when it holds. What the checking
macros print is not modelled, and neither is the progress that the UCX operations make
between two attempts.
-/

namespace FabricBench

open FabricBench.Lib
open FabricBench.Lib.Calls

/-! ## Verbs -/

/-- `IBV_SAFECALL` and `FI_SAFECALL` exit on any result other than zero. -/
def safecall (err : Int) : Prog Int Unit := if err ≠ 0 then exit else return ()

/-- One `ibv_post_send`, which returns zero or an error number. -/
def Verbs.isend : Prog Int Unit := do safecall (← call)

/-! ## Libfabric -/

/-- `-FI_EAGAIN`. -/
def fiAgain : Int := -11

/-- `if (ret) FI_SAFECALL(ret)`. -/
def Libfabric.check (ret : Int) : Prog Int Unit := if ret ≠ 0 then safecall ret else return ()

def Libfabric.isend : Prog Int Unit := do Libfabric.check (← doWhile (· == fiAgain))

/-! ## UCX -/

def ucsOk : Int := 0

def ucsErrNoResource : Int := -2

/-- `CHKERR_MSG` prints and goes on. -/
def chkerrMsg (_failed : Bool) : Prog Int Unit := return ()

/-- `uct_ep_am_short` returns a status. -/
def Ucx.isendAmShort : Prog Int Unit := do
  let status ← doWhile (· == ucsErrNoResource)
  chkerrMsg (ucsOk != status)

/-- `uct_ep_am_bcopy` returns the length of the message, or a status if that is
negative. -/
def Ucx.isendAmBcopy : Prog Int Int := do
  let len ← doWhile (· == ucsErrNoResource)
  return if 0 ≤ len then ucsOk else len

def Ucx.isendTag (maxAmShortSize size : Nat) : Prog Int Unit :=
  if size ≤ maxAmShortSize then Ucx.isendAmShort else do let _ ← Ucx.isendAmBcopy

/-! ## The contract -/

/-- A send operation of a backend. -/
inductive SendOp where
  | verbs
  | libfabric
  | ucx (maxAmShortSize size : Nat)
deriving DecidableEq, Repr

def SendOp.run : SendOp → Prog Int Unit
  | .verbs => Verbs.isend
  | .libfabric => Libfabric.isend
  | .ucx maxAmShortSize size => Ucx.isendTag maxAmShortSize size

/-- The transport asks to try again. -/
def SendOp.again : SendOp → Int → Bool
  | .verbs, _ => false
  | .libfabric, result => result == fiAgain
  | .ucx _ _, result => result == ucsErrNoResource

/-- The transport took the message. -/
def SendOp.accepts : SendOp → Int → Bool
  | .verbs, result => result == 0
  | .libfabric, result => result == 0
  | .ucx maxAmShortSize size, result =>
      if size ≤ maxAmShortSize then result == ucsOk else decide (0 ≤ result)

/-- The backend ends the process on an error. -/
def SendOp.aborts : SendOp → Bool
  | .verbs => true
  | .libfabric => true
  | .ucx _ _ => false

/-- On these results the operation returns, and the transport took the message exactly
once, or it ends the process. -/
def AcceptedOnce (op : SendOp) (results : List Int) : Prop :=
  match op.run ⟨[], results⟩ with
  | .ok (_, script) => script.made.countP op.accepts = 1
  | .error .exited => True
  | .error .waiting => False

/-! ## The three operations -/

section Results

variable {agains rest : List Int} {final : Int}

theorem safecall_eq (err : Int) (script : Script Int) :
    safecall err script = if err = 0 then .ok ((), script) else .error .exited := by
  unfold safecall
  by_cases zero : err = 0
  · rw [if_neg (not_not.mpr zero), if_pos zero]
    rfl
  · rw [if_pos zero, if_neg zero]
    rfl

theorem Libfabric.check_eq (ret : Int) (script : Script Int) :
    Libfabric.check ret script = if ret = 0 then .ok ((), script) else .error .exited := by
  unfold Libfabric.check
  by_cases zero : ret = 0
  · rw [if_neg (not_not.mpr zero), if_pos zero]
    rfl
  · rw [if_pos zero, safecall_eq]

theorem Verbs.isend_eq :
    Verbs.isend ⟨[], final :: rest⟩ =
      if final = 0 then .ok ((), ⟨[final], rest⟩) else .error .exited := by
  have ran : call ⟨[], final :: rest⟩ = .ok (final, ⟨[final], rest⟩) := rfl
  rw [Verbs.isend, bind_ok ran, safecall_eq]

/-- The retry loop and the check behind it: one submission past the last "try again". -/
theorem Libfabric.isend_eq (retried : ∀ result ∈ agains, (result == fiAgain) = true)
    (last : (final == fiAgain) = false) :
    Libfabric.isend ⟨[], agains ++ final :: rest⟩ =
      if final = 0 then .ok ((), ⟨agains ++ [final], rest⟩) else .error .exited := by
  rw [Libfabric.isend, bind_ok (doWhile_eq [] rest retried last), Libfabric.check_eq]
  rfl

/-- On neither path does UCX act on the last result. -/
theorem Ucx.isendTag_eq (maxAmShortSize size : Nat)
    (retried : ∀ result ∈ agains, (result == ucsErrNoResource) = true)
    (last : (final == ucsErrNoResource) = false) :
    Ucx.isendTag maxAmShortSize size ⟨[], agains ++ final :: rest⟩ =
      .ok ((), ⟨agains ++ [final], rest⟩) := by
  have loop := doWhile_eq [] rest retried last
  unfold Ucx.isendTag
  split_ifs with short
  · rw [Ucx.isendAmShort, bind_ok loop]
    rfl
  · have copied : Ucx.isendAmBcopy ⟨[], agains ++ final :: rest⟩ =
        .ok (if 0 ≤ final then ucsOk else final, ⟨agains ++ [final], rest⟩) := by
      rw [Ucx.isendAmBcopy, bind_ok loop]
      rfl
    rw [bind_ok copied]
    rfl

/-- Of "try again" results and a last one, only the last can be an acceptance. -/
theorem SendOp.countP_accepts (op : SendOp) (retried : ∀ result ∈ agains, op.again result = true) :
    (agains ++ [final]).countP op.accepts = if op.accepts final then 1 else 0 := by
  have none : agains.countP op.accepts = 0 := by
    apply List.countP_eq_zero.mpr
    intro result mem
    have again := retried result mem
    cases op with
    | verbs => simp [SendOp.again] at again
    | libfabric =>
        obtain rfl : result = fiAgain := by simpa [SendOp.again] using again
        decide
    | ucx maxAmShortSize size =>
        obtain rfl : result = ucsErrNoResource := by simpa [SendOp.again] using again
        simp only [SendOp.accepts]
        split_ifs
        · decide
        · decide
  rw [List.countP_append, none, List.countP_singleton, Nat.zero_add]

/-- Every operation returns once the transport gives a result other than "try again",
unless it ends the process. -/
theorem SendOp.run_eq (op : SendOp) (retried : ∀ result ∈ agains, op.again result = true)
    (last : op.again final = false) :
    op.run ⟨[], agains ++ final :: rest⟩ =
      if op.aborts && final != 0 then .error .exited else .ok ((), ⟨agains ++ [final], rest⟩) := by
  cases op with
  | verbs =>
      have none : agains = [] := by
        apply List.eq_nil_iff_forall_not_mem.mpr
        intro result mem
        exact absurd (retried result mem) (by simp [SendOp.again])
      rw [none, SendOp.run, List.nil_append, Verbs.isend_eq]
      by_cases zero : final = 0 <;> simp [SendOp.aborts, zero]
  | libfabric =>
      rw [SendOp.run, Libfabric.isend_eq retried last]
      by_cases zero : final = 0 <;> simp [SendOp.aborts, zero]
  | ucx maxAmShortSize size =>
      rw [SendOp.run, Ucx.isendTag_eq maxAmShortSize size retried last]
      rfl

theorem SendOp.accepts_zero (op : SendOp) (aborts : op.aborts = true) (zero : final = 0) :
    op.accepts final = true := by
  subst zero
  cases op with
  | verbs => rfl
  | libfabric => rfl
  | ucx maxAmShortSize size => cases aborts

end Results

/-! ## Main theorem -/

/-- Verbs and libfabric always keep the contract. UCX keeps it exactly when the first
result other than "try again" is an acceptance: on an error it returns with the message
dropped. -/
theorem acceptedOnce_iff (op : SendOp) (agains rest : List Int) (final : Int)
    (retried : ∀ result ∈ agains, op.again result = true) (last : op.again final = false) :
    AcceptedOnce op (agains ++ final :: rest) ↔ op.aborts = true ∨ op.accepts final = true := by
  unfold AcceptedOnce
  rw [op.run_eq retried last]
  by_cases exits : (op.aborts && final != 0) = true
  · rw [if_pos exits]
    have aborts : op.aborts = true := (Bool.and_eq_true_iff.mp exits).1
    simp [aborts]
  · rw [if_neg exits]
    change (agains ++ [final]).countP op.accepts = 1 ↔ _
    rw [op.countP_accepts retried]
    by_cases accepted : op.accepts final = true
    · simp [accepted]
    · -- a backend that aborts and did not is one whose result was zero
      have goes : op.aborts ≠ true := by
        intro aborts
        apply accepted
        have zero : final = 0 := by simpa [aborts] using exits
        exact op.accepts_zero aborts zero
      simp [accepted, goes]

/-- Two "try again" results and an acceptance, on the short path. -/
theorem acceptedOnce_after_retries : AcceptedOnce (.ucx 92 8) [-2, -2, 0] :=
  (acceptedOnce_iff (.ucx 92 8) [-2, -2] [] 0 (by decide) (by decide)).mpr (by decide)

/-- On both paths of UCX an error other than "try again", here `UCS_ERR_IO_ERROR`, makes
the operation return after one submission that was not accepted. -/
theorem ucx_send_dropped :
    (SendOp.ucx 92 8).run ⟨[], [-3]⟩ = .ok ((), ⟨[-3], []⟩) ∧ ¬ AcceptedOnce (.ucx 92 8) [-3] ∧
      (SendOp.ucx 92 128).run ⟨[], [-3]⟩ = .ok ((), ⟨[-3], []⟩) ∧
      ¬ AcceptedOnce (.ucx 92 128) [-3] := by
  refine ⟨rfl, ?_, rfl, ?_⟩
  · change ¬ [-3].countP (SendOp.ucx 92 8).accepts = 1
    decide
  · change ¬ [-3].countP (SendOp.ucx 92 128).accepts = 1
    decide

end FabricBench
