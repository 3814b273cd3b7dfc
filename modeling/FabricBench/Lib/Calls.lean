import Mathlib.Data.List.Basic

/-!
Programs that call an interface whose results are given in advance.

Owns: the calls of such a program (`call`, `exit`), the loop that repeats a call while
its result asks for that (`doWhile`), and which results the loop uses up.
-/

namespace FabricBench.Lib.Calls

variable {ρ α β : Type}

/-- Why a program has not returned: it ended the process, or it is in a call that has
not come back. -/
inductive Stop where
  | exited
  | waiting
deriving DecidableEq, Repr

/-- The results of the calls made, in order, and those of the calls to come. -/
structure Script (ρ : Type) where
  made : List ρ
  left : List ρ
deriving DecidableEq, Repr

/-- A program whose calls have results of type `ρ`. -/
abbrev Prog (ρ α : Type) := StateT (Script ρ) (Except Stop) α

def call : Prog ρ ρ := fun script =>
  match script.left with
  | [] => .error .waiting
  | result :: rest => .ok (result, ⟨script.made ++ [result], rest⟩)

def exit : Prog ρ α := fun _ => .error .exited

/-- `do result = call(); while (again(result))`, on what is made and what is left. -/
def doWhileFrom (again : ρ → Bool) (made : List ρ) : List ρ → Except Stop (ρ × Script ρ)
  | [] => .error .waiting
  | result :: rest =>
      if again result then doWhileFrom again (made ++ [result]) rest
      else .ok (result, ⟨made ++ [result], rest⟩)

def doWhile (again : ρ → Bool) : Prog ρ ρ := fun script =>
  doWhileFrom again script.made script.left

theorem bind_ok {first : Prog ρ α} {script script' : Script ρ} {a : α}
    (ran : first script = .ok (a, script')) (rest : α → Prog ρ β) :
    (first >>= rest) script = rest a script' := by
  change (first script >>= fun result => rest result.1 result.2) = _
  rw [ran]
  rfl

theorem bind_eq_ok {first : Prog ρ α} {rest : α → Prog ρ β} {script script' : Script ρ} {b : β}
    (ran : (first >>= rest) script = .ok (b, script')) :
    ∃ a middle, first script = .ok (a, middle) ∧ rest a middle = .ok (b, script') := by
  cases head : first script with
  | error stop =>
      change (first script >>= fun result => rest result.1 result.2) = _ at ran
      rw [head] at ran
      cases ran
  | ok result =>
      rw [bind_ok head] at ran
      exact ⟨result.1, result.2, rfl, ran⟩

/-- The loop ends with the first result that does not ask for another call. -/
theorem doWhileFrom_eq {again : ρ → Bool} {agains : List ρ} {final : ρ} (made rest : List ρ)
    (retried : ∀ result ∈ agains, again result = true) (last : again final = false) :
    doWhileFrom again made (agains ++ final :: rest) =
      .ok (final, ⟨made ++ agains ++ [final], rest⟩) := by
  induction agains generalizing made with
  | nil =>
      rw [List.nil_append, doWhileFrom, if_neg (by simp [last]), List.append_nil]
  | cons result agains inductionHypothesis =>
      rw [List.cons_append, doWhileFrom, if_pos (retried result List.mem_cons_self),
        inductionHypothesis _ fun other mem => retried other (List.mem_cons_of_mem _ mem)]
      simp

theorem doWhile_eq {again : ρ → Bool} {agains : List ρ} {final : ρ} (made rest : List ρ)
    (retried : ∀ result ∈ agains, again result = true) (last : again final = false) :
    doWhile again ⟨made, agains ++ final :: rest⟩ =
      .ok (final, ⟨made ++ agains ++ [final], rest⟩) :=
  doWhileFrom_eq made rest retried last

end FabricBench.Lib.Calls
