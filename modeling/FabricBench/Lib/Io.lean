import Mathlib.Data.List.Basic

/-!
Programs whose calls may not come back.

Owns: the monad of such programs (`Io`), and when a program does the same as a plainer
one on an abstract state (`Refines`), with the rules for sequencing and for going through
a list.
-/

namespace FabricBench.Lib

/-- A program has returned, is in a call that has not come back, or has done something
that is undefined. -/
inductive Outcome (σ α : Type) where
  | done (value : α) (state : σ)
  | blocked (state : σ)
  | undefined

def Io (σ α : Type) := σ → Outcome σ α

variable {σ α β : Type}

def Outcome.andThen (outcome : Outcome σ α) (rest : α → Io σ β) : Outcome σ β :=
  match outcome with
  | .done value state => rest value state
  | .blocked state => .blocked state
  | .undefined => .undefined

/-- What a program has returned. -/
def Outcome.value? : Outcome σ α → Option α
  | .done value _ => some value
  | _ => none

theorem Outcome.value?_eq_some {outcome : Outcome σ α} {value : α} :
    outcome.value? = some value ↔ ∃ state, outcome = .done value state := by
  cases outcome <;> simp [Outcome.value?]

namespace Io

instance : Monad (Io σ) where
  pure value := fun state => .done value state
  bind first rest := fun state => Outcome.andThen (first state) rest

/-- A value that depends on the state. -/
def gets (read : σ → α) : Io σ α := fun state => .done (read state) state

def modify (change : σ → σ) : Io σ Unit := fun state => .done () (change state)

/-- A call that does not come back. -/
def block : Io σ α := fun state => .blocked state

/-- Run a program for each element of a list, in order. -/
def forEach (body : β → Io σ α) : List β → Io σ (List α)
  | [] => pure []
  | x :: rest => do
      let value ← body x
      let values ← forEach body rest
      pure (value :: values)

theorem pure_apply (value : α) (state : σ) :
    (pure value : Io σ α) state = .done value state := rfl

theorem gets_apply (read : σ → α) (state : σ) : gets read state = .done (read state) state := rfl

theorem bind_done {first : Io σ α} {state state' : σ} {value : α}
    (ran : first state = .done value state') (rest : α → Io σ β) :
    (first >>= rest) state = rest value state' :=
  congrArg (Outcome.andThen · rest) ran

theorem bind_blocked {first : Io σ α} {state state' : σ}
    (ran : first state = .blocked state') (rest : α → Io σ β) :
    (first >>= rest) state = .blocked state' :=
  congrArg (Outcome.andThen · rest) ran

theorem bind_undefined {first : Io σ α} {state : σ} (ran : first state = .undefined)
    (rest : α → Io σ β) : (first >>= rest) state = .undefined :=
  congrArg (Outcome.andThen · rest) ran

/-- A sequence that has returned has returned at its middle. -/
theorem bind_eq_done {first : Io σ α} {rest : α → Io σ β} {state state' : σ} {value : β}
    (ran : (first >>= rest) state = .done value state') :
    ∃ middle between, first state = .done middle between ∧
      rest middle between = .done value state' := by
  cases start : first state with
  | done middle between =>
      rw [bind_done start] at ran
      exact ⟨middle, between, rfl, ran⟩
  | blocked between =>
      rw [bind_blocked start] at ran
      exact nomatch ran
  | undefined =>
      rw [bind_undefined start] at ran
      exact nomatch ran

end Io

/-! ## Refinement -/

/-- From the states of `inv`, which the program keeps, it does on its own state what
`plain` does on the abstract one: it returns the same value, blocks or is undefined in
the same cases, and the states correspond. -/
def Refines {τ : Type} (inv : σ → Prop) (abs : σ → τ) (program : Io σ α) (plain : Io τ α) : Prop :=
  ∀ s, inv s →
    match program s with
    | .done value s' => plain (abs s) = .done value (abs s') ∧ inv s'
    | .blocked s' => plain (abs s) = .blocked (abs s')
    | .undefined => plain (abs s) = .undefined

namespace Refines

variable {τ : Type} {inv : σ → Prop} {abs : σ → τ}

/-- The program returns where the plain one does. -/
theorem done {program : Io σ α} {plain : Io τ α} (refines : Refines inv abs program plain) {s : σ}
    (start : inv s) {value : α} {t : τ} (returns : plain (abs s) = .done value t) :
    ∃ s', program s = .done value s' ∧ abs s' = t ∧ inv s' := by
  have same := refines s start
  cases ran : program s with
  | done value' s' =>
      rw [ran, returns] at same
      obtain ⟨rfl, rfl⟩ := Outcome.done.inj same.1
      exact ⟨s', rfl, rfl, same.2⟩
  | blocked s' =>
      rw [ran, returns] at same
      exact nomatch same
  | undefined =>
      rw [ran, returns] at same
      exact nomatch same

/-- The program blocks where the plain one does. -/
theorem blocked {program : Io σ α} {plain : Io τ α} (refines : Refines inv abs program plain)
    {s : σ} (start : inv s) {t : τ} (blocks : plain (abs s) = .blocked t) :
    ∃ s', program s = .blocked s' ∧ abs s' = t := by
  have same := refines s start
  cases ran : program s with
  | done value' s' =>
      rw [ran, blocks] at same
      exact nomatch same.1
  | blocked s' =>
      rw [ran, blocks] at same
      obtain rfl := Outcome.blocked.inj same
      exact ⟨s', rfl, rfl⟩
  | undefined =>
      rw [ran, blocks] at same
      exact nomatch same

theorem pure (value : α) : Refines inv abs (Pure.pure value : Io σ α) (Pure.pure value) :=
  fun _ start => ⟨rfl, start⟩

theorem bind {first : Io σ α} {plainFirst : Io τ α} {rest : α → Io σ β} {plainRest : α → Io τ β}
    (refines : Refines inv abs first plainFirst)
    (continues : ∀ value, Refines inv abs (rest value) (plainRest value)) :
    Refines inv abs (first >>= rest) (plainFirst >>= plainRest) := by
  intro s start
  have head := refines s start
  cases ran : first s with
  | done value s' =>
      rw [ran] at head
      rw [Io.bind_done ran, Io.bind_done head.1]
      exact continues value s' head.2
  | blocked s' =>
      rw [ran] at head
      rw [Io.bind_blocked ran]
      exact Io.bind_blocked head plainRest
  | undefined =>
      rw [ran] at head
      rw [Io.bind_undefined ran]
      exact Io.bind_undefined head plainRest

theorem forEach {body : β → Io σ α} {plainBody : β → Io τ α}
    (refines : ∀ x, Refines inv abs (body x) (plainBody x)) (xs : List β) :
    Refines inv abs (Io.forEach body xs) (Io.forEach plainBody xs) := by
  induction xs with
  | nil => exact pure []
  | cons x others inductionHypothesis =>
      refine (refines x).bind fun value => ?_
      exact inductionHypothesis.bind fun values => pure (value :: values)

end Refines

end FabricBench.Lib
