import Mathlib.Data.List.Basic
import Mathlib.Logic.Function.Basic

/-!
Owns a key-value store that several parties fill, each in its own order: any
interleaving of their puts gives the same store if no two of them put different
values under one key.
-/

namespace FabricBench.Lib.Kvs

variable {κ ν : Type} [DecidableEq κ]

/-- A key-value map. -/
abbrev Store (κ ν : Type) := κ → Option ν

def put (store : Store κ ν) (entry : κ × ν) : Store κ ν :=
  Function.update store entry.1 (some entry.2)

def putAll (store : Store κ ν) (entries : List (κ × ν)) : Store κ ν := entries.foldl put store

theorem putAll_of_not_mem {store : Store κ ν} {entries : List (κ × ν)} {key : κ}
    (absent : ∀ value, (key, value) ∉ entries) : putAll store entries key = store key := by
  induction entries generalizing store with
  | nil => rfl
  | cons entry rest inductionHypothesis =>
      have other : key ≠ entry.1 := by
        rintro rfl
        exact absent entry.2 List.mem_cons_self
      have later : ∀ value, (key, value) ∉ rest := fun value member =>
        absent value (List.mem_cons_of_mem _ member)
      calc putAll store (entry :: rest) key = put store entry key := inductionHypothesis later
        _ = store key := Function.update_of_ne other _ _

/-- A key under which only one value is put has that value in the end. -/
theorem putAll_of_mem {store : Store κ ν} {entries : List (κ × ν)} {key : κ} {value : ν}
    (member : (key, value) ∈ entries) (only : ∀ value', (key, value') ∈ entries → value' = value) :
    putAll store entries key = some value := by
  induction entries generalizing store with
  | nil => exact absurd member List.not_mem_nil
  | cons entry rest inductionHypothesis =>
      by_cases again : (key, value) ∈ rest
      · exact inductionHypothesis again fun value' later =>
          only value' (List.mem_cons_of_mem _ later)
      · have last : entry = (key, value) := by
          rcases List.mem_cons.mp member with same | later
          · exact same.symm
          · exact absurd later again
        have absent : ∀ value', (key, value') ∉ rest := by
          intro value' later
          rw [only value' (List.mem_cons_of_mem _ later)] at later
          exact again later
        calc putAll store (entry :: rest) key = put store entry key := putAll_of_not_mem absent
          _ = some value := by rw [last, put, Function.update_self]

/-! ## Interleavings -/

/-- A sequence of entries, each marked with the party it comes from, in which every
party of the first `parties` puts its entries in its own order. -/
def Interleaving {α : Type} (parties : Nat) (entries : Nat → List α) (order : List (Nat × α)) :
    Prop :=
  ∀ party, (order.filter fun marked => marked.1 = party).map Prod.snd =
    if party < parties then entries party else []

theorem Interleaving.mem_iff {α : Type} {parties : Nat} {entries : Nat → List α}
    {order : List (Nat × α)} (interleaving : Interleaving parties entries order) {party : Nat}
    {entry : α} : (party, entry) ∈ order ↔ party < parties ∧ entry ∈ entries party := by
  have own : entry ∈ (order.filter fun marked => marked.1 = party).map Prod.snd ↔
      (party, entry) ∈ order := by
    simp
  rw [← own, interleaving party]
  split_ifs with below
  · simp [below]
  · simp [below]

/-- Whatever the order of the puts, a key that only one value is put under has that
value. -/
theorem Interleaving.get {parties : Nat} {entries : Nat → List (κ × ν)}
    {order : List (Nat × (κ × ν))} (interleaving : Interleaving parties entries order)
    (store : Store κ ν) {party : Nat} {key : κ} {value : ν} (below : party < parties)
    (member : (key, value) ∈ entries party)
    (only : ∀ party', party' < parties →
      ∀ value', (key, value') ∈ entries party' → value' = value) :
    putAll store (order.map Prod.snd) key = some value := by
  refine putAll_of_mem ?_ fun value' found => ?_
  · exact List.mem_map.mpr ⟨(party, key, value), interleaving.mem_iff.mpr ⟨below, member⟩, rfl⟩
  · obtain ⟨⟨party', entry⟩, marked, rfl⟩ := List.mem_map.mp found
    obtain ⟨below', member'⟩ := interleaving.mem_iff.mp marked
    exact only party' below' value' member'

/-- One party after the other. -/
def sequential {α : Type} (parties : Nat) (entries : Nat → List α) : List (Nat × α) :=
  (List.range parties).flatMap fun party => (entries party).map (Prod.mk party)

theorem interleaving_sequential {α : Type} (parties : Nat) (entries : Nat → List α) :
    Interleaving parties entries (sequential parties entries) := by
  intro party
  induction parties with
  | zero => simp [sequential]
  | succ parties inductionHypothesis =>
      have last : sequential (parties + 1) entries =
          sequential parties entries ++ (entries parties).map (Prod.mk parties) := by
        simp [sequential, List.range_succ]
      rw [last, List.filter_append, List.map_append, inductionHypothesis]
      rcases Nat.lt_trichotomy party parties with before | rfl | after
      · have other : parties ≠ party := by omega
        simp [before, other, Nat.lt_succ_of_lt before, List.filter_map, Function.comp_def]
      · simp [List.filter_map, Function.comp_def]
      · have notLess : ¬ party < parties := by omega
        have notLessSucc : ¬ party < parties + 1 := by omega
        have other : parties ≠ party := by omega
        simp [notLess, notLessSucc, other, List.filter_map, Function.comp_def]

end FabricBench.Lib.Kvs
