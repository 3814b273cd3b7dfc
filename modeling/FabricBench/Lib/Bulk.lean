import Mathlib.Data.Finset.Max
import Mathlib.Data.Fintype.Basic
import Mathlib.Data.List.Infix

/-!
Parties that fill and read a common store in phases, which barriers separate.

Owns: what a server of such parties may do, as laws over any history of requests and
answers (`Lawful`), a server that has one store (`storing`), the parties that make the
requests of given scripts in order (`Scripted`), and what holds in every order in which
requests are taken and answered: nobody is a phase ahead, what was put in an earlier
phase is found (`found_some`), and if every script has the same number of barriers nobody
waits for ever (`exists_step`).
-/

namespace FabricBench.Lib.Bulk

/-- What a request asks for. -/
inductive Op (κ ν : Type) where
  | put (key : κ) (value : ν)
  | get (key : κ)
  | barrier
  | other

def Op.isBarrier {κ ν : Type} : Op κ ν → Bool
  | .barrier => true
  | _ => false

/-- A party asks for something, or is told what was found for its request. -/
inductive Event (ι ρ ν : Type) where
  | asked (i : ι) (request : ρ)
  | told (i : ι) (request : ρ) (found : Option ν)
deriving DecidableEq, Repr

/-- What has happened at a server, in order. -/
abbrev History (ι ρ ν : Type) := List (Event ι ρ ν)

variable {ι ρ κ ν : Type}

section History

variable [DecidableEq ι]

/-- The requests of a party. -/
def made (h : History ι ρ ν) (i : ι) : List ρ :=
  h.filterMap fun
    | .asked j request => if j = i then some request else none
    | .told _ _ _ => none

/-- Those that have been answered, with what was found for them. -/
def answered (h : History ι ρ ν) (i : ι) : List (ρ × Option ν) :=
  h.filterMap fun
    | .asked _ _ => none
    | .told j request found => if j = i then some (request, found) else none

def asked (h : History ι ρ ν) (i : ι) : List ρ := (answered h i).map Prod.fst

/-- The request that a party waits for an answer to. -/
def outstanding (h : History ι ρ ν) (i : ι) : Option ρ := (made h i)[(answered h i).length]?

theorem length_asked (h : History ι ρ ν) (i : ι) : (asked h i).length = (answered h i).length := by
  simp [asked]

theorem made_ask (h : History ι ρ ν) (i : ι) (request : ρ) (j : ι) :
    made (h ++ [.asked i request]) j = if j = i then made h i ++ [request] else made h j := by
  by_cases same : j = i
  · subst same
    simp [made]
  · simp [made, same, Ne.symm same]

theorem answered_ask (h : History ι ρ ν) (i : ι) (request : ρ) (j : ι) :
    answered (h ++ [.asked i request]) j = answered h j := by
  simp [answered]

theorem made_tell (h : History ι ρ ν) (i : ι) (request : ρ) (found : Option ν) (j : ι) :
    made (h ++ [.told i request found]) j = made h j := by
  simp [made]

theorem answered_tell (h : History ι ρ ν) (i : ι) (request : ρ) (found : Option ν) (j : ι) :
    answered (h ++ [.told i request found]) j =
      if j = i then answered h i ++ [(request, found)] else answered h j := by
  by_cases same : j = i
  · subst same
    simp [answered]
  · simp [answered, same, Ne.symm same]

theorem asked_ask (h : History ι ρ ν) (i : ι) (request : ρ) (j : ι) :
    asked (h ++ [.asked i request]) j = asked h j := by
  rw [asked, answered_ask, asked]

theorem asked_tell (h : History ι ρ ν) (i : ι) (request : ρ) (found : Option ν) (j : ι) :
    asked (h ++ [.told i request found]) j =
      if j = i then asked h i ++ [request] else asked h j := by
  rw [asked, answered_tell]
  split_ifs with same
  · simp [asked]
  · rfl

/-- Answers stay. -/
theorem answered_prefix_tell (h : History ι ρ ν) (i : ι) (request : ρ) (found : Option ν) (j : ι) :
    answered h j <+: answered (h ++ [.told i request found]) j := by
  rw [answered_tell]
  split_ifs with same
  · rw [same]
    exact List.prefix_append _ _
  · exact List.prefix_rfl

end History

/-! ## Servers -/

/-- The number of barriers among some requests. -/
def barriers (kind : ρ → Op κ ν) (requests : List ρ) : Nat :=
  requests.countP fun request => (kind request).isBarrier

/-- Whether a party may be told now that `found` was found for its request. -/
abbrev Server (ι ρ ν : Type) := History ι ρ ν → ι → Option ν → Bool

/-- What parties can rely on. -/
structure Lawful [DecidableEq ι] (kind : ρ → Op κ ν) (server : Server ι ρ ν) : Prop where
  /-- A request that is no barrier can be answered. -/
  prompt : ∀ h i request, outstanding h i = some request → (kind request).isBarrier = false →
    ∃ found, server h i found = true
  /-- A barrier can be left when all have entered it. -/
  opens : ∀ h i request, outstanding h i = some request → kind request = .barrier →
    (∀ j, barriers kind (asked h i) < barriers kind (made h j)) → ∃ found, server h i found = true
  /-- It cannot be left before. -/
  closed : ∀ h i request found, outstanding h i = some request → kind request = .barrier →
    server h i found = true → ∀ j, barriers kind (asked h i) < barriers kind (made h j)
  /-- Only values are found that have been put under the key. -/
  found_put : ∀ h i request value, outstanding h i = some request → server h i (some value) = true →
    ∃ key, kind request = .get key ∧ ∃ j, ∃ put ∈ made h j, kind put = .put key value
  /-- Some value is found if one was put before a barrier that the party has left. -/
  found_some : ∀ h i request key found, outstanding h i = some request → kind request = .get key →
    server h i found = true → ∀ j before put value, before ++ [put] <+: made h j →
      kind put = .put key value → barriers kind before < barriers kind (asked h i) → found ≠ none

/-! ## Parties with scripts -/

theorem barriers_append (kind : ρ → Op κ ν) (first second : List ρ) :
    barriers kind (first ++ second) = barriers kind first + barriers kind second := by
  simp [barriers]

theorem barriers_mono (kind : ρ → Op κ ν) {first second : List ρ} (begins : first <+: second) :
    barriers kind first ≤ barriers kind second :=
  begins.sublist.countP_le

/-- What comes before some barrier of a script has been asked for when that many barriers
have been. -/
theorem begins_of_barriers_lt {kind : ρ → Op κ ν} {asked before whole : List ρ} {request : ρ}
    (begins : asked <+: whole) (position : before ++ [request] <+: whole)
    (passed : barriers kind before < barriers kind asked) : before ++ [request] <+: asked := by
  refine List.prefix_of_prefix_length_le position begins ?_
  by_contra short
  rw [List.length_append, List.length_singleton] at short
  have early : asked <+: before :=
    List.prefix_of_prefix_length_le begins ((List.prefix_append _ _).trans position) (by omega)
  exact absurd (barriers_mono kind early) (Nat.not_le_of_lt passed)

/-- An element that is not in the first part of a list is behind all of it. -/
theorem begins_of_not_mem {first second before : List ρ} {request : ρ}
    (begins : before ++ [request] <+: first ++ second) (absent : request ∉ first) :
    first <+: before := by
  by_cases short : first.length ≤ before.length
  · exact List.prefix_of_prefix_length_le (List.prefix_append _ _)
      ((List.prefix_append _ _).trans begins) short
  · have within : before ++ [request] <+: first := by
      refine List.prefix_of_prefix_length_le begins (List.prefix_append _ _) ?_
      rw [List.length_append, List.length_singleton]
      omega
    exact absurd (within.subset (by simp)) absent

/-- The element behind a beginning of a list continues it. -/
theorem concat_begins {asked whole : List ρ} {request : ρ} (begins : asked <+: whole)
    (behind : whole[asked.length]? = some request) : asked ++ [request] <+: whole := by
  obtain ⟨rest, rfl⟩ := begins
  rw [List.getElem?_append_right (Nat.le_refl _), Nat.sub_self] at behind
  cases rest with
  | nil => exact nomatch behind
  | cons first others =>
      obtain rfl : first = request := by simpa using behind
      exact ⟨others, by simp⟩

variable [DecidableEq ι]

/-- The request that a party makes now, if it has an answer to all others. -/
def next (script : ι → List ρ) (h : History ι ρ ν) (i : ι) : Option ρ :=
  if (made h i).length = (answered h i).length then (script i)[(made h i).length]? else none

/-- The parties have come this far in their scripts. -/
structure Scripted (kind : ρ → Op κ ν) (script : ι → List ρ) (h : History ι ρ ν) : Prop where
  made : ∀ i, made h i <+: script i
  asked : ∀ i, asked h i <+: Bulk.made h i
  one : ∀ i, (Bulk.made h i).length ≤ (answered h i).length + 1
  even : ∀ i j, barriers kind (Bulk.asked h i) ≤ barriers kind (Bulk.made h j)
  found_put : ∀ i, ∀ step ∈ answered h i, ∀ value, step.2 = some value →
    ∃ key, kind step.1 = .get key ∧ ∃ j, ∃ put ∈ script j, kind put = .put key value
  found_some : ∀ i before step, before ++ [step] <+: answered h i → ∀ key, kind step.1 = .get key →
    ∀ j before' put, before' ++ [put] <+: script j → ∀ value, kind put = .put key value →
      barriers kind before' < barriers kind (before.map Prod.fst) → step.2 ≠ none

variable {kind : ρ → Op κ ν} {script : ι → List ρ} {h : History ι ρ ν}

theorem scripted_nil : Scripted kind script ([] : History ι ρ ν) where
  made _ := List.nil_prefix
  asked _ := List.nil_prefix
  one _ := Nat.zero_le _
  even _ _ := Nat.zero_le _
  found_put _ _ member := nomatch member
  found_some _ before _ begins := absurd begins (by simp [answered])

/-- A party that waits has made one request more than it has answers. -/
theorem Scripted.made_of_outstanding (here : Scripted kind script h) {i : ι} {request : ρ}
    (waits : outstanding h i = some request) : Bulk.made h i = Bulk.asked h i ++ [request] := by
  have begins : Bulk.asked h i ++ [request] <+: Bulk.made h i := by
    refine concat_begins (here.asked i) ?_
    rw [length_asked]
    exact waits
  refine (begins.eq_of_length_le ?_).symm
  rw [List.length_append, List.length_singleton, length_asked]
  exact here.one i

theorem next_eq_some {i : ι} {request : ρ} :
    next script h i = some request ↔ (made h i).length = (answered h i).length ∧
      (script i)[(made h i).length]? = some request := by
  unfold next
  split_ifs with level
  · exact (and_iff_right level).symm
  · exact iff_of_false (by simp) fun both => level both.1

/-- The next request of a script is made. -/
theorem Scripted.ask (here : Scripted kind script h) {i : ι} {request : ρ}
    (asks : next script h i = some request) : Scripted kind script (h ++ [.asked i request]) := by
  obtain ⟨level, position⟩ := next_eq_some.mp asks
  have grows : ∀ j, Bulk.made h j <+: Bulk.made (h ++ [.asked i request]) j := by
    intro j
    rw [made_ask]
    split_ifs with same
    · rw [same]
      exact List.prefix_append _ _
    · exact List.prefix_rfl
  refine ⟨fun j => ?_, fun j => ?_, fun j => ?_, fun j k => ?_, ?_, ?_⟩
  · rw [made_ask]
    split_ifs with same
    · rw [same]
      exact concat_begins (here.made i) position
    · exact here.made j
  · rw [asked_ask]
    exact (here.asked j).trans (grows j)
  · rw [made_ask, answered_ask]
    split_ifs with same
    · rw [same, List.length_append, List.length_singleton, level]
    · exact here.one j
  · rw [asked_ask]
    exact (here.even j k).trans (barriers_mono kind (grows k))
  · intro j
    rw [answered_ask]
    exact here.found_put j
  · intro j
    rw [answered_ask]
    exact here.found_some j

/-- A request is answered. -/
theorem Scripted.tell (here : Scripted kind script h) {server : Server ι ρ ν}
    (lawful : Lawful kind server) {i : ι} {request : ρ} {found : Option ν}
    (waits : outstanding h i = some request) (tells : server h i found = true) :
    Scripted kind script (h ++ [.told i request found]) := by
  refine ⟨fun j => ?_, fun j => ?_, fun j => ?_, fun j k => ?_, ?_, ?_⟩
  · rw [made_tell]
    exact here.made j
  · rw [made_tell, asked_tell]
    split_ifs with same
    · rw [same, here.made_of_outstanding waits]
    · exact here.asked j
  · rw [made_tell, answered_tell]
    split_ifs with same
    · rw [same, List.length_append]
      exact (here.one i).trans (Nat.le_add_right _ _)
    · exact here.one j
  · rw [made_tell, asked_tell]
    split_ifs with same
    · -- A barrier is left: everybody has entered it.
      rw [barriers_append]
      cases isKind : kind request with
      | barrier =>
          have all := lawful.closed h i request found waits isKind tells k
          have one : barriers kind [request] = 1 := by simp [barriers, isKind, Op.isBarrier]
          omega
      | _ =>
          have none : barriers kind [request] = 0 := by simp [barriers, isKind, Op.isBarrier]
          have before := here.even i k
          omega
    · exact here.even j k
  · intro j step member value isFound
    rw [answered_tell] at member
    split_ifs at member with same
    · rcases List.mem_append.mp member with before | last
      · exact here.found_put i step before value isFound
      · obtain rfl := List.mem_singleton.mp last
        obtain rfl : found = some value := isFound
        obtain ⟨key, isGet, k, put, inMade, isPut⟩ := lawful.found_put h i request value waits tells
        exact ⟨key, isGet, k, put, (here.made k).subset inMade, isPut⟩
    · exact here.found_put j step member value isFound
  · intro j before step begins key isGet k before' put position value isPut earlier
    rw [answered_tell] at begins
    split_ifs at begins with same
    · rcases List.prefix_concat_iff.mp begins with last | before
      · -- The answer is the new one: the phase of the put is over, so it has been made.
        obtain ⟨rfl, rfl⟩ := List.append_singleton_inj.mp last
        have made := begins_of_barriers_lt (here.made k) position
          (Nat.lt_of_lt_of_le earlier (here.even i k))
        exact lawful.found_some h i request key found waits isGet tells k before' put value made
          isPut
          earlier
      · exact here.found_some i _ step before key isGet k before' put position value isPut earlier
    · exact here.found_some j before step begins key isGet k before' put position value isPut
        earlier

/-! ## Nobody waits for ever -/

/-- A party has made all its requests, or has one to make, or waits for an answer. -/
theorem Scripted.cases (here : Scripted kind script h) (i : ι) :
    (answered h i).length = (script i).length ∧ Bulk.made h i = script i ∨
      (∃ request, next script h i = some request) ∨ ∃ request, outstanding h i = some request := by
  have made := (here.made i).length_le
  have answers := (here.asked i).length_le
  rw [length_asked] at answers
  rcases Nat.lt_or_eq_of_le answers with fewer | level
  · exact .inr (.inr ⟨_, List.getElem?_eq_getElem fewer⟩)
  · rcases Nat.lt_or_eq_of_le made with left | all
    · exact .inr (.inl ⟨_, next_eq_some.mpr ⟨level.symm, List.getElem?_eq_getElem left⟩⟩)
    · exact .inl ⟨level.trans all, (here.made i).eq_of_length all⟩

/-- If all scripts have the same number of barriers, a request can be made or answered
until all have been. -/
theorem Scripted.exists_step [Fintype ι] (here : Scripted kind script h) {server : Server ι ρ ν}
    (lawful : Lawful kind server)
    (even : ∀ i j, barriers kind (script i) = barriers kind (script j))
    {i : ι} (left : (answered h i).length < (script i).length) :
    ∃ j, (∃ request, next script h j = some request) ∨
      ∃ request found, outstanding h j = some request ∧ server h j found = true := by
  by_contra stuck
  have ends : ∀ j, (answered h j).length = (script j).length ∧ Bulk.made h j = script j ∨
      ∃ request, outstanding h j = some request ∧ kind request = .barrier := by
    intro j
    rcases here.cases j with finished | asks | ⟨request, waits⟩
    · exact .inl finished
    · exact absurd ⟨j, .inl asks⟩ stuck
    · refine .inr ⟨request, waits, ?_⟩
      by_contra other
      have noBarrier : (kind request).isBarrier = false := by
        cases isKind : kind request with
        | barrier => exact absurd isKind other
        | _ => rfl
      obtain ⟨found, tells⟩ := lawful.prompt h j request waits noBarrier
      exact stuck ⟨j, .inr ⟨request, found, waits, tells⟩⟩
  have entered : ∀ {j request}, outstanding h j = some request → kind request = .barrier →
      barriers kind (Bulk.asked h j) < barriers kind (Bulk.made h j) := by
    intro j request waits isBarrier
    rw [here.made_of_outstanding waits, barriers_append]
    simp [barriers, isBarrier, Op.isBarrier]
  have shut : ∀ {j request}, outstanding h j = some request → kind request = .barrier →
      ¬ ∀ k, barriers kind (Bulk.made h j) ≤ barriers kind (Bulk.made h k) := by
    intro j request waits isBarrier first
    obtain ⟨found, tells⟩ := lawful.opens h j request waits isBarrier fun k =>
      Nat.lt_of_lt_of_le (entered waits isBarrier) (first k)
    exact stuck ⟨j, .inr ⟨request, found, waits, tells⟩⟩
  -- Whoever has entered the fewest barriers can leave its last one, or has finished; then
  -- all have entered as many, and party `i` can leave.
  obtain ⟨j, -, fewest⟩ := Finset.exists_min_image Finset.univ
    (fun j => barriers kind (Bulk.made h j)) ⟨i, Finset.mem_univ i⟩
  have fewest : ∀ k, barriers kind (Bulk.made h j) ≤ barriers kind (Bulk.made h k) := fun k =>
    fewest k (Finset.mem_univ k)
  rcases ends j with ⟨-, all⟩ | ⟨request, waits, isBarrier⟩
  · rcases ends i with ⟨finished, -⟩ | ⟨request, waits, isBarrier⟩
    · exact absurd finished left.ne
    · refine shut waits isBarrier fun k => ?_
      calc barriers kind (Bulk.made h i) ≤ barriers kind (script i) :=
        barriers_mono kind (here.made i)
        _ = barriers kind (Bulk.made h j) := by rw [all, even i j]
        _ ≤ barriers kind (Bulk.made h k) := fewest k
  · exact shut waits isBarrier fewest

/-! ## A server with one store -/

section Storing

variable [DecidableEq κ]

/-- What an event puts under a key. -/
def putUnder (kind : ρ → Op κ ν) (key : κ) : Event ι ρ ν → Option ν
  | .asked _ request =>
      match kind request with
      | .put key' value => if key' = key then some value else none
      | _ => none
  | .told _ _ _ => none

/-- What was put last under a key. -/
def stored (kind : ρ → Op κ ν) (h : History ι ρ ν) (key : κ) : Option ν :=
  h.reverse.findSome? (putUnder kind key)

/-- Values are found from the moment they are put, and a barrier is left when all have
entered it. -/
def storing [Fintype ι] [DecidableEq ν] (kind : ρ → Op κ ν) : Server ι ρ ν := fun h i found =>
  match (outstanding h i).map kind with
  | none => false
  | some (.get key) => decide (found = stored kind h key)
  | some .barrier => found.isNone &&
      decide (∀ j, barriers kind (asked h i) < barriers kind (made h j))
  | some _ => found.isNone

theorem exists_put_of_stored {key : κ} {value : ν} (found : stored kind h key = some value) :
    ∃ j, ∃ put ∈ made h j, kind put = .put key value := by
  obtain ⟨event, member, puts⟩ := List.exists_of_findSome?_eq_some found
  cases event with
  | told j request found => exact nomatch puts
  | asked j request =>
      refine ⟨j, request, ?_, ?_⟩
      · exact List.mem_filterMap.mpr ⟨_, List.mem_reverse.mp member, by simp⟩
      · cases isKind : kind request with
        | put key' value' =>
            simp only [putUnder, isKind] at puts
            split_ifs at puts with same
            rw [same, Option.some.inj puts]
        | _ => simp [putUnder, isKind] at puts

theorem stored_of_put {j : ι} {put : ρ} {key : κ} {value : ν} (member : put ∈ made h j)
    (isPut : kind put = .put key value) : stored kind h key ≠ none := by
  obtain ⟨event, inHistory, isMade⟩ := List.mem_filterMap.mp member
  intro absent
  have never := List.findSome?_eq_none_iff.mp absent event (List.mem_reverse.mpr inHistory)
  cases event with
  | told k request found => exact nomatch isMade
  | asked k request =>
      dsimp only at isMade
      split_ifs at isMade
      obtain rfl := Option.some.inj isMade
      simp [putUnder, isPut] at never

theorem lawful_storing [Fintype ι] [DecidableEq ν] (kind : ρ → Op κ ν) :
    Lawful kind (storing kind : Server ι ρ ν) where
  prompt h i request waits noBarrier := by
    cases isKind : kind request with
    | barrier =>
        rw [isKind] at noBarrier
        exact nomatch noBarrier
    | get key => exact ⟨stored kind h key, by simp [storing, waits, isKind]⟩
    | _ => exact ⟨none, by simp [storing, waits, isKind]⟩
  opens h i request waits isBarrier all := ⟨none, by simpa [storing, waits, isBarrier] using all⟩
  closed h i request found waits isBarrier tells := by
    have both : found = none ∧ ∀ j, barriers kind (asked h i) < barriers kind (made h j) := by
      simpa [storing, waits, isBarrier] using tells
    exact both.2
  found_put h i request value waits tells := by
    cases isKind : kind request with
    | get key =>
        have found : some value = stored kind h key := by simpa [storing, waits, isKind] using tells
        exact ⟨key, rfl, exists_put_of_stored found.symm⟩
    | _ => simp [storing, waits, isKind] at tells
  found_some h i request key found waits isGet tells j before put value begins isPut _ := by
    obtain rfl : found = stored kind h key := by simpa [storing, waits, isGet] using tells
    exact stored_of_put (begins.subset (by simp)) isPut

end Storing

end FabricBench.Lib.Bulk
