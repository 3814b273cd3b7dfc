import FabricBench.Lib.Io
import Mathlib.Data.List.Basic
import Mathlib.Data.List.Infix

/-!
Programs that talk to a server over a stream, a line at a time.

Owns: texts made of lines (`joinLines`, `completeLines`), and what it means that a
program holds a given conversation of requests and replies, however much of the replies
has come in so far (`Converses`), with the rules for sequencing and for going through a
list.
-/

namespace FabricBench.Lib

/-! ## Lines -/

section Lines

variable {γ : Type} (stop : γ)

/-- Every line with its end. -/
def joinLines (lines : List (List γ)) : List γ := lines.flatMap (· ++ [stop])

/-- The lines that have ended, after the beginning `line` of the first. -/
def linesFrom [DecidableEq γ] : List γ → List γ → List (List γ)
  | _, [] => []
  | line, c :: rest => if c = stop then line :: linesFrom [] rest else linesFrom (line ++ [c]) rest

/-- The lines of a text that have ended. -/
def completeLines [DecidableEq γ] (text : List γ) : List (List γ) := linesFrom stop [] text

variable {stop}

theorem joinLines_cons (line : List γ) (lines : List (List γ)) :
    joinLines stop (line :: lines) = line ++ stop :: joinLines stop lines := by
  simp [joinLines]

theorem joinLines_append (first second : List (List γ)) :
    joinLines stop (first ++ second) = joinLines stop first ++ joinLines stop second := by
  simp [joinLines]

theorem linesFrom_line [DecidableEq γ] {line : List γ} (within : stop ∉ line)
    (begun rest : List γ) :
    linesFrom stop begun (line ++ stop :: rest) = (begun ++ line) :: linesFrom stop [] rest := by
  induction line generalizing begun with
  | nil => simp [linesFrom]
  | cons c others inductionHypothesis =>
      have other : c ≠ stop := fun same => within (by simp [same])
      have later : stop ∉ others := fun member => within (List.mem_cons_of_mem _ member)
      rw [List.cons_append, linesFrom, if_neg other, inductionHypothesis later]
      simp

theorem completeLines_joinLines [DecidableEq γ] {lines : List (List γ)}
    (within : ∀ line ∈ lines, stop ∉ line) :
    completeLines stop (joinLines stop lines) = lines := by
  induction lines with
  | nil => rfl
  | cons line others inductionHypothesis =>
      have own := within line List.mem_cons_self
      have later : ∀ line ∈ others, stop ∉ line := fun line member =>
        within line (List.mem_cons_of_mem _ member)
      rw [joinLines_cons, completeLines, linesFrom_line own, List.nil_append]
      exact congrArg _ (inductionHypothesis later)

/-- The beginning of a text of lines is some of its lines and the beginning of the next. -/
theorem exists_take_of_prefix_joinLines {text : List γ} {lines : List (List γ)}
    (begins : text <+: joinLines stop lines) :
    text = joinLines stop lines ∨ ∃ (i : Nat) (below : i < lines.length) (part : List γ),
      part <+: lines[i] ∧ text = joinLines stop (lines.take i) ++ part := by
  induction lines generalizing text with
  | nil => exact .inl (List.prefix_nil.mp begins)
  | cons line others inductionHypothesis =>
      rw [joinLines_cons] at begins
      by_cases short : text.length ≤ line.length
      · have part : text <+: line := List.prefix_of_prefix_length_le begins
          (List.prefix_append _ _) short
        exact .inr ⟨0, by simp, text, part, by simp [joinLines]⟩
      · -- The whole line has come in, and its end.
        have whole : line ++ [stop] <+: text := by
          refine List.prefix_of_prefix_length_le ⟨joinLines stop others, by simp⟩ begins ?_
          simp only [List.length_append, List.length_singleton]
          omega
        obtain ⟨rest, rfl⟩ := whole
        have later : rest <+: joinLines stop others := by
          simpa [List.append_assoc] using begins
        rcases inductionHypothesis later with all | ⟨i, below, part, begun, cut⟩
        · exact .inl (by simp [joinLines_cons, all])
        · refine .inr ⟨i + 1, by simpa using below, part, by simpa using begun, ?_⟩
          simp [joinLines_cons, cut]

end Lines

/-! ## Conversations -/

/-- What a program has been told and not read yet, and what it has said, as far as its
state shows it. -/
structure Channel (σ γ : Type) where
  heard : σ → List γ
  said : σ → List γ

variable {σ γ α β : Type}

/-- Requests and the replies to them. -/
abbrev Conversation (γ : Type) := List (List γ × List γ)

def requestText (stop : γ) (talk : Conversation γ) : List γ := joinLines stop (talk.map Prod.fst)

def replyText (stop : γ) (talk : Conversation γ) : List γ := joinLines stop (talk.map Prod.snd)

theorem requestText_cons (stop : γ) (request reply : List γ) (talk : Conversation γ) :
    requestText stop ((request, reply) :: talk) = request ++ [stop] ++ requestText stop talk := by
  simp [requestText, joinLines]

theorem replyText_cons (stop : γ) (request reply : List γ) (talk : Conversation γ) :
    replyText stop ((request, reply) :: talk) = reply ++ stop :: replyText stop talk := by
  simp [replyText, joinLines]

theorem requestText_append (stop : γ) (first second : Conversation γ) :
    requestText stop (first ++ second) = requestText stop first ++ requestText stop second := by
  simp [requestText, joinLines_append]

theorem replyText_append (stop : γ) (first second : Conversation γ) :
    replyText stop (first ++ second) = replyText stop first ++ replyText stop second := by
  simp [replyText, joinLines_append]

/-- From the states of `pre` the program makes the requests and returns `value` when it
has been given the replies. Where they have only come in up to some character, it has
made the requests up to the one it waits for, and is blocked. -/
structure Converses (stop : γ) (channel : Channel σ γ) (pre : σ → Prop) (program : Io σ α)
    (talk : Conversation γ) (value : α) (post : σ → Prop) : Prop where
  returns : ∀ {s}, pre s → ∀ {rest}, channel.heard s = replyText stop talk ++ rest →
    ∃ s', program s = .done value s' ∧ channel.heard s' = rest ∧
      channel.said s' = channel.said s ++ requestText stop talk ∧ post s'
  blocks : ∀ {s}, pre s → ∀ (i : Nat) (below : i < talk.length) {part}, part <+: talk[i].2 →
    channel.heard s = replyText stop (talk.take i) ++ part →
    ∃ s', program s = .blocked s' ∧
      channel.said s' = channel.said s ++ requestText stop (talk.take (i + 1))

namespace Converses

variable {stop : γ} {channel : Channel σ γ} {pre mid post : σ → Prop}

/-- A program that only changes other parts of the state. -/
theorem silent {program : Io σ α} {value : α}
    (runs : ∀ s, pre s → ∃ s', program s = .done value s' ∧ channel.heard s' = channel.heard s ∧
      channel.said s' = channel.said s ∧ post s') :
    Converses stop channel pre program [] value post where
  returns := by
    intro s start rest heard
    obtain ⟨s', ran, same, said, after⟩ := runs s start
    exact ⟨s', ran, by simpa [same, replyText, joinLines] using heard,
      by simp [said, requestText, joinLines], after⟩
  blocks _ _ below := absurd below (Nat.not_lt_zero _)

theorem pure (value : α) : Converses stop channel pre (Pure.pure value : Io σ α) [] value pre :=
  silent fun s start => ⟨s, rfl, rfl, rfl, start⟩

/-- Programs that behave in the same way hold the same conversations. -/
theorem congr {program program' : Io σ α} {talk : Conversation γ} {value : α}
    (converses : Converses stop channel pre program talk value post)
    (same : ∀ s, pre s → program' s = program s) :
    Converses stop channel pre program' talk value post where
  returns start _ heard := by
    rw [same _ start]
    exact converses.returns start heard
  blocks start i below _ begun heard := by
    rw [same _ start]
    exact converses.blocks start i below begun heard

theorem weaken {pre' post' : σ → Prop} {program : Io σ α} {talk : Conversation γ} {value : α}
    (converses : Converses stop channel pre program talk value post)
    (before : ∀ s, pre' s → pre s) (after : ∀ s, post s → post' s) :
    Converses stop channel pre' program talk value post' where
  returns start _ heard := by
    obtain ⟨s', ran, left, said, holds⟩ := converses.returns (before _ start) heard
    exact ⟨s', ran, left, said, after _ holds⟩
  blocks start i below _ begun heard := converses.blocks (before _ start) i below begun heard

/-- One conversation after the other. -/
theorem bind {first : Io σ α} {rest : α → Io σ β} {talk talk' : Conversation γ} {value : α}
    {value' : β} (converses : Converses stop channel pre first talk value mid)
    (continues : Converses stop channel mid (rest value) talk' value' post) :
    Converses stop channel pre (first >>= rest) (talk ++ talk') value' post where
  returns := by
    intro s start left heard
    rw [replyText_append, List.append_assoc] at heard
    obtain ⟨s', ran, later, said, between⟩ := converses.returns start heard
    obtain ⟨s'', ran', left', said', after⟩ := continues.returns between later
    refine ⟨s'', by rw [Io.bind_done ran, ran'], left', ?_, after⟩
    rw [said', said, requestText_append, List.append_assoc]
  blocks := by
    intro s start i below part begun heard
    by_cases early : i < talk.length
    · rw [List.getElem_append_left early] at begun
      rw [List.take_append_of_le_length early.le] at heard
      obtain ⟨s', ran, said⟩ := converses.blocks start i early begun heard
      exact ⟨s', Io.bind_blocked ran rest, by rw [said, List.take_append_of_le_length early]⟩
    · -- The first program has returned, and the second one waits.
      obtain ⟨j, rfl⟩ := Nat.exists_eq_add_of_le (Nat.le_of_not_lt early)
      have below' : j < talk'.length := by
        rw [List.length_append] at below
        omega
      rw [List.getElem_append_right (Nat.le_add_right _ _)] at begun
      simp only [Nat.add_sub_cancel_left] at begun
      rw [List.take_length_add_append, replyText_append, List.append_assoc] at heard
      obtain ⟨s', ran, later, said, between⟩ := converses.returns start heard
      obtain ⟨s'', ran', said'⟩ := continues.blocks between j below' begun later
      refine ⟨s'', by rw [Io.bind_done ran, ran'], ?_⟩
      rw [said', said, Nat.add_assoc, List.take_length_add_append, requestText_append,
        List.append_assoc]

/-- A request is made and its reply waited for, and then the program goes on. -/
theorem ask {program next : Io σ α} {request reply : List γ} {talk : Conversation γ} {value : α}
    (goes : ∀ s rest, pre s → channel.heard s = reply ++ stop :: rest →
      ∃ s', program s = next s' ∧ channel.heard s' = rest ∧
        channel.said s' = channel.said s ++ (request ++ [stop]) ∧ mid s')
    (waits : ∀ s, pre s → channel.heard s <+: reply →
      ∃ s', program s = .blocked s' ∧ channel.said s' = channel.said s ++ (request ++ [stop]))
    (continues : Converses stop channel mid next talk value post) :
    Converses stop channel pre program ((request, reply) :: talk) value post where
  returns := by
    intro s start rest heard
    rw [replyText_cons, List.append_assoc, List.cons_append] at heard
    obtain ⟨s', ran, later, said, between⟩ := goes s _ start heard
    obtain ⟨s'', ran', left, said', after⟩ := continues.returns between later
    refine ⟨s'', ran.trans ran', left, ?_, after⟩
    rw [said', said, requestText_cons, List.append_assoc]
  blocks := by
    intro s start i below part begun heard
    cases i with
    | zero =>
        rw [List.take_zero] at heard
        obtain ⟨s', ran, said⟩ := waits s start (heard ▸ begun)
        exact ⟨s', ran, by simpa [requestText, joinLines] using said⟩
    | succ i =>
        rw [List.take_succ_cons, replyText_cons, List.append_assoc, List.cons_append] at heard
        obtain ⟨s', ran, later, said, between⟩ := goes s _ start heard
        obtain ⟨s'', ran', said'⟩ := continues.blocks between i (Nat.lt_of_succ_lt_succ below)
          begun later
        refine ⟨s'', ran.trans ran', ?_⟩
        rw [said', said, List.take_succ_cons, requestText_cons, List.append_assoc]

/-- A value of the state is looked up. -/
theorem gets {read : σ → β} {looked : β} {rest : β → Io σ α} {talk : Conversation γ} {value : α}
    (reads : ∀ s, pre s → read s = looked)
    (continues : Converses stop channel pre (rest looked) talk value post) :
    Converses stop channel pre (Io.gets read >>= rest) talk value post :=
  continues.congr fun s start => by
    rw [Io.bind_done (Io.gets_apply read s), reads s start]

/-- Another part of the state is changed. -/
theorem modify {change : σ → σ} {rest : Unit → Io σ α} {talk : Conversation γ} {value : α}
    (changes : ∀ s, pre s → channel.heard (change s) = channel.heard s ∧
      channel.said (change s) = channel.said s ∧ mid (change s))
    (continues : Converses stop channel mid (rest ()) talk value post) :
    Converses stop channel pre (Io.modify change >>= rest) talk value post :=
  bind (silent fun s start => ⟨change s, rfl, changes s start⟩) continues

/-- All that is known of the replies has come in: the program has returned, or it waits for
the next one. -/
theorem of_heard_all {program : Io σ α} {talk known : Conversation γ} {value : α}
    (converses : Converses stop channel pre program talk value post) (begins : known <+: talk)
    {s : σ}
    (start : pre s) (heard : channel.heard s = replyText stop known) :
    (known = talk ∧ ∃ s', program s = .done value s' ∧
      channel.said s' = channel.said s ++ requestText stop talk) ∨
    (known.length < talk.length ∧ ∃ s', program s = .blocked s' ∧
      channel.said s' = channel.said s ++ requestText stop (talk.take (known.length + 1))) := by
  rcases Nat.lt_or_ge known.length talk.length with more | all
  · have before : talk.take known.length = known := (List.prefix_iff_eq_take.mp begins).symm
    have waits : channel.heard s = replyText stop (talk.take known.length) ++ [] := by
      rw [before, heard, List.append_nil]
    exact .inr ⟨more, converses.blocks start known.length more List.nil_prefix waits⟩
  · obtain rfl := begins.eq_of_length_le all
    have whole : channel.heard s = replyText stop known ++ [] := by rw [heard, List.append_nil]
    obtain ⟨s', ran, -, said, -⟩ := converses.returns start whole
    exact .inl ⟨rfl, s', ran, said⟩

/-- Not all that is known of the replies has come in: the program waits for one of them. -/
theorem of_heard_part {program : Io σ α} {talk known : Conversation γ} {value : α}
    (converses : Converses stop channel pre program talk value post) (begins : known <+: talk)
    {s : σ}
    (start : pre s) (heard : channel.heard s <+: replyText stop known)
    (part : channel.heard s ≠ replyText stop known) :
    ∃ i < known.length, ∃ s', program s = .blocked s' ∧
      channel.said s' = channel.said s ++ requestText stop (talk.take (i + 1)) := by
  rcases exists_take_of_prefix_joinLines heard with all | ⟨i, below, text, begun, cut⟩
  · exact absurd all part
  · rw [List.length_map] at below
    obtain ⟨rest, rfl⟩ := begins
    have within : i < (known ++ rest).length := Nat.lt_of_lt_of_le below (by simp)
    have waits : channel.heard s = replyText stop ((known ++ rest).take i) ++ text := by
      rw [cut, List.take_append_of_le_length below.le, replyText, List.map_take]
    have reply : text <+: (known ++ rest)[i].2 := by
      rw [List.getElem_append_left below]
      simpa using begun
    exact ⟨i, below, converses.blocks start i within reply waits⟩

end Converses

end FabricBench.Lib
