import MoSyntax.Parser.Symbol

/-!
What a parser may answer. A reading relates the tokens that were passed to what they were read as
and to what was reported on the way. A sound reply takes no misstep; it passes tokens in their
order, and then either the reading holds of them or something has been reported.
-/
namespace MoSyntax

/-- Tokens, what they read as, and what is reported of them. -/
abbrev Reading (α : Type) : Type := List Token → α → List Diagnostic → Prop

namespace Cursor

/-- No token is cut off behind the place, and the end of the file is the end of the tokens. -/
structure Intact (cursor : Cursor) : Prop where
  beyond : cursor.beyond = 0
  eof : cursor.eof.kind = .endOfFile

/-- The tokens that lie between two places of one text. -/
structure Passes (start : Cursor) (used : List Token) (stop : Cursor) : Prop where
  ahead : start.ahead = used ++ stop.ahead
  passed : stop.passed = used.reverse ++ start.passed
  eof : stop.eof = start.eof
  beyond : stop.beyond = start.beyond

namespace Passes

theorem refl (start : Cursor) : start.Passes [] start := ⟨rfl, rfl, rfl, rfl⟩

theorem trans {start middle stop : Cursor} {used more : List Token}
    (first : start.Passes used middle) (second : middle.Passes more stop) :
    start.Passes (used ++ more) stop where
  ahead := by rw [first.ahead, second.ahead, List.append_assoc]
  passed := by rw [second.passed, first.passed, List.reverse_append, List.append_assoc]
  eof := second.eof.trans first.eof
  beyond := second.beyond.trans first.beyond

theorem intact {start stop : Cursor} {used : List Token} (passes : start.Passes used stop)
    (intact : start.Intact) : stop.Intact where
  beyond := passes.beyond.trans intact.beyond
  eof := passes.eof ▸ intact.eof

theorem length {start stop : Cursor} {used : List Token} (passes : start.Passes used stop) :
    start.ahead.length = used.length + stop.ahead.length := by
  rw [passes.ahead, List.length_append]

theorem of_nil {start stop : Cursor} (passes : start.Passes [] stop) : stop = start := by
  obtain ⟨ahead, passed, eof, beyond⟩ := passes
  cases stop
  cases start
  simp_all

theorem eq_nil {start : Cursor} {used : List Token} (passes : start.Passes used start) :
    used = [] := by
  simpa using passes.ahead

theorem peek {start stop : Cursor} {used : List Token} (passes : start.Passes used stop)
    (count : Nat) : start.peek (used.length + count) = stop.peek count := by
  simp [Cursor.peek, passes.ahead, passes.eof, List.getD_eq_getElem?_getD,
    List.getElem?_append_right]

theorem other {start stop : Cursor} {holds : Token → Bool} {token : Token} {rest : List Token}
    (passes : start.Passes (start.ahead.takeWhile holds) stop)
    (ahead : stop.ahead = token :: rest) : holds token = false := by
  have behind : stop.ahead = start.ahead.dropWhile holds := by
    have whole : start.ahead.takeWhile holds ++ start.ahead.dropWhile holds = start.ahead :=
      List.takeWhile_append_dropWhile
    exact (List.append_cancel_left (whole.trans passes.ahead)).symm
  have stops := List.head?_dropWhile_not holds start.ahead
  rw [← behind, ahead] at stops
  exact stops

theorem last {start stop : Cursor} {used : List Token} (passes : start.Passes used stop)
    (some : used ≠ []) : stop.last = used.getLast some := by
  rw [Cursor.last, passes.passed, List.headD_eq_head?_getD, List.head?_append, List.head?_reverse,
    List.getLast?_eq_some_getLast some]
  rfl

end Passes

theorem ahead_advance (cursor : Cursor) : cursor.advance.ahead = cursor.ahead.tail := by
  rw [advance]
  split
  · rename_i none
    rw [none]
    rfl
  · rename_i some
    rw [some]
    rfl

theorem ahead_advanceBy (count : Nat) (cursor : Cursor) :
    (cursor.advanceBy count).ahead = cursor.ahead.drop count := by
  induction count generalizing cursor with
  | zero => rfl
  | succ count ih => rw [advanceBy, ih, ahead_advance, List.drop_tail]

theorem advanceBy_passes (used rest : List Token) {start : Cursor}
    (ahead : start.ahead = used ++ rest) :
    start.Passes used (start.advanceBy used.length) ∧
      (start.advanceBy used.length).ahead = rest := by
  induction used generalizing start with
  | nil => exact ⟨.refl start, ahead⟩
  | cons token used ih =>
    have next : start.Passes [token] start.advance := by
      rw [advance, ahead]
      exact ⟨ahead, rfl, rfl, rfl⟩
    have left : start.advance.ahead = used ++ rest := by
      simpa [ahead] using next.ahead.symm
    obtain ⟨passes, behind⟩ := ih left
    exact ⟨next.trans passes, behind⟩

theorem drop_of_peek {cursor : Cursor} (intact : cursor.Intact) (count : Nat)
    (some : (cursor.peek count).kind ≠ .endOfFile) :
    ∃ rest, cursor.ahead.drop count = cursor.peek count :: rest := by
  have peeked : cursor.peek count = cursor.ahead[count]?.getD cursor.eof := by
    rw [peek, List.getD_eq_getElem?_getD]
  by_cases within : count < cursor.ahead.length
  · rw [peeked, List.getElem?_eq_getElem within, List.drop_eq_getElem_cons within]
    exact ⟨_, rfl⟩
  · rw [peeked, List.getElem?_eq_none (by omega)] at some
    exact absurd intact.eof some

theorem ahead_of_current {cursor : Cursor} (intact : cursor.Intact)
    (some : cursor.current.kind ≠ .endOfFile) :
    ∃ rest, cursor.ahead = cursor.current :: rest := by
  simpa [current] using drop_of_peek intact 0 some

theorem ahead_of_peek {cursor : Cursor} (intact : cursor.Intact) (used : List Token)
    {behind : List Token} (ahead : cursor.ahead = used ++ behind)
    (some : (cursor.peek used.length).kind ≠ .endOfFile) :
    ∃ rest, cursor.ahead = used ++ cursor.peek used.length :: rest := by
  obtain ⟨rest, dropped⟩ := drop_of_peek intact _ some
  rw [ahead, List.drop_left] at dropped
  exact ⟨rest, by rw [ahead, dropped]⟩

theorem current_of_ahead {cursor : Cursor} {token : Token} {rest : List Token}
    (ahead : cursor.ahead = token :: rest) : cursor.current = token := by
  simp [current, peek, ahead]

theorem advance_passes {cursor : Cursor} (intact : cursor.Intact)
    (some : cursor.current.kind ≠ .endOfFile) : cursor.Passes [cursor.current] cursor.advance := by
  obtain ⟨rest, ahead⟩ := ahead_of_current intact some
  exact (advanceBy_passes [cursor.current] rest ahead).1

theorem previous?_of_intact {cursor : Cursor} (intact : cursor.Intact) :
    cursor.previous? = some cursor.last := by
  simp [previous?, intact.beyond]

end Cursor

/-- The reading holds of the tokens passed, unless a failure has been reported. -/
structure Reply.Sound {α : Type} (start : Cursor) (reading : Reading α) (reply : Reply α) :
    Prop where
  missteps : reply.missteps = []
  passes : ∃ used, start.Passes used reply.cursor ∧
    match reply.value with
    | some value => reading used value reply.reports
    | none => reply.reports ≠ []

namespace Parser

/-- From an intact cursor the parser gives a sound reply. -/
def SoundAt {α : Type} (start : Cursor) (reading : Reading α) (parser : Parser α) : Prop :=
  start.Intact → (parser start).Sound start reading

def Sound {α : Type} (reading : Reading α) (parser : Parser α) : Prop :=
  ∀ start, SoundAt start reading parser

namespace SoundAt

variable {α β : Type} {start : Cursor}

theorem imp {weak strong : Reading α} {parser : Parser α} (sound : SoundAt start strong parser)
    (implies : ∀ used value reports, strong used value reports → weak used value reports) :
    SoundAt start weak parser := by
  intro intact
  obtain ⟨missteps, used, passes, holds⟩ := sound intact
  refine ⟨missteps, used, passes, ?_⟩
  cases value : (parser start).value with
  | none => simpa [value] using holds
  | some found => exact implies _ _ _ (by simpa [value] using holds)

theorem headed {reading : Reading α} {parser : Parser α} (sound : SoundAt start reading parser) :
    SoundAt start (fun used value reports => reading used value reports ∧
      ∀ token ∈ used.head?, token = start.current) parser := by
  intro intact
  obtain ⟨missteps, used, passes, holds⟩ := sound intact
  refine ⟨missteps, used, passes, ?_⟩
  cases value : (parser start).value with
  | none => simpa [value] using holds
  | some found =>
    refine ⟨by simpa [value] using holds, ?_⟩
    intro token first
    obtain ⟨rest, rfl⟩ := List.head?_eq_some_iff.1 first
    exact (Cursor.current_of_ahead passes.ahead).symm

theorem pure {reading : Reading α} {value : α} (holds : reading [] value []) :
    SoundAt start reading (Pure.pure value) :=
  fun _ => ⟨rfl, [], .refl start, holds⟩

theorem fail_with {reading : Reading α} (diagnostic : Diagnostic) :
    SoundAt start reading (reject diagnostic) :=
  fun _ => ⟨rfl, [], .refl start, by simp [reject]⟩

theorem bind {first : Parser α} {next : α → Parser β} {reading : Reading α} {whole : Reading β}
    (head : SoundAt start reading first)
    (tail : ∀ used value reports stop, start.Passes used stop → reading used value reports →
      SoundAt stop (fun more found later => whole (used ++ more) found (reports ++ later))
        (next value)) :
    SoundAt start whole (first >>= next) := by
  intro intact
  obtain ⟨missteps, used, passes, holds⟩ := head intact
  have unfolded : (first >>= next) start = andThen first next start := rfl
  rw [unfolded, andThen]
  cases value : (first start).value with
  | none =>
    simp only [value] at holds ⊢
    exact ⟨missteps, used, passes, holds⟩
  | some found =>
    simp only [value] at holds ⊢
    obtain ⟨clean, more, further, result⟩ :=
      tail used found _ _ passes holds (passes.intact intact)
    refine ⟨by simp [Reply.after, missteps, clean], used ++ more, passes.trans further, ?_⟩
    cases answer : (next found (first start).cursor).value with
    | none => simp_all [Reply.after]
    | some last => simpa [Reply.after, answer] using result

theorem here_bind {next : Cursor → Parser β} {whole : Reading β}
    (tail : SoundAt start whole (next start)) : SoundAt start whole (here >>= next) := by
  intro intact
  obtain ⟨missteps, used, passes, holds⟩ := tail intact
  exact ⟨missteps, used, passes, holds⟩

theorem current_bind {next : Token → Parser β} {whole : Reading β}
    (tail : SoundAt start whole (next start.current)) :
    SoundAt start whole (current >>= next) := by
  intro intact
  obtain ⟨missteps, used, passes, holds⟩ := tail intact
  exact ⟨missteps, used, passes, holds⟩

theorem note_bind {event : Event} {next : Unit → Parser β} {whole : Reading β}
    (tail : SoundAt start whole (next ())) : SoundAt start whole (note event >>= next) := by
  intro intact
  obtain ⟨missteps, used, passes, holds⟩ := tail intact
  exact ⟨missteps, used, passes, holds⟩

theorem report_bind {diagnostic : Diagnostic} {next : Unit → Parser β} {whole : Reading β}
    (tail : SoundAt start (fun used value reports => whole used value (diagnostic :: reports))
      (next ())) :
    SoundAt start whole (report diagnostic >>= next) := by
  have told : SoundAt start (fun used _ reports => used = [] ∧ reports = [diagnostic])
      (report diagnostic) := fun _ => ⟨rfl, [], .refl start, rfl, rfl⟩
  apply bind told
  rintro _ _ _ stop passes ⟨rfl, rfl⟩
  exact passes.of_nil ▸ tail

theorem previous_bind {next : Token → Parser β} {whole : Reading β}
    (tail : SoundAt start whole (next start.last)) : SoundAt start whole (previous >>= next) := by
  intro intact
  obtain ⟨missteps, used, passes, holds⟩ := tail intact
  have found : previous start = { value := some start.last, cursor := start } := by
    rw [previous, Cursor.previous?_of_intact intact]
  have unfolded : (previous >>= next) start = (next start.last start).after (previous start) := by
    show andThen previous next start = _
    rw [andThen, found]
  rw [unfolded, found]
  exact ⟨missteps, used, passes, holds⟩

theorem skip {count : Nat} (used rest : List Token) (ahead : start.ahead = used ++ rest)
    (length : used.length = count) :
    SoundAt start (fun passed _ reports => passed = used ∧ reports = []) (Parser.skip count) := by
  subst length
  obtain ⟨passes, _⟩ := Cursor.advanceBy_passes used rest ahead
  exact fun _ => ⟨rfl, used, passes, rfl, rfl⟩

theorem advance_bind {next : Unit → Parser β} {whole : Reading β}
    (some : start.current.kind ≠ .endOfFile)
    (tail : ∀ stop, start.Passes [start.current] stop →
      SoundAt stop (fun more value reports => whole (start.current :: more) value reports)
        (next ())) :
    SoundAt start whole (advance >>= next) := by
  intro intact
  obtain ⟨rest, ahead⟩ := Cursor.ahead_of_current intact some
  refine bind (skip [start.current] rest ahead rfl) ?_ intact
  rintro _ _ _ stop passes ⟨rfl, rfl⟩
  exact tail stop passes

theorem inside {reading : Reading α} {parser : Parser α} {depth : Nat} (entered : depth ≠ 0)
    (sound : SoundAt start reading parser) : SoundAt start reading (Parser.inside depth parser) := by
  intro intact
  simpa [Parser.inside, entered] using sound intact

end SoundAt

namespace Sound

variable {α : Type}

theorem matched_of_intact {cursor : Cursor} (intact : cursor.Intact) (trial : Trial)
    (value : α) :
    (do note (.matched trial (← previous).position); return some value : Parser (Option α)) cursor =
      { value := some (some value), cursor, events := [.matched trial cursor.last.position] } := by
  show andThen previous _ cursor = _
  rw [andThen, previous, Cursor.previous?_of_intact intact]
  rfl

theorem attempt {reading : Reading α} {parser : Parser α} (trial : Trial)
    (sound : Sound reading parser) :
    Sound (fun used value reports => match value with
      | some found => reading used found reports
      | none => used = [] ∧ reports = []) (Parser.attempt trial parser) := by
  intro start intact
  obtain ⟨missteps, used, passes, holds⟩ := sound start intact
  cases value : (parser start).value with
  | none =>
    simp only [Parser.attempt, value]
    exact ⟨missteps, [], .refl start, rfl, rfl⟩
  | some found =>
    simp only [value] at holds
    simp only [Parser.attempt, value, matched_of_intact (passes.intact intact)]
    exact ⟨by simp [Reply.after, missteps], used, passes, by simpa [Reply.after] using holds⟩

theorem unlessDeclined {reading : Reading α} {parser : Parser (Option α)} {other : Parser α}
    (first : Sound (fun used value reports => ∀ found, value = some found →
      reading used found reports) parser)
    (second : Sound reading other) : Sound reading (Parser.unlessDeclined parser other) := by
  intro start intact
  obtain ⟨missteps, used, passes, holds⟩ := first start intact
  match value : (parser start).value with
  | none =>
    simp only [value] at holds
    simp only [Parser.unlessDeclined, value]
    exact ⟨missteps, used, passes, holds⟩
  | some (some found) =>
    simp only [value] at holds
    simp only [Parser.unlessDeclined, value]
    exact ⟨missteps, used, passes, holds found rfl⟩
  | some none =>
    obtain ⟨clean, more, further, result⟩ := second start intact
    simp only [Parser.unlessDeclined, value]
    exact ⟨by simp [Reply.after, missteps, clean], more, further, by simpa [Reply.after] using result⟩

theorem recover {reading : Reading α} {parser : Parser α} {recovery : Parser Unit} {start : Cursor} (sound : SoundAt start reading parser)
    (recovers : ∀ used stop, start.Passes used stop →
      SoundAt stop (fun more _ reports => reports = [] ∧ used ++ more ≠ []) recovery)
    (always : ∀ cursor, (recovery cursor).value = some ()) :
    SoundAt start (fun used value reports => match value with
      | some found => reading used found reports
      | none => used ≠ [] ∧ reports ≠ []) (Parser.recover parser recovery) := by
  intro intact
  obtain ⟨missteps, used, passes, holds⟩ := sound intact
  cases value : (parser start).value with
  | some found =>
    simp only [value] at holds
    simp only [Parser.recover, value]
    exact ⟨missteps, used, passes, holds⟩
  | none =>
    simp only [value] at holds
    obtain ⟨clean, more, further, result⟩ := recovers used _ passes (passes.intact intact)
    simp only [always] at result
    obtain ⟨silent, result⟩ := result
    simp only [Parser.recover, value]
    refine ⟨by simp [Reply.after, missteps, clean], used ++ more, passes.trans further, result, ?_⟩
    simpa [Reply.after, silent] using holds

end Sound

end Parser

/-- One reading after the other, and behind the last one what ends the repetition. -/
inductive Repeated {α : Type} (each : Reading α) (rest : List Token → Prop) : Reading (List α)
  | done {used} (ends : rest used) : Repeated each rest used [] []
  | more {used value reports left values later} (first : each used value reports)
      (others : Repeated each rest left values later) :
      Repeated each rest (used ++ left) (value :: values) (reports ++ later)

/-- Whatever is read has the property. -/
def Ensures {α : Type} (each : Reading α) (holds : α → Prop) : Prop :=
  ∀ used value reports, each used value reports → holds value

theorem Repeated.ensures {α : Type} {each : Reading α} {rest : List Token → Prop} {holds : α → Prop}
    (all : Ensures each holds) {used values reports}
    (repeated : Repeated each rest used values reports) : ∀ value ∈ values, holds value := by
  induction repeated with
  | done => exact List.forall_mem_nil _
  | more first _ ih => exact List.forall_mem_cons.2 ⟨all _ _ _ first, ih⟩

/-- One step of a repetition: a reading that passes a token, or the end. -/
def Round {α : Type} (each : Reading α) (rest : List Token → Prop) : Reading (Option α)
  | used, some value, reports => each used value reports ∧ used ≠ []
  | used, none, reports => rest used ∧ reports = []

namespace Parser.Sound

variable {α : Type} {each : Reading α} {rest : List Token → Prop} {step : Parser (Option α)}

theorem manyUpTo (sound : Sound (Round each rest) step) (count : Nat) (start : Cursor)
    (enough : start.ahead.length < count) :
    SoundAt start (Repeated each rest) (Parser.manyUpTo count step) := by
  induction count generalizing start with
  | zero => omega
  | succ count ih =>
    apply SoundAt.bind (sound start)
    intro used value reports stop passes holds
    cases value with
    | none =>
      obtain ⟨ends, rfl⟩ := holds
      exact SoundAt.pure (by simpa using Repeated.done ends)
    | some value =>
      obtain ⟨first, some⟩ := holds
      have shorter := passes.length
      have passed := List.length_pos_iff.2 some
      apply SoundAt.bind (ih stop (by omega))
      intro left values later _ _ others
      exact SoundAt.pure (by simpa using Repeated.more first others)

theorem many (sound : Sound (Round each rest) step) :
    Sound (Repeated each rest) (Parser.many step) :=
  fun start => manyUpTo sound _ start (Nat.lt_succ_self _)

end Parser.Sound

theorem Parser.bind_of_some {α β : Type} {first : Parser α} {start : Cursor} {value : α}
    (found : (first start).value = some value) (next : α → Parser β) :
    (first >>= next) start = (next value (first start).cursor).after (first start) := by
  show andThen first next start = _
  rw [andThen, found]

def Parser.Total {α : Type} (parser : Parser α) : Prop := ∀ start, (parser start).value.isSome

namespace Parser.Total

variable {α β : Type}

theorem bind {first : Parser α} {next : α → Parser β} (head : Total first)
    (tail : ∀ value, Total (next value)) : Total (first >>= next) := by
  intro start
  obtain ⟨value, found⟩ := Option.isSome_iff_exists.1 (head start)
  rw [bind_of_some found]
  exact tail value (first start).cursor

theorem recover (parser : Parser α) (recovery : Parser Unit) :
    Total (Parser.recover parser recovery) := by
  intro start
  rw [Parser.recover]
  split <;> rfl

variable {each : Reading α} {rest : List Token → Prop} {step : Parser (Option α)}

/-- A repetition of a step that never fails comes to the place where the step has no more. -/
theorem manyUpTo (stops : Cursor → Prop) (total : Total step)
    (sound : Sound (Round each rest) step)
    (ends : ∀ start, (step start).value = some none → stops (step start).cursor) (count : Nat)
    {start : Cursor} (intact : start.Intact) (enough : start.ahead.length < count) :
    (Parser.manyUpTo count step start).value.isSome ∧
      stops (Parser.manyUpTo count step start).cursor := by
  induction count generalizing start with
  | zero => omega
  | succ count ih =>
    obtain ⟨_, used, passes, holds⟩ := sound start intact
    obtain ⟨value, found⟩ := Option.isSome_iff_exists.1 (total start)
    rw [Parser.manyUpTo, bind_of_some found]
    cases value with
    | none => exact ⟨rfl, ends start found⟩
    | some value =>
      simp only [found] at holds
      have shorter := passes.length
      have passed := List.length_pos_iff.2 holds.2
      obtain ⟨some, stop⟩ := ih (passes.intact intact) (by omega)
      obtain ⟨values, others⟩ := Option.isSome_iff_exists.1 some
      dsimp only
      rw [bind_of_some others]
      exact ⟨rfl, stop⟩

theorem many (stops : Cursor → Prop) (total : Total step) (sound : Sound (Round each rest) step)
    (ends : ∀ start, (step start).value = some none → stops (step start).cursor)
    {start : Cursor} (intact : start.Intact) :
    (Parser.many step start).value.isSome ∧ stops (Parser.many step start).cursor :=
  manyUpTo stops total sound ends _ intact (Nat.lt_succ_self _)

end Parser.Total

end MoSyntax
