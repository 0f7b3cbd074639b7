import MoSyntax.Proofs.Completion
import MoSyntax.Proofs.Deepening.Logic
import MoSyntax.Proofs.Likeness.Tokens

/-!
Two runs of the parser over tokens that are alike. They give like replies. Where the second text goes
on behind the end of the first one, the first run must have reported something as soon as the two
do not agree any more; a trial forgets its reports, so within a trial they have to agree.
-/
namespace MoSyntax

theorem Cursor.Passes.last_getD {start stop : Cursor} {used : List Token}
    (passes : start.Passes used stop) : stop.last = used.getLast?.getD start.last := by
  cases used with
  | nil => rw [passes.of_nil, List.getLast?_nil, Option.getD_none]
  | cons token used =>
    rw [passes.last (List.cons_ne_nil _ _), List.getLast?_eq_some_getLast (List.cons_ne_nil _ _),
      Option.getD_some]

namespace Comparison

variable (c : Comparison)

/-- The same report in two texts, and none of the lexer. -/
structure Reports (first second : Diagnostic) : Prop where
  same : first.relocate c.left = second.relocate c.right
  grammatical : first.fault.category ≠ .lexical

/-- Two places with the same tokens ahead. The tokens passed last are only known to be alike if the
places are `near` to what was read before. -/
structure Cursors (near : Prop) (depth : Nat) (start other : Cursor) : Prop where
  intact : start.Intact
  intact' : other.Intact
  ahead : c.Aligned depth start.ahead other.ahead
  eof : c.tail = [] → c.Tokens start.eof other.eof
  last : near → c.Spans start.last.span other.last.span

/-- The first text has come to its end, and in the second one a line break comes next. -/
structure Past (depth : Nat) (start other : Cursor) : Prop where
  cut : c.tail ≠ []
  outside : depth = 0
  ended : start.ahead = []
  kind : start.current.kind = .endOfFile
  breaks : other.current.kind = .lineBreak

/-- Either both replies are alike, or where that is allowed the first one reports something because
its text has come to its end. -/
inductive Replies {α β : Type} (near lax : Prop) (depth : Nat) (values : α → β → Prop)
    (first : Reply α) (second : Reply β) : Prop
  | same (value : Option.Rel values first.value second.value)
      (reports : List.Forall₂ c.Reports first.reports second.reports)
      (cursors : c.tail = [] ∨ first.value.isSome →
        c.Cursors near depth first.cursor second.cursor)
  | lost (cut : c.tail ≠ []) (allowed : lax) (told : first.reports ≠ [])

/-- From two places that are alike the parsers give like replies. -/
def LikesAt {α β : Type} (near lax : Prop) (depth next : Nat) (values : α → β → Prop)
    (start other : Cursor) (first : Parser α) (second : Parser β) : Prop :=
  c.Cursors near depth start other → c.Replies near lax next values (first start) (second other)

def Likes {α β : Type} (near lax : Prop) (depth next : Nat) (values : α → β → Prop)
    (first : Parser α) (second : Parser β) : Prop :=
  ∀ start other, c.LikesAt near lax depth next values start other first second

/-- The runs do not come to the end of the first text where that could not be told. -/
def Guarded (lax : Prop) (depth : Nat) : Prop := c.tail = [] ∨ 0 < depth ∨ lax

variable {c} {near lax : Prop} {depth next : Nat} {start other : Cursor}

/-- Inside of brackets, or where nothing follows, the first text does not end before the second. -/
theorem ne_zero_of_enclosed (enclosed : c.tail = [] ∨ 0 < depth) (cut : c.tail ≠ []) : depth ≠ 0 :=
  Nat.pos_iff_ne_zero.1 (enclosed.resolve_left cut)

theorem rel_none {α β : Type} {values : α → β → Prop} {second : Option β}
    (rel : Option.Rel values none second) : second = none := by
  cases rel
  rfl

theorem rel_some {α β : Type} {values : α → β → Prop} {first : α} {second : Option β}
    (rel : Option.Rel values (some first) second) :
    ∃ value, second = some value ∧ values first value := by
  cases rel with
  | some holds => exact ⟨_, rfl, holds⟩

namespace Cursors

theorem anywhere (like : c.Cursors near depth start other) (whole : c.tail = []) (further : Nat) :
    c.Cursors near further start other :=
  ⟨like.intact, like.intact', like.ahead.anywhere whole further, like.eof, like.last⟩

theorem weaken {far : Prop} (like : c.Cursors near depth start other) (implies : far → near) :
    c.Cursors far depth start other :=
  ⟨like.intact, like.intact', like.ahead, like.eof, fun holds => like.last (implies holds)⟩

theorem current (like : c.Cursors near depth start other) :
    c.Tokens start.current other.current ∨ c.Past depth start other := by
  have here (cursor : Cursor) : cursor.current = cursor.ahead.head?.getD cursor.eof := by
    rw [Cursor.current, Cursor.peek, List.getD_eq_getElem?_getD, List.head?_eq_getElem?]
  obtain ⟨whole, left, right⟩ | ⟨cut, outside, left, token, head, breaks⟩ |
    ⟨first, rest, second, others, left, right, alike⟩ := like.ahead.head
  · rw [here, here, left, right]
    exact .inl (like.eof whole)
  · refine .inr ⟨cut, outside, left, ?_, ?_⟩
    · rw [here, left]
      exact like.intact.eof
    · rw [here, head]
      exact breaks
  · rw [here, here, left, right]
    exact .inl alike

theorem current_of_guarded (like : c.Cursors near depth start other)
    (guarded : c.tail = [] ∨ 0 < depth) : c.Tokens start.current other.current := by
  rcases like.current with alike | past
  · exact alike
  · exact absurd past.outside (ne_zero_of_enclosed guarded past.cut)

theorem atEnd (like : c.Cursors near depth start other) (guarded : c.tail = [] ∨ 0 < depth) :
    start.atEnd = other.atEnd := by
  rw [Cursor.atEnd, Cursor.atEnd]
  obtain ⟨_, left, right⟩ | ⟨cut, outside, _⟩ | ⟨_, _, _, _, left, right, _⟩ := like.ahead.head
  · rw [left, right]
  · exact absurd outside (ne_zero_of_enclosed guarded cut)
  · rw [left, right]
    rfl

theorem advance (like : c.Cursors near depth start other)
    (goesOn : start.current.kind ≠ .endOfFile) (plain : start.current.kind ≠ .lineBreak)
    (level : c.tail ≠ [] → Skip.openAfter? depth start.current.kind = some next) :
    c.Cursors True next (start.advanceBy 1) (other.advanceBy 1) := by
  obtain ⟨rest, left⟩ := Cursor.ahead_of_current like.intact goesOn
  obtain ⟨_, none, _⟩ | ⟨_, _, none, _⟩ | ⟨first, rest', second, others, here, right, alike⟩ :=
    like.ahead.head
  · simp [none] at left
  · simp [none] at left
  · obtain ⟨rfl, rfl⟩ := List.cons.inj (here.symm.trans left)
    obtain ⟨passes, behind⟩ := Cursor.advanceBy_passes [start.current] _ left
    obtain ⟨passes', behind'⟩ := Cursor.advanceBy_passes [second] _ right
    have aligned := like.ahead
    rw [left, right] at aligned
    refine ⟨passes.intact like.intact, passes'.intact like.intact', ?_, ?_, fun _ => ?_⟩
    · rw [show (start.advanceBy 1).ahead = _ from behind,
        show (other.advanceBy 1).ahead = _ from behind']
      exact (aligned.behind plain level).1
    · intro whole
      have same := like.eof whole
      rw [← passes.eof, ← passes'.eof] at same
      exact same
    · have last := passes.last (by simp)
      have last' := passes'.last (by simp)
      rw [show (start.advanceBy 1).last = _ from last, show (other.advanceBy 1).last = _ from last']
      exact alike.span

theorem skip {σ : Type} {step : σ → TokenKind → Option σ} {level : σ → Nat}
    (like : c.Cursors near depth start other) (steady : Skip.Steady c depth step level) (state : σ)
    (zero : level state = 0) {count more : Nat} (first : count = Skip.scan step state start.ahead)
    (second : more = Skip.scan step state other.ahead) :
    c.Cursors near depth (start.advanceBy count) (other.advanceBy more) ∨
      c.tail ≠ [] ∧ depth = 0 ∧ (start.advanceBy count).ahead = [] := by
  have bound : count ≤ start.ahead.length := first ▸ Skip.scan_le _ _ _
  have bound' : more ≤ other.ahead.length := second ▸ Skip.scan_le _ _ _
  obtain ⟨passes, behind⟩ := Cursor.advanceBy_passes _ _ (List.take_append_drop count start.ahead).symm
  obtain ⟨passes', behind'⟩ := Cursor.advanceBy_passes _ _ (List.take_append_drop more other.ahead).symm
  rw [List.length_take_of_le bound] at passes behind
  rw [List.length_take_of_le bound'] at passes' behind'
  have scanned := like.ahead.scan steady state fun _ => by rw [zero, Nat.add_zero]
  rw [← first, ← second] at scanned
  cases scanned with
  | past cut outside ended => exact .inr ⟨cut, outside, behind.trans ended⟩
  | both aligned last =>
    refine .inl ⟨passes.intact like.intact, passes'.intact like.intact', ?_, ?_, fun holds => ?_⟩
    · rw [behind, behind']
      exact aligned
    · intro whole
      rw [passes.eof, passes'.eof]
      exact like.eof whole
    · rw [passes.last_getD, passes'.last_getD]
      generalize (start.ahead.take count).getLast? = before at last ⊢
      generalize (other.ahead.take more).getLast? = behind at last ⊢
      cases last with
      | none => exact like.last holds
      | some alike => exact alike.span

theorem skipBreaks (like : c.Cursors near depth start other) :
    c.Cursors near depth
        (start.advanceBy (start.ahead.takeWhile (·.kind == .lineBreak)).length)
        (other.advanceBy (other.ahead.takeWhile (·.kind == .lineBreak)).length) ∨
      c.tail ≠ [] ∧ depth = 0 ∧
        (start.advanceBy (start.ahead.takeWhile (·.kind == .lineBreak)).length).ahead = [] :=
  like.skip (Skip.steady_stepWhile (fun _ => Skip.neutral_lineBreak) depth) () rfl
    (Skip.length_takeWhile (· == .lineBreak) _) (Skip.length_takeWhile (· == .lineBreak) _)

end Cursors

namespace Replies

variable {α β γ δ : Type} {values : α → β → Prop} {others : γ → δ → Prop} {last : Nat}
  {first : Parser α} {second : Parser β} {goesOn : α → Parser γ} {goesOn' : β → Parser δ}

theorem weaken {far : Prop} {first : Reply α} {second : Reply β} (implies : far → near)
    (likes : c.Replies near lax next values first second) :
    c.Replies far lax next values first second := by
  cases likes with
  | lost cut allowed told => exact .lost cut allowed told
  | same value reports cursors =>
    exact .same value reports fun whole => (cursors whole).weaken implies

theorem bind (head : c.Replies near lax next values (first start) (second other))
    (tail : ∀ value value', (first start).value = some value → (second other).value = some value' →
      values value value' → c.LikesAt near lax next last others (first start).cursor
        (second other).cursor (goesOn value) (goesOn' value')) :
    c.Replies near lax last others ((first >>= goesOn) start) ((second >>= goesOn') other) := by
  cases head with
  | lost cut allowed told =>
    refine .lost cut allowed fun none => told ?_
    exact List.prefix_nil.1 (none ▸ Parser.reports_bind first goesOn start)
  | same value reports cursors =>
    cases found : (first start).value with
    | none =>
      rw [found] at value cursors
      rw [Parser.bind_of_none found, Parser.bind_of_none (rel_none value)]
      refine .same .none reports fun whole => ?_
      exact (cursors (.inl (whole.resolve_right (by simp)))).anywhere
        (whole.resolve_right (by simp)) last
    | some answer =>
      rw [found] at value cursors
      obtain ⟨answer', found', holds⟩ := rel_some value
      rw [Parser.bind_of_some found, Parser.bind_of_some found']
      cases tail answer answer' found found' holds (cursors (.inr rfl)) with
      | lost cut allowed told => exact .lost cut allowed (by simp [Reply.after, told])
      | same value more cursors =>
        exact .same value (List.rel_append reports more) cursors

end Replies

namespace LikesAt

variable {α β γ δ : Type} {values : α → β → Prop} {others : γ → δ → Prop} {last : Nat}

theorem pure {value : α} {value' : β} (holds : values value value') :
    c.LikesAt near lax depth depth values start other (Pure.pure value) (Pure.pure value') :=
  fun like => .same (.some holds) .nil fun _ => like

theorem fail : c.LikesAt near lax depth next values start other Parser.fail Parser.fail :=
  fun like => .same .none .nil fun whole =>
    like.anywhere (whole.resolve_right (by simp [Parser.fail])) next

theorem reject {report report' : Diagnostic} (same : c.Reports report report') :
    c.LikesAt near lax depth next values start other (Parser.reject report)
      (Parser.reject report') :=
  fun like => .same .none (.cons same .nil) fun whole =>
    like.anywhere (whole.resolve_right (by simp [Parser.reject])) next

/-- Where the first text has come to its end, a report is enough. -/
theorem reject_past {report : Diagnostic} (past : c.Past depth start other) (allowed : lax)
    (second : Parser β) :
    c.LikesAt near lax depth next values start other (Parser.reject report) second :=
  fun _ => .lost past.cut allowed (by simp [Parser.reject])

theorem bind_at {first : Parser α} {second : Parser β} {goesOn : α → Parser γ}
    {goesOn' : β → Parser δ}
    (head : c.LikesAt near lax depth next values start other first second)
    (tail : ∀ value value', (first start).value = some value → (second other).value = some value' →
      values value value' → c.LikesAt near lax next last others (first start).cursor
        (second other).cursor (goesOn value) (goesOn' value')) :
    c.LikesAt near lax depth last others start other (first >>= goesOn) (second >>= goesOn') :=
  fun like => (head like).bind tail

theorem bind {first : Parser α} {second : Parser β} {goesOn : α → Parser γ} {goesOn' : β → Parser δ}
    (head : c.LikesAt near lax depth next values start other first second)
    (tail : ∀ value value' stop stop', values value value' →
      c.LikesAt near lax next last others stop stop' (goesOn value) (goesOn' value')) :
    c.LikesAt near lax depth last others start other (first >>= goesOn) (second >>= goesOn') :=
  bind_at head fun value value' _ _ holds => tail value value' _ _ holds

/-- Within a trial nothing may be lost. -/
theorem strict {first : Parser α} {second : Parser β}
    (likes : c.LikesAt near False depth next values start other first second) :
    c.LikesAt near lax depth next values start other first second := by
  intro like
  cases likes like with
  | lost _ never => exact never.elim
  | same value reports cursors => exact .same value reports cursors

theorem here_bind {goesOn : Cursor → Parser γ} {goesOn' : Cursor → Parser δ}
    (tail : c.LikesAt near lax depth last others start other (goesOn start) (goesOn' other)) :
    c.LikesAt near lax depth last others start other (Parser.here >>= goesOn)
      (Parser.here >>= goesOn') :=
  fun like => tail like

theorem current_bind {goesOn : Token → Parser γ} {goesOn' : Token → Parser δ}
    (tail : c.LikesAt near lax depth last others start other (goesOn start.current)
      (goesOn' other.current)) :
    c.LikesAt near lax depth last others start other (Parser.current >>= goesOn)
      (Parser.current >>= goesOn') :=
  fun like => tail like

theorem report_bind {report report' : Diagnostic} {goesOn : Unit → Parser γ}
    {goesOn' : Unit → Parser δ} (same : c.Reports report report')
    (tail : c.LikesAt near lax depth last others start other (goesOn ()) (goesOn' ())) :
    c.LikesAt near lax depth last others start other (Parser.report report >>= goesOn)
      (Parser.report report' >>= goesOn') := by
  intro like
  cases tail like with
  | lost cut allowed told => exact .lost cut allowed (List.cons_ne_nil _ _)
  | same value reports cursors =>
    exact .same value (.cons same reports) cursors

/-- Where the first text is shorter, a report is enough. -/
theorem report_lost {report : Diagnostic} {goesOn : Unit → Parser γ} (cut : c.tail ≠ [])
    (allowed : lax) (second : Parser δ) :
    c.LikesAt near lax depth last others start other (Parser.report report >>= goesOn) second :=
  fun _ => .lost cut allowed (List.cons_ne_nil _ _)

theorem note_bind {event event' : Event} {goesOn : Unit → Parser γ} {goesOn' : Unit → Parser δ}
    (tail : c.LikesAt near lax depth last others start other (goesOn ()) (goesOn' ())) :
    c.LikesAt near lax depth last others start other (Parser.note event >>= goesOn)
      (Parser.note event' >>= goesOn') := by
  intro like
  cases tail like with
  | lost cut allowed told => exact .lost cut allowed told
  | same value reports cursors => exact .same value reports cursors

theorem advance_bind {goesOn : Unit → Parser γ} {goesOn' : Unit → Parser δ}
    (ahead : start.current.kind ≠ .endOfFile) (plain : start.current.kind ≠ .lineBreak)
    (level : c.tail ≠ [] → Skip.openAfter? depth start.current.kind = some next)
    (tail : ∀ stop stop', c.LikesAt near lax next last others stop stop' (goesOn ()) (goesOn' ())) :
    c.LikesAt near lax depth last others start other (Parser.advance >>= goesOn)
      (Parser.advance >>= goesOn') :=
  fun like => tail _ _ ((like.advance ahead plain level).weaken fun _ => trivial)

theorem previous_bind {goesOn : Token → Parser γ} {goesOn' : Token → Parser δ}
    (tail : ∀ token token', c.Spans token.span token'.span →
      c.LikesAt True lax depth last others start other (goesOn token) (goesOn' token')) :
    c.LikesAt True lax depth last others start other (Parser.previous >>= goesOn)
      (Parser.previous >>= goesOn') := by
  intro like
  have found {cursor : Cursor} (intact : cursor.Intact) :
      Parser.previous cursor = { value := some cursor.last, cursor } := by
    rw [Parser.previous, Cursor.previous?_of_intact intact]
  rw [Parser.bind_of_some (by rw [found like.intact]), Parser.bind_of_some (by rw [found like.intact']),
    found like.intact, found like.intact']
  exact tail _ _ (like.last trivial) like

theorem inside {first : Parser α} {second : Parser β} {level level' : Nat}
    (likes : c.LikesAt near lax depth next values start other first second) :
    c.LikesAt near lax depth next values start other (Parser.inside level first)
      (Parser.inside level' second) := by
  intro like
  have plain {γ : Type} (level : Nat) (parser : Parser γ) (start : Cursor) :
      (Parser.inside level parser start).value = (parser start).value ∧
        (Parser.inside level parser start).reports = (parser start).reports ∧
        (Parser.inside level parser start).cursor = (parser start).cursor := by
    rw [Parser.inside]
    split <;> exact ⟨rfl, rfl, rfl⟩
  obtain ⟨value, reports, cursor⟩ := plain level first start
  obtain ⟨value', reports', cursor'⟩ := plain level' second other
  cases likes like with
  | lost cut allowed told => exact .lost cut allowed (reports ▸ told)
  | same holds listed cursors =>
    refine .same ?_ ?_ ?_
    · rwa [value, value']
    · rwa [reports, reports']
    · rwa [value, cursor, cursor']

/-- Trials that are given up leave both runs where they began. -/
theorem attempt {trial : Trial} {first : Parser α} {second : Parser β}
    (likes : c.LikesAt near False depth depth values start other first second) :
    c.LikesAt near lax depth depth (Option.Rel values) start other (Parser.attempt trial first)
      (Parser.attempt trial second) := by
  intro like
  cases likes like with
  | lost _ never => exact never.elim
  | same value reports cursors =>
    cases found : (first start).value with
    | none =>
      rw [found] at value
      rw [Parser.attempt, Parser.attempt, found, rel_none value]
      exact .same (.some .none) .nil fun _ => like
    | some answer =>
      rw [found] at value cursors
      obtain ⟨answer', found', holds⟩ := rel_some value
      have like' := cursors (.inr rfl)
      rw [Parser.attempt, Parser.attempt, found, found']
      simp only [Parser.Sound.matched_of_intact like'.intact,
        Parser.Sound.matched_of_intact like'.intact']
      refine .same (.some (.some holds)) ?_ fun _ => like'
      simpa [Reply.after] using reports

theorem unlessDeclined {first : Parser (Option α)} {second : Parser (Option β)}
    {otherwise : Parser α} {otherwise' : Parser β}
    (likes : c.LikesAt near False depth depth (Option.Rel values) start other first second)
    (third : c.LikesAt near lax depth depth values start other otherwise otherwise') :
    c.LikesAt near lax depth depth values start other (Parser.unlessDeclined first otherwise)
      (Parser.unlessDeclined second otherwise') := by
  intro like
  cases likes like with
  | lost _ never => exact never.elim
  | same value reports cursors =>
    match found : (first start).value with
    | none =>
      rw [found] at value cursors
      rw [Parser.unlessDeclined, Parser.unlessDeclined, found, rel_none value]
      exact .same .none reports fun whole =>
        cursors (whole.imp_right (by simp))
    | some (some answer) =>
      rw [found] at value cursors
      obtain ⟨_, found', whole⟩ := rel_some value
      obtain ⟨answer', rfl, holds⟩ := rel_some whole
      rw [Parser.unlessDeclined, Parser.unlessDeclined, found, found']
      exact .same (.some holds) reports fun _ => cursors (.inr rfl)
    | some none =>
      rw [found] at value
      obtain ⟨_, found', holds⟩ := rel_some value
      obtain rfl := rel_none holds
      rw [Parser.unlessDeclined, Parser.unlessDeclined, found, found']
      cases third like with
      | lost cut allowed told => exact .lost cut allowed told
      | same value reports cursors => exact .same value reports cursors

/-- Where the first text is shorter, a failure is enough, because it is always reported. -/
theorem recover {reading : Reading α} {first : Parser α} {second : Parser β}
    {recovery recovery' : Parser Unit} (sound : Parser.Sound reading first)
    (allowed : c.tail = [] ∨ lax)
    (likes : c.LikesAt near lax depth depth values start other first second)
    (recovers : c.tail = [] → c.Likes near lax depth depth Eq recovery recovery') :
    c.LikesAt near lax depth depth (Option.Rel values) start other
      (Parser.recover first recovery) (Parser.recover second recovery') := by
  intro like
  cases likes like with
  | lost cut allowed told =>
    refine .lost cut allowed fun none => told ?_
    exact List.prefix_nil.1 (none ▸ Parser.reports_recover first recovery start)
  | same value reports cursors =>
    cases found : (first start).value with
    | some answer =>
      rw [found] at value cursors
      obtain ⟨answer', found', holds⟩ := rel_some value
      rw [Parser.recover, Parser.recover, found, found']
      exact .same (.some (.some holds)) reports fun _ => cursors (.inr rfl)
    | none =>
      rw [found] at value cursors
      by_cases whole : c.tail = []
      · rw [Parser.recover, Parser.recover, found, rel_none value]
        cases recovers whole _ _ (cursors (.inl whole)) with
        | lost cut => exact absurd whole cut
        | same _ more cursors =>
          exact .same (.some .none) (List.rel_append reports more) fun _ => cursors (.inl whole)
      · obtain ⟨_, _, _, told⟩ := sound start like.intact
        simp only [found] at told
        refine .lost whole (allowed.resolve_left whole) fun none => told ?_
        exact List.prefix_nil.1 (none ▸ Parser.reports_recover first recovery start)

end LikesAt

namespace Likes

variable {α β : Type} {values : α → β → Prop} {step : Parser (Option α)} {step' : Parser (Option β)}

theorem manyUpTo (likes : c.Likes near lax depth depth (Option.Rel values) step step')
    (advances : Parser.Advances step) (advances' : Parser.Advances step') (count more : Nat)
    (enough : start.ahead.length < count) (enough' : other.ahead.length < more) :
    c.LikesAt near lax depth depth (List.Forall₂ values) start other (Parser.manyUpTo count step)
      (Parser.manyUpTo more step') := by
  induction count generalizing more start other with
  | zero => omega
  | succ count ih =>
    obtain ⟨more, rfl⟩ : ∃ less, more = less + 1 := ⟨more - 1, by omega⟩
    intro like
    rw [Parser.manyUpTo, Parser.manyUpTo]
    refine LikesAt.bind_at (likes start other) (fun value value' found found' holds => ?_) like
    cases holds with
    | none => exact LikesAt.pure .nil
    | some holds =>
      have shorter := advances start like.intact _ found
      have shorter' := advances' other like.intact' _ found'
      refine LikesAt.bind (ih more (by omega) (by omega)) fun _ _ _ _ rest => ?_
      exact LikesAt.pure (.cons holds rest)

theorem many (likes : c.Likes near lax depth depth (Option.Rel values) step step')
    (advances : Parser.Advances step) (advances' : Parser.Advances step') :
    c.Likes near lax depth depth (List.Forall₂ values) (Parser.many step) (Parser.many step') :=
  fun _ _ => manyUpTo likes advances advances' _ _ (Nat.lt_succ_self _) (Nat.lt_succ_self _)

end Likes

end Comparison

end MoSyntax
