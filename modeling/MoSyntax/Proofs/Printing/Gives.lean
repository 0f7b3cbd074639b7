import MoSyntax.Proofs.Printing.Heads
import MoSyntax.Proofs.Printing.Lexing
import MoSyntax.Proofs.Reading.Logic

/-!
What a parser gives where certain kinds of tokens lie ahead. It reports nothing, and the tokens
left are of the kinds that the parser did not ask for.
-/
namespace MoSyntax

theorem Glued.behind {used rest : List Token} (glued : Glued (used ++ rest)) : Glued rest := by
  induction used with
  | nil => exact glued
  | cons token used ih => exact ih glued.tail

/-- The tokens ahead are of these kinds. -/
structure Cursor.Holds (cursor : Cursor) (kinds : List TokenKind) : Prop where
  intact : cursor.Intact
  glued : Glued cursor.ahead
  kinds : cursor.ahead.map Token.kind = kinds

namespace Cursor.Holds

variable {cursor : Cursor} {kinds : List TokenKind}

theorem peek (holds : cursor.Holds kinds) (count : Nat) :
    (cursor.peek count).kind = kinds.getD count .endOfFile := by
  rw [← holds.kinds, Cursor.peek, List.getD_eq_getElem?_getD, List.getD_eq_getElem?_getD,
    List.getElem?_map]
  cases cursor.ahead[count]? with
  | none => exact holds.intact.eof
  | some token => rfl

theorem current (holds : cursor.Holds kinds) : cursor.current.kind = upcoming kinds := by
  rw [Cursor.current, holds.peek]
  cases kinds <;> rfl

theorem atEnd (holds : cursor.Holds kinds) : cursor.atEnd = kinds.isEmpty := by
  rw [← holds.kinds, Cursor.atEnd, List.isEmpty_map]

theorem advanceBy {front rest : List TokenKind} (holds : cursor.Holds (front ++ rest)) :
    (cursor.advanceBy front.length).Holds rest := by
  obtain ⟨used, left, ahead, rfl, behind⟩ := List.map_eq_append_iff.1 holds.kinds
  rw [List.length_map]
  obtain ⟨passes, reached⟩ := Cursor.advanceBy_passes used left ahead
  refine ⟨passes.intact holds.intact, ?_, by rw [reached, behind]⟩
  rw [reached]
  exact Glued.behind (ahead ▸ holds.glued)

theorem takeWhile (holds : cursor.Holds kinds) (pass : TokenKind → Bool) :
    (cursor.ahead.takeWhile fun token => pass token.kind).length =
      (kinds.takeWhile pass).length := by
  rw [← holds.kinds, List.takeWhile_map, List.length_map]
  rfl

end Cursor.Holds

namespace Parser

variable {α β : Type} {before middle after : List TokenKind} {shape : α → Prop} {whole : β → Prop}

/-- Wherever the kinds `before` lie ahead, the parser gives in silence something of a shape, and
then the kinds `after` lie ahead. -/
def Gives (before : List TokenKind) (shape : α → Prop) (after : List TokenKind)
    (parser : Parser α) : Prop :=
  ∀ start : Cursor, start.Holds before →
    (parser start).reports = [] ∧
      ∃ value, (parser start).value = some value ∧ shape value ∧ (parser start).cursor.Holds after

/-- Wherever the kinds lie ahead, the parser has nothing. -/
def Fails (before : List TokenKind) (parser : Parser α) : Prop :=
  ∀ start : Cursor, start.Holds before → (parser start).value = none

namespace Gives

theorem imp {weak : α → Prop} {parser : Parser α} (gives : Gives before shape after parser)
    (implies : ∀ value, shape value → weak value) : Gives before weak after parser := by
  intro start holds
  obtain ⟨silent, value, found, shaped, reached⟩ := gives start holds
  exact ⟨silent, value, found, implies value shaped, reached⟩

theorem pure {value : α} (shaped : shape value) : Gives before shape before (Pure.pure value) :=
  fun _ holds => ⟨rfl, value, rfl, shaped, holds⟩

theorem bind {first : Parser α} {next : α → Parser β} (head : Gives before shape middle first)
    (tail : ∀ value, shape value → Gives middle whole after (next value)) :
    Gives before whole after (first >>= next) := by
  intro start holds
  obtain ⟨silent, value, found, shaped, reached⟩ := head start holds
  obtain ⟨clean, last, answer, right, stop⟩ := tail value shaped _ reached
  rw [bind_of_some found]
  exact ⟨by simp [Reply.after, silent, clean], last, answer, right, stop⟩

theorem here_bind {next : Cursor → Parser β}
    (tail : ∀ cursor, cursor.Holds before → Gives before whole after (next cursor)) :
    Gives before whole after (here >>= next) := by
  intro start holds
  obtain ⟨clean, last, answer, right, stop⟩ := tail start holds start holds
  exact ⟨clean, last, answer, right, stop⟩

theorem current_bind {next : Token → Parser β}
    (tail : ∀ token, token.kind = upcoming before → Gives before whole after (next token)) :
    Gives before whole after (current >>= next) := by
  intro start holds
  obtain ⟨clean, last, answer, right, stop⟩ := tail start.current holds.current start holds
  exact ⟨clean, last, answer, right, stop⟩

theorem check_bind {kind : TokenKind} {next : Bool → Parser β}
    (tail : Gives before whole after (next (upcoming before == kind))) :
    Gives before whole after (check kind >>= next) := by
  intro start holds
  obtain ⟨clean, last, answer, right, stop⟩ := tail start holds
  rw [← holds.current] at clean answer stop
  exact ⟨clean, last, answer, right, stop⟩

theorem note_bind {event : Event} {next : Unit → Parser β}
    (tail : Gives before whole after (next ())) : Gives before whole after (note event >>= next) := by
  intro start holds
  obtain ⟨clean, last, answer, right, stop⟩ := tail start holds
  exact ⟨clean, last, answer, right, stop⟩

theorem skip (front rest : List TokenKind) :
    Gives (front ++ rest) (fun _ => True) rest (Parser.skip front.length) :=
  fun _ holds => ⟨rfl, (), rfl, trivial, holds.advanceBy⟩

theorem advance_bind {kind : TokenKind} {rest : List TokenKind} {next : Unit → Parser β}
    (tail : Gives rest whole after (next ())) :
    Gives (kind :: rest) whole after (advance >>= next) :=
  bind (skip [kind] rest) fun _ _ => tail

theorem inside {parser : Parser α} (depth : Nat) (gives : Gives before shape after parser) :
    Gives before shape after (Parser.inside depth parser) := by
  intro start holds
  obtain ⟨silent, value, found, shaped, reached⟩ := gives start holds
  rw [Parser.inside]
  split <;> exact ⟨silent, value, found, shaped, reached⟩

theorem attempt {parser : Parser α} (trial : Trial) (gives : Gives before shape after parser) :
    Gives before (fun found => ∃ value, found = some value ∧ shape value) after
      (Parser.attempt trial parser) := by
  intro start holds
  obtain ⟨silent, value, found, shaped, reached⟩ := gives start holds
  rw [Parser.attempt, found]
  have matched : (do note (.matched trial (← previous).position); return some value :
      Parser (Option α)) (parser start).cursor =
        { value := some (some value), cursor := (parser start).cursor
          events := [.matched trial (parser start).cursor.last.position] } := by
    show andThen previous _ (parser start).cursor = _
    rw [andThen, previous, Cursor.previous?_of_intact reached.intact]
    rfl
  simp only [matched]
  exact ⟨by simp [Reply.after, silent], some value, rfl, ⟨value, rfl, shaped⟩, reached⟩

theorem attempt_of_fails {parser : Parser α} (trial : Trial) (fails : Fails before parser) :
    Gives before (· = none) before (Parser.attempt trial parser) := by
  intro start holds
  rw [Parser.attempt, fails start holds]
  exact ⟨rfl, none, rfl, rfl, holds⟩

theorem unlessDeclined {parser : Parser (Option α)} {other : Parser α}
    (gives : Gives before (fun found => ∃ value, found = some value ∧ shape value) after parser) :
    Gives before shape after (Parser.unlessDeclined parser other) := by
  intro start holds
  obtain ⟨silent, _, found, ⟨value, rfl, shaped⟩, reached⟩ := gives start holds
  simp only [Parser.unlessDeclined, found]
  exact ⟨silent, value, rfl, shaped, reached⟩

theorem unlessDeclined_of_declined {parser : Parser (Option α)} {other : Parser α}
    (declined : Gives before (· = none) middle parser) (gives : Gives before shape after other) :
    Gives before shape after (Parser.unlessDeclined parser other) := by
  intro start holds
  obtain ⟨_, _, found, rfl, _⟩ := declined start holds
  obtain ⟨silent, value, answer, shaped, reached⟩ := gives start holds
  simp only [Parser.unlessDeclined, found]
  exact ⟨by simpa [Reply.after] using silent, value, answer, shaped, reached⟩

theorem recover {parser : Parser α} (recovery : Parser Unit)
    (gives : Gives before shape after parser) :
    Gives before (fun found => ∃ value, found = some value ∧ shape value) after
      (Parser.recover parser recovery) := by
  intro start holds
  obtain ⟨silent, value, found, shaped, reached⟩ := gives start holds
  simp only [Parser.recover, found]
  exact ⟨silent, some value, rfl, ⟨value, rfl, shaped⟩, reached⟩

end Gives

/-- A repetition, round by round: what the rounds give is what is expected, in some view of it. -/
inductive Rounds (step : Parser (Option α)) (view : α → β) (after : List TokenKind) :
    List TokenKind → List β → Prop
  | done {before : List TokenKind} (ends : Gives before (· = none) after step) : Rounds step view after before []
  | more {before middle : List TokenKind} {expected : β} {others : List β}
      (shorter : middle.length < before.length)
      (gives : Gives before (fun found => ∃ value, found = some value ∧ view value = expected)
        middle step)
      (rest : Rounds step view after middle others) :
      Rounds step view after before (expected :: others)

namespace Rounds

variable {step : Parser (Option α)} {view : α → β} {expected : List β}

theorem manyUpTo (rounds : Rounds step view after before expected) {count : Nat}
    (enough : before.length < count) :
    Gives before (fun found => found.map view = expected) after (Parser.manyUpTo count step) := by
  induction rounds generalizing count with
  | done ends =>
    obtain ⟨count, rfl⟩ : ∃ less, count = less + 1 := ⟨count - 1, by omega⟩
    apply Gives.bind ends
    rintro _ rfl
    exact Gives.pure rfl
  | more shorter gives rest ih =>
    obtain ⟨count, rfl⟩ : ∃ less, count = less + 1 := ⟨count - 1, by omega⟩
    apply Gives.bind gives
    rintro _ ⟨value, rfl, same⟩
    apply Gives.bind (ih (by omega))
    intro found others
    exact Gives.pure (by rw [List.map_cons, same, others])

theorem many (rounds : Rounds step view after before expected) :
    Gives before (fun found => found.map view = expected) after (Parser.many step) := by
  intro start holds
  have length : start.ahead.length = before.length := by rw [← holds.kinds, List.length_map]
  exact rounds.manyUpTo (by omega) start holds

/-- Items that are written one behind the other. Behind each of them is again what may follow. -/
theorem of_flatMap {ι : Type} (write : ι → List TokenKind) (view : α → β) (target : ι → β)
    (Next : List TokenKind → Prop) {rest : List TokenKind} (items : List ι) (last : Next rest)
    (next : ∀ item ∈ items, ∀ behind, Next (write item ++ behind))
    (passes : ∀ item ∈ items, write item ≠ [])
    (gives : ∀ item ∈ items, ∀ behind, Next behind →
      Gives (write item ++ behind) (fun found => ∃ value, found = some value ∧
        view value = target item) behind step)
    (ends : Gives rest (· = none) after step) :
    Rounds step view after (items.flatMap write ++ rest) (items.map target) := by
  induction items with
  | nil => exact .done ends
  | cons item items ih =>
    have follows : Next (items.flatMap write ++ rest) := by
      cases items with
      | nil => exact last
      | cons second items =>
        rw [List.flatMap_cons, List.append_assoc]
        exact next second (by simp) _
    have tail := ih (fun other member => next other (List.mem_cons_of_mem _ member))
      (fun other member => passes other (List.mem_cons_of_mem _ member))
      (fun other member => gives other (List.mem_cons_of_mem _ member))
    rw [List.flatMap_cons, List.append_assoc, List.map_cons]
    refine .more ?_ (gives item List.mem_cons_self _ follows) tail
    have passed := List.length_pos_iff.2 (passes item List.mem_cons_self)
    simp only [List.length_append]
    omega

end Rounds

end Parser

end MoSyntax
