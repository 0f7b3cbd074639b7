import MoSyntax.Token.Cursor

/-!
A list of tokens with an index, and the steps that can be taken from such a place. The steps are
told once for all kinds of places. One kind refines another if each operation does; then every
sequence of steps has the same answers in both.
-/
namespace MoSyntax

/-- Tokens, the last of them the end of the file, and an index. -/
@[ext]
structure IndexedTokens where
  tokens : List Token
  nonempty : tokens ≠ []
  index : Nat

namespace IndexedTokens

/-- The tokens with an end of the file behind them, if they have none. -/
def closed (tokens : List Token) : List Token :=
  match tokens.getLast? with
  | none => [.endOfFile 0 ⟨1, 1⟩]
  | some last =>
    if last.isEndOfFile then tokens else tokens ++ [.endOfFile last.span.stop last.position]

theorem closed_eq (tokens : List Token) :
    closed tokens = Cursor.bodyOf tokens ++ [Cursor.endOf tokens] := by
  rw [closed, Cursor.bodyOf, Cursor.endOf]
  cases last : tokens.getLast? with
  | none =>
    obtain rfl := List.getLast?_eq_none_iff.1 last
    rfl
  | some final =>
    cases ends : final.isEndOfFile with
    | true =>
      obtain ⟨front, rfl⟩ := List.getLast?_eq_some_iff.1 last
      simp [ends]
    | false => simp [ends]

def ofTokens (tokens : List Token) : IndexedTokens where
  tokens := closed (tokens.filter (!·.isComment))
  nonempty := by simp [closed_eq]
  index := 0

/-- The token so many further on, and the last one where there are not so many. As for a cursor, the
sum of the index and `k` is taken to fit the range of indices. -/
def peek (place : IndexedTokens) (k : Nat) : Token :=
  have bound : min (place.index + k) (place.tokens.length - 1) < place.tokens.length := by
    have some := List.length_pos_iff.2 place.nonempty
    omega
  place.tokens[min (place.index + k) (place.tokens.length - 1)]

def previous? (place : IndexedTokens) : Option Token := place.tokens[place.index - 1]?

def atEnd (place : IndexedTokens) : Bool := (place.peek 0).isEndOfFile

def advance (place : IndexedTokens) : IndexedTokens :=
  if place.atEnd then place else { place with index := place.index + 1 }

def reset (place : IndexedTokens) (index : Nat) : IndexedTokens := { place with index }

def movedSince (place : IndexedTokens) (index : Nat) : Bool := place.index != index

/-- Keeps so many tokens and the last one; also gives the first token that was cut off. -/
def truncate (place : IndexedTokens) (limit : Nat) : IndexedTokens × Option Token :=
  if place.tokens.length - 1 ≤ limit then (place, none)
  else
    ({ place with
        tokens := place.tokens.take limit ++ [place.tokens.getLast place.nonempty]
        nonempty := by simp },
      place.tokens[limit]?)

end IndexedTokens

/-- The ways to ask and to move a place among tokens. -/
structure Navigation (Place : Type) where
  peek : Place → Nat → Token
  previous? : Place → Option Token
  atEnd : Place → Bool
  index : Place → Nat
  movedSince : Place → Nat → Bool
  advance : Place → Place
  reset : Place → Nat → Place
  truncate : Place → Nat → Place × Option Token

def Cursor.navigation : Navigation Cursor where
  peek := peek
  previous? := previous?
  atEnd := atEnd
  index := index
  movedSince := movedSince
  advance := advance
  reset := reset
  truncate := truncate

def IndexedTokens.navigation : Navigation IndexedTokens where
  peek := peek
  previous? := previous?
  atEnd := atEnd
  index := index
  movedSince := movedSince
  advance := advance
  reset := reset
  truncate := truncate

/-- Marks are named by number, the first one taken by zero. -/
inductive CursorStep where
  /-- The sum of `k` and the index of the place is taken to fit the range of indices. -/
  | peek (k : Nat)
  | previous
  | advance
  | atEnd
  | mark
  | reset (mark : Nat)
  | movedSince (mark : Nat)
  | truncate (limit : Nat)
deriving DecidableEq, Repr

inductive CursorAnswer where
  | token (token : Token)
  | truth (holds : Bool)
  | marked (index : Nat)
  | dropped (token : Option Token)
  | done
  /-- No such mark has been taken. -/
  | unmarked
  | failed
deriving DecidableEq, Repr

def CursorAnswer.ofToken? (token : Option Token) : CursorAnswer :=
  match token with
  | some token => .token token
  | none => .failed

/-- A place with the indices that have been marked so far. -/
structure Marked (Place : Type) where
  place : Place
  marks : List Nat := []

namespace Marked

variable {Place Other : Type}

def map (view : Place → Other) (visit : Marked Place) : Marked Other :=
  { visit with place := view visit.place }

end Marked

namespace Navigation

variable {Place Other : Type}

def step (navigation : Navigation Place) (visit : Marked Place) :
    CursorStep → Marked Place × CursorAnswer
  | .peek k => (visit, .token (navigation.peek visit.place k))
  | .previous => (visit, .ofToken? (navigation.previous? visit.place))
  | .advance =>
    let next := navigation.advance visit.place
    ({ visit with place := next }, .ofToken? (navigation.previous? next))
  | .atEnd => (visit, .truth (navigation.atEnd visit.place))
  | .mark =>
    let index := navigation.index visit.place
    ({ visit with marks := visit.marks ++ [index] }, .marked index)
  | .reset mark =>
    match visit.marks[mark]? with
    | some index => ({ visit with place := navigation.reset visit.place index }, .done)
    | none => (visit, .unmarked)
  | .movedSince mark =>
    match visit.marks[mark]? with
    | some index => (visit, .truth (navigation.movedSince visit.place index))
    | none => (visit, .unmarked)
  | .truncate limit =>
    let (place, dropped) := navigation.truncate visit.place limit
    ({ visit with place }, .dropped dropped)

/-- The index of the place, and all that have been marked. -/
def indices (navigation : Navigation Place) (visit : Marked Place) : List Nat :=
  navigation.index visit.place :: visit.marks

def after (navigation : Navigation Place) (visit : Marked Place) (steps : List CursorStep) :
    Marked Place :=
  steps.foldl (fun visit step => (navigation.step visit step).1) visit

def answers (navigation : Navigation Place) (visit : Marked Place) :
    List CursorStep → List CursorAnswer
  | [] => []
  | step :: steps =>
    let (next, answer) := navigation.step visit step
    answer :: navigation.answers next steps

/-- One kind of place answers and moves as another one does, as long as it is sound. -/
structure Refines (concrete : Navigation Place) (abstract : Navigation Other)
    (view : Place → Other) (sound : Place → Prop) : Prop where
  peek : ∀ {place}, sound place → ∀ k, abstract.peek (view place) k = concrete.peek place k
  previous? : ∀ {place}, sound place → abstract.previous? (view place) = concrete.previous? place
  atEnd : ∀ {place}, sound place → abstract.atEnd (view place) = concrete.atEnd place
  index : ∀ place, abstract.index (view place) = concrete.index place
  movedSince : ∀ place index,
    abstract.movedSince (view place) index = concrete.movedSince place index
  advance : ∀ {place}, sound place → abstract.advance (view place) = view (concrete.advance place)
  reset : ∀ place index, abstract.reset (view place) index = view (concrete.reset place index)
  truncate : ∀ place limit, abstract.truncate (view place) limit =
    (view (concrete.truncate place limit).1, (concrete.truncate place limit).2)
  advance_sound : ∀ {place}, sound place → sound (concrete.advance place)
  reset_sound : ∀ {place}, sound place → ∀ index, sound (concrete.reset place index)
  truncate_sound : ∀ {place}, sound place → ∀ limit, sound (concrete.truncate place limit).1

namespace Refines

variable {concrete : Navigation Place} {abstract : Navigation Other} {view : Place → Other}
  {sound : Place → Prop} {visit : Marked Place}

theorem step_eq (refines : Refines concrete abstract view sound) (here : sound visit.place)
    (step : CursorStep) :
    abstract.step (visit.map view) step =
      ((concrete.step visit step).1.map view, (concrete.step visit step).2) := by
  cases step with
  | peek k => simp only [step, Marked.map, refines.peek here]
  | previous => simp only [step, Marked.map, refines.previous? here]
  | advance =>
    simp only [step, Marked.map, refines.advance here,
      refines.previous? (refines.advance_sound here)]
  | atEnd => simp only [step, Marked.map, refines.atEnd here]
  | mark => simp only [step, Marked.map, refines.index]
  | reset mark =>
    simp only [step, Marked.map]
    cases visit.marks[mark]? with
    | none => rfl
    | some index => simp only [refines.reset]
  | movedSince mark =>
    simp only [step, Marked.map]
    cases visit.marks[mark]? with
    | none => rfl
    | some index => simp only [refines.movedSince]
  | truncate limit => simp only [step, Marked.map, refines.truncate]

theorem step_sound (refines : Refines concrete abstract view sound) (here : sound visit.place)
    (step : CursorStep) : sound (concrete.step visit step).1.place := by
  cases step with
  | advance => exact refines.advance_sound here
  | reset mark =>
    simp only [step]
    cases visit.marks[mark]? with
    | none => exact here
    | some index => exact refines.reset_sound here index
  | movedSince mark =>
    simp only [step]
    cases visit.marks[mark]? with
    | none => exact here
    | some index => exact here
  | truncate limit => exact refines.truncate_sound here limit
  | _ => exact here

theorem after_eq (refines : Refines concrete abstract view sound) (visit : Marked Place)
    (here : sound visit.place) (steps : List CursorStep) :
    sound (concrete.after visit steps).place ∧
      abstract.after (visit.map view) steps = (concrete.after visit steps).map view := by
  induction steps generalizing visit with
  | nil => exact ⟨here, rfl⟩
  | cons step steps ih =>
    obtain ⟨there, same⟩ := ih _ (refines.step_sound here step)
    refine ⟨there, ?_⟩
    rw [after, List.foldl_cons, refines.step_eq here]
    exact same

theorem answers_eq (refines : Refines concrete abstract view sound) (visit : Marked Place)
    (here : sound visit.place) (steps : List CursorStep) :
    concrete.answers visit steps = abstract.answers (visit.map view) steps := by
  induction steps generalizing visit with
  | nil => rfl
  | cons step steps ih =>
    rw [answers, answers, refines.step_eq here]
    exact congrArg _ (ih _ (refines.step_sound here step))

end Refines

end Navigation

end MoSyntax
