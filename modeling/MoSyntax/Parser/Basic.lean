import MoSyntax.Diagnostic.Basic
import MoSyntax.Event
import MoSyntax.Token.Cursor

/-!
Parsers read a construct at a cursor. A reply has the construct, or nothing when it could not be
read, and in both cases the place reached, the diagnostics reported on the way, the events and the
missteps. A reading that is given up leaves its events behind, but no diagnostic.
-/
namespace MoSyntax

/-- A step that has no meaning where it is taken, so that no reading can go on from there. -/
inductive Misstep where
  /-- A look at the token before the place, when that has been cut off. -/
  | lookBehind
  /-- A closing bracket counted where none is open. -/
  | closing
  /-- A level of nesting left that was not entered. -/
  | leaving
  /-- A loop that goes on although its rounds pass no token. -/
  | endless
deriving DecidableEq, Repr

structure Reply (α : Type) where
  value : Option α
  cursor : Cursor
  reports : List Diagnostic := []
  events : List Event := []
  missteps : List Misstep := []

namespace Reply

/-- The reply with what an earlier parser has told. -/
def after {α β : Type} (reply : Reply β) (first : Reply α) : Reply β :=
  { reply with
    reports := first.reports ++ reply.reports
    events := first.events ++ reply.events
    missteps := first.missteps ++ reply.missteps }

end Reply

def Parser (α : Type) : Type := Cursor → Reply α

namespace Parser

def succeed {α : Type} (value : α) : Parser α := fun cursor => { value := some value, cursor }

def fail {α : Type} : Parser α := fun cursor => { value := none, cursor }

def andThen {α β : Type} (first : Parser α) (next : α → Parser β) : Parser β := fun cursor =>
  let reply := first cursor
  match reply.value with
  | none => { reply with value := none }
  | some value => (next value reply.cursor).after reply

instance : Monad Parser where
  pure := succeed
  bind := andThen

def report (diagnostic : Diagnostic) : Parser Unit := fun cursor =>
  { value := some (), cursor, reports := [diagnostic] }

def note (event : Event) : Parser Unit := fun cursor =>
  { value := some (), cursor, events := [event] }

/-- Reports what is wrong and gives up. -/
def reject {α : Type} (diagnostic : Diagnostic) : Parser α := fun cursor =>
  { value := none, cursor, reports := [diagnostic] }

def stumble {α : Type} (misstep : Misstep) : Parser α := fun cursor =>
  { value := none, cursor, missteps := [misstep] }

def here : Parser Cursor := fun cursor => { value := some cursor, cursor }

def skip (count : Nat) : Parser Unit := fun cursor =>
  { value := some (), cursor := cursor.advanceBy count }

def current : Parser Token := do return (← here).current

/-- The token passed last. -/
def previous : Parser Token := fun cursor =>
  match cursor.previous? with
  | some token => { value := some token, cursor }
  | none => stumble .lookBehind cursor

def advance : Parser Unit := skip 1

/-- Reads one level further in, at a given depth, and leaves that level again. -/
def inside {α : Type} (depth : Nat) (parser : Parser α) : Parser α := fun cursor =>
  let reply := parser cursor
  if depth = 0 then { reply with missteps := reply.missteps ++ [.leaving] } else reply

/-- Reads as far as the construct goes; if it does not fit, nothing has been read. -/
def attempt {α : Type} (trial : Trial) (parser : Parser α) : Parser (Option α) := fun start =>
  let reply := parser start
  match reply.value with
  | some value =>
    let found : Parser (Option α) := do
      note (.matched trial (← previous).position)
      return some value
    (found reply.cursor).after reply
  | none =>
    { reply with
      value := some none
      cursor := start
      reports := []
      events := reply.events ++ [.abandoned trial start.current.position] }

/-- A parser may decline what it has read; then the other one reads from the same place. -/
def unlessDeclined {α : Type} (parser : Parser (Option α)) (other : Parser α) : Parser α :=
  fun start =>
    let reply := parser start
    match reply.value with
    | none => { reply with value := none }
    | some (some value) => { reply with value := some value }
    | some none => (other start).after { reply with reports := [] }

/-- After a failure, goes on behind what the recovery skips. -/
def recover {α : Type} (parser : Parser α) (recovery : Parser Unit) : Parser (Option α) :=
  fun start =>
    let reply := parser start
    match reply.value with
    | some value => { reply with value := some (some value) }
    | none => { (recovery reply.cursor).after reply with value := some none }

def manyUpTo {α : Type} : Nat → Parser (Option α) → Parser (List α)
  | 0, _ => stumble .endless
  | count + 1, step => do
    match ← step with
    | none => return []
    | some value => return value :: (← manyUpTo count step)

/-- Repeats a step until it has nothing more. A step that has something passes a token, so there
are no more steps than tokens. -/
def many {α : Type} (step : Parser (Option α)) : Parser (List α) := fun cursor =>
  manyUpTo (cursor.ahead.length + 1) step cursor

end Parser

end MoSyntax
