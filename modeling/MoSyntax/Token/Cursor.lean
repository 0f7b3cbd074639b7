import MoSyntax.Token.Basic

/-!
A place in a list of tokens. Comments are left out and the end of the file stands apart, so a look
past the last token always finds it. Cutting tokens off can leave a cursor beyond what is left, and
then the token before its place may be gone.
-/
namespace MoSyntax

structure Cursor where
  /-- The tokens before the place, the nearest first. -/
  passed : List Token
  ahead : List Token
  eof : Token
  /-- How many cut off tokens lie between the last token and the place. -/
  beyond : Nat := 0
deriving DecidableEq, Repr

namespace Cursor

/-- The end of the file: the last token if it is one, and otherwise the place behind that. -/
def endOf (tokens : List Token) : Token :=
  match tokens.getLast? with
  | some last => if last.isEndOfFile then last else .endOfFile last.span.stop last.position
  | none => .endOfFile 0 ⟨1, 1⟩

/-- The tokens before a closing end of the file. -/
def bodyOf (tokens : List Token) : List Token :=
  if tokens.getLast?.any (·.isEndOfFile) then tokens.dropLast else tokens

def ofTokens (tokens : List Token) : Cursor :=
  let tokens := tokens.filter (!·.isComment)
  { passed := [], ahead := bodyOf tokens, eof := endOf tokens }

def tokens (cursor : Cursor) : List Token := cursor.passed.reverse ++ cursor.ahead

/-- The number of tokens without the end of the file. -/
def size (cursor : Cursor) : Nat := cursor.passed.length + cursor.ahead.length

def index (cursor : Cursor) : Nat := cursor.passed.length + cursor.beyond

/-- The cursor over some tokens at an index. -/
def placed (eof : Token) (tokens : List Token) (index : Nat) : Cursor :=
  { passed := (tokens.take index).reverse
    ahead := tokens.drop index
    eof
    beyond := index - tokens.length }

/-- The token so many further on. The sum of the index and `k` is taken to fit the range of indices.
It does wherever the parser looks ahead: there `k` is 1 at most, or counts tokens that are ahead. -/
def peek (cursor : Cursor) (k : Nat) : Token := cursor.ahead.getD k cursor.eof

def current (cursor : Cursor) : Token := cursor.peek 0

def atEnd (cursor : Cursor) : Bool := cursor.ahead.isEmpty

/-- The token passed last; before the first token it is that one. -/
def last (cursor : Cursor) : Token := cursor.passed.headD cursor.current

/-- The token before the place, as far as it has not been cut off. -/
def previous? (cursor : Cursor) : Option Token :=
  match cursor.beyond with
  | 0 => some cursor.last
  | 1 => some cursor.eof
  | _ => none

/-- Past the current token; the end of the file is never passed. -/
def advance (cursor : Cursor) : Cursor :=
  match cursor.ahead with
  | [] => cursor
  | token :: ahead => { cursor with passed := token :: cursor.passed, ahead }

def advanceBy : Nat → Cursor → Cursor
  | 0, cursor => cursor
  | n + 1, cursor => advanceBy n cursor.advance

def reset (cursor : Cursor) (index : Nat) : Cursor := placed cursor.eof cursor.tokens index

def movedSince (cursor : Cursor) (index : Nat) : Bool := cursor.index != index

/-- Keeps so many tokens and the end of the file; also gives the first token that was cut off. -/
def truncate (cursor : Cursor) (limit : Nat) : Cursor × Option Token :=
  if cursor.size ≤ limit then (cursor, none)
  else (placed cursor.eof (cursor.tokens.take limit) cursor.index, cursor.tokens[limit]?)

end Cursor

end MoSyntax
