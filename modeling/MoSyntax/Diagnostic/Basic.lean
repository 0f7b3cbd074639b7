import MoSyntax.Diagnostic.Code
import MoSyntax.Lines

/-!
What can be wrong with a source text. A fault names the kind of trouble; a diagnostic is one
occurrence of it, with a primary label that says where, further labels and notes. Its line and
column stay unknown until it is put into a bag.
-/
namespace MoSyntax

inductive Fault where
  | invalidCharacter
  | unterminatedString
  | invalidEscape
  | invalidNumberLiteral
  | unexpectedToken
  | missingExpectedToken
  | ambiguousConstruct
  | recursionLimitExceeded
  | tokenLimitExceeded
deriving DecidableEq, Repr

namespace Fault

inductive Category where
  | lexical
  | syntactic
  | resource
deriving DecidableEq, Repr

def all : List Fault :=
  [invalidCharacter, unterminatedString, invalidEscape, invalidNumberLiteral, unexpectedToken,
    missingExpectedToken, ambiguousConstruct, recursionLimitExceeded, tokenLimitExceeded]

def entry : Fault → ErrorCode
  | invalidCharacter => .invalidCharacter
  | unterminatedString => .unterminatedString
  | invalidEscape => .invalidEscape
  | invalidNumberLiteral => .invalidNumberLiteral
  | unexpectedToken => .unexpectedToken
  | missingExpectedToken => .missingExpectedToken
  | ambiguousConstruct => .ambiguousConstruct
  | recursionLimitExceeded => .recursionLimitExceeded
  | tokenLimitExceeded => .tokenLimitExceeded

def category : Fault → Category
  | invalidCharacter | unterminatedString | invalidEscape | invalidNumberLiteral => .lexical
  | unexpectedToken | missingExpectedToken | ambiguousConstruct => .syntactic
  | recursionLimitExceeded | tokenLimitExceeded => .resource

end Fault

structure Label where
  span : Span
  message : String
deriving DecidableEq, Repr

structure Diagnostic where
  fault : Fault
  message : String
  position : Position := ⟨0, 0⟩
  primary : Label
  secondary : List Label := []
  notes : List String := []
deriving DecidableEq, Repr

namespace Diagnostic

/-- A diagnostic with the message of the catalogue. -/
def standard (fault : Fault) (primary : Label) : Diagnostic :=
  { fault, message := fault.entry.message, primary }

def withMessage (diagnostic : Diagnostic) (message : String) : Diagnostic :=
  { diagnostic with message }

def withLabel (diagnostic : Diagnostic) (label : Label) : Diagnostic :=
  { diagnostic with secondary := diagnostic.secondary ++ [label] }

def withNote (diagnostic : Diagnostic) (note : String) : Diagnostic :=
  { diagnostic with notes := diagnostic.notes ++ [note] }

def code (diagnostic : Diagnostic) : String := diagnostic.fault.entry.code

def span (diagnostic : Diagnostic) : Span := diagnostic.primary.span

def labels (diagnostic : Diagnostic) : List Label := diagnostic.primary :: diagnostic.secondary

/-- One line with the place, the code and the message. -/
def headline (diagnostic : Diagnostic) : String :=
  s!"{diagnostic.position.line}:{diagnostic.position.column}: " ++
    s!"error[{diagnostic.code}]: {diagnostic.message}"

/-- The first line of the long form. -/
def header (diagnostic : Diagnostic) : String :=
  s!"[{diagnostic.code}] Error: {diagnostic.message}"

end Diagnostic

end MoSyntax
