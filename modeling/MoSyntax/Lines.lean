import MoSyntax.Span

/-!
Line and column numbers. A `LineTable` holds the lines of a text with their start offsets; an
offset belongs to the last line that starts at or before it. Columns count characters. An offset
inside a character is counted in bytes from the start of its line, and one past the end is read
as the end.
-/
namespace MoSyntax

/-- Both numbers are counted from 1; 0 stands for a place that is not known yet. -/
structure Position where
  line : Nat
  column : Nat
deriving DecidableEq, Repr, Inhabited

structure Line where
  start : Nat
  text : Text

structure LineTable where
  lines : List Line
  size : Nat

namespace LineTable

/-- Each line keeps the line feed that ends it; the last one, possibly empty, has none. -/
def splitLines : Text → List Text
  | [] => [[]]
  | c :: text =>
    if c = '\n' then ['\n'] :: splitLines text
    else match splitLines text with
      | [] => [[c]]
      | line :: lines => (c :: line) :: lines

def placeLines : Nat → List Text → List Line
  | _, [] => []
  | offset, line :: lines => ⟨offset, line⟩ :: placeLines (offset + Text.byteSize line) lines

def ofText (text : Text) : LineTable := ⟨placeLines 0 (splitLines text), Text.byteSize text⟩

def lineCount (table : LineTable) : Nat := table.lines.length

def columnIn (line : Line) (offset : Nat) : Nat :=
  match Text.takeBytes? (offset - line.start) line.text with
  | some before => before.length + 1
  | none => offset - line.start + 1

def position (table : LineTable) (offset : Nat) : Position :=
  let offset := min offset table.size
  let upTo := table.lines.takeWhile fun line => line.start ≤ offset
  ⟨upTo.length, (upTo.getLast?.map fun line => columnIn line offset).getD 1⟩

end LineTable

end MoSyntax
