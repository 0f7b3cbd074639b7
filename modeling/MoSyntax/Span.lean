import MoSyntax.Text

/-! Ranges of byte offsets, and the piece of a text that a range cuts out. -/
namespace MoSyntax

structure Span where
  start : Nat
  stop : Nat
deriving DecidableEq, Repr, Inhabited

namespace Span

def empty (offset : Nat) : Span := ⟨offset, offset⟩

/-- From the start of the first span to the end of the second. -/
def through (first last : Span) : Span := ⟨first.start, last.stop⟩

/-- The number of bytes covered; a span that ends before it starts has none. -/
def size? (span : Span) : Option Nat :=
  if span.start ≤ span.stop then some (span.stop - span.start) else none

def isEmpty (span : Span) : Bool := span.start == span.stop

def contains (outer inner : Span) : Bool :=
  decide (outer.start ≤ inner.start) && decide (inner.stop ≤ outer.stop)

def slice? (span : Span) (text : Text) : Option Text := do
  (← Text.dropBytes? span.start text) |> Text.takeBytes? (← span.size?)

end Span

end MoSyntax
