import MoSyntax.Diagnostic.Basic

/-!
A bag collects diagnostics in the order of their reports. A bag made for a source text fills in
the line and column of what is reported to it.
-/
namespace MoSyntax

structure Bag where
  lines : Option LineTable := none
  items : List Diagnostic := []

namespace Bag

def empty : Bag := {}

def ofSource (source : Text) : Bag := { lines := some (LineTable.ofText source) }

def place (bag : Bag) (diagnostic : Diagnostic) : Diagnostic :=
  match bag.lines with
  | some table => { diagnostic with position := table.position diagnostic.span.start }
  | none => diagnostic

def report (bag : Bag) (diagnostic : Diagnostic) : Bag :=
  { bag with items := bag.items ++ [bag.place diagnostic] }

def reportAll (bag : Bag) (diagnostics : List Diagnostic) : Bag := diagnostics.foldl report bag

def size (bag : Bag) : Nat := bag.items.length

def isEmpty (bag : Bag) : Bool := bag.items.isEmpty

def hasErrors (bag : Bag) : Bool := !bag.isEmpty

/-- Forgets all but the first `size` diagnostics. -/
def truncate (bag : Bag) (size : Nat) : Bag := { bag with items := bag.items.take size }

/-- The order of primary spans: by their start, then by their end. -/
def precedes (first second : Diagnostic) : Bool :=
  first.span.start < second.span.start ||
    (first.span.start == second.span.start && first.span.stop ≤ second.span.stop)

/-- Puts a diagnostic before the first one that it precedes. -/
def insertSorted (diagnostic : Diagnostic) : List Diagnostic → List Diagnostic
  | [] => [diagnostic]
  | first :: rest =>
    if precedes diagnostic first then diagnostic :: first :: rest
    else first :: insertSorted diagnostic rest

/-- The diagnostics in source order; those of one span stay in the order of their reports. -/
def sorted (bag : Bag) : List Diagnostic := bag.items.foldr insertSorted []

end Bag

end MoSyntax
