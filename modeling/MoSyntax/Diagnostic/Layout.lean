import MoSyntax.Diagnostic.Basic

/-! A diagnostic as lines for a reader: its header, then its labels with their places, its notes. -/
namespace MoSyntax.Diagnostic

def labelLine (name : Text) (table : LineTable) (label : Label) : String :=
  let position := table.position label.span.start
  "  " ++ String.ofList name ++ s!":{position.line}:{position.column}: {label.message}"

def layout (name : Text) (table : LineTable) (diagnostic : Diagnostic) : List String :=
  diagnostic.header :: diagnostic.labels.map (labelLine name table) ++
    diagnostic.notes.map ("  note: " ++ ·)

end MoSyntax.Diagnostic
