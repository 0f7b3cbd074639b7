import MoSyntax.Proofs.Lexing.Lookahead
import MoSyntax.Tree.Node

/-!
The outline of a tree: which titles stand at which depth. The walk with its depths and the titles in
parentheses both write it out, and each of them tells where the outline of a node ends in a longer
text. So they tell the same trees apart.
-/
namespace MoSyntax

/-- What a walk tells of the outline when it comes to a node. -/
def Node.heading (visit : Nat × Node) : Nat × Text := (visit.1, visit.2.label.title)

/-- The outline of a whole program as its walk tells it. -/
def Program.headings (program : Program) : List (Nat × Text) := program.walk.map Node.heading

namespace NodeLabel

def spellsTitle (c : Char) : Bool := c.isAlpha || c == '_'

theorem title_spelled (label : NodeLabel) : ∀ c ∈ label.title, spellsTitle c := by
  apply List.all_eq_true.1
  cases label with
  | binary tier => cases tier <;> rfl
  | bool value => cases value <;> rfl
  | _ => rfl

/-- The title is the longest run of its characters in front of what does not go on with them. -/
theorem title_cut {first second : NodeLabel} {rest other : Text}
    (stops : Text.Stops spellsTitle rest) (stops' : Text.Stops spellsTitle other)
    (same : first.title ++ rest = second.title ++ other) :
    first.title = second.title ∧ rest = other := by
  obtain ⟨run, behind⟩ := stops.run first.title_spelled
  obtain ⟨run', behind'⟩ := stops'.run second.title_spelled
  rw [same] at run behind
  exact ⟨run.symm.trans run', behind.symm.trans behind'⟩

theorem count_title (label : NodeLabel) : label.title.count '(' = 0 := by
  refine List.count_eq_zero.2 fun member => ?_
  exact absurd (label.title_spelled _ member) (by decide)

end NodeLabel

namespace Node

theorem stops_sexpAll (nodes : List Node) (rest : Text) :
    Text.Stops NodeLabel.spellsTitle (sexpAll nodes ++ ')' :: rest) := by
  intro c first
  cases nodes with
  | nil =>
    obtain rfl : ')' = c := by simpa [sexpAll] using first
    decide
  | cons child children =>
    obtain rfl : ' ' = c := by simpa [sexpAll] using first
    decide

mutual

/-- The written form of a node tells its outline and where it ends. -/
theorem sexp_cut {first second : Node} {rest other : Text}
    (same : first.sexp ++ rest = second.sexp ++ other) :
    (∀ depth, (first.walkFrom depth).map heading = (second.walkFrom depth).map heading) ∧
      rest = other := by
  obtain ⟨label, span, children⟩ := first
  obtain ⟨label', span', children'⟩ := second
  have inner : label.title ++ (sexpAll children ++ ')' :: rest) =
      label'.title ++ (sexpAll children' ++ ')' :: other) := by
    simpa [sexp] using same
  obtain ⟨title, below⟩ :=
    NodeLabel.title_cut (stops_sexpAll children rest) (stops_sexpAll children' other) inner
  obtain ⟨parts, behind⟩ := sexpAll_cut below
  refine ⟨fun depth => ?_, behind⟩
  rw [walkFrom, walkFrom, List.map_cons, List.map_cons, parts]
  exact congrArg (· :: _) (Prod.ext rfl title)

theorem sexpAll_cut {firsts seconds : List Node} {rest other : Text}
    (same : sexpAll firsts ++ ')' :: rest = sexpAll seconds ++ ')' :: other) :
    (∀ depth, (walkAllFrom depth firsts).map heading = (walkAllFrom depth seconds).map heading) ∧
      rest = other := by
  -- A blank stands before each part, so the closing parenthesis tells that there are no more.
  cases firsts with
  | nil =>
    cases seconds with
    | nil => exact ⟨fun _ => rfl, by simpa [sexpAll] using same⟩
    | cons => simp [sexpAll] at same
  | cons child children =>
    cases seconds with
    | nil => simp [sexpAll] at same
    | cons child' children' =>
      have inner : child.sexp ++ (sexpAll children ++ ')' :: rest) =
          child'.sexp ++ (sexpAll children' ++ ')' :: other) := by
        simpa [sexpAll] using same
      obtain ⟨head, others⟩ := sexp_cut inner
      obtain ⟨tail, behind⟩ := sexpAll_cut others
      refine ⟨fun depth => ?_, behind⟩
      rw [walkAllFrom, walkAllFrom, List.map_append, List.map_append, head, tail]

end

/-- No heading is there, or one that does not go as deep. -/
def Above (depth : Nat) (headings : List (Nat × Text)) : Prop :=
  ∀ heading ∈ headings.head?, heading.1 < depth

theorem above_walkAllFrom {depth : Nat} {rest : List (Nat × Text)} (above : Above depth rest)
    (nodes : List Node) : Above (depth + 1) ((walkAllFrom depth nodes).map heading ++ rest) := by
  intro first begins
  cases nodes with
  | nil => exact Nat.lt_succ_of_lt (above first (by simpa [walkAllFrom] using begins))
  | cons child children =>
    obtain ⟨label, span, parts⟩ := child
    obtain rfl : (depth, label.title) = first := by
      simpa [walkAllFrom, walkFrom, heading, Node.label] using begins
    exact Nat.lt_succ_self depth

theorem headings_ne {depth : Nat} {rest other : List (Nat × Text)} (above : Above depth rest)
    (child : Node) (children : List Node) :
    rest ≠ (walkAllFrom depth (child :: children)).map heading ++ other := by
  rintro rfl
  obtain ⟨label, span, parts⟩ := child
  have deeper := above (depth, label.title) (by simp [walkAllFrom, walkFrom, heading, Node.label])
  exact absurd deeper (Nat.lt_irrefl depth)

mutual

/-- The headings of a node tell its written form and where they end. -/
theorem headings_cut {first second : Node} {depth : Nat} {rest other : List (Nat × Text)}
    (above : Above (depth + 1) rest) (above' : Above (depth + 1) other)
    (same : (first.walkFrom depth).map heading ++ rest =
      (second.walkFrom depth).map heading ++ other) :
    first.sexp = second.sexp ∧ rest = other := by
  obtain ⟨label, span, children⟩ := first
  obtain ⟨label', span', children'⟩ := second
  rw [walkFrom, walkFrom, List.map_cons, List.map_cons, List.cons_append, List.cons_append] at same
  obtain ⟨here, below⟩ := List.cons.inj same
  have title : label.title = label'.title := congrArg Prod.snd here
  obtain ⟨parts, behind⟩ := headingsAll_cut above above' below
  rw [sexp, sexp, title, parts]
  exact ⟨rfl, behind⟩

theorem headingsAll_cut {firsts seconds : List Node} {depth : Nat} {rest other : List (Nat × Text)}
    (above : Above depth rest) (above' : Above depth other)
    (same : (walkAllFrom depth firsts).map heading ++ rest =
      (walkAllFrom depth seconds).map heading ++ other) :
    sexpAll firsts = sexpAll seconds ∧ rest = other := by
  cases firsts with
  | nil =>
    cases seconds with
    | nil => exact ⟨rfl, same⟩
    | cons child' children' => exact absurd same (headings_ne above child' children')
  | cons child children =>
    cases seconds with
    | nil => exact absurd same.symm (headings_ne above' child children)
    | cons child' children' =>
      rw [walkAllFrom, walkAllFrom, List.map_append, List.map_append, List.append_assoc,
        List.append_assoc] at same
      obtain ⟨head, others⟩ := headings_cut (above_walkAllFrom above children)
        (above_walkAllFrom above' children') same
      obtain ⟨tail, behind⟩ := headingsAll_cut above above' others
      rw [sexpAll, sexpAll, head, tail]
      exact ⟨rfl, behind⟩

end

mutual

theorem count_sexp (root : Node) (depth : Nat) :
    root.sexp.count '(' = (root.walkFrom depth).length := by
  obtain ⟨label, span, children⟩ := root
  have below := count_sexpAll children (depth + 1)
  simp [sexp, walkFrom, List.count_append, NodeLabel.count_title, below]

theorem count_sexpAll (nodes : List Node) (depth : Nat) :
    (sexpAll nodes).count '(' = (walkAllFrom depth nodes).length := by
  cases nodes with
  | nil => rfl
  | cons child children =>
    have head := count_sexp child depth
    have tail := count_sexpAll children depth
    simp [sexpAll, walkAllFrom, List.count_append, head, tail]

end

end Node

/-- Two programs are written alike if and only if their walks have the same headings, and as many
parentheses open as nodes are visited. -/
theorem Program.sexp_eq_iff_headings (first second : Program) :
    (first.sexp = second.sexp ↔ first.headings = second.headings) ∧
      first.sexp.count '(' = first.nodeCount := by
  refine ⟨⟨fun same => ?_, fun same => ?_⟩, Node.count_sexp first.node 0⟩
  · have whole : first.node.sexp ++ [] = second.node.sexp ++ [] := congrArg (· ++ []) same
    exact (Node.sexp_cut whole).1 0
  · have whole : (first.node.walkFrom 0).map Node.heading ++ [] =
        (second.node.walkFrom 0).map Node.heading ++ [] := congrArg (· ++ []) same
    exact (Node.headings_cut (by simp [Node.Above]) (by simp [Node.Above]) whole).1

end MoSyntax
