import Mathlib.Data.List.NodupEquivFin
import MoSyntax.Proofs.Depth.Levels
import MoSyntax.Diagnostic.Basic

/-!
The levels of nesting that lead to a node. One level is entered for every statement, every type and
every full expression, but none for what an operator is applied to, for what stands before a dot and
for the target of an assignment. A confined tree enters no more levels than it may, and each of its
skipped leaves has a report of the limit that begins where the leaf does.
-/
namespace MoSyntax

namespace NodeLabel

def isStatement : NodeLabel → Bool
  | forLoop | ifStatement | retStatement | deferStatement | blockStatement | inferredDeclaration
  | typedDeclaration | assignment | compoundAssignment _ | expressionStatement => true
  | _ => false

def isType : NodeLabel → Bool
  | arrayType | pointerType | namedType => true
  | _ => false

def isExpression : NodeLabel → Bool
  | binary _ _ | unary _ | chain | number _ | string _ | bool _ | grouped | named _
  | arrayLiteral => true
  | _ => false

/-- The first part is an expression on the level of the node itself. -/
def joinsFirst : NodeLabel → Bool
  | binary _ _ | unary _ | chain | assignment | compoundAssignment _ => true
  | _ => false

/-- The other parts are expressions on the level of the node itself. -/
def joinsOthers : NodeLabel → Bool
  | binary _ _ => true
  | _ => false

/-- How many levels are entered for a node. An expression that is joined to the node above is no full
one. -/
def entered (joined : Bool) (label : NodeLabel) : Nat :=
  if label.isStatement || label.isType || label.isExpression && !joined then 1 else 0

theorem entered_le (joined : Bool) (label : NodeLabel) : label.entered joined ≤ 1 := by
  rw [entered]
  split <;> decide

theorem entered_skipped (joined : Bool) (placeholder : Placeholder) :
    (skipped placeholder).entered joined = 0 := rfl

end NodeLabel

/-- A visit of a walk, and how many levels are entered on the path to it. -/
structure EnteredVisit where
  depth : Nat
  entered : Nat
  node : Node

def EnteredVisit.visit (visit : EnteredVisit) : Nat × Node := (visit.depth, visit.node)

namespace Node

mutual

/-- The walk, with the levels counted that are entered. -/
def enteredFrom (depth entered : Nat) (joined : Bool) : Node → List EnteredVisit
  | node label span children =>
    ⟨depth, entered + label.entered joined, node label span children⟩ ::
      enteredAllFrom (depth + 1) (entered + label.entered joined) label.joinsFirst
        label.joinsOthers children

def enteredAllFrom (depth entered : Nat) (first others : Bool) : List Node → List EnteredVisit
  | [] => []
  | child :: children =>
    enteredFrom depth entered first child ++ enteredAllFrom depth entered others others children

end

def enteredWalk (root : Node) : List EnteredVisit := enteredFrom 0 0 false root

mutual

theorem enteredFrom_walk (depth entered : Nat) (joined : Bool) (root : Node) :
    (root.enteredFrom depth entered joined).map EnteredVisit.visit = root.walkFrom depth := by
  cases root with
  | node label span children =>
    rw [enteredFrom, walkFrom, List.map_cons, enteredAllFrom_walk]
    rfl

theorem enteredAllFrom_walk (depth entered : Nat) (first others : Bool) (nodes : List Node) :
    (enteredAllFrom depth entered first others nodes).map EnteredVisit.visit =
      walkAllFrom depth nodes := by
  cases nodes with
  | nil => rfl
  | cons child children =>
    rw [enteredAllFrom, walkAllFrom, List.map_append, enteredFrom_walk, enteredAllFrom_walk]

end

end Node

/-- The skipped leaves that a walk comes to. -/
def skippedOf (visits : List (Nat × Node)) : List Node :=
  (visits.map (·.2)).filter (·.label.isSkipped)

def limitsOf (reports : List Diagnostic) : List Diagnostic :=
  reports.filter (·.fault == .recursionLimitExceeded)

def skippedStarts (visits : List (Nat × Node)) : List Nat :=
  (skippedOf visits).map (·.span.start)

def limitStarts (reports : List Diagnostic) : List Nat := (limitsOf reports).map (·.span.start)

theorem skippedStarts_append (visits more : List (Nat × Node)) :
    skippedStarts (visits ++ more) = skippedStarts visits ++ skippedStarts more := by
  simp [skippedStarts, skippedOf]

theorem limitStarts_append (reports later : List Diagnostic) :
    limitStarts (reports ++ later) = limitStarts reports ++ limitStarts later := by
  simp [limitStarts, limitsOf]

mutual

/-- The node enters no more levels than the bound, and every skipped leaf has its report. -/
inductive Confined : Nat → Bool → Node → List Diagnostic → Prop
  | node {bound below joined label span children reports} (plain : label.isSkipped = false)
      (enters : below + label.entered joined ≤ bound)
      (parts : ConfinedAll below label.joinsFirst label.joinsOthers children reports) :
      Confined bound joined (.node label span children) reports
  | skipped {bound joined placeholder span report}
      (limit : report.fault = .recursionLimitExceeded) (starts : report.span.start = span.start) :
      Confined bound joined (.node (.skipped placeholder) span []) [report]

/-- So do all of the nodes, with other reports before, between and behind theirs. -/
inductive ConfinedAll : Nat → Bool → Bool → List Node → List Diagnostic → Prop
  | nil {bound first others gap} : ConfinedAll bound first others [] gap
  | cons {bound joined others gap reports later child children}
      (first : Confined bound joined child reports)
      (rest : ConfinedAll bound others others children later) :
      ConfinedAll bound joined others (child :: children) (gap ++ (reports ++ later))

end

mutual

theorem Confined.entered_le {bound : Nat} {joined : Bool} {root : Node} {reports : List Diagnostic}
    (confined : Confined bound joined root reports) (depth entered : Nat) :
    ∀ visit ∈ root.enteredFrom depth entered joined, visit.entered ≤ entered + bound := by
  intro visit member
  cases confined with
  | node _ enters parts =>
    rw [Node.enteredFrom, List.mem_cons] at member
    rcases member with rfl | member
    · dsimp only
      omega
    · have below := ConfinedAll.entered_le parts _ _ visit member
      omega
  | skipped =>
    rw [Node.enteredFrom, NodeLabel.entered_skipped, Node.enteredAllFrom] at member
    obtain rfl := List.mem_singleton.1 member
    exact Nat.le_add_right entered bound

theorem ConfinedAll.entered_le {bound : Nat} {first others : Bool} {nodes : List Node}
    {reports : List Diagnostic} (confined : ConfinedAll bound first others nodes reports)
    (depth entered : Nat) :
    ∀ visit ∈ Node.enteredAllFrom depth entered first others nodes,
      visit.entered ≤ entered + bound := by
  intro visit member
  cases confined with
  | nil => simp [Node.enteredAllFrom] at member
  | cons head rest =>
    rw [Node.enteredAllFrom, List.mem_append] at member
    rcases member with member | member
    · exact Confined.entered_le head _ _ visit member
    · exact ConfinedAll.entered_le rest _ _ visit member

end

theorem skippedStarts_cons {node : Node} (plain : node.label.isSkipped = false) (depth : Nat)
    (visits : List (Nat × Node)) :
    skippedStarts ((depth, node) :: visits) = skippedStarts visits := by
  simp [skippedStarts, skippedOf, plain]

mutual

theorem Confined.explained {bound : Nat} {joined : Bool} {root : Node} {reports : List Diagnostic}
    (confined : Confined bound joined root reports) :
    ∀ depth, (skippedStarts (root.walkFrom depth)).Sublist (limitStarts reports) := by
  intro depth
  cases confined with
  | @node _ _ _ label span children _ plain _ parts =>
    have silent : (Node.node label span children).label.isSkipped = false := plain
    rw [Node.walkFrom, skippedStarts_cons silent]
    exact ConfinedAll.explained parts (depth + 1)
  | @skipped _ _ placeholder span report limit starts =>
    have here : skippedStarts [(depth, .node (.skipped placeholder) span [])] = [span.start] := rfl
    have there : limitStarts [report] = [report.span.start] := by
      simp [limitStarts, limitsOf, limit]
    rw [Node.walkFrom, Node.walkAllFrom, here, there, starts]

theorem ConfinedAll.explained {bound : Nat} {first others : Bool} {nodes : List Node}
    {reports : List Diagnostic} (confined : ConfinedAll bound first others nodes reports) :
    ∀ depth, (skippedStarts (Node.walkAllFrom depth nodes)).Sublist (limitStarts reports) := by
  intro depth
  cases confined with
  | nil => exact List.nil_sublist _
  | cons head rest =>
    rw [Node.walkAllFrom, skippedStarts_append, limitStarts_append, limitStarts_append]
    exact ((Confined.explained head depth).append (ConfinedAll.explained rest depth)).trans
      (List.sublist_append_right _ _)

end

namespace Confined

variable {bound : Nat} {joined : Bool} {root : Node} {reports : List Diagnostic}

theorem leaf {label : NodeLabel} {span : Span} (plain : label.isSkipped = false)
    (enters : label.entered joined ≤ bound) :
    Confined bound joined (.node label span []) reports := by
  have enters : 0 + label.entered joined ≤ bound := by omega
  exact .node plain enters .nil

theorem full (confined : Confined bound joined root reports) :
    Confined (bound + 1) false root reports := by
  cases confined with
  | @node _ _ _ label _ _ _ plain enters parts =>
    have one := label.entered_le false
    exact .node plain (by omega) parts
  | skipped limit starts => exact .skipped limit starts

end Confined

namespace ConfinedAll

variable {bound : Nat} {first others : Bool} {child : Node} {children more : List Node}
  {reports later : List Diagnostic}

theorem append_cons (head : Confined bound first child reports)
    (rest : ConfinedAll bound others others children later) :
    ConfinedAll bound first others (child :: children) (reports ++ later) := by
  have parts : ConfinedAll bound first others (child :: children) ([] ++ (reports ++ later)) :=
    .cons head rest
  exact parts

theorem one (head : Confined bound first child reports) :
    ConfinedAll bound first others [child] reports := by
  have parts : ConfinedAll bound first others [child] (reports ++ []) := append_cons head .nil
  rwa [List.append_nil] at parts

theorem quiet_cons (head : Confined bound first child [])
    (rest : ConfinedAll bound others others children later) :
    ConfinedAll bound first others (child :: children) later :=
  append_cons head rest

theorem gap (confined : ConfinedAll bound first others children reports)
    (before : List Diagnostic) : ConfinedAll bound first others children (before ++ reports) := by
  cases confined with
  | nil => exact .nil
  | cons head rest =>
    rw [← List.append_assoc]
    exact .cons head rest

theorem append (front : ConfinedAll bound first first children reports)
    (back : ConfinedAll bound first first more later) :
    ConfinedAll bound first first (children ++ more) (reports ++ later) := by
  induction children generalizing reports with
  | nil => exact back.gap reports
  | cons child children ih =>
    cases front with
    | cons head rest => simpa using ConfinedAll.cons head (ih rest)

theorem trail (confined : ConfinedAll bound first first children reports)
    (behind : List Diagnostic) : ConfinedAll bound first first children (reports ++ behind) := by
  have whole : ConfinedAll bound first first (children ++ []) (reports ++ behind) :=
    confined.append .nil
  rwa [List.append_nil] at whole

end ConfinedAll

end MoSyntax
