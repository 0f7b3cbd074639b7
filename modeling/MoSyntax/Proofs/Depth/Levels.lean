import MoSyntax.Tree.Node

/-!
How far down a tree goes. A long sum is a tree that leans to the left: with every operand there is
one more step from a binary expression to its left operand. These steps are counted apart, and the
levels of a node are the other steps of the path that has most of them.
-/
namespace MoSyntax

/-- The step to the first part, where that is a left operand. -/
def NodeLabel.leftStep : NodeLabel → Nat
  | binary _ _ => 1
  | _ => 0

theorem NodeLabel.leftStep_le (label : NodeLabel) : label.leftStep ≤ 1 := by
  cases label <;> simp [leftStep]

/-- A visit of a walk, and how many steps of the path to it go to a left operand. -/
structure CountedVisit where
  depth : Nat
  lefts : Nat
  node : Node

def CountedVisit.visit (counted : CountedVisit) : Nat × Node := (counted.depth, counted.node)

namespace Node

mutual

/-- The walk, with the steps to left operands counted. -/
def countedFrom (depth lefts : Nat) : Node → List CountedVisit
  | node label span children =>
    ⟨depth, lefts, node label span children⟩ ::
      countedAllFrom (depth + 1) (lefts + label.leftStep) lefts children

def countedAllFrom (depth first others : Nat) : List Node → List CountedVisit
  | [] => []
  | child :: children =>
    countedFrom depth first child ++ countedAllFrom depth others others children

end

def countedWalk (root : Node) : List CountedVisit := countedFrom 0 0 root

mutual

theorem countedFrom_walk (depth lefts : Nat) (root : Node) :
    (root.countedFrom depth lefts).map CountedVisit.visit = root.walkFrom depth := by
  cases root with
  | node label span children =>
    rw [countedFrom, walkFrom, List.map_cons, countedAllFrom_walk]
    rfl

theorem countedAllFrom_walk (depth first others : Nat) (nodes : List Node) :
    (countedAllFrom depth first others nodes).map CountedVisit.visit = walkAllFrom depth nodes := by
  cases nodes with
  | nil => rfl
  | cons child children =>
    rw [countedAllFrom, walkAllFrom, List.map_append, countedFrom_walk, countedAllFrom_walk]

end

theorem mem_walkAllFrom {depth : Nat} {child : Node} {children : List Node} {visit : Nat × Node}
    (among : child ∈ children) (visited : visit ∈ child.walkFrom depth) :
    visit ∈ walkAllFrom depth children := by
  induction among with
  | head =>
    rw [walkAllFrom, List.mem_append]
    exact .inl visited
  | tail _ _ ih =>
    rw [walkAllFrom, List.mem_append]
    exact .inr ih

theorem exists_of_mem_walkAllFrom {depth : Nat} {children : List Node} {visit : Nat × Node}
    (visited : visit ∈ walkAllFrom depth children) :
    ∃ child ∈ children, visit ∈ child.walkFrom depth := by
  induction children with
  | nil => simp [walkAllFrom] at visited
  | cons child children ih =>
    rw [walkAllFrom, List.mem_append] at visited
    rcases visited with visited | visited
    · exact ⟨child, List.mem_cons_self, visited⟩
    · obtain ⟨other, among, visited⟩ := ih visited
      exact ⟨other, List.mem_cons_of_mem _ among, visited⟩

theorem mem_walkFrom {depth : Nat} {label : NodeLabel} {span : Span} {child : Node}
    {children : List Node} {visit : Nat × Node} (among : child ∈ children)
    (visited : visit ∈ child.walkFrom (depth + 1)) :
    visit ∈ (node label span children).walkFrom depth := by
  rw [walkFrom]
  exact List.mem_cons_of_mem _ (mem_walkAllFrom among visited)

mutual

/-- The levels below a node, where a step to a left operand counts nothing. -/
def levels : Node → Nat
  | node label _ children => levelsBelow (1 - label.leftStep) children

/-- The levels below, if the step to the first of the parts counts as given. -/
def levelsBelow (first : Nat) : List Node → Nat
  | [] => 0
  | child :: children => max (first + child.levels) (levelsBelow 1 children)

end

theorem levelsBelow_le {bound : Nat} {children : List Node} :
    levelsBelow 1 children ≤ bound + 1 ↔ ∀ child ∈ children, child.levels ≤ bound := by
  induction children with
  | nil => simp [levelsBelow]
  | cons child children ih =>
    rw [levelsBelow, Nat.max_le, ih, List.forall_mem_cons]
    exact and_congr_left fun _ => by omega

mutual

theorem depth_le_of_mem_countedFrom {root : Node} {depth lefts : Nat} :
    ∀ visit ∈ root.countedFrom depth lefts,
      visit.depth + lefts ≤ depth + root.levels + visit.lefts := by
  cases root with
  | node label span children =>
    intro visit member
    rw [countedFrom, List.mem_cons] at member
    rw [levels]
    rcases member with rfl | member
    · dsimp only
      omega
    · have below := depth_le_of_mem_countedAllFrom label.leftStep_le visit member
      omega

theorem depth_le_of_mem_countedAllFrom {nodes : List Node} {depth lefts left : Nat}
    (step : left ≤ 1) : ∀ visit ∈ countedAllFrom (depth + 1) (lefts + left) lefts nodes,
      visit.depth + lefts ≤ depth + levelsBelow (1 - left) nodes + visit.lefts := by
  cases nodes with
  | nil => simp [countedAllFrom]
  | cons child children =>
    intro visit member
    rw [countedAllFrom, List.mem_append] at member
    rw [levelsBelow]
    rcases member with member | member
    · have first := depth_le_of_mem_countedFrom visit member
      omega
    · have others := depth_le_of_mem_countedAllFrom (Nat.zero_le 1) visit member
      rw [Nat.sub_zero] at others
      omega

end

end Node

end MoSyntax
