import MoSyntax.Proofs.Depth.Levels
import MoSyntax.Proofs.Nesting.Expr
import MoSyntax.Proofs.Printing.Shape

/-!
The shape that a node and its parts have to have: operands bind as tightly as their place asks, and
what a construct cannot do without is there. A placeholder for what was skipped binds as tightly as
a primary.
-/
namespace MoSyntax

open Precedence

namespace NodeLabel

/-- How tightly an expression with the label binds. -/
def level : NodeLabel → Nat
  | binary tier _ => tier.level
  | unary _ => unaryLevel
  | chain => chainLevel
  | _ => primaryLevel

/-- Whether a node with the label may have the parts. -/
def fits : NodeLabel → List Node → Bool
  | modulePath, segments => 2 ≤ segments.length
  | useDecl, path :: _ => path.label == .modulePath
  | binary tier operator, [left, right] =>
    operator.value.precedence == tier && tier.level ≤ left.label.level &&
      tier.level < right.label.level
  | unary _, [operand] => chainLevel ≤ operand.label.level
  | chain, receiver :: suffixes => primaryLevel ≤ receiver.label.level && !suffixes.isEmpty
  | assignment, target :: _ => unaryLevel ≤ target.label.level
  | compoundAssignment operator, target :: _ =>
    operator.value.compounds && unaryLevel ≤ target.label.level
  | arrayLength value, _ => value.countsItems
  | arrayLiteral, parts => parts.all fun part => part.label != .pointerType
  | useDecl, _ | binary _ _, _ | unary _, _ | chain, _ | assignment, _ | compoundAssignment _, _ =>
    false
  | _, _ => true

end NodeLabel

namespace Node

def wellShaped : Node → Bool
  | node label _ parts => label.fits parts

def Shaped (root : Node) : Prop := ∀ depth, ∀ visit ∈ root.walkFrom depth, visit.2.wellShaped

theorem Shaped.node {label : NodeLabel} {span : Span} {children : List Node}
    (here : label.fits children) (below : ∀ child ∈ children, child.Shaped) :
    (Node.node label span children).Shaped := by
  intro depth visit member
  rw [walkFrom, List.mem_cons] at member
  rcases member with rfl | member
  · exact here
  · obtain ⟨child, among, visited⟩ := exists_of_mem_walkAllFrom member
    exact below child among _ visit visited

theorem Shaped.leaf {label : NodeLabel} {span : Span} (here : label.fits []) :
    (Node.node label span []).Shaped :=
  .node here (List.forall_mem_nil _)

end Node

theorem Expr.node_level (expr : Expr) : expr.node.label.level = expr.level := by
  cases expr <;> rw [Expr.node] <;> rfl

/-- No expression is a pointer type, and of the types only those that begin with a star. -/
theorem Expr.node_ne_pointerType (expr : Expr) : expr.node.label ≠ .pointerType := by
  cases expr <;> rw [Expr.node] <;> simp [Node.label]

theorem TypeExpr.node_ne_pointerType {type : TypeExpr} (other : type.isPointer = false) :
    type.node.label ≠ .pointerType := by
  cases type with
  | pointer => simp [isPointer] at other
  | _ => simp [TypeExpr.node, Node.label]

variable {α : Type}

def Shaping (each : Reading α) (node : α → Node) : Prop :=
  Ensures each fun value => (node value).Shaped

theorem OptionalReading.shaped {each : Reading α} {node : α → Node} (shaping : Shaping each node)
    {used value reports} (reads : OptionalReading each used value reports) :
    ∀ part ∈ (value.map node).toList, part.Shaped := by
  rw [Option.toList_map]
  exact List.forall_mem_map.2 fun found member => reads.ensures shaping found (by simpa using member)

theorem SkippedReading.shaping {limit : Nat} {placeholder : Span → α} {node : α → Node}
    {kind : Placeholder} (leaf : ∀ span, node (placeholder span) = .node (.skipped kind) span []) :
    Shaping (SkippedReading limit placeholder) node := by
  rintro _ _ _ ⟨⟩
  rw [leaf]
  exact .leaf rfl

theorem Ident.shaped (name : Ident) : name.node.Shaped := .leaf rfl

theorem NameReading.shaped {used name} (reads : NameReading used name) : name.node.Shaped := by
  cases reads with
  | ident => exact Ident.shaped _
  | path names segments some =>
    refine .node ?_ (by simp [Ident.shaped])
    have more := List.length_pos_iff.2 some
    simp only [NodeLabel.fits, List.map_cons, List.length_cons, List.length_map, decide_eq_true_eq]
    omega

theorem TypeLevel.shaping {inner : Reading TypeExpr} (parts : Shaping inner TypeExpr.node) :
    Shaping (TypeLevel inner) TypeExpr.node := by
  intro used type reports reads
  cases reads with
  | named reads => exact .node rfl (List.forall_mem_singleton.2 reads.shaped)
  | pointer mark reads => exact .node rfl (List.forall_mem_singleton.2 (parts _ _ _ reads))
  | array first count second reads =>
    refine .node rfl (List.forall_mem_append.2 ⟨?_, ?_⟩)
    · cases count with
      | none => simp
      | some number decimal whole =>
        refine List.forall_mem_singleton.2 (.leaf ?_)
        simp [NodeLabel.fits, NumberLiteral.countsItems, decimal, whole]
    · exact List.forall_mem_singleton.2 (parts _ _ _ reads)

theorem TypeReading.shaping (limit budget : Nat) :
    Shaping (TypeReading limit budget) TypeExpr.node := by
  induction budget with
  | zero => exact SkippedReading.shaping fun _ => rfl
  | succ budget ih => exact TypeLevel.shaping ih

/-- A pointer type is read from tokens that begin with a star. -/
def Starred (type : Reading TypeExpr) : Prop :=
  ∀ used found reports, type used found reports → found.isPointer →
    ∃ token ∈ used.head?, token.kind = .operator .star

theorem TypeReading.starred (limit budget : Nat) : Starred (TypeReading limit budget) := by
  intro used found reports reads pointer
  cases budget with
  | zero =>
    cases reads
    simp [TypeExpr.isPointer] at pointer
  | succ budget =>
    cases reads with
    | pointer mark reads =>
      obtain ⟨star, rfl, kind, _⟩ := mark
      exact ⟨star, rfl, kind⟩
    | _ => simp [TypeExpr.isPointer] at pointer

section
variable {type : Reading TypeExpr} {expr : Reading Expr}

theorem ExprLevel.level_le {level : Nat} {used found reports}
    (reads : ExprLevel type expr level used found reports) (bound : level ≤ primaryLevel) :
    level ≤ found.level := by
  cases reads with
  | chain loose => exact loose
  | unary loose => exact loose
  | binary loose => exact loose
  | _ => exact bound

theorem SuffixReading.shaping (exprs : Shaping expr Expr.node) :
    Shaping (SuffixReading expr) Suffix.node := by
  intro used suffix reports reads
  cases reads with
  | field mark names =>
    rw [Suffix.node]
    exact .node rfl (List.forall_mem_singleton.2 (Ident.shaped _))
  | call mark names first reads second =>
    rw [Suffix.node, exprNodes_eq]
    exact .node rfl (List.forall_mem_cons.2
      ⟨Ident.shaped _, List.forall_mem_map.2 (reads.ensures exprs)⟩)

theorem OptionalReading.not_pointerType (starred : Starred type) {used element reports}
    (annotated : OptionalReading type used element reports)
    (plain : ∀ token ∈ used.head?, token.kind ≠ .operator .star) :
    ∀ part ∈ (element.map TypeExpr.node).toList, part.label ≠ .pointerType := by
  cases annotated with
  | none => simp
  | @some _ element _ reads =>
    refine List.forall_mem_singleton.2 (TypeExpr.node_ne_pointerType ?_)
    rw [Bool.eq_false_iff]
    intro pointer
    obtain ⟨token, first, kind⟩ := starred _ _ _ reads pointer
    exact plain token first kind

theorem ExprLevel.shaping (starred : Starred type) (types : Shaping type TypeExpr.node)
    (exprs : Shaping expr Expr.node) (level : Nat) :
    Shaping (ExprLevel type expr level) Expr.node := by
  intro used found reports reads
  induction reads with
  | number | string | bool =>
    rw [Expr.node]
    exact .leaf rfl
  | named reads =>
    rw [Expr.node]
    exact .node rfl (List.forall_mem_singleton.2 reads.shaped)
  | index target first breaks reads more second =>
    rw [Expr.node]
    exact .node rfl (List.forall_mem_cons.2
      ⟨target.shaped, List.forall_mem_singleton.2 (exprs _ _ _ reads)⟩)
  | call callee first reads second =>
    rw [Expr.node, exprNodes_eq]
    exact .node rfl (List.forall_mem_cons.2
      ⟨callee.shaped, List.forall_mem_map.2 (reads.ensures exprs)⟩)
  | array first reads second annotated plain =>
    rw [Expr.node, exprNodes_eq]
    refine .node ?_ (List.forall_mem_append.2
      ⟨List.forall_mem_map.2 (reads.ensures exprs), annotated.shaped types⟩)
    have elements := OptionalReading.not_pointerType starred annotated plain
    simpa [NodeLabel.fits, Expr.node_ne_pointerType] using elements
  | grouped first breaks reads more second =>
    rw [Expr.node]
    exact .node rfl (List.forall_mem_singleton.2 (exprs _ _ _ reads))
  | @chain _ _ receiver _ _ suffixes _ last loose reads others ends ih =>
    rw [Expr.node, suffixNodes_eq]
    have suffixed : suffixes ≠ [] := by
      rintro rfl
      simp at ends
    refine .node ?_ (List.forall_mem_cons.2 ⟨ih, List.forall_mem_map.2
      (others.ensures (SuffixReading.shaping exprs))⟩)
    simp [NodeLabel.fits, Expr.node_level, reads.level_le (Nat.le_refl _), suffixed]
  | unary loose kind means reads ih =>
    rw [Expr.node]
    refine .node ?_ (List.forall_mem_singleton.2 ih)
    simpa [NodeLabel.fits, Expr.node_level] using reads.level_le (by decide)
  | @binary _ tier _ _ _ _ _ _ _ _ _ _ loose first kind means tiered between second leftIh
      rightIh =>
    rw [Expr.node]
    refine .node ?_ (List.forall_mem_cons.2 ⟨leftIh, List.forall_mem_singleton.2 rightIh⟩)
    have left := first.level_le (by cases tier <;> decide)
    have right := second.level_le (by cases tier <;> decide)
    simp only [NodeLabel.fits, Expr.node_level, tiered, beq_self_eq_true, Bool.true_and,
      Bool.and_eq_true, decide_eq_true_eq]
    exact ⟨left, right⟩

end

theorem ExprReading.shaping (limit budget : Nat) : Shaping (ExprReading limit budget) Expr.node := by
  induction budget with
  | zero => exact SkippedReading.shaping fun span => by rw [Expr.node]
  | succ budget ih =>
    exact ExprLevel.shaping (TypeReading.starred limit budget) (TypeReading.shaping limit budget) ih
      0

end MoSyntax
