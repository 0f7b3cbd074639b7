import MoSyntax.Proofs.Lexing.Layout
import MoSyntax.Proofs.Reading.Phrase
import MoSyntax.Tree.Node

/-!
Nodes over tokens. A node covers tokens if its span goes from the first of them to the last, and if
its parts cover stretches of them, one after the other. Where the tokens are in source order, the
spans of such a node nest.
-/
namespace MoSyntax

def Starts (used : List Token) (span : Span) : Prop :=
  ∃ token rest, used = token :: rest ∧ token.span.start = span.start

def Ends (used : List Token) (span : Span) : Prop :=
  ∃ before token, used = before ++ [token] ∧ token.span.stop = span.stop

structure Spans (used : List Token) (span : Span) : Prop where
  starts : Starts used span
  ends : Ends used span

/-- The kind of the token that a leaf stands for. -/
def NodeLabel.tokenKind? : NodeLabel → Option TokenKind
  | number value | arrayLength value => some (.number value)
  | string value | localName value => some (.string value)
  | bool value => some (.keyword (if value then .trueWord else .falseWord))
  | identifier name => some (.identifier name)
  | _ => none

mutual

/-- The node has the span of the tokens, and its parts lie on them. A leaf that stands for a token
covers that one token. -/
inductive Covers : List Token → Node → Prop
  | node {used label span children} (silent : label.tokenKind? = none) (spans : Spans used span)
      (lays : Lays used children) : Covers used (.node label span children)
  | token {word : Token} {label span} (speaks : label.tokenKind? = some word.kind)
      (place : span = word.span) : Covers [word] (.node label span [])

/-- The nodes cover stretches of the tokens, with gaps between them. -/
inductive Lays : List Token → List Node → Prop
  | nil {gap} : Lays gap []
  | cons {gap used rest child children} (first : Covers used child) (others : Lays rest children) :
      Lays (gap ++ (used ++ rest)) (child :: children)

end

theorem Starts.append {used : List Token} {span : Span} (starts : Starts used span)
    (more : List Token) : Starts (used ++ more) span := by
  obtain ⟨token, rest, rfl, start⟩ := starts
  exact ⟨token, rest ++ more, rfl, start⟩

theorem Ends.append {used : List Token} {span : Span} (ends : Ends used span)
    (before : List Token) : Ends (before ++ used) span := by
  obtain ⟨front, token, rfl, stop⟩ := ends
  exact ⟨before ++ front, token, by simp, stop⟩

theorem Ends.cons {used : List Token} {span : Span} (ends : Ends used span) (token : Token) :
    Ends (token :: used) span :=
  ends.append [token]

namespace Spans

theorem single {token : Token} {span : Span} (same : span = token.span) : Spans [token] span :=
  ⟨⟨token, [], rfl, same ▸ rfl⟩, [], token, rfl, same ▸ rfl⟩

theorem through {used : List Token} {first last : Span} (starts : Starts used first)
    (ends : Ends used last) : Spans used (first.through last) :=
  ⟨starts, ends⟩

theorem of_covered {used : List Token} (some : used ≠ []) : Spans used (covered used) := by
  obtain ⟨first, rest, rfl⟩ := List.exists_cons_of_ne_nil some
  refine ⟨⟨first, rest, rfl, ?_⟩, (first :: rest).dropLast, (first :: rest).getLast some,
    (List.dropLast_concat_getLast some).symm, ?_⟩
  · simp [covered, List.getLast?_eq_some_getLast, Span.through]
  · simp [covered, List.getLast?_eq_some_getLast, Span.through]

end Spans

theorem Mark.spans {kind : TokenKind} {used : List Token} {span : Span}
    (mark : Mark kind used span) : Spans used span := by
  obtain ⟨token, rfl, _, same⟩ := mark
  exact .single same

namespace Covers

theorem spans {used : List Token} {node : Node} (covers : Covers used node) :
    Spans used node.span := by
  cases covers with
  | node _ spans _ => exact spans
  | token _ place => exact .single place

theorem leaf {used : List Token} {label : NodeLabel} {span : Span}
    (silent : label.tokenKind? = none) (spans : Spans used span) :
    Covers used (.node label span []) :=
  .node silent spans .nil

end Covers

namespace Lays

theorem one {used : List Token} {node : Node} (covers : Covers used node) : Lays used [node] := by
  have lays : Lays ([] ++ (used ++ [])) [node] := .cons covers .nil
  simpa using lays

theorem gap {used : List Token} {nodes : List Node} (lays : Lays used nodes)
    (before : List Token) : Lays (before ++ used) nodes := by
  cases lays with
  | nil => exact .nil
  | cons first others =>
    rw [← List.append_assoc]
    exact .cons first others

theorem append {used more : List Token} {nodes others : List Node} (first : Lays used nodes)
    (second : Lays more others) : Lays (used ++ more) (nodes ++ others) := by
  induction nodes generalizing used with
  | nil => exact second.gap used
  | cons node nodes ih =>
    cases first with
    | cons covers rest => simpa using Lays.cons covers (ih rest)

theorem trail {used : List Token} {nodes : List Node} (lays : Lays used nodes)
    (behind : List Token) : Lays (used ++ behind) nodes := by
  have more : Lays (used ++ behind) (nodes ++ []) := lays.append .nil
  rwa [List.append_nil] at more

theorem exists_of_mem {used : List Token} {nodes : List Node} (lays : Lays used nodes) :
    ∀ node ∈ nodes, ∃ part, part.Sublist used ∧ Covers part node := by
  induction nodes generalizing used with
  | nil => simp
  | cons node nodes ih =>
    cases lays with
    | @cons gap first rest _ _ covers others =>
      intro other member
      rcases List.mem_cons.1 member with rfl | member
      · exact ⟨first, (List.sublist_append_left _ _).trans (List.sublist_append_right _ _), covers⟩
      · obtain ⟨part, sublist, covers⟩ := ih others other member
        exact ⟨part, sublist.trans ((List.sublist_append_right _ _).trans
          (List.sublist_append_right _ _)), covers⟩

end Lays

namespace Ordered

variable {tokens part : List Token} {outer inner : Span}

theorem start_le (ordered : Ordered tokens) (starts : Starts tokens outer) {token : Token}
    (member : token ∈ tokens) : outer.start ≤ token.span.start := by
  obtain ⟨first, rest, rfl, start⟩ := starts
  rcases List.mem_cons.1 member with rfl | member
  · exact Nat.le_of_eq start.symm
  · have before := (List.pairwise_cons.1 ordered.apart).1 token member
    have solid := ordered.solid first List.mem_cons_self
    omega

theorem le_stop (ordered : Ordered tokens) (ends : Ends tokens outer) {token : Token}
    (member : token ∈ tokens) : token.span.stop ≤ outer.stop := by
  obtain ⟨before, last, rfl, stop⟩ := ends
  rcases List.mem_append.1 member with member | member
  · have apart := (List.pairwise_append.1 ordered.apart).2.2 token member last (by simp)
    have solid := ordered.solid last (by simp)
    omega
  · rw [List.mem_singleton.1 member]
    exact Nat.le_of_eq stop

theorem solid_of_spans (ordered : Ordered tokens) (spans : Spans tokens outer) :
    outer.start < outer.stop := by
  obtain ⟨⟨first, rest, rfl, start⟩, ends⟩ := spans
  have solid := ordered.solid first List.mem_cons_self
  have last := ordered.le_stop ends List.mem_cons_self
  omega

theorem contains (ordered : Ordered tokens) (spans : Spans tokens outer)
    (sublist : part.Sublist tokens) (within : Spans part inner) : outer.contains inner := by
  obtain ⟨⟨first, rest, front, start⟩, before, last, back, stop⟩ := within
  have left := ordered.start_le spans.starts (sublist.subset (by simp [front] : first ∈ part))
  have right := ordered.le_stop spans.ends (sublist.subset (by simp [back] : last ∈ part))
  simp only [Span.contains, Bool.and_eq_true, decide_eq_true_eq]
  omega

theorem stop_le_start {first second : List Token} {left right : Span}
    (ordered : Ordered (first ++ second)) (ends : Ends first left) (starts : Starts second right) :
    left.stop ≤ right.start := by
  obtain ⟨before, last, rfl, stop⟩ := ends
  obtain ⟨next, rest, rfl, start⟩ := starts
  have apart := (List.pairwise_append.1 ordered.apart).2.2 last (by simp) next (by simp)
  omega

end Ordered

/-- The spans of a node and of its parts, as they have to be. -/
structure Node.Nests (node : Node) : Prop where
  inside : ∀ child ∈ node.children, node.span.contains child.span
  apart : node.children.Pairwise fun first second => first.span.stop ≤ second.span.start

theorem Lays.apart {used : List Token} {nodes : List Node} (lays : Lays used nodes)
    (ordered : Ordered used) :
    nodes.Pairwise fun first second => first.span.stop ≤ second.span.start := by
  induction nodes generalizing used with
  | nil => exact .nil
  | cons node nodes ih =>
    cases lays with
    | @cons gap first rest _ _ covers others =>
      have behind : Ordered (first ++ rest) := ordered.sublist (List.sublist_append_right _ _)
      refine .cons ?_ (ih others (behind.sublist (List.sublist_append_right _ _)))
      intro other member
      obtain ⟨part, sublist, second⟩ := others.exists_of_mem other member
      exact (behind.sublist ((List.Sublist.refl first).append sublist)).stop_le_start
        covers.spans.ends second.spans.starts

theorem Lays.nests {used : List Token} {nodes : List Node} (lays : Lays used nodes)
    (ordered : Ordered used) {outer : Span} {label : NodeLabel}
    (contains : ∀ part inner, part.Sublist used → Spans part inner → outer.contains inner) :
    (Node.node label outer nodes).Nests where
  inside := by
    intro child member
    obtain ⟨part, sublist, covers⟩ := lays.exists_of_mem child member
    exact contains part _ sublist covers.spans
  apart := lays.apart ordered

theorem Covers.nests {used : List Token} {node : Node} (covers : Covers used node)
    (ordered : Ordered used) : node.Nests := by
  cases covers with
  | node _ spans lays =>
    exact lays.nests ordered fun _ _ sublist within => ordered.contains spans sublist within
  | token _ place =>
    exact Lays.nil.nests ordered fun _ _ sublist within =>
      ordered.contains (.single place) sublist within

mutual

theorem Covers.visited {used : List Token} {node : Node} (covers : Covers used node) (depth : Nat) :
    ∀ visit ∈ node.walkFrom depth,
      depth ≤ visit.1 ∧ ∃ part, part.Sublist used ∧ Covers part visit.2 := by
  intro visit member
  cases covers with
  | node silent spans lays =>
    rw [Node.walkFrom, List.mem_cons] at member
    rcases member with rfl | member
    · exact ⟨Nat.le_refl _, used, .refl used, .node silent spans lays⟩
    · obtain ⟨deep, covers⟩ := Lays.visited lays (depth + 1) visit member
      exact ⟨by omega, covers⟩
  | @token word _ _ speaks place =>
    obtain rfl := List.mem_singleton.1 member
    exact ⟨Nat.le_refl _, [word], .refl _, .token speaks place⟩

theorem Lays.visited {used : List Token} {nodes : List Node} (lays : Lays used nodes)
    (depth : Nat) : ∀ visit ∈ Node.walkAllFrom depth nodes,
      depth ≤ visit.1 ∧ ∃ part, part.Sublist used ∧ Covers part visit.2 := by
  intro visit member
  cases lays with
  | nil => simp [Node.walkAllFrom] at member
  | @cons gap front rest _ _ first others =>
    rw [Node.walkAllFrom, List.mem_append] at member
    rcases member with member | member
    · obtain ⟨deep, part, sublist, covers⟩ := Covers.visited first depth visit member
      exact ⟨deep, part, (sublist.trans (List.sublist_append_left _ _)).trans
        (List.sublist_append_right _ _), covers⟩
    · obtain ⟨deep, part, sublist, covers⟩ := Lays.visited others depth visit member
      exact ⟨deep, part, (sublist.trans (List.sublist_append_right _ _)).trans
        (List.sublist_append_right _ _), covers⟩

end

theorem Lays.walk {used : List Token} {nodes : List Node} (lays : Lays used nodes)
    (ordered : Ordered used) (depth : Nat) :
    ∀ visit ∈ Node.walkAllFrom depth nodes,
      depth ≤ visit.1 ∧ visit.2.span.start < visit.2.span.stop ∧ visit.2.Nests := by
  intro visit member
  obtain ⟨deep, part, sublist, covers⟩ := lays.visited depth visit member
  have within := ordered.sublist sublist
  exact ⟨deep, within.solid_of_spans covers.spans, covers.nests within⟩

end MoSyntax
