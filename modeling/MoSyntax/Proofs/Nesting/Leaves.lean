import MoSyntax.Proofs.Lexing.Account
import MoSyntax.Proofs.Lexing.Restored
import MoSyntax.Proofs.Nesting.Program
import MoSyntax.Proofs.Printing.Spelling

/-!
Every tree stands on the tokens of its source. Its nodes begin and end where tokens do, and its
leaves are tokens: read from left to right they are some of the tokens of the source in their order,
so none of them is there twice, whatever was tried and given up on the way.
-/
namespace MoSyntax

/-- What a token says, and where. -/
def Token.said (token : Token) : TokenKind × Span := (token.kind, token.span)

/-- What a leaf that stands for a token says, and where. -/
def Node.said? (node : Node) : Option (TokenKind × Span) :=
  node.label.tokenKind?.map fun kind => (kind, node.span)

/-- What the leaves say that a walk comes to. -/
def saidOf (visits : List (Nat × Node)) : List (TokenKind × Span) :=
  visits.filterMap fun visit => visit.2.said?

theorem saidOf_append (first second : List (Nat × Node)) :
    saidOf (first ++ second) = saidOf first ++ saidOf second := List.filterMap_append

theorem saidOf_walkFrom {label : NodeLabel} (silent : label.tokenKind? = none) (span : Span)
    (children : List Node) (depth : Nat) :
    saidOf ((Node.node label span children).walkFrom depth) =
      saidOf (Node.walkAllFrom (depth + 1) children) := by
  rw [Node.walkFrom, saidOf, List.filterMap_cons_none]
  · rfl
  · simp [Node.said?, Node.label, silent]

mutual

/-- The leaves of a node are some of the tokens that it covers, in their order. -/
theorem Covers.said {used : List Token} {node : Node} (covers : Covers used node) (depth : Nat) :
    (saidOf (node.walkFrom depth)).Sublist (used.map Token.said) := by
  cases covers with
  | node silent _ lays =>
    rw [saidOf_walkFrom silent]
    exact Lays.said lays (depth + 1)
  | @token word label _ speaks place =>
    have alone : (Node.node label word.span []).said? = some word.said := by
      simp [Node.said?, Node.label, speaks, Node.span, Token.said]
    rw [place, Node.walkFrom, Node.walkAllFrom]
    simp [saidOf, alone]

theorem Lays.said {used : List Token} {nodes : List Node} (lays : Lays used nodes) (depth : Nat) :
    (saidOf (Node.walkAllFrom depth nodes)).Sublist (used.map Token.said) := by
  cases lays with
  | nil => exact List.nil_sublist _
  | cons first others =>
    rw [Node.walkAllFrom, saidOf_append, List.map_append, List.map_append]
    exact ((Covers.said first depth).append (Lays.said others depth)).trans
      (List.sublist_append_right _ _)

end

/-! Names in the source text. -/

theorem Piece.word_of_mem_split {text word : Text}
    (member : Piece.lexeme (.word word) ∈ split text) :
    ∃ c more, word = c :: more ∧ startsWord c ∧ ∀ d ∈ more, continuesWord d := by
  have each : ∀ piece ∈ split text, ∀ word, piece = .lexeme (.word word) →
      ∃ c more, word = c :: more ∧ startsWord c ∧ ∀ d ∈ more, continuesWord d := by
    refine forall_mem_split (fun c rest word found => ?_) text
    cases stands_of_read found with
    | word starts inside _ => exact ⟨_, _, rfl, starts, inside⟩
  exact each _ member word rfl

theorem Lexed.name_of_mem_written {text name : Text} {token : Token} (member : token ∈ written text)
    (kind : token.kind = .identifier name) : token.lexeme = name ∧ legibleName name := by
  obtain ⟨placed, inside, found⟩ := List.mem_filterMap.1 member
  obtain ⟨lexeme, piece, rfl⟩ := PlacedPiece.token?_eq_some found
  have among := (PlacedPiece.exists_of_mem_placeAll [] inside).1
  rw [piece] at among
  cases lexeme with
  | word word =>
    simp only [Lexeme.kind] at kind
    split at kind
    · simp at kind
    · rename_i free
      obtain rfl := TokenKind.identifier.inj kind
      obtain ⟨c, more, rfl, starts, continues⟩ := Piece.word_of_mem_split among
      exact ⟨rfl, by simpa [legibleName, starts, free] using continues⟩
  | _ => simp [Lexeme.kind] at kind

theorem sublist_readTokens (source : Text) (limit : Option Nat) :
    (readTokens source limit).Sublist (grammarTokens source) := by
  cases limit with
  | none => exact .refl _
  | some limit => exact List.take_sublist _ _

/-- What has to hold of the nodes of a tree and of the tokens of its source. The root alone covers
the whole source. The leaves stand for tokens, each for another one, and they have what the token
says at the place of the token. -/
structure Program.Grounded (program : Program) (source : Text) : Prop where
  starts : ∀ visit ∈ program.walk, visit.1 ≠ 0 →
    ∃ token ∈ grammarTokens source, token.span.start = visit.2.span.start
  stops : ∀ visit ∈ program.walk, visit.1 ≠ 0 →
    ∃ token ∈ grammarTokens source, token.span.stop = visit.2.span.stop
  leaves : (saidOf program.walk).Sublist ((grammarTokens source).map Token.said)
  apart : (saidOf program.walk).Pairwise fun first second => first.2.stop ≤ second.2.start
  names : ∀ visit ∈ program.walk, ∀ name, visit.2.label = .identifier name →
    visit.2.span.slice? source = some name ∧ legibleName name

theorem name_of_said {source name : Text} {span : Span}
    (member : (TokenKind.identifier name, span) ∈ (grammarTokens source).map Token.said) :
    span.slice? source = some name ∧ legibleName name := by
  obtain ⟨token, among, same⟩ := List.mem_map.1 member
  obtain ⟨kind, rfl⟩ := Prod.mk.inj same
  have written := (List.mem_filter.1 among).1
  obtain ⟨lexeme, legible⟩ := Lexed.name_of_mem_written written kind
  have inside : token ∈ (Lexed.ofText source).tokens := by
    rw [Lexed.ofText_tokens]
    exact List.mem_append_left _ written
  exact ⟨lexeme ▸ Lexed.slice?_of_mem inside, legible⟩

section
variable (source name : Text) (limits : Limits)

theorem parse_lays : Lays (readTokens source limits.tokens)
    ((parse source name limits).program.declarations.map Decl.node) := by
  obtain ⟨reports, reads, _⟩ := parse_reads source name limits
  exact reads.lays (DeclLevel.covering (TypeReading.covering limits.depth limits.depth)
    (StmtReading.covering limits.depth limits.depth)).laying

theorem parse_spans_read : ∀ visit ∈ (parse source name limits).program.walk, visit.1 ≠ 0 →
    ∃ part, part.Sublist (readTokens source limits.tokens) ∧ Spans part visit.2.span := by
  intro visit member below
  rw [Program.walk, Program.node, Node.walk, Node.walkFrom, List.mem_cons] at member
  rcases member with rfl | member
  · exact absurd rfl below
  · obtain ⟨_, part, sublist, covers⟩ := (parse_lays source name limits).visited 1 visit member
    exact ⟨part, sublist, covers.spans⟩

theorem parse_spans : ∀ visit ∈ (parse source name limits).program.walk, visit.1 ≠ 0 →
    ∃ part, part.Sublist (grammarTokens source) ∧ Spans part visit.2.span := by
  intro visit member below
  obtain ⟨part, sublist, spans⟩ := parse_spans_read source name limits visit member below
  exact ⟨part, sublist.trans (sublist_readTokens source _), spans⟩

theorem parse_said : (saidOf (parse source name limits).program.walk).Sublist
    ((grammarTokens source).map Token.said) := by
  rw [Program.walk, Program.node, Node.walk, saidOf_walkFrom rfl]
  exact ((parse_lays source name limits).said 1).trans ((sublist_readTokens source _).map _)

/-- Every parsed tree is grounded in the tokens of its source, whatever the limits are. -/
theorem parse_grounded : (parse source name limits).program.Grounded source := by
  have said := parse_said source name limits
  constructor
  case starts =>
    intro visit member below
    obtain ⟨part, sublist, ⟨token, rest, rfl, start⟩, _⟩ :=
      parse_spans source name limits visit member below
    exact ⟨token, sublist.subset List.mem_cons_self, start⟩
  case stops =>
    intro visit member below
    obtain ⟨part, sublist, _, before, token, rfl, stop⟩ :=
      parse_spans source name limits visit member below
    exact ⟨token, sublist.subset (by simp), stop⟩
  case leaves => exact said
  case apart =>
    have ordered := readTokens_ordered source none
    exact (List.pairwise_map.2 ordered.apart).sublist said
  case names =>
    intro visit member name label
    refine name_of_said (said.subset (List.mem_filterMap.2 ⟨visit, member, ?_⟩))
    rw [Node.said?, label]
    rfl

end

end MoSyntax
