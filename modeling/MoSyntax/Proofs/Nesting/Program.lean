import MoSyntax.Proofs.Nesting.Expr
import MoSyntax.Proofs.Reading.Source

/-!
The spans of every tree nest: statements, blocks and declarations cover the tokens they are read
from, and the tokens of a source stand in order.
-/
namespace MoSyntax

theorem stmtNodes_eq (statements : List Stmt) : stmtNodes statements = statements.map Stmt.node := by
  induction statements with
  | nil => rfl
  | cons statement statements ih => rw [stmtNodes, ih, List.map_cons]

theorem Stmt.node_span (statement : Stmt) : statement.node.span = statement.span := by
  cases statement with
  | ifElse _ _ _ otherwise => cases otherwise <;> rfl
  | declare _ _ type _ => cases type <;> rfl
  | block body => cases body; rfl
  | _ => rfl

section
variable {type : Reading TypeExpr} {expr : Reading Expr} {stmt : Reading Stmt}

theorem BlockReading.spans_lays (stmts : Covering stmt Stmt.node) {used body reports}
    (reads : BlockReading stmt used body reports) :
    Spans used body.span ∧ Lays used (stmtNodes body.statements) := by
  cases reads with
  | closed first reads second =>
    refine ⟨.through (first.spans.starts.append _) ((second.spans.ends.append _).append _), ?_⟩
    rw [Block.statements, stmtNodes_eq]
    exact ((reads.lays stmts.laying).trail _).gap _
  | unclosed first reads =>
    refine ⟨.of_covered (by simp [first.ne_nil]), ?_⟩
    rw [Block.statements, stmtNodes_eq]
    exact (reads.lays stmts.laying).gap _

theorem BlockReading.covering (stmts : Covering stmt Stmt.node) :
    Covering (BlockReading stmt) Block.node := by
  intro used body reports reads
  obtain ⟨spans, lays⟩ := reads.spans_lays stmts
  cases body
  rw [Block.node]
  exact .node rfl spans lays

theorem StmtLevel.covering (types : Covering type TypeExpr.node)
    (exprs : Covering expr Expr.node) (stmts : Covering stmt Stmt.node) :
    Covering (StmtLevel type expr stmt) Stmt.node := by
  intro used found reports reads
  have blocks := BlockReading.covering stmts
  have values {used value reports} (reads : expr used value reports) : Ends used value.span :=
    Expr.node_span value ▸ (exprs _ _ _ reads).spans.ends
  have bodies {used body reports} (reads : BlockReading stmt used body reports) :
      Ends used body.span := (reads.spans_lays stmts).1.ends
  cases reads with
  | forLoop mark reads between block =>
    rw [Stmt.node]
    refine .node rfl (.through (mark.spans.starts.append _) ?_) ?_
    · exact (((bodies block).append _).append _).append _
    · exact ((Lays.one (exprs _ _ _ reads)).append ((Lays.one (blocks _ _ _ block)).gap _)).gap _
  | ifElse mark reads between block other =>
    have first := Lays.one (exprs _ _ _ reads)
    have second := Lays.one (blocks _ _ _ block)
    cases other with
    | none =>
      rw [Stmt.node]
      refine .node rfl (.through (mark.spans.starts.append _) ?_) ?_
      · exact ((by simpa using bodies block : Ends _ _).append _ |>.append _).append _
      · exact (first.append ((second.trail _).gap _)).gap _
    | some breaks word more reads =>
      rw [Stmt.node]
      refine .node rfl (.through (mark.spans.starts.append _) ?_) ?_
      · exact ((((((bodies reads).append _).append _).append _).append _).append _).append _
          |>.append _
      · exact (first.append ((second.append
          ((((Lays.one (blocks _ _ _ reads)).gap _).gap _).gap _)).gap _)).gap _
  | ret mark =>
    rw [Stmt.node]
    exact .leaf rfl mark.spans
  | retValue mark reads =>
    rw [Stmt.node]
    exact .node rfl (.through (mark.spans.starts.append _) ((values reads).append _))
      ((Lays.one (exprs _ _ _ reads)).gap _)
  | defer mark reads =>
    rw [Stmt.node]
    have inner := stmts _ _ _ reads
    exact .node rfl (.through (mark.spans.starts.append _)
      ((Stmt.node_span _ ▸ inner.spans.ends).append _)) ((Lays.one inner).gap _)
  | @block used body _ reads =>
    obtain ⟨spans, lays⟩ := reads.spans_lays stmts
    cases body
    rw [Stmt.node]
    exact .node rfl spans lays
  | infer names mark reads =>
    rw [Stmt.node]
    refine .node rfl (.through ((Spans.single names.2).starts.append _) ?_) ?_
    · exact ((values reads).append _).cons _
    · exact (Lays.one names.covers).append ((Lays.one (exprs _ _ _ reads)).gap _)
  | declare names typed mark reads =>
    rw [Stmt.node]
    refine .node rfl (.through ((Spans.single names.2).starts.append _) ?_) ?_
    · exact (((values reads).append _).append _).cons _
    · exact (Lays.one names.covers).append ((Lays.one (types _ _ _ typed)).append
        ((Lays.one (exprs _ _ _ reads)).gap _))
  | assign first mark second =>
    rw [Stmt.node]
    have target := ExprLevel.covering types exprs _ _ _ _ first
    refine .node rfl (.through (Expr.node_span _ ▸ target.spans.starts.append _) ?_) ?_
    · exact ((values second).append _).append _
    · exact (Lays.one target).append ((Lays.one (exprs _ _ _ second)).gap _)
  | compoundAssign first kind means assign close second =>
    rw [Stmt.node]
    have target := ExprLevel.covering types exprs _ _ _ _ first
    refine .node rfl (.through (Expr.node_span _ ▸ target.spans.starts.append _) ?_) ?_
    · exact (((values second).cons _).cons _).append _
    · exact (Lays.one target).append ((Lays.one (exprs _ _ _ second)).gap [_, _])
  | expression reads =>
    rw [Stmt.node]
    have value := exprs _ _ _ reads
    exact .node rfl (Expr.node_span _ ▸ value.spans) (.one value)

end

theorem ExprReading.covering (limit budget : Nat) :
    Covering (ExprReading limit budget) Expr.node := by
  induction budget with
  | zero => exact SkippedReading.covering fun span => by rw [Expr.node]
  | succ budget ih => exact ExprLevel.covering (TypeReading.covering limit budget) ih 0

theorem StmtReading.covering (limit budget : Nat) :
    Covering (StmtReading limit budget) Stmt.node := by
  induction budget with
  | zero => exact SkippedReading.covering fun span => by rw [Stmt.node]
  | succ budget ih =>
    exact StmtLevel.covering (TypeReading.covering limit budget) (ExprReading.covering limit budget)
      ih

section
variable {type : Reading TypeExpr} {stmt : Reading Stmt}

theorem TypedReading.covering (types : Covering type TypeExpr.node) {label : NodeLabel}
    (silent : label.tokenKind? = none) :
    Covering (TypedReading type) (TypedName.node label) := by
  rintro _ _ _ ⟨names, reads⟩
  have declared := types _ _ _ reads
  exact .node silent (.through ((Spans.single names.2).starts.append _)
    ((TypeExpr.node_span _ ▸ declared.spans.ends).cons _))
    ((Lays.one names.covers).append (.one declared))

theorem FieldReading.laying (types : Covering type TypeExpr.node) :
    Laying (FieldReading type) (TypedName.node .structField) := by
  intro used field reports reads
  cases reads with
  | field reads => exact (TypedReading.covering types rfl).laying _ _ _ reads
  | trailing reads => exact ((TypedReading.covering types rfl).laying _ _ _ reads).trail _

theorem LocalReading.lays {used alternative} (reads : LocalReading used alternative) :
    Lays used (alternative.map localNameNode).toList := by
  cases reads with
  | none => exact .nil
  | some kind => exact .one (.token (congrArg Option.some kind.symm) rfl)

theorem DeclLevel.covering (types : Covering type TypeExpr.node)
    (stmts : Covering stmt Stmt.node) : Covering (DeclLevel type stmt) Decl.node := by
  intro used found reports reads
  cases reads with
  | importing mark reads renamed =>
    refine .node rfl (.through (mark.spans.starts.append _) ?_) ?_
    · cases renamed with
      | none =>
        rw [List.append_nil]
        exact reads.spans.ends.append _
      | some => exact (((Spans.single rfl).ends).append _).append _
    · exact ((Lays.one reads.covers).append renamed.lays).gap _
  | record mark names between first reads second =>
    refine .node rfl (.through (mark.spans.starts.append _) ?_) ?_
    · exact ((((second.spans.ends.append _).append _).append _).cons _).append _
    · exact ((Lays.one names.covers).append
        ((((reads.lays (FieldReading.laying types)).trail _).gap _).gap _)).gap _
  | function mark names first reads second returns between block =>
    have body := BlockReading.covering stmts _ _ _ block
    refine .node rfl (.through (mark.spans.starts.append _) ?_) ?_
    · have ends := (block.spans_lays stmts).1.ends
      exact ((((((ends.append _).append _).append _).append _).append _).cons _).append _
    · have parameter : Covering (TypedReading type) (TypedName.node .parameter) :=
        TypedReading.covering types rfl
      have parameters := reads.lays parameter.laying
      have result := returns.lays types.laying
      rw [List.append_assoc]
      exact ((Lays.one names.covers).append ((parameters.append
        ((result.append ((Lays.one body).gap _)).gap _)).gap _)).gap _

end

/-- What has to hold of all spans in a tree. The root alone may be empty. -/
def Program.Nests (program : Program) : Prop :=
  ∀ visit ∈ program.walk, visit.2.span.start ≤ visit.2.span.stop ∧
    (visit.1 ≠ 0 → visit.2.span.start < visit.2.span.stop) ∧ visit.2.Nests

/-- The spans of a parsed tree nest, whatever the source and the limits are. -/
theorem parse_nests (source name : Text) (limits : Limits) :
    (parse source name limits).program.Nests := by
  obtain ⟨reports, reads, _⟩ := parse_reads source name limits
  have ordered := readTokens_ordered source limits.tokens
  have lays := reads.lays (DeclLevel.covering (TypeReading.covering limits.depth limits.depth)
    (StmtReading.covering limits.depth limits.depth)).laying
  intro visit member
  rw [Program.walk, Program.node, Node.walk, Node.walkFrom, List.mem_cons,
    parse_span source name limits] at member
  rcases member with rfl | member
  · refine ⟨Nat.zero_le _, fun below => absurd rfl below, lays.nests ordered ?_⟩
    rintro part inner sublist ⟨_, before, last, rfl, stop⟩
    have bound := stop_le_of_mem_readTokens (sublist.subset (by simp : last ∈ before ++ [last]))
    simpa [Span.contains, ← stop] using bound
  · obtain ⟨deep, solid, nests⟩ := lays.walk ordered 1 visit member
    exact ⟨Nat.le_of_lt solid, fun _ => solid, nests⟩

end MoSyntax
