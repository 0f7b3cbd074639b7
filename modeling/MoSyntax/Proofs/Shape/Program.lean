import MoSyntax.Proofs.Nesting.Program
import MoSyntax.Proofs.Shape.Node

/-!
Statements, declarations and whole files are well shaped, also those with placeholders and those
that were recovered from tokens that could not be read.
-/
namespace MoSyntax

section
variable {type : Reading TypeExpr} {expr : Reading Expr} {stmt : Reading Stmt}

theorem BlockReading.shaped_parts (stmts : Shaping stmt Stmt.node) {used body reports}
    (reads : BlockReading stmt used body reports) :
    ∀ part ∈ stmtNodes body.statements, part.Shaped := by
  cases reads with
  | closed first reads second =>
    rw [Block.statements, stmtNodes_eq]
    exact List.forall_mem_map.2 (reads.ensures stmts)
  | unclosed first reads =>
    rw [Block.statements, stmtNodes_eq]
    exact List.forall_mem_map.2 (reads.ensures stmts)

theorem BlockReading.shaping (stmts : Shaping stmt Stmt.node) :
    Shaping (BlockReading stmt) Block.node := by
  intro used body reports reads
  have parts := reads.shaped_parts stmts
  cases body
  rw [Block.node]
  exact .node rfl parts

/-- A target is read as a unary expression is, so no binary operator can be the outermost in it. -/
theorem StmtLevel.shaping (starred : Starred type) (types : Shaping type TypeExpr.node)
    (exprs : Shaping expr Expr.node) (stmts : Shaping stmt Stmt.node) :
    Shaping (StmtLevel type expr stmt) Stmt.node := by
  intro used found reports reads
  have blocks := BlockReading.shaping stmts
  have targets := ExprLevel.shaping starred types exprs Precedence.unaryLevel
  cases reads with
  | forLoop mark reads between block =>
    rw [Stmt.node]
    exact .node rfl (List.forall_mem_cons.2
      ⟨exprs _ _ _ reads, List.forall_mem_singleton.2 (blocks _ _ _ block)⟩)
  | ifElse mark reads between block other =>
    cases other with
    | none =>
      rw [Stmt.node]
      exact .node rfl (List.forall_mem_cons.2
        ⟨exprs _ _ _ reads, List.forall_mem_singleton.2 (blocks _ _ _ block)⟩)
    | some breaks word more other =>
      rw [Stmt.node]
      exact .node rfl (List.forall_mem_cons.2 ⟨exprs _ _ _ reads,
        List.forall_mem_cons.2 ⟨blocks _ _ _ block,
          List.forall_mem_singleton.2 (blocks _ _ _ other)⟩⟩)
  | ret mark =>
    rw [Stmt.node]
    exact .leaf rfl
  | retValue mark reads =>
    rw [Stmt.node]
    exact .node rfl (List.forall_mem_singleton.2 (exprs _ _ _ reads))
  | defer mark reads =>
    rw [Stmt.node]
    exact .node rfl (List.forall_mem_singleton.2 (stmts _ _ _ reads))
  | @block used body _ reads =>
    have parts := reads.shaped_parts stmts
    cases body
    rw [Stmt.node]
    exact .node rfl parts
  | infer names mark reads =>
    rw [Stmt.node]
    exact .node rfl (List.forall_mem_cons.2
      ⟨Ident.shaped _, List.forall_mem_singleton.2 (exprs _ _ _ reads)⟩)
  | declare names typed mark reads =>
    rw [Stmt.node]
    exact .node rfl (List.forall_mem_cons.2 ⟨Ident.shaped _,
      List.forall_mem_cons.2 ⟨types _ _ _ typed,
        List.forall_mem_singleton.2 (exprs _ _ _ reads)⟩⟩)
  | assign first mark second =>
    rw [Stmt.node]
    refine .node ?_ (List.forall_mem_cons.2
      ⟨targets _ _ _ first, List.forall_mem_singleton.2 (exprs _ _ _ second)⟩)
    simpa [NodeLabel.fits, Expr.node_level] using first.level_le (by decide)
  | compoundAssign first kind means assign close second =>
    rw [Stmt.node]
    refine .node ?_ (List.forall_mem_cons.2
      ⟨targets _ _ _ first, List.forall_mem_singleton.2 (exprs _ _ _ second)⟩)
    have compounds := (Option.filter_eq_some_iff.1 means).2
    simpa [NodeLabel.fits, Expr.node_level, compounds] using first.level_le (by decide)
  | expression reads =>
    rw [Stmt.node]
    exact .node rfl (List.forall_mem_singleton.2 (exprs _ _ _ reads))

end

theorem StmtReading.shaping (limit budget : Nat) : Shaping (StmtReading limit budget) Stmt.node := by
  induction budget with
  | zero => exact SkippedReading.shaping fun span => by rw [Stmt.node]
  | succ budget ih =>
    exact StmtLevel.shaping (TypeReading.starred limit budget) (TypeReading.shaping limit budget)
      (ExprReading.shaping limit budget) ih

section
variable {type : Reading TypeExpr} {stmt : Reading Stmt}

theorem TypedReading.shaping (types : Shaping type TypeExpr.node) {label : NodeLabel}
    (fits : ∀ parts, label.fits parts) : Shaping (TypedReading type) (TypedName.node label) := by
  rintro _ _ _ ⟨names, reads⟩
  exact .node (fits _) (List.forall_mem_cons.2
    ⟨Ident.shaped _, List.forall_mem_singleton.2 (types _ _ _ reads)⟩)

theorem FieldReading.shaping (types : Shaping type TypeExpr.node) :
    Shaping (FieldReading type) (TypedName.node .structField) := by
  intro used field reports reads
  cases reads with
  | field reads => exact TypedReading.shaping types (fun _ => rfl) _ _ _ reads
  | trailing reads => exact TypedReading.shaping types (fun _ => rfl) _ _ _ reads

theorem DeclLevel.shaping (types : Shaping type TypeExpr.node) (stmts : Shaping stmt Stmt.node) :
    Shaping (DeclLevel type stmt) Decl.node := by
  intro used found reports reads
  cases reads with
  | importing mark reads renamed =>
    refine .node rfl (List.forall_mem_cons.2 ⟨reads.shaped, ?_⟩)
    cases renamed with
    | none => simp
    | some => exact List.forall_mem_singleton.2 (.leaf rfl)
  | record mark names between first reads second =>
    exact .node rfl
      (List.forall_mem_cons.2 ⟨Ident.shaped _, List.forall_mem_map.2
        (reads.ensures (FieldReading.shaping types))⟩)
  | function mark names first reads second returns between block =>
    refine .node rfl (List.forall_mem_append.2 ⟨List.forall_mem_append.2
      ⟨List.forall_mem_cons.2 ⟨Ident.shaped _, ?_⟩, ?_⟩, List.forall_mem_singleton.2 ?_⟩)
    · exact List.forall_mem_map.2 (reads.ensures (TypedReading.shaping types fun _ => rfl))
    · exact returns.shaped types
    · exact BlockReading.shaping stmts _ _ _ block

end

theorem DeclReading.shaping (limit : Nat) : Shaping (DeclReading limit) Decl.node :=
  DeclLevel.shaping (TypeReading.shaping limit limit) (StmtReading.shaping limit limit)

def Program.Shaped (program : Program) : Prop := ∀ visit ∈ program.walk, visit.2.wellShaped

/-- All nodes of a parsed tree are well shaped, whatever the source and the limits are. -/
theorem parse_shaped (source name : Text) (limits : Limits) :
    (parse source name limits).program.Shaped := by
  obtain ⟨reports, reads, _⟩ := parse_reads source name limits
  have shaped : (parse source name limits).program.node.Shaped :=
    .node rfl (List.forall_mem_map.2 (reads.ensures (DeclReading.shaping limits.depth)))
  exact shaped 0

end MoSyntax
