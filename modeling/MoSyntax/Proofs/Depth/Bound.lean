import MoSyntax.Proofs.Depth.Levels
import MoSyntax.Proofs.Nesting.Program
import MoSyntax.Proofs.Printing.RoundTrip

/-!
The limit on nesting bounds the levels of every tree. Each construct that counts as nesting adds at
most seven levels: one for every level of binding, and one for a bracket or a statement around it.
-/
namespace MoSyntax

variable {α : Type} {bound : Nat}

/-- The nodes of what is read have at most so many levels. -/
def Within (bound : Nat) (each : Reading α) (node : α → Node) : Prop :=
  ∀ used value reports, each used value reports → (node value).levels ≤ bound

theorem Node.levels_le {label : NodeLabel} {span : Span} {children : List Node}
    (straight : label.leftStep = 0) (parts : ∀ child ∈ children, child.levels ≤ bound) :
    (Node.node label span children).levels ≤ bound + 1 := by
  rw [Node.levels, straight]
  exact Node.levelsBelow_le.2 parts

theorem Node.levels_leaf (label : NodeLabel) (span : Span) :
    (Node.node label span []).levels = 0 := by
  rw [Node.levels, Node.levelsBelow]

section
variable {each : Reading α} {node : α → Node}

theorem Within.mono {more : Nat} (within : Within bound each node) (le : bound ≤ more) :
    Within more each node :=
  fun _ _ _ reads => Nat.le_trans (within _ _ _ reads) le

theorem OptionalReading.within (within : Within bound each node) {used value reports}
    (reads : OptionalReading each used value reports) :
    ∀ part ∈ (value.map node).toList, part.levels ≤ bound := by
  rw [Option.toList_map]
  exact List.forall_mem_map.2 fun found member => reads.ensures within found (by simpa using member)

end

theorem SkippedReading.within {limit : Nat} {placeholder : Span → α} {node : α → Node}
    {label : NodeLabel} (leaf : ∀ span, node (placeholder span) = .node label span []) :
    Within bound (SkippedReading limit placeholder) node := by
  rintro _ _ _ ⟨⟩
  rw [leaf, Node.levels_leaf]
  exact Nat.zero_le _

theorem Ident.levels (name : Ident) : name.node.levels = 0 := Node.levels_leaf _ _

theorem Name.levels_le (name : Name) : name.node.levels ≤ 1 := by
  cases name with
  | ident name => exact name.levels ▸ Nat.zero_le 1
  | path modules => exact Node.levels_le rfl (by simp [Ident.levels])

theorem TypeLevel.within {inner : Reading TypeExpr} (some : 1 ≤ bound)
    (parts : Within bound inner TypeExpr.node) :
    Within (bound + 1) (TypeLevel inner) TypeExpr.node := by
  intro used type reports reads
  cases reads with
  | named reads =>
    exact Node.levels_le rfl (List.forall_mem_singleton.2 (Nat.le_trans (Name.levels_le _) some))
  | pointer mark reads =>
    exact Node.levels_le rfl (List.forall_mem_singleton.2 (parts _ _ _ reads))
  | array first count second reads =>
    refine Node.levels_le rfl (List.forall_mem_append.2 ⟨?_, ?_⟩)
    · cases count with
      | none => simp
      | some => simp [lengthNode, Node.levels_leaf]
    · exact List.forall_mem_singleton.2 (parts _ _ _ reads)

theorem TypeReading.within (limit budget : Nat) :
    Within (budget + 1) (TypeReading limit budget) TypeExpr.node := by
  induction budget with
  | zero => exact SkippedReading.within fun _ => rfl
  | succ budget ih => exact TypeLevel.within (by omega) ih

section
variable {type : Reading TypeExpr} {expr : Reading Expr}

theorem SuffixReading.within (exprs : Within bound expr Expr.node) :
    Within (bound + 1) (SuffixReading expr) Suffix.node := by
  intro used suffix reports reads
  cases reads with
  | field mark names =>
    rw [Suffix.node]
    exact Node.levels_le rfl (by simp [Ident.levels])
  | call mark names first reads second =>
    rw [Suffix.node, exprNodes_eq]
    refine Node.levels_le rfl (List.forall_mem_cons.2
      ⟨?_, List.forall_mem_map.2 (reads.ensures exprs)⟩)
    simp [Ident.levels]

/-- An expression has one level more with every step of binding from a primary on. -/
theorem ExprLevel.within (some : 1 ≤ bound) (types : Within bound type TypeExpr.node)
    (exprs : Within bound expr Expr.node) (level : Nat) :
    Within (bound + 1 + (Precedence.primaryLevel - level)) (ExprLevel type expr level)
      Expr.node := by
  intro used found reports reads
  have name (name : Name) : name.node.levels ≤ bound := Nat.le_trans name.levels_le some
  induction reads with
  | number | string | bool =>
    rw [Expr.node, Node.levels_leaf]
    exact Nat.zero_le _
  | named reads =>
    rw [Expr.node]
    refine Nat.le_add_right_of_le (Node.levels_le rfl ?_)
    exact List.forall_mem_singleton.2 (name _)
  | index target first breaks reads more second =>
    rw [Expr.node]
    refine Nat.le_add_right_of_le (Node.levels_le rfl ?_)
    exact List.forall_mem_cons.2 ⟨name _, List.forall_mem_singleton.2 (exprs _ _ _ reads)⟩
  | call callee first reads second =>
    rw [Expr.node, exprNodes_eq]
    refine Nat.le_add_right_of_le (Node.levels_le rfl ?_)
    exact List.forall_mem_cons.2 ⟨name _, List.forall_mem_map.2 (reads.ensures exprs)⟩
  | array first reads second annotated =>
    rw [Expr.node, exprNodes_eq]
    refine Nat.le_add_right_of_le (Node.levels_le rfl ?_)
    exact List.forall_mem_append.2
      ⟨List.forall_mem_map.2 (reads.ensures exprs), annotated.within types⟩
  | grouped first breaks reads more second =>
    rw [Expr.node]
    refine Nat.le_add_right_of_le (Node.levels_le rfl ?_)
    exact List.forall_mem_singleton.2 (exprs _ _ _ reads)
  | chain loose _ others _ ih =>
    rw [Expr.node, suffixNodes_eq]
    rw [Precedence.chainLevel] at loose
    rw [Precedence.primaryLevel] at ih ⊢
    refine Nat.le_trans (Node.levels_le rfl (List.forall_mem_cons.2 ⟨ih, ?_⟩)) (by omega)
    exact List.forall_mem_map.2 (others.ensures (SuffixReading.within exprs))
  | unary loose _ _ _ ih =>
    rw [Expr.node]
    rw [Precedence.unaryLevel] at loose
    rw [Precedence.chainLevel] at ih
    rw [Precedence.primaryLevel] at ih ⊢
    exact Nat.le_trans (Node.levels_le rfl (List.forall_mem_singleton.2 ih)) (by omega)
  | @binary level tier used left reports token sign operator breaks more right later loose first
      kind means tiered between second leftIh rightIh =>
    -- The step to the left operand counts nothing, so both operands may have what their level has.
    rw [Expr.node, Node.levels]
    have bounded : tier.level ≤ 3 := by cases tier <;> decide
    simp only [Precedence.primaryLevel] at leftIh rightIh ⊢
    simp only [NodeLabel.leftStep, Node.levelsBelow]
    omega

end

theorem ExprReading.within (limit budget : Nat) :
    Within (7 * budget + 1) (ExprReading limit budget) Expr.node := by
  induction budget with
  | zero => exact SkippedReading.within fun span => by rw [Expr.node]
  | succ budget ih =>
    exact ExprLevel.within (by omega) ((TypeReading.within limit budget).mono (by omega)) ih 0

section
variable {type : Reading TypeExpr} {expr : Reading Expr} {stmt : Reading Stmt}

theorem BlockReading.within_parts (stmts : Within bound stmt Stmt.node) {used body reports}
    (reads : BlockReading stmt used body reports) :
    ∀ part ∈ stmtNodes body.statements, part.levels ≤ bound := by
  cases reads with
  | closed first reads second =>
    rw [Block.statements, stmtNodes_eq]
    exact List.forall_mem_map.2 (reads.ensures stmts)
  | unclosed first reads =>
    rw [Block.statements, stmtNodes_eq]
    exact List.forall_mem_map.2 (reads.ensures stmts)

theorem BlockReading.within (stmts : Within bound stmt Stmt.node) :
    Within (bound + 1) (BlockReading stmt) Block.node := by
  intro used body reports reads
  have parts := reads.within_parts stmts
  cases body
  rw [Block.node]
  exact Node.levels_le rfl parts

/-- The target of an assignment is the deepest part of a statement: it binds as a unary expression
does, and is read on the level of the statement. -/
theorem StmtLevel.within (some : 1 ≤ bound) (types : Within bound type TypeExpr.node)
    (exprs : Within bound expr Expr.node) (stmts : Within bound stmt Stmt.node) :
    Within (bound + 4) (StmtLevel type expr stmt) Stmt.node := by
  intro used found reports reads
  have name (name : Ident) : name.node.levels ≤ bound + 3 := name.levels ▸ Nat.zero_le _
  have target : Within (bound + 3) (ExprLevel type expr Precedence.unaryLevel) Expr.node :=
    ExprLevel.within some types exprs _
  have types := types.mono (show bound ≤ bound + 3 by omega)
  have exprs := exprs.mono (show bound ≤ bound + 3 by omega)
  have blocks := (BlockReading.within stmts).mono (show bound + 1 ≤ bound + 3 by omega)
  have inner := stmts.mono (show bound ≤ bound + 3 by omega)
  cases reads with
  | forLoop mark reads between block =>
    rw [Stmt.node]
    exact Node.levels_le rfl (List.forall_mem_cons.2
      ⟨exprs _ _ _ reads, List.forall_mem_singleton.2 (blocks _ _ _ block)⟩)
  | ifElse mark reads between block other =>
    cases other with
    | none =>
      rw [Stmt.node]
      exact Node.levels_le rfl (List.forall_mem_cons.2
        ⟨exprs _ _ _ reads, List.forall_mem_singleton.2 (blocks _ _ _ block)⟩)
    | some breaks word more other =>
      rw [Stmt.node]
      exact Node.levels_le rfl (List.forall_mem_cons.2 ⟨exprs _ _ _ reads,
        List.forall_mem_cons.2 ⟨blocks _ _ _ block,
          List.forall_mem_singleton.2 (blocks _ _ _ other)⟩⟩)
  | ret mark =>
    rw [Stmt.node]
    exact Node.levels_le rfl (by simp)
  | retValue mark reads =>
    rw [Stmt.node]
    exact Node.levels_le rfl (List.forall_mem_singleton.2 (exprs _ _ _ reads))
  | defer mark reads =>
    rw [Stmt.node]
    exact Node.levels_le rfl (List.forall_mem_singleton.2 (inner _ _ _ reads))
  | @block used body _ reads =>
    have parts := reads.within_parts inner
    cases body
    rw [Stmt.node]
    exact Node.levels_le rfl parts
  | infer names mark reads =>
    rw [Stmt.node]
    exact Node.levels_le rfl (List.forall_mem_cons.2
      ⟨name _, List.forall_mem_singleton.2 (exprs _ _ _ reads)⟩)
  | declare names typed mark reads =>
    rw [Stmt.node]
    exact Node.levels_le rfl (List.forall_mem_cons.2 ⟨name _,
      List.forall_mem_cons.2 ⟨types _ _ _ typed,
        List.forall_mem_singleton.2 (exprs _ _ _ reads)⟩⟩)
  | assign first mark second =>
    rw [Stmt.node]
    exact Node.levels_le rfl (List.forall_mem_cons.2
      ⟨target _ _ _ first, List.forall_mem_singleton.2 (exprs _ _ _ second)⟩)
  | compoundAssign first kind means assign close second =>
    rw [Stmt.node]
    exact Node.levels_le rfl (List.forall_mem_cons.2
      ⟨target _ _ _ first, List.forall_mem_singleton.2 (exprs _ _ _ second)⟩)
  | expression reads =>
    rw [Stmt.node]
    exact Node.levels_le rfl (List.forall_mem_singleton.2 (exprs _ _ _ reads))

end

theorem StmtReading.within (limit budget : Nat) :
    Within (7 * budget + 1) (StmtReading limit budget) Stmt.node := by
  induction budget with
  | zero => exact SkippedReading.within fun span => by rw [Stmt.node]
  | succ budget ih =>
    exact (StmtLevel.within (by omega) ((TypeReading.within limit budget).mono (by omega))
      (ExprReading.within limit budget) ih).mono (by omega)

section
variable {type : Reading TypeExpr} {stmt : Reading Stmt}

theorem TypedReading.within (types : Within bound type TypeExpr.node) {label : NodeLabel}
    (straight : label.leftStep = 0) :
    Within (bound + 1) (TypedReading type) (TypedName.node label) := by
  rintro _ _ _ ⟨names, reads⟩
  refine Node.levels_le straight (List.forall_mem_cons.2 ⟨?_, ?_⟩)
  · simp [Ident.levels]
  · exact List.forall_mem_singleton.2 (types _ _ _ reads)

theorem FieldReading.within (types : Within bound type TypeExpr.node) :
    Within (bound + 1) (FieldReading type) (TypedName.node .structField) := by
  intro used field reports reads
  cases reads with
  | field reads => exact TypedReading.within types rfl _ _ _ reads
  | trailing reads => exact TypedReading.within types rfl _ _ _ reads

theorem DeclLevel.within (types : Within bound type TypeExpr.node)
    (stmts : Within bound stmt Stmt.node) : Within (bound + 2) (DeclLevel type stmt) Decl.node := by
  intro used found reports reads
  have name (name : Ident) : name.node.levels ≤ bound + 1 := name.levels ▸ Nat.zero_le _
  cases reads with
  | importing mark reads renamed =>
    refine Node.levels_le rfl (List.forall_mem_cons.2 ⟨?_, ?_⟩)
    · exact Nat.le_trans (Name.levels_le (.path _)) (by omega)
    · cases renamed with
      | none => simp
      | some => simp [localNameNode, Node.levels_leaf]
  | record mark names between first reads second =>
    exact Node.levels_le rfl (List.forall_mem_cons.2
      ⟨name _, List.forall_mem_map.2 (reads.ensures (FieldReading.within types))⟩)
  | function mark names first reads second returns between block =>
    refine Node.levels_le rfl (List.forall_mem_append.2 ⟨List.forall_mem_append.2
      ⟨List.forall_mem_cons.2 ⟨name _, ?_⟩, ?_⟩, List.forall_mem_singleton.2 ?_⟩)
    · exact List.forall_mem_map.2 (reads.ensures (TypedReading.within types rfl))
    · exact returns.within (types.mono (Nat.le_succ _))
    · exact BlockReading.within stmts _ _ _ block

end

theorem parse_levels (source name : Text) (limits : Limits) :
    (parse source name limits).program.node.levels ≤ 7 * limits.depth + 4 := by
  obtain ⟨reports, reads, _⟩ := parse_reads source name limits
  refine Node.levels_le rfl (List.forall_mem_map.2 (reads.ensures (DeclLevel.within ?_ ?_)))
  · exact (TypeReading.within limits.depth limits.depth).mono (by omega)
  · exact StmtReading.within limits.depth limits.depth

/-- A node of a parsed tree lies no deeper than the limit on nesting allows, but for the steps from
a binary expression to its left operand. -/
theorem parse_depth (source name : Text) (limits : Limits) :
    (parse source name limits).program.node.countedWalk.map CountedVisit.visit =
        (parse source name limits).program.walk ∧
      ∀ counted ∈ (parse source name limits).program.node.countedWalk,
        counted.depth ≤ 7 * limits.depth + 4 + counted.lefts := by
  refine ⟨Node.countedFrom_walk 0 0 _, ?_⟩
  intro counted member
  have depth := Node.depth_le_of_mem_countedFrom counted member
  have levels := parse_levels source name limits
  omega

def oneExpr : Expr := .number (.empty 0) ⟨.decimal, false, ['1']⟩

/-- A sum of ones without brackets. -/
def flatSum : Nat → Expr
  | 0 => oneExpr
  | count + 1 => .binary (.empty 0) .term (flatSum count) ⟨.empty 0, .add⟩ oneExpr

def flatProgram (count : Nat) : Program :=
  ⟨.empty 0, [.function (.empty 0) ⟨.empty 0, ['f']⟩ [] none
    (.braces (.empty 0) [.expression (flatSum count)])]⟩

theorem flatSum_wellFormed (count : Nat) : (flatSum count).wellFormed := by
  induction count with
  | zero => rfl
  | succ count ih =>
    have loose : Precedence.term.level ≤ (flatSum count).level := by
      cases count with
      | zero => decide
      | succ count => exact Nat.le_refl _
    simp [flatSum, Expr.wellFormed, ih, loose, oneExpr]
    decide

theorem flatSum_legible (count : Nat) : ∀ kind ∈ (flatSum count).kinds, kind.legible := by
  induction count with
  | zero => decide
  | succ count ih =>
    rw [flatSum, Expr.kinds]
    exact List.forall_mem_append.2 ⟨ih, by decide⟩

theorem flatSum_nested (count : Nat) : (flatSum count).nested = 0 := by
  induction count with
  | zero => rfl
  | succ count ih => simp [flatSum, oneExpr, Expr.nested, ih]

theorem flatProgram_wellFormed (count : Nat) : (flatProgram count).WellFormed where
  shape := by
    simp [flatProgram, Decl.wellFormed, Block.wellFormed, stmtsWellFormed, Stmt.wellFormed,
      flatSum_wellFormed]
  legible := by
    have kinds : (flatProgram count).printedKinds =
        [.keyword .fnWord, .identifier ['f'], .punctuation .leftParen, .punctuation .rightParen,
          .punctuation .leftBrace, .lineBreak] ++
        ((flatSum count).kinds ++ [.punctuation .rightBrace]) := by
      simp [Program.printedKinds, Program.kinds, flatProgram, Decl.kinds, Block.kinds, stmtKinds,
        Stmt.kinds, braced, listed, Ident.kinds]
    rw [kinds]
    exact List.forall_mem_append.2
      ⟨by decide, List.forall_mem_append.2 ⟨flatSum_legible count, by decide⟩⟩

theorem flatProgram_nesting (count : Nat) :
    ∀ tree ∈ (flatProgram count).declarations, tree.nesting ≤ 2 := by
  simp [flatProgram, Decl.nesting, Block.nesting, stmtNestings, Stmt.nesting, Expr.nesting, deepest,
    flatSum_nested]

theorem flatSum_walk {count : Nat} {expr : Expr} (same : expr.bare = (flatSum count).bare)
    (depth : Nat) : ∃ visit ∈ expr.node.walkFrom depth, visit.1 = depth + count := by
  induction count generalizing expr depth with
  | zero =>
    cases node : expr.node
    rw [Node.walkFrom]
    exact ⟨_, List.mem_cons_self, rfl⟩
  | succ count ih =>
    cases expr with
    | binary span tier left operator right =>
      simp only [flatSum, Expr.bare, Expr.binary.injEq] at same
      obtain ⟨visit, member, deep⟩ := ih same.2.2.1 (depth + 1)
      rw [Expr.node]
      exact ⟨visit, Node.mem_walkFrom List.mem_cons_self member, by omega⟩
    | _ => simp [flatSum, Expr.bare] at same

theorem Stmt.of_bare_eq_expression {statement : Stmt} {value : Expr}
    (same : statement.bare = .expression value) :
    ∃ found, statement = .expression found ∧ found.bare = value := by
  cases statement with
  | expression found => exact ⟨found, rfl, by simpa [Stmt.bare] using same⟩
  | ifElse span condition consequence otherwise =>
    cases otherwise <;> simp [Stmt.bare] at same
  | _ => simp [Stmt.bare] at same

theorem flatProgram_walk {count : Nat} {program : Program}
    (same : program.declarations.map Decl.bare =
      (flatProgram count).declarations.map Decl.bare) :
    ∃ visit ∈ program.walk, count ≤ visit.1 := by
  obtain ⟨declaration, others, declarations, alike, _⟩ := List.map_eq_cons_iff.1 same
  cases declaration with
  | function span name parameters result body =>
    obtain ⟨place, statements⟩ := body
    simp only [Decl.bare, Block.bare, stmtsBare_eq, Decl.function.injEq, Block.braces.injEq,
      List.map_cons, List.map_nil, Stmt.bare] at alike
    obtain ⟨statement, more, rfl, alike, _⟩ := List.map_eq_cons_iff.1 alike.2.2.2.2.2
    obtain ⟨value, rfl, sum⟩ := Stmt.of_bare_eq_expression alike
    obtain ⟨visit, inValue, deep⟩ := flatSum_walk sum 4
    have inStatement : visit ∈ (Stmt.expression value).node.walkFrom 3 := by
      rw [Stmt.node]
      exact Node.mem_walkFrom List.mem_cons_self inValue
    have inBody : visit ∈ (Block.braces place (.expression value :: more)).node.walkFrom 2 := by
      rw [Block.node, stmtNodes]
      exact Node.mem_walkFrom List.mem_cons_self inStatement
    refine ⟨visit, ?_, by omega⟩
    rw [Program.walk, Program.node, declarations, List.map_cons, Node.walk]
    exact Node.mem_walkFrom List.mem_cons_self (Node.mem_walkFrom (by simp) inBody)
  | _ => simp [Decl.bare] at alike

theorem parse_flatProgram (count : Nat) (name : Text) :
    ∃ visit ∈ (parse (flatProgram count).printed name { depth := 2 }).program.walk,
      count ≤ visit.1 := by
  have formed := flatProgram_wellFormed count
  obtain ⟨_, found, answer, same, _⟩ := Parser.Gives.declarations formed.shape
    (flatProgram_nesting count) _ (printed_holds formed)
  refine flatProgram_walk ?_
  rw [parse_declarations, answer, Option.getD_some, same]

/-- No function of the limit on nesting bounds the depth of the parsed trees. -/
theorem depth_unbounded : ¬ ∃ bound : Nat → Nat, ∀ (source name : Text) (limits : Limits),
    ∀ visit ∈ (parse source name limits).program.walk, visit.1 ≤ bound limits.depth := by
  rintro ⟨bound, bounds⟩
  obtain ⟨visit, member, deep⟩ := parse_flatProgram (bound 2 + 1) unnamed
  have shallow := bounds _ _ _ visit member
  dsimp only at shallow
  omega

end MoSyntax
