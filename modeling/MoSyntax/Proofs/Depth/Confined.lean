import MoSyntax.Proofs.Course.Order
import MoSyntax.Proofs.Depth.Counter
import MoSyntax.Proofs.Depth.Entered
import MoSyntax.Proofs.Nesting.Program
import MoSyntax.Proofs.Tally.Program

/-!
Every parsed tree is confined by the limit on nesting. What is read with a budget of levels enters no
more levels than that, and where the budget is used up, the report of the limit and the placeholder
for what was skipped come together: they are kept both or given up both.
-/
namespace MoSyntax

variable {α : Type} {bound : Nat} {joined : Bool}

def Confining (bound : Nat) (joined : Bool) (each : Reading α) (node : α → Node) : Prop :=
  ∀ used value reports, each used value reports → Confined bound joined (node value) reports

def ConfiningPart (bound : Nat) (each : Reading α) (node : α → Node) : Prop :=
  ∀ used value reports, each used value reports → ConfinedAll bound false false [node value] reports

section
variable {each : Reading α} {node : α → Node}

theorem Confining.part (confines : Confining bound false each node) :
    ConfiningPart bound each node :=
  fun _ _ _ reads => .one (confines _ _ _ reads)

theorem Repeated.confined {rest : List Token → Prop} (confines : ConfiningPart bound each node)
    {used values reports} (repeated : Repeated each rest used values reports) :
    ConfinedAll bound false false (values.map node) reports := by
  induction repeated with
  | done => exact .nil
  | more first _ ih => exact (confines _ _ _ first).append ih

theorem NextItem.confining (confines : ConfiningPart bound each node) :
    ConfiningPart bound (NextItem each) node := by
  rintro _ _ _ ⟨_, _, item, _⟩
  exact confines _ _ _ item

theorem ItemsReading.confined (confines : ConfiningPart bound each node) {used values reports}
    (reads : ItemsReading each used values reports) :
    ConfinedAll bound false false (values.map node) reports := by
  cases reads with
  | none => exact .nil
  | some _ item _ others =>
    exact (confines _ _ _ item).append (others.confined (NextItem.confining confines))

theorem OptionalReading.confined (confines : ConfiningPart bound each node) {used value reports}
    (reads : OptionalReading each used value reports) :
    ConfinedAll bound false false (value.map node).toList reports := by
  cases reads with
  | none => exact .nil
  | some reads => exact confines _ _ _ reads

theorem BodyReading.confined {gap : List Token → Prop} (confines : ConfiningPart bound each node)
    {used values reports} (reads : BodyReading gap each used values reports) :
    ConfinedAll bound false false (values.map node) reports := by
  obtain ⟨rounds⟩ := reads
  induction rounds with
  | done => exact .nil
  | more first _ ih =>
    cases first with
    | read _ reads => exact (confines _ _ _ reads).append ih
    | lost => exact ih.gap _

end

/-- A placeholder comes with the report of the limit, which begins where it does. -/
theorem SkippedReading.confining {limit : Nat} {placeholder : Span → α} {node : α → Node}
    {kind : Placeholder} (leaf : ∀ span, node (placeholder span) = .node (.skipped kind) span []) :
    Confining bound joined (SkippedReading limit placeholder) node := by
  rintro _ _ _ ⟨⟩
  rw [leaf]
  refine .skipped rfl ?_
  simp [covered, List.getLast?_eq_some_getLast, Span.through, Report.tooDeep, Diagnostic.span,
    Diagnostic.standard, Diagnostic.withMessage, Diagnostic.withNote]

theorem Ident.confined (name : Ident) : Confined bound joined name.node [] :=
  .leaf rfl (Nat.zero_le bound)

theorem Name.confined (name : Name) : Confined bound joined name.node [] := by
  cases name with
  | ident name => exact name.confined
  | path modules =>
    have parts (names : List Ident) : ConfinedAll bound false false (names.map Ident.node) [] := by
      induction names with
      | nil => exact .nil
      | cons name names ih => exact .quiet_cons name.confined ih
    exact .node rfl (Nat.le_refl bound) (parts modules.segments)

theorem TypeLevel.confining {inner : Reading TypeExpr}
    (parts : Confining bound false inner TypeExpr.node) :
    Confining (bound + 1) false (TypeLevel inner) TypeExpr.node := by
  intro used type reports reads
  cases reads with
  | named reads => exact .node rfl (Nat.le_refl _) (.one (Name.confined _))
  | pointer mark reads => exact .node rfl (Nat.le_refl _) (.one (parts _ _ _ reads))
  | @array _ _ _ length _ _ _ _ _ first count second reads =>
    refine .node rfl (Nat.le_refl _) ?_
    cases length with
    | none => exact .one (parts _ _ _ reads)
    | some length =>
      exact .quiet_cons (.leaf rfl (Nat.zero_le bound)) (.one (parts _ _ _ reads))

theorem TypeReading.confining (limit budget : Nat) :
    Confining budget false (TypeReading limit budget) TypeExpr.node := by
  induction budget with
  | zero => exact SkippedReading.confining fun _ => rfl
  | succ budget ih => exact TypeLevel.confining ih

section
variable {type : Reading TypeExpr} {expr : Reading Expr}

theorem SuffixReading.confining (exprs : Confining bound false expr Expr.node) :
    Confining bound false (SuffixReading expr) Suffix.node := by
  intro used suffix reports reads
  cases reads with
  | field mark names =>
    rw [Suffix.node]
    exact .node rfl (Nat.le_refl bound) (.one (Ident.confined _))
  | call mark names first reads second =>
    rw [Suffix.node, exprNodes_eq]
    exact .node rfl (Nat.le_refl bound)
      (.quiet_cons (Ident.confined _) (reads.confined exprs.part))

/-- An expression that is joined to the node above enters no level of its own. -/
theorem ExprLevel.confining (types : Confining bound false type TypeExpr.node)
    (exprs : Confining bound false expr Expr.node) (level : Nat) :
    Confining bound true (ExprLevel type expr level) Expr.node := by
  intro used found reports reads
  induction reads with
  | number | string | bool =>
    rw [Expr.node]
    exact .leaf rfl (Nat.zero_le bound)
  | named reads =>
    rw [Expr.node]
    exact .node rfl (Nat.le_refl bound) (.one (Name.confined _))
  | index target first breaks reads more second =>
    rw [Expr.node]
    exact .node rfl (Nat.le_refl bound)
      (.quiet_cons (Name.confined _) (.one (exprs _ _ _ reads)))
  | call callee first reads second =>
    rw [Expr.node, exprNodes_eq]
    exact .node rfl (Nat.le_refl bound)
      (.quiet_cons (Name.confined _) (reads.confined exprs.part))
  | array first reads second annotated =>
    rw [Expr.node, exprNodes_eq]
    exact .node rfl (Nat.le_refl bound)
      ((reads.confined exprs.part).append (annotated.confined types.part))
  | grouped first breaks reads more second =>
    rw [Expr.node]
    exact .node rfl (Nat.le_refl bound) (.one (exprs _ _ _ reads))
  | chain _ _ others _ ih =>
    rw [Expr.node, suffixNodes_eq]
    exact .node rfl (Nat.le_refl bound)
      (.append_cons ih (others.confined (SuffixReading.confining exprs).part))
  | unary _ _ _ _ ih =>
    rw [Expr.node]
    exact .node rfl (Nat.le_refl bound) (.one ih)
  | binary _ _ _ _ _ _ _ left right =>
    rw [Expr.node]
    exact .node rfl (Nat.le_refl bound) (.append_cons left (.one right))

end

theorem ExprReading.confining (limit budget : Nat) :
    Confining budget false (ExprReading limit budget) Expr.node := by
  induction budget with
  | zero => exact SkippedReading.confining fun span => by rw [Expr.node]
  | succ budget ih =>
    exact fun _ _ _ reads =>
      (ExprLevel.confining (TypeReading.confining limit budget) ih 0 _ _ _ reads).full

section
variable {type : Reading TypeExpr} {expr : Reading Expr} {stmt : Reading Stmt}

theorem BlockReading.confined_parts (stmts : Confining bound false stmt Stmt.node)
    {used body reports} (reads : BlockReading stmt used body reports) :
    ConfinedAll bound false false (stmtNodes body.statements) reports := by
  cases reads with
  | closed first reads second =>
    rw [Block.statements, stmtNodes_eq]
    exact reads.confined stmts.part
  | unclosed first reads =>
    rw [Block.statements, stmtNodes_eq]
    exact (reads.confined stmts.part).trail _

theorem BlockReading.confining (stmts : Confining bound false stmt Stmt.node) :
    Confining bound false (BlockReading stmt) Block.node := by
  intro used body reports reads
  have parts := reads.confined_parts stmts
  cases body
  rw [Block.node]
  exact .node rfl (Nat.le_refl bound) parts

theorem StmtLevel.confining (types : Confining bound false type TypeExpr.node)
    (exprs : Confining bound false expr Expr.node) (stmts : Confining bound false stmt Stmt.node) :
    Confining (bound + 1) false (StmtLevel type expr stmt) Stmt.node := by
  intro used found reports reads
  have blocks := BlockReading.confining stmts
  have targets := ExprLevel.confining types exprs Precedence.unaryLevel
  cases reads with
  | forLoop mark reads between block =>
    rw [Stmt.node]
    exact .node rfl (Nat.le_refl _) (.append_cons (exprs _ _ _ reads) (.one (blocks _ _ _ block)))
  | ifElse mark reads between block other =>
    cases other with
    | none =>
      rw [Stmt.node, List.append_nil]
      exact .node rfl (Nat.le_refl _)
        (.append_cons (exprs _ _ _ reads) (.one (blocks _ _ _ block)))
    | some breaks word more other =>
      rw [Stmt.node]
      exact .node rfl (Nat.le_refl _) (.append_cons (exprs _ _ _ reads)
        (.append_cons (blocks _ _ _ block) (.one (blocks _ _ _ other))))
  | ret mark =>
    rw [Stmt.node]
    exact .leaf rfl (Nat.le_add_left 1 bound)
  | retValue mark reads =>
    rw [Stmt.node]
    exact .node rfl (Nat.le_refl _) (.one (exprs _ _ _ reads))
  | defer mark reads =>
    rw [Stmt.node]
    exact .node rfl (Nat.le_refl _) (.one (stmts _ _ _ reads))
  | @block used body _ reads =>
    have parts := reads.confined_parts stmts
    cases body
    rw [Stmt.node]
    exact .node rfl (Nat.le_refl _) parts
  | infer names mark reads =>
    rw [Stmt.node]
    exact .node rfl (Nat.le_refl _)
      (.quiet_cons (Ident.confined _) (.one (exprs _ _ _ reads)))
  | declare names typed mark reads =>
    rw [Stmt.node]
    exact .node rfl (Nat.le_refl _) (.quiet_cons (Ident.confined _)
      (.append_cons (types _ _ _ typed) (.one (exprs _ _ _ reads))))
  | assign first mark second =>
    rw [Stmt.node]
    exact .node rfl (Nat.le_refl _)
      (.append_cons (targets _ _ _ first) (.one (exprs _ _ _ second)))
  | compoundAssign first kind means assign close second =>
    rw [Stmt.node]
    exact .node rfl (Nat.le_refl _)
      (.append_cons (targets _ _ _ first) (.one (exprs _ _ _ second)))
  | expression reads =>
    rw [Stmt.node]
    exact .node rfl (Nat.le_refl _) (.one (exprs _ _ _ reads))

end

theorem StmtReading.confining (limit budget : Nat) :
    Confining budget false (StmtReading limit budget) Stmt.node := by
  induction budget with
  | zero => exact SkippedReading.confining fun span => by rw [Stmt.node]
  | succ budget ih =>
    exact StmtLevel.confining (TypeReading.confining limit budget)
      (ExprReading.confining limit budget) ih

section
variable {type : Reading TypeExpr} {stmt : Reading Stmt}

theorem TypedReading.confining (types : Confining bound false type TypeExpr.node)
    {label : NodeLabel} (named : label = .structField ∨ label = .parameter) :
    Confining bound false (TypedReading type) (TypedName.node label) := by
  rintro _ _ _ ⟨_, reads⟩
  rcases named with rfl | rfl <;>
    exact .node rfl (Nat.le_refl bound)
      (.quiet_cons (Ident.confined _) (.one (types _ _ _ reads)))

theorem FieldReading.confining (types : Confining bound false type TypeExpr.node) :
    ConfiningPart bound (FieldReading type) (TypedName.node .structField) := by
  intro used field reports reads
  have fields := (TypedReading.confining types (.inl rfl)).part
  cases reads with
  | field reads => exact fields _ _ _ reads
  | trailing reads => exact (fields _ _ _ reads).trail _

theorem DeclLevel.confining (types : Confining bound false type TypeExpr.node)
    (stmts : Confining bound false stmt Stmt.node) :
    Confining bound false (DeclLevel type stmt) Decl.node := by
  intro used found reports reads
  cases reads with
  | @importing _ _ _ _ _ alternative mark reads renamed =>
    refine .node rfl (Nat.le_refl bound) (.quiet_cons (Name.confined (.path _)) ?_)
    cases alternative with
    | none => exact .nil
    | some => exact .one (.leaf rfl (Nat.zero_le bound))
  | record mark names between first reads second =>
    exact .node rfl (Nat.le_refl bound)
      (.quiet_cons (Ident.confined _) (reads.confined (FieldReading.confining types)))
  | function mark names first reads second returns between block =>
    have parameters := reads.confined (TypedReading.confining types (.inr rfl)).part
    have body := (BlockReading.confining stmts).part _ _ _ block
    refine .node rfl (Nat.le_refl bound) ?_
    rw [List.append_assoc, List.cons_append]
    exact .quiet_cons (Ident.confined _)
      (parameters.append ((returns.confined types.part).append body))

end

theorem declarations_confined (source name : Text) (limits : Limits) :
    Confined limits.depth false (parse source name limits).program.node
      (Parser.declarations limits.depth (sourceCursor source limits.tokens)).reports := by
  obtain ⟨found, value, reads, _⟩ :=
    Parser.declarations_reads limits.depth (sourceCursor_intact source limits.tokens)
  have types := TypeReading.confining limits.depth limits.depth
  have stmts := StmtReading.confining limits.depth limits.depth
  have parts := reads.confined (DeclLevel.confining types stmts).part
  rw [Program.node, parse_declarations, value]
  exact .node rfl (Nat.le_refl _) parts

theorem limitStarts_placed (source : Text) (reports : List Diagnostic) :
    limitStarts (reports.map (Bag.ofSource source).place) = limitStarts reports := by
  have placed : ((fun diagnostic : Diagnostic => diagnostic.fault == .recursionLimitExceeded) ∘
      (Bag.ofSource source).place) = fun report => report.fault == .recursionLimitExceeded :=
    funext fun report => congrArg (· == _) (Bag.place_fault _ report)
  rw [limitStarts, limitsOf, List.filter_map, List.map_map, placed]
  rfl

/-- The reports of the limit stand in the text in the order in which they are made. -/
theorem limitStarts_diagnostics (source name : Text) (limits : Limits) :
    limitStarts (parse source name limits).diagnostics =
      limitStarts (Parser.declarations limits.depth (sourceCursor source limits.tokens)).reports := by
  have sorts := parse_diagnostics_sorts source name limits
  have lexed : limitsOf (Lexed.ofText source).reports = [] := by
    refine List.filter_eq_nil_iff.2 fun report member => ?_
    rw [beq_iff_eq]
    exact fun limit => Lexed.not_fromGrammar member (.inr limit)
  have cut : limitsOf (limitTokens limits.tokens
      (Cursor.ofTokens (Lexed.ofText source).tokens)).2 = [] := by
    refine List.filter_eq_nil_iff.2 fun report member => ?_
    rw [tooManyTokens_of_mem member]
    decide
  have perm : (limitStarts (parse source name limits).diagnostics).Perm
      (limitStarts
        (Parser.declarations limits.depth (sourceCursor source limits.tokens)).reports) := by
    have all := (sorts.same.filter (·.fault == .recursionLimitExceeded)).map (·.span.start)
    refine all.trans (List.Perm.of_eq ((limitStarts_placed source _).trans ?_))
    rw [gatheredReports, limitStarts_append, limitStarts_append, limitStarts, limitStarts, lexed, cut]
    rfl
  have sorted : (limitStarts (parse source name limits).diagnostics).Pairwise (· ≤ ·) := by
    refine List.pairwise_map.2 ((sorts.ordered.filter _).imp ?_)
    rintro first second (before | ⟨same, _⟩)
    · exact Nat.le_of_lt before
    · exact Nat.le_of_eq same
  obtain ⟨_, orderly⟩ := Parser.declarations_ranges limits.depth _
    (sourceCursor_intact source limits.tokens) (sourceCursor_inOrder source limits.tokens)
  exact perm.eq_of_pairwise' sorted (List.pairwise_map.2 (orderly.sorted.filter _))

/-- Where the starts of some nodes are among those of some diagnostics, in order, each node has a
diagnostic of its own. -/
theorem exists_explains {nodes : List Node} {diagnostics : List Diagnostic}
    (sublist : (nodes.map (·.span.start)).Sublist (diagnostics.map (·.span.start))) :
    ∃ explains : Fin nodes.length ↪o Fin diagnostics.length,
      ∀ index, (diagnostics.get (explains index)).span.start = (nodes.get index).span.start := by
  obtain ⟨picked, among, same⟩ := List.sublist_map_iff.1 sublist
  obtain ⟨explains, found⟩ := List.sublist_iff_exists_fin_orderEmbedding_get_eq.1 among
  have length : nodes.length = picked.length := by simpa using congrArg List.length same
  refine ⟨(Fin.castOrderIso length).toOrderEmbedding.trans explains, fun index => ?_⟩
  have start : (nodes.map (·.span.start))[index.val]? =
      (picked.map (·.span.start))[index.val]? := by rw [same]
  have within : index.val < picked.length := length ▸ index.isLt
  show (diagnostics.get (explains ⟨index.val, within⟩)).span.start = _
  rw [← found]
  simpa [within] using start.symm

/-- Nesting never goes beyond the limit, and every placeholder is explained by a diagnostic. -/
theorem parse_nested (source name : Text) (limits : Limits) :
    (∀ watch : Watch, watch.Idle limits.depth →
      Parser.countedDeclarations watch limits.depth = Parser.declarations limits.depth) ∧
    ((parse source name limits).program.node.enteredWalk.map EnteredVisit.visit =
        (parse source name limits).program.walk ∧
      ∀ visit ∈ (parse source name limits).program.node.enteredWalk,
        visit.entered ≤ limits.depth) ∧
    (∃ explains : Fin (skippedOf (parse source name limits).program.walk).length ↪o
        Fin (limitsOf (parse source name limits).diagnostics).length,
      ∀ index, ((limitsOf (parse source name limits).diagnostics).get (explains index)).span.start =
        ((skippedOf (parse source name limits).program.walk).get index).span.start) ∧
    ((∀ diagnostic ∈ (parse source name limits).diagnostics,
        diagnostic.fault ≠ .recursionLimitExceeded) →
      ∀ visit ∈ (parse source name limits).program.walk, visit.2.label.isSkipped = false) := by
  have confined := declarations_confined source name limits
  have explained := confined.explained 0
  rw [← limitStarts_diagnostics source name] at explained
  refine ⟨fun watch => Parser.countedDeclarations_eq, ⟨Node.enteredFrom_walk 0 0 false _, ?_⟩, ?_, ?_⟩
  · intro visit member
    have below := confined.entered_le 0 0 visit member
    omega
  · exact exists_explains explained
  · intro silent visit member
    have none : limitsOf (parse source name limits).diagnostics = [] :=
      List.filter_eq_nil_iff.2 fun diagnostic told => by simpa using silent diagnostic told
    rw [limitStarts, none, List.map_nil, List.sublist_nil] at explained
    have unskipped := List.filter_eq_nil_iff.1 (List.map_eq_nil_iff.1 explained)
    simpa using unskipped visit.2 (List.mem_map_of_mem member)

/-- With two levels the brackets of `x := (1)` can be entered, but nothing can be read in them. -/
def groupedValue : Text := "fn f() \x7b x := (1) \x7d".toList

theorem parse_nested_grouped :
    (∃ watch : Watch, watch.Idle 2 ∧ watch 3 Unit (pure ()) = Parser.stumble .endless ∧
      Parser.countedDeclarations watch 2 = Parser.declarations 2) ∧
    (∀ visit ∈ (parse groupedValue unnamed ⟨2, none⟩).program.node.enteredWalk,
      visit.entered ≤ 2) ∧
    ((skippedOf (parse groupedValue unnamed ⟨2, none⟩).program.walk).length = 1 ∧
      ∃ limit ∈ limitsOf (parse groupedValue unnamed ⟨2, none⟩).diagnostics,
        ∃ leaf ∈ skippedOf (parse groupedValue unnamed ⟨2, none⟩).program.walk,
          limit.span.start = leaf.span.start) ∧
    (∀ diagnostic ∈ (parse groupedValue unnamed ⟨3, none⟩).diagnostics,
        diagnostic.fault ≠ .recursionLimitExceeded) ∧
      ∀ visit ∈ (parse groupedValue unnamed ⟨3, none⟩).program.walk,
        visit.2.label.isSkipped = false := by
  have clean : ∀ diagnostic ∈ (parse groupedValue unnamed ⟨3, none⟩).diagnostics,
      diagnostic.fault ≠ .recursionLimitExceeded := by decide +kernel
  have one : (skippedOf (parse groupedValue unnamed ⟨2, none⟩).program.walk).length = 1 := by
    decide +kernel
  obtain ⟨counts, ⟨_, entered⟩, ⟨explains, starts⟩, _⟩ := parse_nested groupedValue unnamed ⟨2, none⟩
  let watch : Watch := fun depth _ parser => if depth ≤ 2 then parser else Parser.stumble .endless
  have idle : watch.Idle 2 := fun depth within α parser => if_pos within
  refine ⟨⟨watch, idle, rfl, counts watch idle⟩, entered, ⟨one, ?_⟩, clean,
    (parse_nested groupedValue unnamed ⟨3, none⟩).2.2.2 clean⟩
  have first : Fin (skippedOf (parse groupedValue unnamed ⟨2, none⟩).program.walk).length :=
    ⟨0, one ▸ Nat.one_pos⟩
  exact ⟨_, List.get_mem _ (explains first), _, List.get_mem _ first, starts first⟩

end MoSyntax
