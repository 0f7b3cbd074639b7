import MoSyntax.Proofs.Reading.Source
import MoSyntax.Proofs.Yield.Alphabet
import MoSyntax.Proofs.Yield.Expr

/-!
A clean parse loses and invents nothing. The yield of its tree is what the source is written with,
without comments and line breaks, and without the commas between the fields of a struct, which
leave no trace in the tree.
-/
namespace MoSyntax

/-- Where in a file a token stands: the body of a struct reaches from the first brace behind its
keyword to the next brace that closes. -/
inductive Region where
  | outside
  | head
  | body
deriving DecidableEq, Repr

def Region.next : Region → TokenKind → Region
  | outside, .keyword .structWord => head
  | head, .punctuation .leftBrace => body
  | body, .punctuation .rightBrace => outside
  | region, _ => region

def withoutFieldCommas : Region → List TokenKind → List TokenKind
  | _, [] => []
  | region, kind :: kinds =>
    if region = .body ∧ kind = .punctuation .comma then withoutFieldCommas region kinds
    else kind :: withoutFieldCommas (region.next kind) kinds

/-- What a source is written with, as far as a tree can keep it. -/
def significantKinds (source : Text) : List TokenKind :=
  withoutFieldCommas .outside (((Lexed.ofText source).tokens.map Token.kind).filter fun kind =>
    kind != .comment && kind != .endOfFile && kind != .lineBreak)

theorem significantKinds_eq (source : Text) :
    significantKinds source = withoutFieldCommas .outside (kindsOf (grammarTokens source)) := by
  have inner : ∀ token ∈ Lexed.written source, token.kind ≠ .endOfFile :=
    fun _ => Lexed.kind_ne_endOfFile_of_mem_written
  have same : ((Lexed.ofText source).tokens.map Token.kind).filter (fun kind =>
      kind != .comment && kind != .endOfFile && kind != .lineBreak) =
        kindsOf (grammarTokens source) := by
    rw [Lexed.ofText_tokens, List.map_append, List.filter_append, List.map_singleton]
    refine (List.append_nil _).trans ?_
    rw [kindsOf, grammarTokens, List.filter_map, List.filter_map, List.filter_filter]
    congr 1
    refine List.filter_congr fun token member => ?_
    have other : (token.kind == .endOfFile) = false := by simpa using inner token member
    simp [Token.isComment, other, bne, Bool.and_comm]
  rw [significantKinds, same]

theorem withoutFieldCommas_outside {kinds : List TokenKind} (plain : ∀ kind ∈ kinds, kind.inStmt)
    (rest : List TokenKind) :
    withoutFieldCommas .outside (kinds ++ rest) = kinds ++ withoutFieldCommas .outside rest := by
  induction kinds with
  | nil => rfl
  | cons kind kinds ih =>
    obtain ⟨first, others⟩ := List.forall_mem_cons.1 plain
    have stays : Region.outside.next kind = .outside := by
      unfold Region.next
      split <;> simp_all [TokenKind.inStmt]
    rw [List.cons_append, withoutFieldCommas, if_neg (by simp), stays, ih others, List.cons_append]

theorem withoutFieldCommas_type {kinds : List TokenKind} (plain : ∀ kind ∈ kinds, kind.inType)
    (rest : List TokenKind) :
    withoutFieldCommas .body (kinds ++ rest) = kinds ++ withoutFieldCommas .body rest := by
  induction kinds with
  | nil => rfl
  | cons kind kinds ih =>
    obtain ⟨first, others⟩ := List.forall_mem_cons.1 plain
    have stays : Region.body.next kind = .body := by
      unfold Region.next
      split <;> simp_all [TokenKind.inType]
    have shown : kind ≠ .punctuation .comma := by
      rintro rfl
      simp [TokenKind.inType] at first
    rw [List.cons_append, withoutFieldCommas, if_neg (by simp [shown]), stays, ih others,
      List.cons_append]

variable {α : Type}

/-- In a body that reports nothing, nothing is lost between the constructs. The gaps may be erased
together with what else the constructs do not keep. -/
theorem BodyReading.yields {gap : List Token → Prop} {each : Reading α}
    {kinds : α → List TokenKind} (erase : List TokenKind → List TokenKind)
    (skips : ∀ used, gap used → ∀ rest, erase (kindsOf used ++ rest) = erase rest)
    (keeps : ∀ used value reports, each used value reports → reports = [] → ∀ rest,
      erase (kindsOf used ++ rest) = kinds value ++ erase rest)
    {used values reports} (reads : BodyReading gap each used values reports) (silent : reports = [])
    (rest : List TokenKind) :
    erase (kindsOf used ++ rest) = values.flatMap kinds ++ erase rest := by
  obtain ⟨rounds⟩ := reads
  induction rounds with
  | done ends => exact skips _ ends rest
  | more first _ ih =>
    obtain ⟨quiet, later⟩ := List.append_eq_nil_iff.1 silent
    cases first with
    | lost _ told => exact absurd quiet told
    | read between reads =>
      rw [kindsOf_append, kindsOf_append, List.append_assoc, List.append_assoc, skips _ between,
        keeps _ _ _ reads quiet, ih later, ← List.append_assoc]
      rfl

section
variable {type : Reading TypeExpr} {expr : Reading Expr} {stmt : Reading Stmt}

theorem BlockReading.yielding (stmts : Yielding stmt (Stmt.kinds [])) :
    Yielding (BlockReading stmt) (Block.kinds []) := by
  intro used body reports reads silent
  cases reads with
  | closed first reads second =>
    have inner := reads.yields id
      (fun _ breaks _ => by rw [Breaks.kindsOf breaks]; rfl)
      (fun _ _ _ reads quiet _ => by rw [stmts _ _ _ reads quiet]; rfl) silent []
    simp only [List.append_nil, id] at inner
    rw [kindsOf_append, kindsOf_append, first.kindsOf (by simp), inner, second.kindsOf (by simp),
      Block.kinds, braced, intercalate_nil, stmtKinds_eq, List.flatMap_def]
    rfl
  | unclosed => simp at silent

theorem ElseReading.yields (stmts : Yielding stmt (Stmt.kinds [])) {used otherwise reports}
    (reads : ElseReading stmt used otherwise reports) (silent : reports = []) :
    kindsOf used =
      (otherwise.map fun block => .keyword .elseWord :: block.kinds []).getD [] := by
  cases reads with
  | none => rfl
  | some breaks mark more reads =>
    rw [kindsOf_append, kindsOf_append, kindsOf_append, breaks.kindsOf, mark.kindsOf (by simp),
      more.kindsOf, BlockReading.yielding stmts _ _ _ reads silent]
    rfl

theorem BinaryOperator.sign_of_ofCompoundSign? {sign : Operator} {operator : BinaryOperator}
    (means : ofCompoundSign? sign = some operator) : operator.sign = sign :=
  sign_of_ofSign? (Option.filter_eq_some_iff.1 means).1

theorem StmtLevel.yielding (types : Yielding type TypeExpr.kinds) (exprs : Yielding expr Expr.kinds)
    (stmts : Yielding stmt (Stmt.kinds [])) :
    Yielding (StmtLevel type expr stmt) (Stmt.kinds []) := by
  intro used found reports reads silent
  have blocks := BlockReading.yielding stmts
  have targets := ExprLevel.yielding types exprs Precedence.unaryLevel
  cases reads with
  | forLoop mark reads between block =>
    obtain ⟨quiet, later⟩ := List.append_eq_nil_iff.1 silent
    rw [kindsOf_append, kindsOf_append, kindsOf_append, mark.kindsOf (by simp),
      exprs _ _ _ reads quiet, between.kindsOf, blocks _ _ _ block later, Stmt.kinds]
    rfl
  | @ifElse word opening used condition reports breaks more consequence later left otherwise last
      mark reads between block other =>
    simp only [List.append_eq_nil_iff] at silent
    obtain ⟨quiet, later, last⟩ := silent
    rw [kindsOf_append, kindsOf_append, kindsOf_append, kindsOf_append, mark.kindsOf (by simp),
      exprs _ _ _ reads quiet, between.kindsOf, blocks _ _ _ block later, other.yields stmts last]
    cases otherwise with
    | none =>
      rw [Stmt.kinds]
      simp
    | some otherwise =>
      rw [Stmt.kinds]
      simp
  | ret mark =>
    rw [mark.kindsOf (by simp), Stmt.kinds]
    rfl
  | retValue mark reads =>
    rw [kindsOf_append, mark.kindsOf (by simp), exprs _ _ _ reads silent, Stmt.kinds]
    rfl
  | defer mark reads =>
    rw [kindsOf_append, mark.kindsOf (by simp), stmts _ _ _ reads silent, Stmt.kinds]
    rfl
  | block reads =>
    rw [Stmt.kinds]
    exact blocks _ _ _ reads silent
  | infer names mark reads =>
    rw [names.kindsOf, kindsOf_append, mark.kindsOf (by simp), exprs _ _ _ reads silent, Stmt.kinds]
    rfl
  | declare names typed mark reads =>
    obtain ⟨quiet, later⟩ := List.append_eq_nil_iff.1 silent
    rw [names.kindsOf, kindsOf_append, kindsOf_append, types _ _ _ typed quiet,
      mark.kindsOf (by simp), exprs _ _ _ reads later, Stmt.kinds]
    rfl
  | assign first mark second =>
    obtain ⟨quiet, later⟩ := List.append_eq_nil_iff.1 silent
    rw [kindsOf_append, kindsOf_append, targets _ _ _ first quiet, mark.kindsOf (by simp),
      exprs _ _ _ second later, Stmt.kinds]
    rfl
  | compoundAssign first kind means assign _ second =>
    obtain ⟨quiet, later⟩ := List.append_eq_nil_iff.1 silent
    rw [kindsOf_append, kindsOf_cons (by simp [kind]), kindsOf_cons (by simp [assign]),
      targets _ _ _ first quiet, kind, assign, exprs _ _ _ second later, Stmt.kinds,
      BinaryOperator.sign_of_ofCompoundSign? means]
  | expression reads =>
    rw [Stmt.kinds]
    exact exprs _ _ _ reads silent

end

theorem StmtReading.yielding (limit budget : Nat) :
    Yielding (StmtReading limit budget) (Stmt.kinds []) := by
  induction budget with
  | zero => exact SkippedReading.yielding _
  | succ budget ih =>
    exact StmtLevel.yielding (TypeReading.yielding limit budget) (ExprReading.yielding limit budget)
      ih

section
variable {type : Reading TypeExpr} {stmt : Reading Stmt}

theorem TypedReading.yielding (types : Yielding type TypeExpr.kinds) :
    Yielding (TypedReading type) TypedName.kinds := by
  rintro _ _ _ ⟨names, reads⟩ silent
  rw [names.kindsOf, types _ _ _ reads silent]
  rfl

theorem FieldReading.yielding (types : Yielding type TypeExpr.kinds) :
    Yielding (FieldReading type) TypedName.kinds := by
  intro used field reports reads silent
  cases reads with
  | field reads => exact TypedReading.yielding types _ _ _ reads silent
  | trailing => simp at silent

theorem TypedName.inType_of_mem (typed : TypedName) : ∀ kind ∈ typed.kinds, kind.inType := by
  rw [kinds]
  simp only [List.forall_mem_append]
  exact ⟨by simp [Ident.kinds, TokenKind.inType], fun _ => TypeExpr.inType_of_mem⟩

theorem Separators.erased {used : List Token} (separators : Separators used)
    (rest : List TokenKind) :
    withoutFieldCommas .body (kindsOf used ++ rest) = withoutFieldCommas .body rest := by
  induction used with
  | nil => rfl
  | cons token used ih =>
    obtain ⟨first, others⟩ := List.forall_mem_cons.1 separators
    by_cases visible : token.kind = .lineBreak
    · rw [← ih others]
      simp [kindsOf, visible]
    · have comma : token.kind = .punctuation .comma := by
        simpa [Parser.isFieldSeparator, visible] using first
      rw [kindsOf_cons visible, comma, List.cons_append, withoutFieldCommas, if_pos ⟨rfl, rfl⟩,
        ih others]

theorem LocalReading.yields {used alternative} (reads : LocalReading used alternative) :
    kindsOf used = (alternative.map fun name => .string name.value).toList := by
  cases reads with
  | none => rfl
  | some kind => simp [kindsOf, kind]

theorem DeclLevel.yields (types : Yielding type TypeExpr.kinds)
    (stmts : Yielding stmt (Stmt.kinds [])) {used found reports}
    (reads : DeclLevel type stmt used found reports) (silent : reports = []) (rest : List TokenKind) :
    withoutFieldCommas .outside (kindsOf used ++ rest) =
      found.kinds [] ++ withoutFieldCommas .outside rest := by
  cases reads with
  | @importing _ _ _ path _ alternative mark reads renamed =>
    rw [kindsOf_append, kindsOf_append, mark.kindsOf (by simp), reads.yields, renamed.yields]
    have names := fun kind member =>
      TokenKind.inStmt_of_inExpr ((Name.path path).inExpr_of_mem kind member)
    have plain : ∀ kind ∈ (Decl.importing default path alternative).kinds [], kind.inStmt := by
      simp only [Decl.kinds, List.forall_mem_append, List.forall_mem_cons]
      refine ⟨rfl, names, ?_⟩
      cases alternative <;> simp [TokenKind.inStmt]
    exact withoutFieldCommas_outside plain rest
  | record mark names between first reads second =>
    have inner := reads.yields (withoutFieldCommas .body)
      (fun _ separators => Separators.erased separators)
      (fun _ field _ reads quiet rest => by
        rw [FieldReading.yielding types _ _ _ reads quiet]
        exact withoutFieldCommas_type field.inType_of_mem rest) silent
    rw [kindsOf_append, names.kindsOf, kindsOf_append, kindsOf_append, kindsOf_append,
      mark.kindsOf (by simp), between.kindsOf, first.kindsOf (by simp), second.kindsOf (by simp)]
    simp [Decl.kinds, Ident.kinds, braced, intercalate_nil, withoutFieldCommas, Region.next, inner,
      List.flatMap_def]
  | @function _ _ _ name _ _ _ parameters _ _ _ _ result _ _ _ body _ mark names first reads second
      returns between block =>
    simp only [List.append_eq_nil_iff] at silent
    obtain ⟨quiet, later, last⟩ := silent
    rw [kindsOf_append, names.kindsOf, kindsOf_append, kindsOf_append, kindsOf_append,
      kindsOf_append, kindsOf_append, mark.kindsOf (by simp), first.kindsOf (by simp),
      reads.yields (TypedReading.yielding types) quiet, second.kindsOf (by simp),
      returns.yields types later, between.kindsOf, BlockReading.yielding stmts _ _ _ block last]
    have items : ∀ kind ∈ listed (parameters.map TypedName.kinds), kind.inExpr := by
      refine inExpr_of_mem_listed ?_
      simp only [List.forall_mem_map]
      exact fun typed _ kind member => TokenKind.inExpr_of_inType (typed.inType_of_mem kind member)
    have plain : ∀ kind ∈ (Decl.function default name parameters result body).kinds [],
        kind.inStmt := by
      simp only [Decl.kinds, List.forall_mem_append, List.forall_mem_cons]
      exact ⟨rfl, by simp [Ident.kinds, TokenKind.inStmt], rfl,
        fun kind member => TokenKind.inStmt_of_inExpr (items kind member), rfl,
        inStmt_of_mem_option result TypeExpr.inStmt_of_mem, body.inStmt_of_mem⟩
    have kept := withoutFieldCommas_outside plain rest
    simpa [Decl.kinds] using kept

end

/-- A clean parse keeps every token of its source, and it has no other ones. -/
theorem parse_yield (source name : Text) (limits : Limits)
    (clean : (parse source name limits).diagnostics = []) :
    (parse source name limits).program.yield = significantKinds source := by
  obtain ⟨reports, reads, quiet⟩ := parse_reads source name limits
  obtain ⟨silent, whole⟩ := quiet clean
  have yields := reads.yields (withoutFieldCommas .outside)
    (fun _ breaks _ => by rw [Breaks.kindsOf breaks]; rfl)
    (fun _ _ _ reads quiet rest => reads.yields (TypeReading.yielding _ _)
      (StmtReading.yielding _ _) quiet rest) silent []
  rw [whole, List.append_nil, withoutFieldCommas, List.append_nil] at yields
  rw [significantKinds_eq, yields, Program.yield, Program.kinds, intercalate_nil, List.flatMap_def]

/-- The comma between two fields is not in the tree. -/
theorem parse_yield_struct :
    (parse "struct P \x7b x T, y T \x7d".toList).diagnostics = [] ∧
      (parse "struct P \x7b x T, y T \x7d".toList).program.yield =
        significantKinds "struct P \x7b x T, y T \x7d".toList :=
  ⟨rfl, parse_yield _ _ _ rfl⟩

end MoSyntax
