import MoSyntax.Proofs.Reading.Expr
import MoSyntax.Proofs.Yield.Kinds

/-!
Where nothing is reported, the tokens of what was read are the tokens that were passed, without the
line breaks: names, lists, types and expressions.
-/
namespace MoSyntax

variable {α : Type}

def kindsOf (tokens : List Token) : List TokenKind :=
  (tokens.map Token.kind).filter (· != .lineBreak)

theorem kindsOf_append (first second : List Token) :
    kindsOf (first ++ second) = kindsOf first ++ kindsOf second := by
  simp [kindsOf]

theorem kindsOf_cons {token : Token} (visible : token.kind ≠ .lineBreak) (tokens : List Token) :
    kindsOf (token :: tokens) = token.kind :: kindsOf tokens := by
  simp [kindsOf, visible]

theorem Breaks.kindsOf {tokens : List Token} (breaks : Breaks tokens) : kindsOf tokens = [] := by
  simpa [MoSyntax.kindsOf, Breaks] using breaks

theorem Mark.kindsOf {kind : TokenKind} {used : List Token} {span : Span}
    (mark : Mark kind used span) (visible : kind ≠ .lineBreak) : kindsOf used = [kind] := by
  obtain ⟨token, rfl, rfl, _⟩ := mark
  exact kindsOf_cons visible []

theorem Token.Names.kindsOf {token : Token} {name : Ident} (names : token.Names name)
    (tokens : List Token) : kindsOf (token :: tokens) = name.kinds ++ kindsOf tokens := by
  rw [kindsOf_cons (by simp [names.1]), names.1]
  rfl

/-- Without a report, the tokens passed are those of the construct. -/
def Yielding (each : Reading α) (kinds : α → List TokenKind) : Prop :=
  ∀ used value reports, each used value reports → reports = [] → kindsOf used = kinds value

section
variable {each : Reading α} {kinds : α → List TokenKind}

theorem NextItem.yielding (yields : Yielding each kinds) :
    Yielding (NextItem each) fun value => .punctuation .comma :: kinds value := by
  rintro _ _ _ ⟨mark, breaks, item, more⟩ silent
  rw [kindsOf_cons (by simp [mark]), kindsOf_append, kindsOf_append, breaks.kindsOf, more.kindsOf,
    yields _ _ _ item silent, mark, List.nil_append, List.append_nil]

theorem Repeated.yields {rest : List Token → Prop} (yields : Yielding each kinds)
    (ends : ∀ used, rest used → kindsOf used = []) {used values reports}
    (repeated : Repeated each rest used values reports) (silent : reports = []) :
    kindsOf used = values.flatMap kinds := by
  induction repeated with
  | done none => simpa using ends _ none
  | more first _ ih =>
    obtain ⟨quiet, later⟩ := List.append_eq_nil_iff.1 silent
    rw [kindsOf_append, yields _ _ _ first quiet, ih later, List.flatMap_cons]

theorem kindsOf_nothing (used : List Token) (nothing : Nothing used) : kindsOf used = [] := by
  rw [show used = [] from nothing]
  rfl

theorem ItemsReading.yields (yields : Yielding each kinds) {used values reports}
    (reads : ItemsReading each used values reports) (silent : reports = []) :
    kindsOf used = listed (values.map kinds) := by
  cases reads with
  | none breaks => exact breaks.kindsOf
  | some breaks item more others =>
    obtain ⟨quiet, later⟩ := List.append_eq_nil_iff.1 silent
    rw [kindsOf_append, kindsOf_append, kindsOf_append, breaks.kindsOf, more.kindsOf,
      yields _ _ _ item quiet, others.yields (NextItem.yielding yields) kindsOf_nothing later, listed,
      List.map_cons, intercalate_cons, List.flatMap_map]
    rfl

theorem OptionalReading.yields (yields : Yielding each kinds) {used value reports}
    (reads : OptionalReading each used value reports) (silent : reports = []) :
    kindsOf used = (value.map kinds).getD [] := by
  cases reads with
  | none => rfl
  | some reads => exact yields _ _ _ reads silent

end

theorem SkippedReading.yielding {limit : Nat} {placeholder : Span → α}
    (kinds : α → List TokenKind) : Yielding (SkippedReading limit placeholder) kinds := by
  rintro _ _ _ ⟨⟩ silent
  simp at silent

theorem NameReading.yields {used name} (reads : NameReading used name) :
    kindsOf used = name.kinds := by
  cases reads with
  | ident names =>
    rw [names.kindsOf]
    exact List.append_nil _
  | @path _ first _ rest names segments =>
    have yields : Yielding SegmentReading fun name => .punctuation .colon :: name.kinds := by
      rintro _ _ _ ⟨mark, names⟩ _
      rw [kindsOf_cons (by simp [mark]), names.kindsOf, mark]
      simp [kindsOf]
    rw [names.kindsOf, segments.yields yields kindsOf_nothing rfl, Name.kinds, ModulePath.kinds,
      List.map_cons, intercalate_cons, List.flatMap_map]
    rfl

theorem LengthReading.yields {used length} (reads : LengthReading used length) :
    kindsOf used = (length.map fun length => .number length.value).toList := by
  cases reads with
  | none => rfl
  | some number => simp [kindsOf, number]

theorem TypeLevel.yielding {inner : Reading TypeExpr} (parts : Yielding inner TypeExpr.kinds) :
    Yielding (TypeLevel inner) TypeExpr.kinds := by
  intro used type reports reads silent
  cases reads with
  | named reads => exact reads.yields
  | pointer mark reads =>
    rw [kindsOf_append, mark.kindsOf (by simp), parts _ _ _ reads silent]
    rfl
  | array first count second reads =>
    rw [kindsOf_append, kindsOf_append, kindsOf_append, first.kindsOf (by simp), count.yields,
      second.kindsOf (by simp), parts _ _ _ reads silent]
    rfl

theorem TypeReading.yielding (limit budget : Nat) :
    Yielding (TypeReading limit budget) TypeExpr.kinds := by
  induction budget with
  | zero => exact SkippedReading.yielding _
  | succ budget ih => exact TypeLevel.yielding ih

theorem BinaryOperator.sign_of_ofSign? {sign : Operator} {operator : BinaryOperator}
    (means : ofSign? sign = some operator) : operator.sign = sign := by
  cases sign <;> simp [ofSign?] at means <;> subst means <;> rfl

theorem UnaryOperator.sign_of_ofSign? {sign : Operator} {operator : UnaryOperator}
    (means : ofSign? sign = some operator) : operator.sign = sign := by
  cases sign <;> simp [ofSign?] at means <;> subst means <;> rfl

section
variable {type : Reading TypeExpr} {expr : Reading Expr}

theorem SuffixReading.yielding (exprs : Yielding expr Expr.kinds) :
    Yielding (SuffixReading expr) Suffix.kinds := by
  intro used suffix reports reads silent
  cases reads with
  | field mark names =>
    rw [kindsOf_append, mark.kindsOf (by simp), names.kindsOf, Suffix.kinds]
    simp [kindsOf]
  | call mark names first reads second =>
    rw [kindsOf_append, mark.kindsOf (by simp), names.kindsOf, kindsOf_append, kindsOf_append,
      first.kindsOf (by simp), reads.yields exprs silent, second.kindsOf (by simp), Suffix.kinds,
      exprKinds_eq]
    rfl

theorem ExprLevel.yielding (types : Yielding type TypeExpr.kinds)
    (exprs : Yielding expr Expr.kinds) (level : Nat) :
    Yielding (ExprLevel type expr level) Expr.kinds := by
  intro used found reports reads silent
  induction reads with
  | number kind | string kind | bool kind =>
    rw [kindsOf_cons (by simp [kind]), kind, Expr.kinds]
    rfl
  | named reads =>
    rw [Expr.kinds]
    exact reads.yields
  | index target first breaks reads more second =>
    rw [kindsOf_append, kindsOf_append, kindsOf_append, kindsOf_append, kindsOf_append,
      target.yields, first.kindsOf (by simp), breaks.kindsOf, exprs _ _ _ reads silent,
      more.kindsOf, second.kindsOf (by simp), Expr.kinds]
    rfl
  | call callee first reads second =>
    rw [kindsOf_append, kindsOf_append, kindsOf_append, callee.yields, first.kindsOf (by simp),
      reads.yields exprs silent, second.kindsOf (by simp), Expr.kinds, exprKinds_eq]
    rfl
  | array first reads second annotated =>
    obtain ⟨quiet, later⟩ := List.append_eq_nil_iff.1 silent
    rw [kindsOf_append, kindsOf_append, kindsOf_append, first.kindsOf (by simp),
      reads.yields exprs quiet, second.kindsOf (by simp), annotated.yields types later, Expr.kinds,
      exprKinds_eq]
    rfl
  | grouped first breaks reads more second =>
    rw [kindsOf_append, kindsOf_append, kindsOf_append, kindsOf_append, first.kindsOf (by simp),
      breaks.kindsOf, exprs _ _ _ reads silent, more.kindsOf, second.kindsOf (by simp), Expr.kinds]
    rfl
  | chain _ _ others _ ih =>
    obtain ⟨quiet, later⟩ := List.append_eq_nil_iff.1 silent
    rw [kindsOf_append, ih quiet, others.yields (SuffixReading.yielding exprs) kindsOf_nothing later,
      Expr.kinds, suffixKinds_eq, List.flatMap_def]
  | unary _ kind means _ ih =>
    rw [kindsOf_cons (by simp [kind]), ih silent, kind, Expr.kinds,
      UnaryOperator.sign_of_ofSign? means]
  | binary _ _ kind means _ between _ left right =>
    obtain ⟨quiet, later⟩ := List.append_eq_nil_iff.1 silent
    rw [kindsOf_append, kindsOf_cons (by simp [kind]), kindsOf_append, left quiet, right later,
      between.kindsOf, kind, Expr.kinds, BinaryOperator.sign_of_ofSign? means]
    rfl

end

theorem ExprReading.yielding (limit budget : Nat) :
    Yielding (ExprReading limit budget) Expr.kinds := by
  induction budget with
  | zero => exact SkippedReading.yielding _
  | succ budget ih => exact ExprLevel.yielding (TypeReading.yielding limit budget) ih 0

end MoSyntax
