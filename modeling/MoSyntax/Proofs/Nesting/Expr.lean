import MoSyntax.Proofs.Nesting.Cover
import MoSyntax.Proofs.Reading.Stmt

/-!
What is read from tokens covers them, also where tokens are lost between its parts: names, lists,
types and expressions.
-/
namespace MoSyntax

variable {α : Type}

def Covering (each : Reading α) (node : α → Node) : Prop :=
  ∀ used value reports, each used value reports → Covers used (node value)

/-- The constructs cover a stretch of the tokens that they are read from. -/
def Laying (each : Reading α) (node : α → Node) : Prop :=
  ∀ used value reports, each used value reports → Lays used [node value]

section
variable {each : Reading α} {node : α → Node}

theorem Covering.laying (covers : Covering each node) : Laying each node :=
  fun _ _ _ reads => .one (covers _ _ _ reads)

theorem Repeated.lays {rest : List Token → Prop} (lays : Laying each node) {used values reports}
    (repeated : Repeated each rest used values reports) : Lays used (values.map node) := by
  induction repeated with
  | done => exact .nil
  | more first _ ih => exact (lays _ _ _ first).append ih

theorem Repeated.ends (span : α → Span)
    (ends : ∀ used value reports, each used value reports → Ends used (span value))
    {used values reports} (repeated : Repeated each Nothing used values reports) {last : α}
    (found : values.getLast? = some last) : Ends used (span last) := by
  induction repeated with
  | done => simp at found
  | @more used value _ left values _ first others ih =>
    cases values with
    | nil =>
      obtain rfl : value = last := by simpa using found
      cases others with
      | done none =>
        rw [show left = [] from none, List.append_nil]
        exact ends _ _ _ first
    | cons next values =>
      rw [List.getLast?_cons_cons] at found
      exact (ih found).append used

theorem NextItem.laying (lays : Laying each node) : Laying (NextItem each) node := by
  rintro _ _ _ ⟨_, _, item, _⟩
  exact (((lays _ _ _ item).trail _).gap _).gap [_]

theorem ItemsReading.lays (lays : Laying each node) {used values reports}
    (reads : ItemsReading each used values reports) : Lays used (values.map node) := by
  cases reads with
  | none => exact .nil
  | some _ item _ others =>
    exact (((lays _ _ _ item).append ((others.lays (NextItem.laying lays)).gap _))).gap _

theorem OptionalReading.lays (lays : Laying each node) {used value reports}
    (reads : OptionalReading each used value reports) : Lays used (value.map node).toList := by
  cases reads with
  | none => exact .nil
  | some reads => exact lays _ _ _ reads

theorem BodyReading.lays {gap : List Token → Prop} (lays : Laying each node) {used values reports}
    (reads : BodyReading gap each used values reports) : Lays used (values.map node) := by
  obtain ⟨rounds⟩ := reads
  induction rounds with
  | done => exact .nil
  | more first _ ih =>
    cases first with
    | read _ reads => exact ((lays _ _ _ reads).gap _).append ih
    | lost => exact ih.gap _

end

theorem SkippedReading.covering {limit : Nat} {placeholder : Span → α} {node : α → Node}
    {kind : Placeholder} (leaf : ∀ span, node (placeholder span) = .node (.skipped kind) span []) :
    Covering (SkippedReading limit placeholder) node := by
  rintro _ _ _ ⟨⟩
  rw [leaf]
  exact .leaf rfl (.of_covered (by simp))

theorem Token.Names.covers {token : Token} {name : Ident} (names : token.Names name) :
    Covers [token] name.node :=
  .token (congrArg some names.1.symm) names.2

theorem SegmentReading.laying : Laying SegmentReading Ident.node := by
  rintro _ _ _ ⟨_, names⟩
  exact (Lays.one names.covers).gap [_]

theorem NameReading.covers {used name} (reads : NameReading used name) : Covers used name.node := by
  cases reads with
  | ident names => exact names.covers
  | @path token first used rest names segments some =>
    refine .node rfl ?_ ((Lays.one names.covers).append (segments.lays SegmentReading.laying))
    obtain ⟨last, found⟩ : ∃ last, rest.getLast? = .some last :=
      ⟨_, List.getLast?_eq_some_getLast some⟩
    have same : (⟨first :: rest⟩ : ModulePath).span = first.span.through last.span := by
      simp [ModulePath.span, List.getLast?_cons, found]
    have ends : Ends used last.span := segments.ends Ident.span (by
      rintro _ _ _ ⟨_, names⟩
      exact (Spans.single names.2).ends.cons _) found
    rw [same]
    exact .through ((Spans.single names.2).starts.append used) (ends.cons token)

theorem Name.node_span (name : Name) : name.node.span = name.span := by
  cases name <;> rfl

theorem NameReading.spans {used name} (reads : NameReading used name) : Spans used name.span :=
  name.node_span ▸ reads.covers.spans

theorem TypeExpr.node_span (type : TypeExpr) : type.node.span = type.span := by
  cases type <;> rfl

theorem LengthReading.lays {used length} (reads : LengthReading used length) :
    Lays used (length.map lengthNode).toList := by
  cases reads with
  | none => exact .nil
  | some number => exact .one (.token (congrArg Option.some number.symm) rfl)

theorem TypeLevel.covering {inner : Reading TypeExpr} (parts : Covering inner TypeExpr.node) :
    Covering (TypeLevel inner) TypeExpr.node := by
  intro used type reports reads
  cases reads with
  | named reads => exact .node rfl reads.spans (.one reads.covers)
  | pointer mark reads =>
    have target := parts _ _ _ reads
    refine .node rfl (.through (mark.spans.starts.append _) ?_) ((Lays.one target).gap _)
    exact (TypeExpr.node_span _ ▸ target.spans.ends).append _
  | array first count second reads =>
    have element := parts _ _ _ reads
    refine .node rfl (.through (first.spans.starts.append _) ?_)
      ((count.lays.append ((Lays.one element).gap _)).gap _)
    exact (((TypeExpr.node_span _ ▸ element.spans.ends).append _).append _).append _

theorem TypeReading.covering (limit budget : Nat) :
    Covering (TypeReading limit budget) TypeExpr.node := by
  induction budget with
  | zero => exact SkippedReading.covering fun _ => rfl
  | succ budget ih => exact TypeLevel.covering ih

theorem exprNodes_eq (exprs : List Expr) : exprNodes exprs = exprs.map Expr.node := by
  induction exprs with
  | nil => rfl
  | cons expr exprs ih => rw [exprNodes, ih, List.map_cons]

theorem suffixNodes_eq (suffixes : List Suffix) :
    suffixNodes suffixes = suffixes.map Suffix.node := by
  induction suffixes with
  | nil => rfl
  | cons suffix suffixes ih => rw [suffixNodes, ih, List.map_cons]

theorem Expr.node_span (expr : Expr) : expr.node.span = expr.span := by
  cases expr <;> simp [Expr.node, Expr.span, Node.span]

theorem Suffix.node_span (suffix : Suffix) : suffix.node.span = suffix.span := by
  cases suffix <;> simp [Suffix.node, Suffix.span, Node.span]

section
variable {type : Reading TypeExpr} {expr : Reading Expr}

theorem SuffixReading.covering (exprs : Covering expr Expr.node) :
    Covering (SuffixReading expr) Suffix.node := by
  intro used suffix reports reads
  cases reads with
  | field mark names =>
    have member := Spans.single names.2
    rw [Suffix.node]
    exact .node rfl (.through (mark.spans.starts.append _) (member.ends.append _))
      ((Lays.one names.covers).gap _)
  | call mark names first reads second =>
    rw [Suffix.node, exprNodes_eq]
    refine .node rfl (.through (mark.spans.starts.append _) ?_) ?_
    · exact (((second.spans.ends.append _).append _).cons _).append _
    · exact ((Lays.one names.covers).append
        (((reads.lays exprs.laying).trail _).gap _)).gap _

theorem ExprLevel.covering (types : Covering type TypeExpr.node) (exprs : Covering expr Expr.node)
    (level : Nat) : Covering (ExprLevel type expr level) Expr.node := by
  intro used found reports reads
  induction reads with
  | number kind | string kind | bool kind =>
    rw [Expr.node]
    exact .token (congrArg some kind.symm) rfl
  | named reads =>
    rw [Expr.node]
    exact .node rfl reads.spans (.one reads.covers)
  | index target first breaks reads more second =>
    rw [Expr.node]
    refine .node rfl (.through (target.spans.starts.append _) ?_) ?_
    · exact ((((second.spans.ends.append _).append _).append _).append _).append _
    · exact (Lays.one target.covers).append
        ((((Lays.one (exprs _ _ _ reads)).trail _).gap _).gap _)
  | call callee first reads second =>
    rw [Expr.node, exprNodes_eq]
    refine .node rfl (.through (callee.spans.starts.append _) ?_) ?_
    · exact ((second.spans.ends.append _).append _).append _
    · exact (Lays.one callee.covers).append (((reads.lays exprs.laying).trail _).gap _)
  | array first reads second annotated =>
    rw [Expr.node, exprNodes_eq]
    refine .node rfl (.through (first.spans.starts.append _) ?_) ?_
    · refine Ends.append (Ends.append ?_ _) _
      cases annotated with
      | none => simpa using second.spans.ends
      | some element =>
        exact (TypeExpr.node_span _ ▸ (types _ _ _ element).spans.ends).append _
    · exact ((reads.lays exprs.laying).append ((annotated.lays types.laying).gap _)).gap _
  | grouped first breaks reads more second =>
    rw [Expr.node]
    refine .node rfl (.through (first.spans.starts.append _) ?_) ?_
    · exact (((second.spans.ends.append _).append _).append _).append _
    · exact (((Lays.one (exprs _ _ _ reads)).trail _).gap _).gap _
  | chain _ _ others ends ih =>
    rw [Expr.node, suffixNodes_eq]
    refine .node rfl (.through (Expr.node_span _ ▸ ih.spans.starts.append _) ?_) ?_
    · exact (others.ends Suffix.span (fun _ _ _ reads =>
        Suffix.node_span _ ▸ (SuffixReading.covering exprs _ _ _ reads).spans.ends) ends).append _
    · exact (Lays.one ih).append (others.lays (SuffixReading.covering exprs).laying)
  | unary _ _ _ _ ih =>
    rw [Expr.node]
    exact .node rfl (.through ((Spans.single rfl).starts.append _)
      (Expr.node_span _ ▸ ih.spans.ends.cons _)) ((Lays.one ih).gap [_])
  | binary _ _ _ _ _ _ _ left right =>
    rw [Expr.node]
    refine .node rfl (.through (Expr.node_span _ ▸ left.spans.starts.append _) ?_) ?_
    · exact ((Expr.node_span _ ▸ right.spans.ends.append _).cons _).append _
    · exact (Lays.one left).append (((Lays.one right).gap _).gap [_])

end

end MoSyntax
