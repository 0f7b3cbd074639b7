import MoSyntax.Parser.Report
import MoSyntax.Proofs.Likeness.Logic

/-!
Trees and reports that are alike: the same, but for the places of what they were read from.
-/
namespace MoSyntax.Comparison

variable (c : Comparison)

def Idents (first second : Ident) : Prop := first.relocate c.left = second.relocate c.right

def Marked {α : Type} (first second : Located α) : Prop :=
  first.relocate c.left = second.relocate c.right

/-- The same tree. A name may have no part with a span, so the spans are compared on their own. -/
structure Alike {α : Type} (relocate : (Nat → Nat) → α → α) (span : α → Span)
    (first second : α) : Prop where
  tree : relocate c.left first = relocate c.right second
  span : c.Spans (span first) (span second)

abbrev Names := c.Alike Name.relocate Name.span

abbrev Types := c.Alike TypeExpr.relocate TypeExpr.span

abbrev Exprs := c.Alike Expr.relocate Expr.span

abbrev Suffixes := c.Alike Suffix.relocate Suffix.span

abbrev Stmts := c.Alike Stmt.relocate Stmt.span

abbrev Blocks := c.Alike Block.relocate Block.span

def Typed (first second : TypedName) : Prop := first.relocate c.left = second.relocate c.right

def Decls (first second : Decl) : Prop := first.relocate c.left = second.relocate c.right

variable {c}

theorem Spans.eq {first second : Span} (alike : c.Spans first second) :
    first.relocate c.left = second.relocate c.right := alike

theorem Idents.eq {first second : Ident} (alike : c.Idents first second) :
    first.relocate c.left = second.relocate c.right := alike

theorem Marked.eq {α : Type} {first second : Located α} (alike : c.Marked first second) :
    first.relocate c.left = second.relocate c.right := alike

theorem Spans.through {first second last final : Span} (start : c.Spans first second)
    (stop : c.Spans last final) : c.Spans (first.through last) (second.through final) := by
  rw [Spans, Span.relocate_through, Span.relocate_through, start, stop]

theorem Idents.of_spans {span span' : Span} (spans : c.Spans span span') (name : Text) :
    c.Idents ⟨span, name⟩ ⟨span', name⟩ := congrArg (Ident.mk · name) spans

theorem Idents.span {first second : Ident} (alike : c.Idents first second) :
    c.Spans first.span second.span := congrArg Ident.span alike

theorem Idents.name {first second : Ident} (alike : c.Idents first second) :
    first.name = second.name := by
  have same := congrArg Ident.name alike.eq
  exact same

theorem Marked.of_spans {α : Type} {span span' : Span} (spans : c.Spans span span') (value : α) :
    c.Marked ⟨span, value⟩ ⟨span', value⟩ := congrArg (Located.mk · value) spans

theorem Marked.span {α : Type} {first second : Located α} (alike : c.Marked first second) :
    c.Spans first.span second.span := congrArg Located.span alike

theorem map_eq {α β : Type} {values : α → α → Prop} {left right : α → β}
    (same : ∀ first second, values first second → left first = right second)
    {firsts seconds : List α} (alike : List.Forall₂ values firsts seconds) :
    firsts.map left = seconds.map right := by
  induction alike with
  | nil => rfl
  | cons head _ ih => rw [List.map_cons, List.map_cons, same _ _ head, ih]

theorem option_map_eq {α β : Type} {values : α → α → Prop} {left right : α → β}
    (same : ∀ first second, values first second → left first = right second)
    {first second : Option α} (alike : Option.Rel values first second) :
    first.map left = second.map right := by
  cases alike with
  | none => rfl
  | some holds => exact congrArg some (same _ _ holds)

theorem reduceOption {α β : Type} {values : α → β → Prop} {firsts : List (Option α)}
    {seconds : List (Option β)} (alike : List.Forall₂ (Option.Rel values) firsts seconds) :
    List.Forall₂ values firsts.reduceOption seconds.reduceOption := by
  induction alike with
  | nil => exact .nil
  | cons head _ ih =>
    cases head with
    | none => exact ih
    | some holds => exact .cons holds ih

theorem getLast? {α β : Type} {values : α → β → Prop} {firsts : List α} {seconds : List β}
    (alike : List.Forall₂ values firsts seconds) :
    Option.Rel values firsts.getLast? seconds.getLast? := by
  induction alike with
  | nil => exact .none
  | cons head others ih =>
    rw [List.getLast?_cons, List.getLast?_cons]
    generalize List.getLast? _ = last at ih ⊢
    generalize List.getLast? _ = final at ih ⊢
    cases ih with
    | none => exact .some head
    | some holds => exact .some holds

/-! The words for what is missing are the same for like tokens. -/

namespace Tokens

variable {first second : Token}

theorem description (alike : c.Tokens first second) : first.description = second.description :=
  congrArg TokenKind.description alike.kind

theorem unexpected (alike : c.Tokens first second) (expected : String) :
    c.Reports (Report.unexpected expected first) (Report.unexpected expected second) := by
  refine ⟨?_, show Fault.unexpectedToken.category ≠ _ from by decide⟩
  simp [Report.unexpected, Diagnostic.relocate, Diagnostic.standard, Diagnostic.withMessage,
    Label.relocate, alike.description, alike.span.eq]

theorem missing (alike : c.Tokens first second) (expected message : String) :
    c.Reports (Report.missing expected message first) (Report.missing expected message second) := by
  refine ⟨?_, show Fault.missingExpectedToken.category ≠ _ from by decide⟩
  simp [Report.missing, Diagnostic.relocate, Diagnostic.standard, Diagnostic.withMessage,
    Label.relocate, alike.description, alike.span.eq]

theorem unclosedBlock (alike : c.Tokens first second) {opening opening' : Span}
    (spans : c.Spans opening opening') :
    c.Reports (Report.unclosedBlock opening first) (Report.unclosedBlock opening' second) := by
  refine ⟨?_, show Fault.missingExpectedToken.category ≠ _ from by decide⟩
  simp [Report.unclosedBlock, Report.missing, Diagnostic.relocate, Diagnostic.standard,
    Diagnostic.withMessage, Diagnostic.withLabel, Label.relocate, alike.description,
    alike.span.eq, spans.eq]

theorem lengthNotDecimal (alike : c.Tokens first second) (plain : first.kind ≠ .lineBreak) :
    c.Reports (Report.lengthNotDecimal first) (Report.lengthNotDecimal second) := by
  refine ⟨?_, show Fault.missingExpectedToken.category ≠ _ from by decide⟩
  simp [Report.lengthNotDecimal, Diagnostic.relocate, Diagnostic.standard, Diagnostic.withMessage,
    Label.relocate, alike.lexeme plain, alike.span.eq]

end Tokens

theorem Spans.spacedCompound {span span' : Span} (spans : c.Spans span span') (sign : Operator) :
    c.Reports (Report.spacedCompound sign span) (Report.spacedCompound sign span') := by
  refine ⟨?_, show Fault.ambiguousConstruct.category ≠ _ from by decide⟩
  simp [Report.spacedCompound, Diagnostic.relocate, Diagnostic.standard, Diagnostic.withMessage,
    Diagnostic.withNote, Label.relocate, spans.eq]

theorem Spans.tooDeep {span span' : Span} (spans : c.Spans span span') (limit : Nat) :
    c.Reports (Report.tooDeep limit span) (Report.tooDeep limit span') := by
  refine ⟨?_, show Fault.recursionLimitExceeded.category ≠ _ from by decide⟩
  simp [Report.tooDeep, Diagnostic.relocate, Diagnostic.standard, Diagnostic.withMessage,
    Diagnostic.withNote, Label.relocate, spans.eq]

theorem Idents.singleSegment {first second : Ident} (alike : c.Idents first second) :
    c.Reports (Report.singleSegment first.span first.name)
      (Report.singleSegment second.span second.name) := by
  refine ⟨?_, show Fault.missingExpectedToken.category ≠ _ from by decide⟩
  simp [Report.singleSegment, Diagnostic.relocate, Diagnostic.standard, Diagnostic.withMessage,
    Diagnostic.withNote, Label.relocate, alike.name, alike.span.eq]

end MoSyntax.Comparison
