import MoSyntax.Proofs.Session.Routine

/-!
The diagnostics of a parse. They are gathered in one bag: first what the lexer reports, then what the
limit on tokens cuts off, then what the routines report. To put them in source order loses none
of them, and those of one span stay in the order in which they were reported.
-/
namespace MoSyntax

/-- In source order, which looks at the start of the primary span and then at its end. -/
def Diagnostic.Before (first second : Diagnostic) : Prop :=
  first.span.start < second.span.start ∨
    first.span.start = second.span.start ∧ first.span.stop ≤ second.span.stop

/-- The same diagnostics in source order, those of one span in the order they had. -/
structure StableSort (items sorted : List Diagnostic) : Prop where
  same : sorted.Perm items
  ordered : sorted.Pairwise Diagnostic.Before
  stable : ∀ span, sorted.filter (·.span == span) = items.filter (·.span == span)

namespace Bag

theorem precedes_iff {first second : Diagnostic} : precedes first second ↔ first.Before second := by
  simp [precedes, Diagnostic.Before]

theorem insertSorted_perm (diagnostic : Diagnostic) (sorted : List Diagnostic) :
    (insertSorted diagnostic sorted).Perm (diagnostic :: sorted) := by
  induction sorted with
  | nil => exact .refl _
  | cons first rest ih =>
    rw [insertSorted]
    split
    · exact .refl _
    · exact (ih.cons first).trans (.swap diagnostic first rest)

theorem insertSorted_ordered {diagnostic : Diagnostic} {sorted : List Diagnostic}
    (ordered : sorted.Pairwise Diagnostic.Before) :
    (insertSorted diagnostic sorted).Pairwise Diagnostic.Before := by
  induction sorted with
  | nil => exact List.pairwise_singleton _ _
  | cons first rest ih =>
    obtain ⟨least, others⟩ := List.pairwise_cons.1 ordered
    rw [insertSorted]
    split
    · rename_i precedes
      have here := precedes_iff.1 precedes
      refine List.pairwise_cons.2 ⟨fun other member => ?_, ordered⟩
      rcases List.mem_cons.1 member with rfl | member
      · exact here
      · have next := least other member
        unfold Diagnostic.Before at here next ⊢
        omega
    · rename_i precedes
      have behind : first.Before diagnostic := by
        have other := mt precedes_iff.2 precedes
        unfold Diagnostic.Before at other ⊢
        omega
      refine List.pairwise_cons.2 ⟨fun other member => ?_, ih others⟩
      rcases mem_insertSorted.1 member with rfl | member
      · exact behind
      · exact least other member

theorem insertSorted_filter (diagnostic : Diagnostic) (sorted : List Diagnostic) (span : Span) :
    (insertSorted diagnostic sorted).filter (·.span == span) =
      (diagnostic :: sorted).filter (·.span == span) := by
  induction sorted with
  | nil => rfl
  | cons first rest ih =>
    rw [insertSorted]
    split
    · rfl
    · rename_i precedes
      have apart : first.span ≠ diagnostic.span := by
        intro same
        refine precedes (precedes_iff.2 (.inr ?_))
        rw [same]
        exact ⟨rfl, Nat.le_refl _⟩
      rw [List.filter_cons, ih, List.filter_cons, List.filter_cons, List.filter_cons]
      by_cases here : first.span = span
      · have other : (diagnostic.span == span) = false := by
          simpa [here] using fun same : diagnostic.span = span => apart (here.trans same.symm)
        simp [here, other]
      · simp [here]

theorem sorted_stable (bag : Bag) : StableSort bag.items bag.sorted := by
  rw [sorted]
  induction bag.items with
  | nil => exact ⟨.refl _, .nil, fun _ => rfl⟩
  | cons first rest ih =>
    constructor
    case same => exact (insertSorted_perm _ _).trans (ih.same.cons first)
    case ordered => exact insertSorted_ordered ih.ordered
    case stable =>
      intro span
      rw [List.foldr_cons, insertSorted_filter, List.filter_cons, ih.stable, List.filter_cons]

end Bag

/-- The diagnostic of the limit on tokens, at the first one that is cut off. -/
def cutDiagnostic? (source : Text) (limit : Option Nat) : Option Diagnostic := do
  let limit ← limit
  let token ← (grammarTokens source)[limit]?
  return (Bag.ofSource source).place (Report.tooManyTokens limit token.span)

theorem limitTokens_reports (source : Text) (limit : Option Nat) :
    (limitTokens limit (Cursor.ofTokens (Lexed.ofText source).tokens)).2.map
      (Bag.ofSource source).place = (cutDiagnostic? source limit).toList := by
  rw [ofTokens_lexed]
  cases limit with
  | none => rfl
  | some limit =>
    by_cases within : (grammarTokens source).length ≤ limit
    · simp [limitTokens, Cursor.truncate, Cursor.size, within, cutDiagnostic?]
    · have beyond : limit < (grammarTokens source).length := by omega
      simp [limitTokens, Cursor.truncate, Cursor.size, within, cutDiagnostic?, Cursor.tokens,
        beyond]

def Session.ofSource (source : Text) (limits : Limits) : Session where
  cursor := sourceCursor source limits.tokens
  bag := (Bag.ofSource source).reportAll ((Lexed.ofText source).reports ++
    (limitTokens limits.tokens (Cursor.ofTokens (Lexed.ofText source).tokens)).2)
  depth := 0

namespace Session

theorem ofSource_ready (source : Text) (limits : Limits) :
    (ofSource source limits).Ready limits.depth :=
  ⟨sourceCursor_intact source limits.tokens, Nat.zero_le _⟩

theorem ofSource_items (source : Text) (limits : Limits) :
    (ofSource source limits).bag.items =
      Lexed.diagnostics source ++ (cutDiagnostic? source limits.tokens).toList := by
  rw [ofSource, Bag.items_reportAll, List.map_append, limitTokens_reports, Lexed.ofText_reports,
    Lexed.diagnostics_eq]
  rfl

end Session

theorem parse_sorted (source name : Text) (limits : Limits) :
    (parse source name limits).diagnostics =
      (Routine.file.run limits.depth (Session.ofSource source limits)).2.bag.sorted := by
  rw [parse_diagnostics, Bag.reportAll_append]
  rfl

/-- No diagnostic of a parse is lost or left over: it has those of the lexer, the one of the limit on
tokens and those of the parser. For no routine forgets what was there, wherever it is called, and
a trial that is given up leaves nothing behind. -/
theorem parse_gathered (source name : Text) (limits : Limits) :
    (Session.ofSource source limits).Ready limits.depth ∧
      (∃ parsed,
        (Routine.file.run limits.depth (Session.ofSource source limits)).2.bag.items =
            Lexed.diagnostics source ++ (cutDiagnostic? source limits.tokens).toList ++ parsed ∧
          StableSort
            (Lexed.diagnostics source ++ (cutDiagnostic? source limits.tokens).toList ++ parsed)
            (parse source name limits).diagnostics) ∧
      ∀ session : Session, session.Ready limits.depth →
        Routine.Composed limits.depth session ∧
          ∀ (α : Type) (routine : Routine α), routine.Keeps limits.depth session := by
  have ready := Session.ofSource_ready source limits
  obtain ⟨parsed, items⟩ := (Routine.file.keeps ready).follows.diagnostics
  rw [Session.ofSource_items] at items
  refine ⟨ready, ⟨parsed, items.symm, ?_⟩, fun session ready =>
    ⟨Routine.composed ready, fun α routine => routine.keeps ready⟩⟩
  rw [items, parse_sorted]
  exact Bag.sorted_stable _

/-- At `x * y` the trial of a declaration with a type gets as far as the end of the file, where it
misses `:=`; the bag is then again what it was. -/
theorem parse_gathered_trial :
    let session : Session :=
      ⟨sourceCursor "x * y".toList none, ⟨none, [PlacedPiece.invalidCharacter ⟨0, 1⟩ '?']⟩, 2⟩
    session.Ready 64 ∧ (Routine.typedHead.run 64 session).1 = none ∧
      (Routine.attempt .typedDeclaration .typedHead).run 64 session = (some none, session) := by
  intro session
  have ready : session.Ready 64 := ⟨sourceCursor_intact _ _, by decide⟩
  have fails : (Routine.typedHead.run 64 session).1 = none := rfl
  obtain ⟨_, _, routines⟩ := parse_gathered "x * y".toList unnamed {}
  exact ⟨ready, fails, ((routines session ready).2 _ .typedHead).fails _ fails⟩

end MoSyntax
