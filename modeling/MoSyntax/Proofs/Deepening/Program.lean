import MoSyntax.Proofs.Deepening.Stmt
import MoSyntax.Proofs.Reading.Source

/-!
Whole sources with different limits on nesting. A parse that stays within the limit is the same for
every larger one.
-/
namespace MoSyntax

namespace Parser

variable {type deepType : Parser TypeExpr} {stmt deepStmt : Parser Stmt}

theorem typedName_deepens (types : Deepens type deepType) (message : String) :
    Deepens (typedName message type) (typedName message deepType) :=
  (Deepens.refl (Silent.ident message).keeps).bind fun _ => types.bind fun _ => .refl (.pure _)

theorem endField_keeps : Keeps endField := endField_sound.keeps

theorem skipFieldSeparators_keeps : Keeps skipFieldSeparators := Keeps.here.bind fun _ => .skip _

theorem nextField_deepens (types : Deepens type deepType) :
    Deepens (nextField type) (nextField deepType) := by
  refine (Deepens.refl skipFieldSeparators_keeps).bind fun _ => ?_
  refine (Deepens.refl .here).bind fun cursor => ?_
  split
  · exact .refl (.pure _)
  · refine ((typedName_deepens types _).recover skipStatement_keeps).bind fun found => ?_
    split
    · exact (Deepens.refl endField_keeps).bind fun _ => .refl (.pure _)
    · exact .refl (.pure _)

theorem structDeclaration_deepens (types : Deepens type deepType) :
    Deepens (structDeclaration type) (structDeclaration deepType) := by
  refine (Deepens.refl (Silent.expect (by simp) _).keeps).bind fun opening => ?_
  refine (Deepens.refl (Silent.ident _).keeps).bind fun declared => ?_
  refine (Deepens.refl skipLineBreaks_keeps).bind fun _ => ?_
  refine (Deepens.refl (Silent.expect (by simp) _).keeps).bind fun _ => ?_
  exact (Deepens.many (nextField_deepens types)).bind fun _ =>
    .refl ((Silent.expect (by simp) _).keeps.bind fun _ => .pure _)

theorem parameters_deepens (types : Deepens type deepType) :
    Deepens (parameters type) (parameters deepType) :=
  (Deepens.refl (Silent.expect (by simp) _).keeps).bind fun _ =>
    (listUntil_deepens (typedName_deepens types _) _ _).bind fun _ => .refl (.pure _)

theorem resultType_deepens (types : Deepens type deepType) :
    Deepens (resultType type) (resultType deepType) := by
  refine (Deepens.refl .current).bind fun found => ?_
  split
  · exact .refl (.pure _)
  · exact types.bind fun _ => .refl (.pure _)

theorem fnDeclaration_deepens (types : Deepens type deepType) (stmts : Deepens stmt deepStmt) :
    Deepens (fnDeclaration type stmt) (fnDeclaration deepType deepStmt) := by
  refine (Deepens.refl (Silent.expect (by simp) _).keeps).bind fun opening => ?_
  refine (Deepens.refl (Silent.ident _).keeps).bind fun declared => ?_
  refine (parameters_deepens types).bind fun items => (resultType_deepens types).bind fun result => ?_
  exact (Deepens.refl skipLineBreaks_keeps).bind fun _ =>
    (block_deepens stmts).bind fun _ => .refl (.pure _)

theorem useDeclaration_keeps : Keeps useDeclaration := by
  have sound : Sound (DeclLevel (TypeReading 0 0) (StmtReading 0 0)) useDeclaration :=
    useDeclaration_sound
  exact sound.keeps

theorem topLevel_deepens (types : Deepens type deepType) (stmts : Deepens stmt deepStmt) :
    Deepens (topLevel type stmt) (topLevel deepType deepStmt) := by
  refine (Deepens.refl .current).bind fun found => ?_
  split
  · exact .refl useDeclaration_keeps
  · exact structDeclaration_deepens types
  · exact fnDeclaration_deepens types stmts
  · exact .refl (.reject _)

theorem resynchronize_keeps (start : Cursor) : Keeps (resynchronize start) := by
  refine Keeps.here.bind fun cursor => ?_
  split
  · exact .pure _
  · exact Silent.advance.keeps.bind fun _ => Keeps.here.bind fun _ => .skip _

theorem nextDeclaration_deepens {decl further : Parser Decl} (deepens : Deepens decl further) :
    Deepens (nextDeclaration decl) (nextDeclaration further) := by
  refine (Deepens.refl skipLineBreaks_keeps).bind fun _ => (Deepens.refl .here).bind fun start => ?_
  split
  · exact .refl (.pure _)
  · exact (deepens.recover (resynchronize_keeps start)).bind fun _ => .refl (.pure _)

theorem declarations_deepens {depth deeper : Nat} (lt : depth < deeper) :
    Deepens (declarations depth) (declarations deeper) := by
  have types := typeExpr_tries (Nat.le_of_lt lt) (Nat.le_refl depth) (Nat.le_refl deeper)
  have stmts := statement_deepens lt (Nat.le_refl depth) (Nat.le_refl deeper)
  exact (Deepens.many (nextDeclaration_deepens (topLevel_deepens types.deepens stmts))).bind
    fun _ => .refl (.pure _)

end Parser

namespace Bag

theorem items_reportAll (bag : Bag) (diagnostics : List Diagnostic) :
    (bag.reportAll diagnostics).items = bag.items ++ diagnostics.map bag.place := by
  induction diagnostics generalizing bag with
  | nil => simp [reportAll]
  | cons first rest ih =>
    rw [reportAll, List.foldl_cons, ← reportAll, ih]
    have placed : (bag.report first).place = bag.place := rfl
    rw [placed]
    simp [report]

theorem mem_insertSorted {diagnostic other : Diagnostic} {sorted : List Diagnostic} :
    other ∈ insertSorted diagnostic sorted ↔ other = diagnostic ∨ other ∈ sorted := by
  induction sorted with
  | nil => simp [insertSorted]
  | cons first rest ih =>
    rw [insertSorted]
    split
    · simp
    · simp [ih, or_left_comm]

theorem mem_sorted {bag : Bag} {diagnostic : Diagnostic} :
    diagnostic ∈ bag.sorted ↔ diagnostic ∈ bag.items := by
  rw [sorted]
  induction bag.items with
  | nil => simp
  | cons first rest ih => simp [mem_insertSorted, ih]

end Bag

theorem mem_diagnostics_iff {source name : Text} {limits : Limits} {diagnostic : Diagnostic} :
    diagnostic ∈ (parse source name limits).diagnostics ↔
      ∃ report ∈ (Lexed.ofText source).reports ++
          (limitTokens limits.tokens (Cursor.ofTokens (Lexed.ofText source).tokens)).2 ++
          (Parser.declarations limits.depth (sourceCursor source limits.tokens)).reports,
        (Bag.ofSource source).place report = diagnostic := by
  rw [parse_diagnostics, Bag.mem_sorted, Bag.items_reportAll]
  exact List.mem_map

theorem mem_diagnostics {source : Text} (name : Text) (limits : Limits) {report : Diagnostic}
    (told : report ∈ (Parser.declarations limits.depth (sourceCursor source limits.tokens)).reports) :
    (Bag.ofSource source).place report ∈ (parse source name limits).diagnostics :=
  mem_diagnostics_iff.2 ⟨report, List.mem_append_right _ told, rfl⟩

theorem parse_congr (source name : Text) (tokens : Option Nat) {depth other : Nat}
    (same : Parser.declarations other (sourceCursor source tokens) =
      Parser.declarations depth (sourceCursor source tokens)) :
    parse source name ⟨other, tokens⟩ = parse source name ⟨depth, tokens⟩ := by
  unfold parse
  rw [sourceCursor] at same
  simp only [same]

/-- A parse that does not come to the limit on nesting is the same under every larger limit. -/
theorem parse_deepened (source name : Text) (tokens : Option Nat) {depth deeper : Nat}
    (le : depth ≤ deeper)
    (within : ∀ diagnostic ∈ (parse source name ⟨depth, tokens⟩).diagnostics,
      diagnostic.fault ≠ .recursionLimitExceeded) :
    parse source name ⟨deeper, tokens⟩ = parse source name ⟨depth, tokens⟩ := by
  rcases Nat.eq_or_lt_of_le le with rfl | lt
  · rfl
  · have deepens := (Parser.declarations_deepens lt).deepens _ (sourceCursor_intact source tokens)
    have same := deepens.eq_of_unlimited fun ⟨report, told, limit⟩ => by
      have fault : report.fault = .recursionLimitExceeded := by
        simpa [Diagnostic.isLimit] using limit
      exact within _ (mem_diagnostics name ⟨depth, tokens⟩ told) fault
    exact parse_congr source name tokens same

/-- The trial of a declaration with a type, `y` being the type, comes to the limit here. -/
theorem parse_deepened_trial :
    2 ≤ 64 ∧
      (∀ diagnostic ∈ (parse "fn f() \x7b x * y \x7d".toList unnamed ⟨2, none⟩).diagnostics,
        diagnostic.fault ≠ .recursionLimitExceeded) ∧
      parse "fn f() \x7b x * y \x7d".toList unnamed ⟨64, none⟩ =
        parse "fn f() \x7b x * y \x7d".toList unnamed ⟨2, none⟩ := by
  have le : 2 ≤ 64 := by decide
  have within : ∀ diagnostic ∈
      (parse "fn f() \x7b x * y \x7d".toList unnamed ⟨2, none⟩).diagnostics,
      diagnostic.fault ≠ .recursionLimitExceeded := by decide +kernel
  exact ⟨le, within, parse_deepened _ _ _ le within⟩

end MoSyntax
