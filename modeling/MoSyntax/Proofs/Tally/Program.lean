import MoSyntax.Proofs.Likeness.Layout
import MoSyntax.Proofs.Session.Gathered
import MoSyntax.Proofs.Tally.Stmt

/-!
Diagnostics do not cascade. A whole file pays for its reports, and the lexer and the limit on tokens
report nothing that is about the grammar; so no more is found wrong with a text than it has tokens.
-/
namespace MoSyntax

namespace Parser

variable {type : Parser TypeExpr} {stmt : Parser Stmt}

theorem localName_loose : Loose 0 localName := by
  intro start
  apply TalliedAt.current_bind
  split
  · rename_i value found
    have string : start.current.kind ≠ .endOfFile := by simp [found]
    exact FirmAt.loose (FirmAt.advance_bind string (.pure _))
  · exact Loose.pure _ _

theorem useDeclaration_firm : Firm 1 useDeclaration := by
  refine (expect_firm (by simp) _).bind fun _ => (name_firm _).loose.bind fun found => ?_
  split
  · exact fun _ => TalliedAt.reject (.inl rfl) (Nat.le_refl 1)
  · exact localName_loose.map _

theorem typedName_firm (types : Loose 0 type) (message : String) :
    Firm 1 (typedName message type) :=
  (ident_firm message).bind fun _ => types.map _

theorem endField_owing : Loose 1 endField := by
  intro start
  apply TalliedAt.current_bind
  split
  · exact Loose.pure _ _
  · have reported : TalliedAt start (fun _ used told => told ≤ used + 1) Owing
        (report (Report.unexpected "`,`, a line break or `\x7d` after a struct field" start.current)) :=
      TalliedAt.report (.inl rfl) (Nat.le_refl 1)
    refine TalliedAt.bind reported (fun _ used told stop _ counted => ?_) fun _ _ => id
    refine TalliedAt.of_sound (skipStatement_at stop) rfl ?_
    rintro more _ _ ⟨rfl, _⟩
    refine ⟨List.forall_mem_nil _, ?_⟩
    show told + 0 ≤ used.length + more.length + 1
    omega

theorem nextField_loose (types : Loose 0 type) : Loose 0 (nextField type) := by
  intro start
  refine LooseAt.silent_bind (skipFieldSeparators_at start) rfl (fun _ _ _ holds => holds.1) ?_
  rintro _ _ stop passes ⟨_, rfl⟩
  apply TalliedAt.here_bind
  split
  · exact Loose.pure _ _
  · rename_i goesOn
    simp only [Bool.or_eq_true, not_or, Cursor.atEnd, List.isEmpty_iff] at goesOn
    obtain ⟨⟨more, inner⟩, _⟩ := goesOn
    obtain ⟨token, rest, ahead⟩ := List.exists_cons_of_ne_nil more
    have here := Cursor.current_of_ahead ahead
    have inside : Skip.endsStatement token.kind = false := by
      have other := passes.other ahead
      simp only [isFieldSeparator, Bool.or_eq_false_iff] at other
      rw [Skip.endsStatement, other.1, Bool.false_or, ← here]
      simpa using inner
    refine TalliedAt.bind (TalliedAt.recover (typedName_firm types _ stop)
      (fun used next further => skipStatement_moves ahead inside further) fun _ => rfl) ?_
      fun _ _ => id
    intro field? used told stop _ paid
    cases field? with
    | none => exact TalliedAt.pure paid
    | some field =>
      refine TalliedAt.map _ (TalliedAt.imp (endField_owing stop) (fun _ _ _ _ => ?_)
        fun _ _ lost => ?_)
      · omega
      · rw [Owing] at lost ⊢
        omega

theorem structDeclaration_firm (types : Loose 0 type) : Firm 1 (structDeclaration type) :=
  (expect_firm (by simp) _).bind fun _ => (ident_firm _).loose.bind fun _ =>
    skipLineBreaks_loose.bind fun _ => (expect_firm (by simp) _).loose.bind fun _ =>
      (nextField_loose types).many.bind fun _ => (expect_firm (by simp) _).loose.map _

theorem parameters_loose (types : Loose 0 type) : Loose 0 (parameters type) :=
  (expect_firm (by simp) _).loose.bind fun _ =>
    (listUntil_loose (typedName_firm types _).loose _ _).bind fun _ => .pure _

theorem resultType_loose (types : Loose 0 type) : Loose 0 (resultType type) := by
  intro start
  apply TalliedAt.current_bind
  split
  · exact Loose.pure _ _
  · exact types.map _ start

theorem fnDeclaration_firm (types : Loose 0 type) (stmts : Firm 0 stmt) :
    Firm 1 (fnDeclaration type stmt) :=
  (expect_firm (by simp) _).bind fun _ => (ident_firm _).loose.bind fun _ =>
    (parameters_loose types).bind fun _ => (resultType_loose types).bind fun _ =>
      skipLineBreaks_loose.bind fun _ => (block_firm stmts).loose.map _

theorem topLevel_firm (types : Loose 0 type) (stmts : Firm 0 stmt) : Firm 1 (topLevel type stmt) := by
  intro start
  apply TalliedAt.current_bind
  split
  · exact useDeclaration_firm start
  · exact structDeclaration_firm types start
  · exact fnDeclaration_firm types stmts start
  · exact FirmAt.reject (.inl rfl)

theorem nextDeclaration_loose {decl : Parser Decl} (decls : Firm 1 decl) :
    Loose 0 (nextDeclaration decl) := by
  intro start
  refine LooseAt.silent_bind (skipLineBreaks_at start) rfl (fun _ _ _ holds => holds.1) ?_
  rintro _ _ stop _ ⟨_, rfl⟩
  apply TalliedAt.here_bind
  split
  · exact Loose.pure _ _
  · rename_i goesOn
    have more : stop.ahead ≠ [] := by simpa [Cursor.atEnd] using goesOn
    have paid : LooseAt 0 stop (recover decl (resynchronize stop)) := by
      refine TalliedAt.imp (TalliedAt.recover (decls.mono stop)
        (fun used next further => resynchronize_moves more further) (resynchronize_some stop)) ?_
        fun _ _ => id
      intro value? used told counted
      cases value? <;> exact counted
    exact paid.bind fun _ => .pure _

theorem declarations_loose (limit : Nat) : Loose 0 (declarations limit) :=
  (nextDeclaration_loose (topLevel_firm (typeExpr_firm limit limit).loose
    (statement_firm limit limit))).many.map _

end Parser

theorem declarations_tallied (limit : Nat) {start : Cursor} (intact : start.Intact) :
    (∀ report ∈ (Parser.declarations limit start).reports, report.FromGrammar) ∧
      (Parser.declarations limit start).reports.length ≤ start.ahead.length := by
  obtain ⟨told, used, passes, counted⟩ := Parser.declarations_loose limit start intact
  obtain ⟨found, value, _⟩ := Parser.declarations_reads limit intact
  rw [value] at counted
  have length := passes.length
  exact ⟨told, by omega⟩

/-- The diagnostics of a parse, before they are put in source order. -/
def gatheredReports (source : Text) (limits : Limits) : List Diagnostic :=
  (Lexed.ofText source).reports ++
    (limitTokens limits.tokens (Cursor.ofTokens (Lexed.ofText source).tokens)).2 ++
    (Parser.declarations limits.depth (sourceCursor source limits.tokens)).reports

theorem parse_diagnostics_sorts (source name : Text) (limits : Limits) :
    StableSort ((gatheredReports source limits).map (Bag.ofSource source).place)
      (parse source name limits).diagnostics := by
  have sorts := Bag.sorted_stable ((Bag.ofSource source).reportAll (gatheredReports source limits))
  rw [Bag.items_reportAll] at sorts
  rw [parse_diagnostics]
  exact sorts

instance (diagnostic : Diagnostic) : Decidable diagnostic.FromGrammar :=
  inferInstanceAs (Decidable (_ ∨ _))

theorem exists_of_mem_cut {limit : Option Nat} {cursor : Cursor} {report : Diagnostic}
    (member : report ∈ (limitTokens limit cursor).2) :
    ∃ bound, ∃ token ∈ cursor.tokens, report = Report.tooManyTokens bound token.span := by
  cases limit with
  | none => cases member
  | some limit =>
    obtain ⟨token, dropped, rfl⟩ : ∃ token, (cursor.truncate limit).2 = some token ∧
        Report.tooManyTokens limit token.span = report := by
      simpa [limitTokens] using member
    refine ⟨limit, token, ?_, rfl⟩
    unfold Cursor.truncate at dropped
    split at dropped
    · cases dropped
    · exact List.mem_of_getElem? dropped

theorem tooManyTokens_of_mem {limit : Option Nat} {cursor : Cursor} {report : Diagnostic}
    (member : report ∈ (limitTokens limit cursor).2) : report.fault = .tokenLimitExceeded := by
  obtain ⟨_, _, _, rfl⟩ := exists_of_mem_cut member
  rfl

theorem Lexed.not_fromGrammar {source : Text} {report : Diagnostic}
    (member : report ∈ (ofText source).reports) : ¬ report.FromGrammar := by
  have lexical := lexical_of_mem member
  rintro (syntactic | limit)
  · simp [lexical] at syntactic
  · simp [limit, Fault.category] at lexical

theorem readTokens_length_le (source : Text) (limit : Option Nat) :
    (readTokens source limit).length ≤ (grammarTokens source).length := by
  cases limit with
  | none => exact Nat.le_refl _
  | some limit => exact List.length_take_le' limit _

/-- No more is found wrong with a text, apart from its lexemes and their number, than it has
tokens. -/
theorem parse_fromGrammar_le (source name : Text) (limits : Limits) :
    (parse source name limits).diagnostics.countP (fun diagnostic => diagnostic.FromGrammar) ≤
      (grammarTokens source).length := by
  have placed (report : Diagnostic) :
      ((Bag.ofSource source).place report).FromGrammar ↔ report.FromGrammar := by
    rw [Diagnostic.FromGrammar, Bag.place_fault, Diagnostic.FromGrammar]
  have told := (declarations_tallied limits.depth (sourceCursor_intact source limits.tokens)).2
  rw [sourceCursor_eq] at told
  have lexed : (Lexed.ofText source).reports.countP (fun report => report.FromGrammar) = 0 :=
    List.countP_eq_zero.2 fun report member => by
      simpa using Lexed.not_fromGrammar member
  have cut : (limitTokens limits.tokens (Cursor.ofTokens (Lexed.ofText source).tokens)).2.countP
      (fun report => report.FromGrammar) = 0 :=
    List.countP_eq_zero.2 fun report member => by
      simp [Diagnostic.FromGrammar, tooManyTokens_of_mem member, Fault.category]
  calc (parse source name limits).diagnostics.countP (fun diagnostic => diagnostic.FromGrammar)
      = (Parser.declarations limits.depth (sourceCursor source limits.tokens)).reports.countP
          (fun report => report.FromGrammar) := by
        rw [(parse_diagnostics_sorts source name limits).same.countP_eq, List.countP_map,
          List.countP_congr (q := fun report => report.FromGrammar) (by simp [placed]),
          gatheredReports, List.countP_append, List.countP_append, lexed, cut, Nat.zero_add]
    _ ≤ (Parser.declarations limits.depth (sourceCursor source limits.tokens)).reports.length :=
        List.countP_le_length
    _ ≤ (readTokens source limits.tokens).length := by rwa [sourceCursor_eq]
    _ ≤ (grammarTokens source).length := readTokens_length_le source limits.tokens

end MoSyntax
