import MoSyntax.Proofs.Likeness.Moved

/-!
The tree of a restored source. The same tokens at the same places are read from it, and so the tree
is the same, with all its spans.
-/
namespace MoSyntax

theorem filter_mark (tokens : List Token) :
    (tokens.filter (!·.isComment)).map Token.mark =
      (tokens.map Token.mark).filter fun mark => !(mark.1 == .comment) :=
  (List.filter_map (f := Token.mark) (p := fun mark => !(mark.1 == .comment))).symm

theorem restored_readTokens {source : Text}
    (closed : ∀ report ∈ (Lexed.ofText source).reports, report.fault ≠ .unterminatedString)
    (limit : Option Nat) :
    (readTokens (restored source) limit).map Token.mark =
      (readTokens source limit).map Token.mark := by
  have whole : (grammarTokens (restored source)).map Token.mark =
      (grammarTokens source).map Token.mark := by
    have body : (Lexed.written (restored source)).map Token.mark =
        (grammarTokens source).map Token.mark := by
      rw [restored_eq]
      exact Piece.tokensFrom_veiled source (closed_of_reports closed) _ _ 0
    rw [grammarTokens, filter_mark, body, ← filter_mark, grammarTokens, List.filter_filter]
    simp only [Bool.and_self]
  cases limit with
  | none => exact whole
  | some limit => rw [readTokens, readTokens, List.map_take, List.map_take, whole]

theorem Program.eq_of_parts {first second : Program} (span : first.span = second.span)
    (declarations : first.declarations = second.declarations) : first = second := by
  cases first
  cases second
  exact congr (congrArg Program.mk span) declarations

/-- The tree depends on nothing but the kinds, the texts and the places of the tokens that are read,
and on the size of the source. -/
theorem program_of_marks {source other : Text} (limits : Limits)
    (size : Text.byteSize source = Text.byteSize other)
    (same : (readTokens source limits.tokens).map Token.mark =
      (readTokens other limits.tokens).map Token.mark) (name otherName : Text) :
    (parse source name limits).program = (parse other otherName limits).program := by
  have like : (Comparison.moved id []).Cursors False 0
      (sourceCursor source limits.tokens) (sourceCursor other limits.tokens) := by
    refine ⟨sourceCursor_intact _ _, sourceCursor_intact _ _, ?_, fun _ => ?_, False.elim⟩
    · have stays (token : Token) : token.relocate id = token := rfl
      rw [sourceCursor_eq, sourceCursor_eq]
      refine Comparison.moved_aligned_whole Function.injective_id 0 ?_
      rw [map_of_stays stays, same]
    · rw [sourceCursor_eq, sourceCursor_eq, size]
      exact ⟨rfl, fun _ => rfl, rfl⟩
  refine Program.eq_of_parts ?_ ?_
  · rw [parse_span, parse_span, size]
  · rw [parse_declarations, parse_declarations]
    exact (map_of_stays Decl.relocate_id _).symm.trans
      (Comparison.moved_decls (like.declarations rfl limits.depth).1).symm

/-- A restored source has the tokens of the source, comments apart, and the same tree. -/
theorem parse_restored {source : Text}
    (closed : ∀ report ∈ (Lexed.ofText source).reports, report.fault ≠ .unterminatedString)
    (name other : Text) (limits : Limits) :
    (Lexed.ofText (restored source)).tokens.map Token.mark =
        ((Lexed.ofText source).tokens.filter (!·.isComment)).map Token.mark ∧
      (parse (restored source) name limits).program = (parse source other limits).program :=
  ⟨restored_tokens closed,
    program_of_marks limits (byteSize_restored source) (restored_readTokens closed limits.tokens)
      name other⟩

/-- A comment and two invalid characters give way to spaces. -/
theorem parse_restored_comment :
    (∀ report ∈ (Lexed.ofText "fn f() \x7b // é\n  x := § 1\n\x7d".toList).reports,
        report.fault ≠ .unterminatedString) ∧
      (Lexed.ofText (restored "fn f() \x7b // é\n  x := § 1\n\x7d".toList)).tokens.map Token.mark =
        ((Lexed.ofText "fn f() \x7b // é\n  x := § 1\n\x7d".toList).tokens.filter
          (!·.isComment)).map Token.mark ∧
      (parse (restored "fn f() \x7b // é\n  x := § 1\n\x7d".toList) unnamed ⟨64, none⟩).program =
        (parse "fn f() \x7b // é\n  x := § 1\n\x7d".toList unnamed ⟨64, none⟩).program := by
  have closed : ∀ report ∈ (Lexed.ofText "fn f() \x7b // é\n  x := § 1\n\x7d".toList).reports,
      report.fault ≠ .unterminatedString := by decide +kernel
  exact ⟨closed, parse_restored closed _ _ _⟩

end MoSyntax
