import MoSyntax.Proofs.Likeness.Restored
import MoSyntax.Proofs.Nesting.Leaves
import MoSyntax.Proofs.Tally.Program

/-!
The limit on tokens is exact. A source that keeps it is parsed as if there were none. Of a longer one
the first token too many is reported, once, and nothing from there on is seen: no node reaches
beyond the last token that is kept, and other tokens in its place give the same tree.
-/
namespace MoSyntax

variable {source : Text} {limit : Nat}

theorem limitTokens_of_le (within : (grammarTokens source).length ≤ limit) :
    limitTokens (some limit) (Cursor.ofTokens (Lexed.ofText source).tokens) =
      limitTokens none (Cursor.ofTokens (Lexed.ofText source).tokens) := by
  rw [ofTokens_lexed]
  simp [limitTokens, Cursor.truncate, Cursor.size, within]

theorem limitTokens_of_lt (beyond : limit < (grammarTokens source).length) :
    (limitTokens (some limit) (Cursor.ofTokens (Lexed.ofText source).tokens)).2 =
      [Report.tooManyTokens limit (grammarTokens source)[limit].span] := by
  rw [ofTokens_lexed]
  simp [limitTokens, Cursor.truncate, Cursor.size, Nat.not_le.2 beyond, Cursor.tokens, beyond]

theorem parse_of_le (within : (grammarTokens source).length ≤ limit) (name : Text) (depth : Nat) :
    parse source name ⟨depth, some limit⟩ = parse source name ⟨depth, none⟩ := by
  unfold parse
  dsimp only
  rw [limitTokens_of_le within]

theorem Diagnostic.FromGrammar.ne_tooMany {report : Diagnostic} (grammar : report.FromGrammar) :
    report.fault ≠ .tokenLimitExceeded := by
  intro cut
  simp [Diagnostic.FromGrammar, cut, Fault.category] at grammar

theorem filter_tooMany (beyond : limit < (grammarTokens source).length) (name : Text) (depth : Nat) :
    (parse source name ⟨depth, some limit⟩).diagnostics.filter
        (·.fault == .tokenLimitExceeded) =
      [(Bag.ofSource source).place
        (Report.tooManyTokens limit (grammarTokens source)[limit].span)] := by
  have told := (declarations_tallied depth (sourceCursor_intact source (some limit))).1
  have lexed : ((Lexed.ofText source).reports.map (Bag.ofSource source).place).filter
      (·.fault == .tokenLimitExceeded) = [] := by
    refine List.filter_eq_nil_iff.2 fun diagnostic member => ?_
    obtain ⟨report, lexical, rfl⟩ := List.mem_map.1 member
    have lexical := Lexed.lexical_of_mem lexical
    rw [Bag.place_fault, beq_iff_eq]
    rintro cut
    simp [cut, Fault.category] at lexical
  have parsed : ((Parser.declarations depth (sourceCursor source (some limit))).reports.map
      (Bag.ofSource source).place).filter (·.fault == .tokenLimitExceeded) = [] := by
    refine List.filter_eq_nil_iff.2 fun diagnostic member => ?_
    obtain ⟨report, found, rfl⟩ := List.mem_map.1 member
    rw [Bag.place_fault, beq_iff_eq]
    exact (told report found).ne_tooMany
  have perm := (parse_diagnostics_sorts source name ⟨depth, some limit⟩).same.filter
    (·.fault == .tokenLimitExceeded)
  rw [gatheredReports, List.map_append, List.map_append, List.filter_append, List.filter_append, lexed, parsed,
    limitTokens_of_lt beyond, List.nil_append, List.append_nil] at perm
  have kept : (((Bag.ofSource source).place
      (Report.tooManyTokens limit (grammarTokens source)[limit].span)).fault ==
        .tokenLimitExceeded) = true := by
    rw [Bag.place_fault]
    rfl
  rw [List.map_singleton, List.filter_singleton, kept] at perm
  exact List.perm_singleton.1 perm

theorem stop_le_of_mem_walk (beyond : limit < (grammarTokens source).length) (name : Text)
    (depth : Nat) : ∀ visit ∈ (parse source name ⟨depth, some limit⟩).program.walk, visit.1 ≠ 0 →
      0 < limit ∧ visit.2.span.stop ≤ (grammarTokens source)[limit - 1].span.stop := by
  intro visit member below
  obtain ⟨part, sublist, _, before, last, rfl, stop⟩ :=
    parse_spans_read source name ⟨depth, some limit⟩ visit member below
  have among : last ∈ readTokens source (some limit) := sublist.subset (by simp)
  have some : 0 < limit := by
    refine Nat.pos_of_ne_zero ?_
    rintro rfl
    simp [readTokens] at among
  have ends : Ends (readTokens source (Option.some limit)) (grammarTokens source)[limit - 1].span := by
    refine ⟨(grammarTokens source).take (limit - 1), _, ?_, rfl⟩
    rw [readTokens, List.take_append_getElem, Nat.sub_add_cancel some]
  rw [← stop]
  exact ⟨some, (readTokens_ordered source _).le_stop ends among⟩

/-- The limit on tokens cuts a source off at the first token that is too many, and nowhere else. -/
theorem parse_truncated (source name : Text) (depth limit : Nat) :
    ((grammarTokens source).length ≤ limit →
      parse source name ⟨depth, some limit⟩ = parse source name ⟨depth, none⟩) ∧
    ∀ _ : limit < (grammarTokens source).length,
      (∃ report, (parse source name ⟨depth, some limit⟩).diagnostics.filter
          (·.fault == .tokenLimitExceeded) = [report] ∧
        report.span = (grammarTokens source)[limit].span) ∧
      (∀ visit ∈ (parse source name ⟨depth, some limit⟩).program.walk, visit.1 ≠ 0 →
        0 < limit ∧ visit.2.span.stop ≤ (grammarTokens source)[limit - 1].span.stop) ∧
      ∀ other otherName : Text, Text.byteSize other = Text.byteSize source →
        limit < (grammarTokens other).length →
        ((grammarTokens other).take limit).map Token.mark =
          ((grammarTokens source).take limit).map Token.mark →
        (parse other otherName ⟨depth, some limit⟩).program =
          (parse source name ⟨depth, some limit⟩).program := by
  refine ⟨fun within => parse_of_le within name depth, fun beyond => ⟨?_, ?_, ?_⟩⟩
  case refine_1 => exact ⟨_, filter_tooMany beyond name depth, rfl⟩
  case refine_2 => exact stop_le_of_mem_walk beyond name depth
  case refine_3 =>
    intro other otherName size _ same
    exact program_of_marks ⟨depth, some limit⟩ size same otherName name

/-- Behind the opening brace, at the fifth token, it does not matter what the body says. -/
theorem parse_truncated_body :
    ((grammarTokens "fn f() \x7b x := 1 \x7d".toList).length ≤ 9 ∧
      parse "fn f() \x7b x := 1 \x7d".toList unnamed ⟨64, some 9⟩ =
        parse "fn f() \x7b x := 1 \x7d".toList unnamed ⟨64, none⟩) ∧
    (∃ report, (parse "fn f() \x7b x := 1 \x7d".toList unnamed ⟨64, some 5⟩).diagnostics.filter
        (·.fault == .tokenLimitExceeded) = [report] ∧ report.span = ⟨9, 10⟩) ∧
    (∀ visit ∈ (parse "fn f() \x7b x := 1 \x7d".toList unnamed ⟨64, some 5⟩).program.walk,
      visit.1 ≠ 0 → visit.2.span.stop ≤ 8) ∧
    (parse "fn f() \x7b y = 22 \x7d".toList unnamed ⟨64, some 5⟩).program =
      (parse "fn f() \x7b x := 1 \x7d".toList unnamed ⟨64, some 5⟩).program := by
  have within : (grammarTokens "fn f() \x7b x := 1 \x7d".toList).length ≤ 9 := by decide +kernel
  have beyond : 5 < (grammarTokens "fn f() \x7b x := 1 \x7d".toList).length := by decide +kernel
  have cut : (grammarTokens "fn f() \x7b x := 1 \x7d".toList)[5]?.map Token.span = some ⟨9, 10⟩ := by
    decide +kernel
  have last : (grammarTokens "fn f() \x7b x := 1 \x7d".toList)[4]?.map Token.span = some ⟨7, 8⟩ := by
    decide +kernel
  rw [List.getElem?_eq_getElem (by omega), Option.map_some, Option.some.injEq] at cut last
  obtain ⟨⟨report, one, place⟩, bounds, same⟩ :=
    (parse_truncated "fn f() \x7b x := 1 \x7d".toList unnamed 64 5).2 beyond
  refine ⟨⟨within, (parse_truncated _ unnamed 64 9).1 within⟩, ⟨report, one, place.trans cut⟩,
    fun visit member below => ?_, ?_⟩
  · exact Nat.le_trans (bounds visit member below).2 (Nat.le_of_eq (congrArg Span.stop last))
  · exact same _ unnamed (by decide +kernel) (by decide +kernel) (by decide +kernel)

end MoSyntax
