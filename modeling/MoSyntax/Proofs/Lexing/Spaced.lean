import MoSyntax.Proofs.Lexing.LineEnds

/-!
Tokens written anew. Whatever stood behind a token, its lexeme is read as the same token in front of a
space and at the end of a text, unless only the end of the line ends it. So tokens in any order are
read back from their lexemes with a space between each and the next.
-/
namespace MoSyntax

/-- The lexemes with one space between each and the next. -/
def Token.spaced (tokens : List Token) : Text := [' '].intercalate (tokens.map Token.lexeme)

namespace Lexeme

theorem Stands.ended {lexeme : Lexeme} {rest : Text} (stands : lexeme.Stands rest) :
    lexeme.Stands [] := by
  have none (holds : Char → Bool) : Text.Stops holds [] := nofun
  cases stands with
  | feed => exact .feed
  | carriage => exact .carriage
  | comment inside => exact .comment inside (none _)
  | closed inside =>
    refine .closed (inside.imp (fun _ => ?_) fun line => ?_)
    · rintro _ ⟨⟩
      rfl
    · exact absurd (line '"' rfl) (by decide)
  | unclosed inside => exact .unclosed (inside.imp (fun _ => none _) fun _ => none _) (none _)
  | word starts inside => exact .word starts inside (none _)
  | whole starts inside => exact .whole starts inside (none _) fun _ _ _ point => nomatch point
  | fraction starts front goesOn back => exact .fraction starts front goesOn back (none _)
  | operator => exact .operator (none _)
  | punctuation => exact .punctuation (none _)

theorem Stands.spaced {lexeme : Lexeme} {rest : Text} (stands : lexeme.Stands rest)
    (ends : lexeme.runsOn = false) (more : Text) : lexeme.Stands (' ' :: more) :=
  stands.veil .gap (.inl rfl) fun runsOn => absurd runsOn (by simp [ends])

end Lexeme

/-- The token is read from its lexeme where a space or nothing follows. -/
def Token.Readable (token : Token) : Prop :=
  ∃ lexeme : Lexeme, token.kind = lexeme.kind ∧ token.lexeme = lexeme.text ∧ lexeme.Stands [] ∧
    ∀ more, lexeme.Stands (' ' :: more)

theorem Lexed.readable_of_mem {source : Text} {token : Token}
    (member : token ∈ (ofText source).tokens) (written : token.kind ≠ .endOfFile)
    (ends : ¬ RunsOn source token) : token.Readable := by
  obtain ⟨placed, among, lexeme, piece, rfl⟩ := exists_placed_of_mem member written
  obtain ⟨rest, stands⟩ := PlacedPiece.stands_of_mem among piece
  have closed : lexeme.runsOn = false := by
    rw [Bool.eq_false_iff]
    intro runsOn
    refine ends ?_
    unfold Lexeme.runsOn at runsOn
    split at runsOn
    · exact .inl rfl
    · refine .inr ⟨PlacedPiece.unterminatedString placed.span, ?_, rfl, rfl⟩
      rw [ofText_reports]
      exact List.mem_flatMap.2 ⟨placed, among, by simp [PlacedPiece.reports, piece]⟩
    · cases runsOn
  exact ⟨lexeme, rfl, rfl, stands.ended, stands.spaced closed⟩

theorem tokensFrom_spaced (table : LineTable) (start : Nat) {tokens : List Token}
    (readable : ∀ token ∈ tokens, token.Readable) :
    (tokensFrom table start (Token.spaced tokens)).map (fun token => (token.kind, token.lexeme)) =
      tokens.map fun token => (token.kind, token.lexeme) := by
  induction tokens generalizing start with
  | nil => rfl
  | cons token tokens ih =>
    obtain ⟨⟨lexeme, kind, text, ended, gap⟩, others⟩ := List.forall_mem_cons.1 readable
    have same : (lexeme.kind, lexeme.text) = (token.kind, token.lexeme) := by rw [kind, text]
    cases tokens with
    | nil =>
      have read := tokensFrom_lexeme ended table start
      rw [List.append_nil] at read
      rw [Token.spaced, List.map_singleton, List.intercalate_singleton, text, read, List.map_cons,
        same]
      rfl
    | cons next tokens =>
      have whole : Token.spaced (token :: next :: tokens) =
          lexeme.text ++ ' ' :: Token.spaced (next :: tokens) := by
        rw [Token.spaced, List.map_cons, List.map_cons, List.intercalate_cons_cons, text,
          List.append_assoc]
        rfl
      have blank : isBlank ' ' = true := rfl
      rw [whole, tokensFrom_lexeme (gap _), tokensFrom_blank blank, List.map_cons, ih _ others, same]
      rfl

/-- Tokens are read back from their lexemes. From tokens of a source in any order, each as often as one
likes, a text is made with one space between each and the next; it has just these tokens, with the same
kinds and lexemes, if none of them is a comment, the end of the source or a string that is not closed. -/
theorem Lexed.ofText_spaced (source : Text) (tokens : List Token)
    (taken : ∀ token ∈ tokens, token ∈ (ofText source).tokens ∧ token.kind ≠ .endOfFile ∧
      ¬ RunsOn source token) :
    (ofText (Token.spaced tokens)).tokens.map (fun token => (token.kind, token.lexeme)) =
      tokens.map (fun token => (token.kind, token.lexeme)) ++ [(.endOfFile, [])] := by
  have readable : ∀ token ∈ tokens, token.Readable := by
    intro token member
    obtain ⟨inside, written, ends⟩ := taken token member
    exact readable_of_mem inside written ends
  rw [ofText_tokens, List.map_append]
  exact congrArg (· ++ _) (tokensFrom_spaced _ 0 readable)

/-- Tokens that stood close to each other, turned round; the string behind them was not closed. -/
theorem Lexed.ofText_spaced_turned :
    ∃ tokens : List Token,
      (∀ token ∈ tokens, token ∈ (ofText "0b2.1:=<\"é\\q\"\r\n\"b".toList).tokens ∧
        token.kind ≠ .endOfFile ∧ ¬ RunsOn "0b2.1:=<\"é\\q\"\r\n\"b".toList token) ∧
      Token.spaced tokens = "\r\n \"é\\q\" < := 1 . 0b2".toList ∧
      (ofText (Token.spaced tokens)).tokens.map (fun token => (token.kind, token.lexeme)) =
        tokens.map (fun token => (token.kind, token.lexeme)) ++ [(.endOfFile, [])] := by
  let source := "0b2.1:=<\"é\\q\"\r\n\"b".toList
  let tokens := (ofText source).tokens.reverse.filter fun token =>
    decide (token.kind ≠ .endOfFile ∧ ¬ RunsOn source token)
  have taken : ∀ token ∈ tokens, token ∈ (ofText source).tokens ∧ token.kind ≠ .endOfFile ∧
      ¬ RunsOn source token := by decide +kernel
  exact ⟨tokens, taken, by decide +kernel, ofText_spaced source tokens taken⟩

end MoSyntax
