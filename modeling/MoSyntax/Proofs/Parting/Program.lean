import MoSyntax.Proofs.Parting.Body
import MoSyntax.Proofs.Parting.Line

/-!
Errors stay on their line. Between two bodies that are read without a report stands a line of any
tokens that ask for nothing on another line. The statements before it and behind it are read all the
same, and whatever is reported begins on that line or at its end.
-/
namespace MoSyntax

open MoSyntax.Parser

/-- The words that are not read within one line: those that begin a declaration, and those with a
block. -/
def spreadingWords : List TokenKind :=
  [.keyword .useWord, .keyword .structWord, .keyword .fnWord, .keyword .forWord, .keyword .ifWord,
    .keyword .elseWord]

theorem mem_spreadingWords_of_startsDeclaration {kind : TokenKind}
    (declares : kind.startsDeclaration) : kind ∈ spreadingWords := by
  cases kind with
  | keyword word => cases word <;> first | decide | exact absurd declares (by decide)
  | _ => exact absurd declares (by simp [TokenKind.startsDeclaration])

/-- An operator between two operands. -/
def TokenKind.joinsOperands : TokenKind → Bool
  | .operator sign => (BinaryOperator.ofSign? sign).isSome
  | _ => false

/-- One line that has neither a bracket nor a word with a block, and does not end with an operator
that would take an operand from the next line. Comments do not count. -/
structure LoneLine (line : Text) : Prop where
  feed : '\n' ∉ line
  carriage : '\r' ∉ line
  brackets : ∀ token ∈ grammarTokens line, token.kind.opens = false ∧ token.kind.closes = false
  words : ∀ token ∈ grammarTokens line, token.kind ∉ spreadingWords
  last : ∀ token ∈ (grammarTokens line).getLast?, token.kind.joinsOperands = false

theorem kinds_of_moved {tokens others : List Token} {move : Nat → Nat}
    (same : others.map Token.mark = (tokens.map (Token.relocate move)).map Token.mark) :
    others.map Token.kind = tokens.map Token.kind := by
  have kinds := congrArg (List.map Prod.fst) same
  rw [List.map_map, List.map_map, List.map_map] at kinds
  exact kinds

namespace LoneLine

variable {line : Text} {middle : List Token} (lone : LoneLine line)
  (kinds : middle.map Token.kind = (grammarTokens line).map Token.kind)

include kinds

theorem known {token : Token} (member : token ∈ middle) :
    ∃ other ∈ grammarTokens line, other.kind = token.kind :=
  List.mem_map.1 (kinds ▸ List.mem_map_of_mem member)

include lone

theorem ne_else {token : Token} (member : token ∈ middle) : token.kind ≠ .keyword .elseWord := by
  obtain ⟨other, among, same⟩ := known kinds member
  exact fun word => lone.words other among (same.trans word ▸ by decide)

theorem calm : Calm middle := by
  refine ⟨fun token member => ?_, fun token member => ?_, fun token member breaks => ?_,
    fun token final sign kind => ?_⟩
  · obtain ⟨other, among, same⟩ := known kinds member
    obtain ⟨opens, closes⟩ := lone.brackets other among
    have word := lone.words other among
    rw [same] at opens closes word
    simp only [spreadingWords, List.mem_cons, not_or] at word
    simp [TokenKind.spreads, opens, closes, word]
  · obtain ⟨other, among, same⟩ := known kinds member
    have word := lone.words other among
    exact Bool.eq_false_iff.2 fun declares =>
      word (same ▸ mem_spreadingWords_of_startsDeclaration declares)
  · obtain ⟨other, among, same⟩ := known kinds member
    exact lone.feed (feed_mem_of_lineBreak among (same.trans breaks))
  · have same := congrArg List.getLast? kinds
    rw [List.getLast?_map, List.getLast?_map, Option.mem_def.1 final] at same
    obtain ⟨other, among, alike⟩ := Option.map_eq_some_iff.1 same.symm
    have joins := lone.last other among
    rw [alike, kind] at joins
    simpa [TokenKind.joinsOperands] using joins

theorem head_ne_else {feed : Token} {rest : List Token} (breaks : feed.kind = .lineBreak)
    (plain : ∀ token ∈ (rest.dropWhile (·.kind == .lineBreak)).head?,
      token.kind ≠ .keyword .elseWord) :
    ∀ token ∈ ((middle ++ feed :: rest).dropWhile (·.kind == .lineBreak)).head?,
      token.kind ≠ .keyword .elseWord := by
  cases middle with
  | nil =>
    rw [List.nil_append, List.dropWhile_cons_of_pos (by simp [breaks])]
    exact plain
  | cons token middle =>
    have single := (lone.calm kinds).single token List.mem_cons_self
    rw [List.cons_append, List.dropWhile_cons_of_neg (by simpa using single)]
    rintro _ ⟨⟩
    exact lone.ne_else kinds List.mem_cons_self

end LoneLine

theorem sourceCursor_eof_moved {text other : Text} {more : Nat}
    (size : Text.byteSize other = more + Text.byteSize text) :
    (sourceCursor other none).eof.mark =
      ((sourceCursor text none).eof.relocate (more + ·)).mark := by
  rw [sourceCursor_eq, sourceCursor_eq, size]
  rfl

theorem within_of_moved {line : Text} {tokens : List Token} {start : Nat}
    (same : tokens.map Token.mark =
      ((grammarTokens line).map (Token.relocate (start + ·))).map Token.mark) :
    ∀ token ∈ tokens, start ≤ token.span.start ∧ token.span.start ≤ token.span.stop ∧
      token.span.stop ≤ start + Text.byteSize line := by
  intro token member
  have marks : token.mark ∈ tokens.map Token.mark := List.mem_map_of_mem member
  rw [same, List.map_map] at marks
  obtain ⟨other, among, mark⟩ := List.mem_map.1 marks
  have written : other ∈ Lexed.written line := List.mem_of_mem_filter among
  have solid := (Lexed.written_ordered line).solid other written
  have bound := Lexed.stop_le_of_mem_written written
  have span : token.span = other.span.relocate (start + ·) := (congrArg (·.2.2) mark).symm
  rw [span]
  simp only [Span.relocate]
  omega

namespace Confines

variable {middle : List Token} {feed : Token} {found : List (Option Stmt)}
  {reports : List Diagnostic} {start size : Nat} (confines : Confines middle feed found reports)
  (within : ∀ token ∈ middle, start ≤ token.span.start ∧ token.span.start ≤ token.span.stop ∧
    token.span.stop ≤ start + size)

include confines within

theorem statements_within : ∀ statement ∈ found.reduceOption,
    start ≤ statement.span.start ∧ statement.span.stop ≤ start + size := by
  intro statement member
  obtain ⟨part, sublist, spans⟩ := confines.statements statement (List.reduceOption_mem_iff.1 member)
  obtain ⟨first, _, rfl, starts⟩ := spans.starts
  obtain ⟨_, last, same, ends⟩ := spans.ends
  have head := within first (sublist.subset (by simp))
  have tail := within last (sublist.subset (by simp [same]))
  omega

theorem reports_within (ends : feed.span.start = start + size) : ∀ report ∈ reports,
    start ≤ report.span.start ∧ report.span.start ≤ start + size := by
  intro report told
  obtain ⟨first, member, last, final, after, before⟩ := confines.reports report told
  have head := within first member
  rcases List.mem_append.1 final with inside | behind
  · have tail := within last inside
    omega
  · obtain rfl := List.mem_singleton.1 behind
    omega

end Confines

section

variable {limit : Nat} {first second line : Text} {found found' : List (Option Stmt)}

/-- A body, the line and another body, up to its brace. -/
def around (first line second : Text) : Text := first ++ '\n' :: (line ++ '\n' :: withBrace second)

theorem bodyStart_around_eof (first line second : Text) :
    (bodyStart (around first line second)).eof.mark =
      ((bodyStart (withBrace second)).eof.relocate
        (Text.byteSize first + Text.byteSize line + 2 + ·)).mark := by
  rw [(bodyStart_passes _).1.eof, (bodyStart_passes _).1.eof]
  refine sourceCursor_eof_moved ?_
  rw [around, Text.byteSize_append, Text.byteSize_feed, Text.byteSize_feed,
    Text.byteSize_append fnHead]
  omega

variable (front : IsBody limit first found) (back : IsBody limit second found')
  (lone : LoneLine line)

include front back lone

theorem readBody_around :
    ∃ between later,
      (readBody limit (around first line second)).value = some (found ++ (between ++ later)) ∧
      later.reduceOption = found'.reduceOption.map
        (Stmt.relocate (Text.byteSize first + Text.byteSize line + 2 + ·)) ∧
      (∀ statement ∈ between.reduceOption,
        Text.byteSize (withHead first) ≤ statement.span.start ∧
          statement.span.stop ≤ Text.byteSize (withHead first) + Text.byteSize line) ∧
      (∀ report ∈ (readBody limit (around first line second)).reports,
        Text.byteSize (withHead first) ≤ report.span.start ∧
          report.span.start ≤ Text.byteSize (withHead first) + Text.byteSize line) ∧
      ∃ brace, (readBody limit (around first line second)).cursor.ahead = [brace] ∧
        brace.kind = .punctuation .rightBrace := by
  have ends : line.getLast? ≠ some '\r' := fun last => lone.carriage (List.mem_of_getLast? last)
  obtain ⟨middle, feed, rest, tokens, same, breaks, place, moved⟩ :=
    tokensBehind_feed (withHead first) ends fnHead (withBrace second)
  have within := within_of_moved same
  have stands := moved (Text.byteSize first + Text.byteSize line + 2)
    (by rw [byteSize_withHead]; omega)
  have plain := lone.head_ne_else (kinds_of_moved same) breaks (back.head_ne_else stands)
  obtain ⟨stop, leads, reached⟩ := front.leads (tokens ▸ plain)
  rw [tokens] at reached
  obtain ⟨used, passes⟩ := leads.passes
  have order := (sourceCursor_inOrder _ none).later (bodyStart_passes (around first line second)).1
  have there := passes.intact (bodyStart_intact _)
  -- Then the line, and behind it the other statements.
  obtain ⟨between, told, behind, further, left, confines⟩ :=
    @line_leads limit _ _ _ _ there (order.later passes) (lone.calm (kinds_of_moved same)) breaks
      reached
  obtain ⟨_, passes'⟩ := further.passes
  have eof : behind.eof = (bodyStart (around first line second)).eof :=
    passes'.eof.trans passes.eof
  obtain ⟨later, value, last, silent, ended⟩ :=
    back.read_moved (passes'.intact there) left stands (eof ▸ bodyStart_around_eof first line second)
  have all := leads.trans further
  refine ⟨between, later, ?_, last, confines.statements_within within, ?_, ?_⟩
  · exact all.value.trans (by rw [value, Option.map_some, List.append_assoc])
  · have reports := all.reports
    rw [silent, List.append_nil] at reports
    exact reports ▸ confines.reports_within within place
  · exact all.cursor ▸ ended

theorem reportsFrom_around :
    reportsFrom 0 (fnHead ++ around first line second) =
      (reportsFrom 0 line).map (Diagnostic.relocate (Text.byteSize (withHead first) + ·)) := by
  have ends : line.getLast? ≠ some '\r' := fun last => lone.carriage (List.mem_of_getLast? last)
  have above : reportsFrom 0 (withHead first) = [] := by
    have clean := front.lexed
    rw [show inFunction first = withHead first ++ ['\x7d'] by simp [inFunction, withBrace, withHead],
      reportsFrom_line (withHead_getLast first)] at clean
    exact (List.append_eq_nil_iff.1 clean).1
  have below : reportsFrom (Text.byteSize fnHead) (withBrace second) = [] := by
    have clean := back.lexed
    rw [inFunction, reportsFrom_line rfl, Nat.zero_add] at clean
    exact (List.append_eq_nil_iff.1 clean).2
  have whole : fnHead ++ around first line second =
      withHead first ++ (line ++ '\n' :: withBrace second) := by simp [around, withHead]
  have place : Text.byteSize (withHead first) + (Text.byteSize line + 1) =
      Text.byteSize first + Text.byteSize line + 2 + Text.byteSize fnHead := by
    rw [byteSize_withHead]
    omega
  rw [whole, reportsFrom_line (withHead_getLast first), above, Nat.zero_add, reportsFrom_feed ends,
    place, reportsFrom_add _ (Text.byteSize fnHead), below, ← reportsFrom_add]
  exact List.append_nil _

end

theorem start_le_of_mem_reportsFrom {text : Text} {report : Diagnostic}
    (member : report ∈ reportsFrom 0 text) : report.span.start ≤ Text.byteSize text := by
  obtain ⟨front, middle, back, whole, _, span⟩ := @marks_of_mem_reportsFrom [] text report member
  have size := congrArg Text.byteSize whole
  simp only [List.nil_append, Text.byteSize_append] at size
  rw [span]
  show Text.byteSize front ≤ Text.byteSize text
  omega

/-- Errors stay on their line. Two bodies are read without a report, each as the body of one function,
and a lone line comes to stand between them. Then still one function is read: the statements of the
first body, some that lie within the line, and those of the second where they have moved to. Every
report begins within the line or at the line break behind it. -/
theorem parse_line_confined {first line second name other : Text} {depth : Nat}
    {front back : List Stmt}
    (clean : (parse (inFunction first) name ⟨depth, none⟩).diagnostics = [])
    (one : (parse (inFunction first) name ⟨depth, none⟩).program.functionBody? = some front)
    (clean' : (parse (inFunction second) other ⟨depth, none⟩).diagnostics = [])
    (one' : (parse (inFunction second) other ⟨depth, none⟩).program.functionBody? = some back)
    (lone : LoneLine line) (another : Text) :
    ∃ middle, (parse (inFunction (first ++ '\n' :: (line ++ '\n' :: second))) another
        ⟨depth, none⟩).program.functionBody? = some (front ++ middle ++ back.map
          (Stmt.relocate (Text.byteSize first + Text.byteSize line + 2 + ·))) ∧
      (∀ statement ∈ middle, Text.byteSize (withHead first) ≤ statement.span.start ∧
        statement.span.stop ≤ Text.byteSize (withHead first) + Text.byteSize line) ∧
      ∀ diagnostic ∈ (parse (inFunction (first ++ '\n' :: (line ++ '\n' :: second))) another
          ⟨depth, none⟩).diagnostics,
        Text.byteSize (withHead first) ≤ diagnostic.span.start ∧
          diagnostic.span.start ≤ Text.byteSize (withHead first) + Text.byteSize line := by
  obtain ⟨found, above, rfl⟩ := IsBody.of_parse clean one
  obtain ⟨found', below, rfl⟩ := IsBody.of_parse clean' one'
  obtain ⟨between, later, value, moved, within, reports, brace, ends, closes⟩ :=
    readBody_around above below lone
  have whole : inFunction (first ++ '\n' :: (line ++ '\n' :: second)) =
      fnHead ++ around first line second := by simp [inFunction, around, withBrace]
  obtain ⟨⟨span, name, place, read⟩, told⟩ := declarations_of_body value ends closes
  rw [whole]
  refine ⟨between.reduceOption, ?_, within, fun diagnostic found => ?_⟩
  · rw [Program.functionBody?, parse_declarations, read, ← moved, ← List.reduceOption_append,
      ← List.reduceOption_append, List.append_assoc]
    rfl
  · obtain ⟨report, member, rfl⟩ := mem_diagnostics_iff.1 found
    show _ ≤ report.span.start ∧ report.span.start ≤ _
    rw [Lexed.ofText_reports, reportsFrom_around above below lone, told, List.append_assoc] at member
    rcases List.mem_append.1 member with lexical | parsed
    · obtain ⟨told, inside, rfl⟩ := List.mem_map.1 lexical
      have start := start_le_of_mem_reportsFrom inside
      exact ⟨Nat.le_add_right _ _, Nat.add_le_add_left start _⟩
    · exact reports report parsed

/-- A call without its bracket, a sign without a meaning and a string that is not closed. -/
def wrongLine : Text := "  g 1, § ret \"é // ".toList

def bodyBefore : Text := "  x := f(1)".toList

def bodyBehind : Text := "  y := 2 // é\n  ret y".toList

theorem wrongLine_lone : LoneLine wrongLine where
  feed := by decide
  carriage := by decide
  brackets := by decide +kernel
  words := by decide +kernel
  last := by decide +kernel

theorem parse_wrongLine :
    (parse (inFunction bodyBefore) unnamed ⟨64, none⟩).diagnostics = [] ∧
      (parse (inFunction bodyBehind) unnamed ⟨64, none⟩).diagnostics = [] ∧
      LoneLine wrongLine ∧
      (parse (inFunction (bodyBefore ++ '\n' :: (wrongLine ++ '\n' :: bodyBehind))) unnamed
        ⟨64, none⟩).diagnostics ≠ [] ∧
      (∀ diagnostic ∈ (parse (inFunction (bodyBefore ++ '\n' :: (wrongLine ++ '\n' :: bodyBehind)))
          unnamed ⟨64, none⟩).diagnostics,
        21 ≤ diagnostic.span.start ∧ diagnostic.span.start ≤ 42) ∧
      ∃ front back middle,
        (parse (inFunction bodyBefore) unnamed ⟨64, none⟩).program.functionBody? = some front ∧
          (parse (inFunction bodyBehind) unnamed ⟨64, none⟩).program.functionBody? = some back ∧
          (parse (inFunction (bodyBefore ++ '\n' :: (wrongLine ++ '\n' :: bodyBehind))) unnamed
            ⟨64, none⟩).program.functionBody? =
              some (front ++ middle ++ back.map (Stmt.relocate (34 + ·))) := by
  have clean : (parse (inFunction bodyBefore) unnamed ⟨64, none⟩).diagnostics = [] := by
    decide +kernel
  have clean' : (parse (inFunction bodyBehind) unnamed ⟨64, none⟩).diagnostics = [] := by
    decide +kernel
  have one : (parse (inFunction bodyBefore) unnamed ⟨64, none⟩).program.functionBody?.isSome := by
    decide +kernel
  have one' : (parse (inFunction bodyBehind) unnamed ⟨64, none⟩).program.functionBody?.isSome := by
    decide +kernel
  obtain ⟨front, first⟩ := Option.isSome_iff_exists.1 one
  obtain ⟨back, second⟩ := Option.isSome_iff_exists.1 one'
  obtain ⟨middle, body, _, reports⟩ :=
    parse_line_confined clean first clean' second wrongLine_lone unnamed
  exact ⟨clean, clean', wrongLine_lone, by decide +kernel, reports, front, back, middle, first,
    second, body⟩

end MoSyntax
