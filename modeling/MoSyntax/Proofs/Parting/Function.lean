import MoSyntax.Proofs.Lexing.Lines
import MoSyntax.Proofs.Parting.Rounds

/-!
A source that is one function: it is read without a report if its body is, up to the last brace.
-/
namespace MoSyntax

/-- The statements of a program that is one function. -/
def Program.functionBody? (program : Program) : Option (List Stmt) :=
  match program.declarations with
  | [.function _ _ _ _ body] => some body.statements
  | _ => none

theorem Program.functionBody?_eq_some {program : Program} {statements : List Stmt}
    (function : program.functionBody? = some statements) :
    ∃ span name parameters result body,
      program.declarations = [.function span name parameters result body] ∧
        body.statements = statements := by
  rw [functionBody?] at function
  split at function
  · rename_i span name parameters result body same
    exact ⟨span, name, parameters, result, body, same, Option.some.inj function⟩
  · simp at function

/-- How a function begins that has no parameters. -/
def fnHead : Text := "fn f() \x7b\n".toList

def fnTokens : List Token :=
  [⟨.keyword .fnWord, "fn".toList, ⟨0, 2⟩, ⟨1, 1⟩⟩, ⟨.identifier ['f'], ['f'], ⟨3, 4⟩, ⟨1, 4⟩⟩,
    ⟨.punctuation .leftParen, ['('], ⟨4, 5⟩, ⟨1, 5⟩⟩,
    ⟨.punctuation .rightParen, [')'], ⟨5, 6⟩, ⟨1, 6⟩⟩,
    ⟨.punctuation .leftBrace, ['\x7b'], ⟨7, 8⟩, ⟨1, 8⟩⟩]

def fnBreak : Token := ⟨.lineBreak, ['\n'], ⟨8, 9⟩, ⟨1, 9⟩⟩

theorem grammarTokens_fnHead : grammarTokens fnHead = fnTokens ++ [fnBreak] := rfl

namespace Parser

variable {α β : Type} {start stop inner : Cursor}

theorem map_of_some {first : Parser α} (make : α → β) {value : α}
    (found : (first start).value = some value) :
    ((first >>= fun value => pure (make value)) start).value = some (make value) ∧
      ((first >>= fun value => pure (make value)) start).reports = (first start).reports ∧
      ((first >>= fun value => pure (make value)) start).cursor = (first start).cursor := by
  rw [bind_of_some found]
  exact ⟨rfl, List.append_nil _, rfl⟩

section
variable {token : Token} {rest : List Token} (ahead : start.ahead = token :: rest)
  (visible : token.kind ≠ .lineBreak)

include ahead visible

theorem pastBreaks_of_visible : pastBreaks start = start := by
  rw [pastBreaks_eq, lineBreaksAhead, ahead, List.takeWhile_cons_of_neg (by simpa using visible)]
  rfl

theorem skipLineBreaks_of_visible : skipLineBreaks start = { value := some (), cursor := start } := by
  have opened : skipLineBreaks start = { value := some (), cursor := pastBreaks start } := rfl
  rw [opened, pastBreaks_of_visible ahead visible]

end

section
variable {stmt : Parser Stmt} (opens : start.current.kind == .punctuation .leftBrace)
  (enters : start.advance = inner)

include opens enters

theorem block_closed {found : List (Option Stmt)}
    (given : (many (nextStatement stmt) inner).value = some found)
    (closes : (many (nextStatement stmt) inner).cursor.current.kind = .punctuation .rightBrace) :
    ∃ place, (block stmt start).value = some (.braces place found.reduceOption) ∧
      (block stmt start).reports = (many (nextStatement stmt) inner).reports ∧
      (block stmt start).cursor = (many (nextStatement stmt) inner).cursor.advance := by
  subst enters
  rw [block_opened opens, bind_of_some given, bind_of_silent (closeBlock_found _ closes)]
  exact ⟨_, rfl, List.append_nil _, rfl⟩

theorem block_silent {body : Block} (read : (block stmt start).value = some body)
    (silent : (block stmt start).reports = []) :
    ∃ found, (many (nextStatement stmt) inner).value = some found ∧
      body.statements = found.reduceOption ∧
      (many (nextStatement stmt) inner).reports = [] ∧
      (many (nextStatement stmt) inner).cursor.current.kind = .punctuation .rightBrace ∧
      (block stmt start).cursor = (many (nextStatement stmt) inner).cursor.advance := by
  have opened : block stmt start = _ := block_opened opens
  rw [enters] at opened
  cases given : (many (nextStatement stmt) inner).value with
  | none =>
    rw [opened, bind_of_none given] at read
    simp at read
  | some found =>
    by_cases closes : (many (nextStatement stmt) inner).cursor.current.kind =
        .punctuation .rightBrace
    · obtain ⟨place, value, reports, cursor⟩ := block_closed opens enters given closes
      obtain rfl := Option.some.inj (value.symm.trans read)
      exact ⟨found, rfl, rfl, reports.symm.trans silent, closes, cursor⟩
    · rw [opened, bind_of_some given] at silent
      obtain ⟨_, missing⟩ := List.append_eq_nil_iff.1 silent
      have told := closeBlock_missing start.current.span closes
      exact absurd (List.prefix_nil.1 (missing ▸ reports_bind _ _ _)) told

end

theorem parameters_none (type : Parser TypeExpr) {left right : Token} {rest : List Token}
    (ahead : start.ahead = left :: right :: rest) (opens : left.kind = .punctuation .leftParen)
    (closes : right.kind = .punctuation .rightParen) :
    parameters type start = { value := some [], cursor := start.advanceBy 2 } := by
  have behind : start.advance.ahead = right :: rest := by rw [Cursor.ahead_advance, ahead]; rfl
  have second : start.advance.current.kind == .punctuation .rightParen := by
    rw [Cursor.current_of_ahead behind, closes]
    rfl
  have items : itemsBefore (typedName "expected a parameter name" type) .rightParen start.advance =
      { value := some [], cursor := start.advance } := by
    have breaks := skipLineBreaks_of_visible behind (by simp [closes])
    have ends : check (.punctuation .rightParen) start.advance =
        { value := some (start.advance.current.kind == .punctuation .rightParen)
          cursor := start.advance } := rfl
    rw [second] at ends
    rw [itemsBefore, bind_of_silent breaks, bind_of_silent ends]
    rfl
  have list (message : String) :
      listUntil (typedName "expected a parameter name" type) .rightParen message start.advance =
        { value := some ([], start.advance.current.span), cursor := start.advance.advance } := by
    rw [listUntil, bind_of_silent items, bind_of_silent (expect_found second _)]
    rfl
  have first : start.current.kind == .punctuation .leftParen := by
    rw [Cursor.current_of_ahead ahead, opens]
    rfl
  rw [parameters, bind_of_silent (expect_found first _), bind_of_silent (list _)]
  rfl

theorem fnDeclaration_fnTokens (type : Parser TypeExpr) (stmt : Parser Stmt) {rest : List Token}
    (ahead : start.ahead = fnTokens ++ rest) :
    fnDeclaration type stmt start =
      (block stmt >>= fun body =>
        pure (.function (Span.through ⟨0, 2⟩ body.span) ⟨⟨3, 4⟩, ['f']⟩ [] none body))
          (start.advanceBy 4) := by
  obtain ⟨passed, _, eof, beyond⟩ := start
  subst ahead
  let place (count : Nat) : Cursor := Cursor.advanceBy count ⟨passed, fnTokens ++ rest, eof, beyond⟩
  have named (message : String) : ident message (place 1) =
      { value := some ⟨⟨3, 4⟩, ['f']⟩, cursor := place 2 } := rfl
  have result : resultType type (place 4) = { value := some none, cursor := place 4 } := rfl
  have breaks : skipLineBreaks (place 4) = { value := some (), cursor := place 4 } := rfl
  exact (bind_of_silent (expect_found rfl _)).trans <| (bind_of_silent (named _)).trans <|
    (bind_of_silent (parameters_none type rfl rfl rfl)).trans <| (bind_of_silent result).trans <|
    bind_of_silent breaks

theorem topLevel_function (type : Parser TypeExpr) (stmt : Parser Stmt)
    (here : start.current.kind = .keyword .fnWord) :
    topLevel type stmt start = fnDeclaration type stmt start := by
  rw [topLevel, bind_of_some (rfl : (current start).value = some start.current), here]
  rfl

theorem nextDeclaration_read {decl : Parser Decl} (more : ¬ (pastBreaks start).atEnd)
    {declaration : Decl} (found : (decl (pastBreaks start)).value = some declaration) :
    nextDeclaration decl start =
      { decl (pastBreaks start) with value := some (some (some declaration)) } := by
  rw [nextDeclaration_behind, if_neg more, recover, found]

section
variable {limit : Nat} {declaration : Decl}

theorem nextDeclaration_silent (intact : start.Intact) (more : ¬ (pastBreaks start).atEnd)
    (silent : (nextDeclaration (fileLevel limit) start).reports = []) :
    (fileLevel limit (pastBreaks start)).reports = [] ∧
      ∃ declaration, (fileLevel limit (pastBreaks start)).value = some declaration := by
  have opened := nextDeclaration_behind (fileLevel limit) start
  rw [if_neg more] at opened
  have behind := reports_recover (fileLevel limit) (resynchronize (pastBreaks start))
    (pastBreaks start)
  have quiet : (fileLevel limit (pastBreaks start)).reports = [] := by
    rw [opened] at silent
    exact List.prefix_nil.1 (silent ▸ behind)
  refine ⟨quiet, ?_⟩
  have there := (pastBreaks_passes start).1.intact intact
  obtain ⟨_, _, _, holds⟩ := fileLevel_sound limit _ there
  cases found : (fileLevel limit (pastBreaks start)).value with
  | some declaration => exact ⟨declaration, rfl⟩
  | none =>
    simp only [found] at holds
    exact absurd quiet holds

theorem declarations_single (intact : start.Intact) (more : ¬ (pastBreaks start).atEnd)
    (found : (fileLevel limit (pastBreaks start)).value = some declaration)
    (ends : (pastBreaks (fileLevel limit (pastBreaks start)).cursor).atEnd) :
    (declarations limit start).value = some [declaration] ∧
      (declarations limit start).reports = (fileLevel limit (pastBreaks start)).reports := by
  have rounds := declaration_rounds limit
  have round := nextDeclaration_read more found
  obtain ⟨values, told⟩ :=
    many_of_some rounds.advances rounds.keeps intact (congrArg Reply.value round)
  have last := nextDeclaration_behind (fileLevel limit) (fileLevel limit (pastBreaks start)).cursor
  rw [if_pos ends] at last
  obtain ⟨none, silent⟩ := many_of_none (congrArg Reply.value last)
  obtain ⟨value, reports⟩ := declarations_eq limit start
  rw [round, none] at values
  rw [round, silent, last] at told
  exact ⟨by rw [value, Parser.rounds, values]; rfl, by rw [reports, Parser.rounds, told]; simp⟩

theorem fileLevel_of_single (intact : start.Intact) (more : ¬ (pastBreaks start).atEnd)
    (read : (declarations limit start).value = some [declaration])
    (silent : (declarations limit start).reports = []) :
    (fileLevel limit (pastBreaks start)).value = some declaration ∧
      (fileLevel limit (pastBreaks start)).reports = [] ∧
      (pastBreaks (fileLevel limit (pastBreaks start)).cursor).atEnd := by
  have rounds := declaration_rounds limit
  obtain ⟨value, reports⟩ := declarations_eq limit start
  have opened := nextDeclaration_behind (fileLevel limit) start
  rw [if_neg more] at opened
  obtain ⟨values, told⟩ :=
    many_of_some rounds.advances rounds.keeps intact (congrArg Reply.value opened)
  rw [value, Parser.rounds, values] at read
  rw [reports, Parser.rounds, told, List.append_eq_nil_iff] at silent
  obtain ⟨quiet, first, found⟩ := nextDeclaration_silent intact more silent.1
  have round := nextDeclaration_read more found
  have there := rounds.keeps start intact
  rw [round] at read silent there
  rw [found] at read
  obtain ⟨_, left, same⟩ := Option.map_eq_some_iff.1 read
  obtain ⟨rest, others, rfl⟩ := Option.map_eq_some_iff.1 left
  obtain ⟨rfl, none⟩ := List.cons.inj same
  refine ⟨found, quiet, ?_⟩
  -- Another round would read another declaration.
  by_contra goesOn
  have next := nextDeclaration_behind (fileLevel limit) (fileLevel limit (pastBreaks start)).cursor
  rw [if_neg goesOn] at next
  obtain ⟨values, told⟩ :=
    many_of_some rounds.advances rounds.keeps there (congrArg Reply.value next)
  rw [told, List.append_eq_nil_iff] at silent
  obtain ⟨_, second, more⟩ := nextDeclaration_silent there goesOn silent.2.1
  rw [more] at values
  rw [values] at others
  obtain ⟨_, _, rfl⟩ := Option.map_eq_some_iff.1 others
  exact absurd none (List.cons_ne_nil _ _)

end

end Parser

open MoSyntax.Parser

section
variable (limit : Nat) (more : Text)

/-- The place behind the opening brace. -/
def bodyStart : Cursor := (sourceCursor (fnHead ++ more) none).advanceBy 5

theorem bodyStart_eq :
    ((sourceCursor (fnHead ++ more) none).advanceBy 4).advance = bodyStart more := rfl

abbrev readBody : Reply (List (Option Stmt)) :=
  many (nextStatement (statement limit limit)) (bodyStart more)

theorem sourceCursor_fnHead :
    (sourceCursor (fnHead ++ more) none).ahead = fnTokens ++ fnBreak :: tokensBehind fnHead more := by
  rw [sourceCursor_eq]
  show grammarTokens (fnHead ++ more) = _
  rw [grammarTokens_line rfl, grammarTokens_fnHead, List.append_assoc]
  rfl

theorem bodyStart_passes :
    (sourceCursor (fnHead ++ more) none).Passes fnTokens (bodyStart more) ∧
      (bodyStart more).ahead = fnBreak :: tokensBehind fnHead more :=
  Cursor.advanceBy_passes fnTokens _ (sourceCursor_fnHead more)

theorem bodyStart_intact : (bodyStart more).Intact :=
  (bodyStart_passes more).1.intact (sourceCursor_intact _ _)

theorem fileLevel_fnHead :
    fileLevel limit (sourceCursor (fnHead ++ more) none) =
      (block (statement limit limit) >>= fun body =>
        pure (.function (Span.through ⟨0, 2⟩ body.span) ⟨⟨3, 4⟩, ['f']⟩ [] none body))
          ((sourceCursor (fnHead ++ more) none).advanceBy 4) := by
  have ahead := sourceCursor_fnHead more
  have current := Cursor.current_of_ahead ahead
  exact (topLevel_function _ _ (by rw [current])).trans (fnDeclaration_fnTokens _ _ ahead)

theorem opensBody :
    ((sourceCursor (fnHead ++ more) none).advanceBy 4).current.kind == .punctuation .leftBrace := by
  obtain ⟨_, ahead⟩ :=
    Cursor.advanceBy_passes (fnTokens.take 4) _ (sourceCursor_fnHead more)
  have current := Cursor.current_of_ahead ahead
  rw [show (fnTokens.take 4).length = 4 from rfl] at current
  rw [current]
  rfl

theorem fnHead_here :
    pastBreaks (sourceCursor (fnHead ++ more) none) = sourceCursor (fnHead ++ more) none ∧
      ¬ (pastBreaks (sourceCursor (fnHead ++ more) none)).atEnd := by
  have ahead := sourceCursor_fnHead more
  have here := pastBreaks_of_visible ahead (by simp)
  exact ⟨here, by rw [here, Cursor.atEnd, ahead]; simp [fnTokens]⟩

theorem readBody_intact : (readBody limit more).cursor.Intact := by
  have stmts := statement_sound limit limit (Nat.le_refl _)
  have rounds := nextStatement_sound stmts fun _ _ _ => StmtReading.ne_nil
  exact (Sound.many rounds).keeps _ (bodyStart_intact more)

variable {limit more}

/-- If the body ends at the last brace, the source is one function, and the reports are those on its
body. -/
theorem declarations_of_body {found : List (Option Stmt)} {brace : Token}
    (given : (readBody limit more).value = some found)
    (ends : (readBody limit more).cursor.ahead = [brace])
    (closes : brace.kind = .punctuation .rightBrace) :
    (∃ span name place, (declarations limit (sourceCursor (fnHead ++ more) none)).value =
      some [.function span name [] none (.braces place found.reduceOption)]) ∧
      (declarations limit (sourceCursor (fnHead ++ more) none)).reports =
        (readBody limit more).reports := by
  obtain ⟨here, goesOn⟩ := fnHead_here more
  obtain ⟨place, read, reports, cursor⟩ :=
    block_closed (opensBody more) (bodyStart_eq more) given (Cursor.current_of_ahead ends ▸ closes)
  obtain ⟨found, told, stop⟩ := map_of_some
    (fun body : Block => Decl.function (Span.through ⟨0, 2⟩ body.span) ⟨⟨3, 4⟩, ['f']⟩ [] none body)
    read
  rw [← fileLevel_fnHead] at found told stop
  have behind : (fileLevel limit (sourceCursor (fnHead ++ more) none)).cursor.ahead = [] := by
    rw [stop, cursor, Cursor.ahead_advance, ends]
    rfl
  rw [← here] at found behind
  obtain ⟨value, reports'⟩ := declarations_single (sourceCursor_intact _ _) goesOn found
    (by rw [Cursor.atEnd, (pastBreaks_passes _).2, behind]; rfl)
  exact ⟨⟨_, _, place, value⟩, by rw [reports', here, told, reports]⟩

/-- If the source is one function and nothing is reported, its body is read up to a brace, and only
line breaks stand behind that. -/
theorem body_of_declarations {span : Span} {name : Ident} {parameters : List TypedName}
    {result : Option TypeExpr} {body : Block}
    (read : (declarations limit (sourceCursor (fnHead ++ more) none)).value =
      some [.function span name parameters result body])
    (silent : (declarations limit (sourceCursor (fnHead ++ more) none)).reports = []) :
    ∃ found, (readBody limit more).value = some found ∧ body.statements = found.reduceOption ∧
      (readBody limit more).reports = [] ∧
      ∃ brace rest, (readBody limit more).cursor.ahead = brace :: rest ∧
        brace.kind = .punctuation .rightBrace ∧ Breaks rest := by
  obtain ⟨here, goesOn⟩ := fnHead_here more
  obtain ⟨value, quiet, ends⟩ :=
    fileLevel_of_single (sourceCursor_intact _ _) goesOn read silent
  rw [here, fileLevel_fnHead] at value quiet ends
  cases given : (block (statement limit limit)
      ((sourceCursor (fnHead ++ more) none).advanceBy 4)).value with
  | none =>
    rw [bind_of_none given] at value
    simp at value
  | some braces =>
    obtain ⟨same, told, stop⟩ := map_of_some
      (fun body : Block => Decl.function (Span.through ⟨0, 2⟩ body.span) ⟨⟨3, 4⟩, ['f']⟩ [] none body)
      given
    rw [same] at value
    obtain ⟨_, _, _, _, rfl⟩ := Decl.function.inj (Option.some.inj value)
    obtain ⟨found, statements, same, clean, closes, cursor⟩ :=
      block_silent (opensBody more) (bodyStart_eq more) given (told.symm.trans quiet)
    obtain ⟨rest, ahead⟩ := Cursor.ahead_of_current (readBody_intact limit more)
      fun none => absurd (none.symm.trans closes) (by simp)
    refine ⟨found, statements, same, clean, _, rest, ahead, closes, ?_⟩
    have left := (pastBreaks_passes (readBody limit more).cursor.advance).2
    rw [Cursor.ahead_advance, ahead] at left
    rw [stop, cursor, Cursor.atEnd, left] at ends
    simpa [Breaks] using ends

end

attribute [irreducible] bodyStart

end MoSyntax
