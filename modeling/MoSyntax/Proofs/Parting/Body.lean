import MoSyntax.Proofs.Parting.Function
import MoSyntax.Proofs.Yield.Brackets

/-!
The body of a function that is read without a report: its brackets are balanced, and it does not
begin with `else`.
-/
namespace MoSyntax

open MoSyntax.Parser

/-- A text below the head of the function. -/
def withHead (text : Text) : Text := fnHead ++ (text ++ ['\n'])

/-- A text and a closing brace below it. -/
def withBrace (text : Text) : Text := text ++ "\n\x7d".toList

def inFunction (body : Text) : Text := fnHead ++ withBrace body

theorem withHead_getLast (text : Text) : (withHead text).getLast? = some '\n' := by simp [withHead]

theorem byteSize_withHead (text : Text) :
    Text.byteSize (withHead text) = Text.byteSize fnHead + Text.byteSize text + 1 := by
  rw [withHead, Text.byteSize_append, Text.byteSize_append, ← Nat.add_assoc]
  rfl

/-! Statements do not begin with `else`. -/

theorem ne_else_of_inExpr {kind : TokenKind} (expr : kind.inExpr) : kind ≠ .keyword .elseWord := by
  rintro rfl
  exact absurd expr (by decide)

theorem Expr.head_ne_else (expr : Expr) {rest : List TokenKind}
    (others : ∀ kind ∈ rest.head?, kind ≠ .keyword .elseWord) :
    ∀ kind ∈ (expr.kinds ++ rest).head?, kind ≠ .keyword .elseWord := by
  intro kind head
  cases kinds : expr.kinds with
  | nil => exact others kind (by simpa [kinds] using head)
  | cons first more =>
    have same : first = kind := by simpa [kinds] using head
    exact ne_else_of_inExpr (expr.inExpr_of_mem kind (by simp [kinds, same]))

theorem Stmt.head_ne_else (statement : Stmt) :
    ∀ kind ∈ (statement.kinds []).head?, kind ≠ .keyword .elseWord := by
  cases statement with
  | ifElse _ _ _ otherwise => cases otherwise <;> simp [Stmt.kinds]
  | ret _ value => cases value <;> simp [Stmt.kinds]
  | declare _ _ type _ => simp [Stmt.kinds, Ident.kinds]
  | assign _ target _ => exact target.head_ne_else (by simp)
  | compoundAssign _ target _ _ => exact target.head_ne_else (by simp)
  | expression value => simpa [Stmt.kinds] using @Expr.head_ne_else value [] (by simp)
  | block body =>
    cases body
    simp [Stmt.kinds, Block.kinds, braced]
  | _ => simp [Stmt.kinds]

section
variable {limit : Nat} {used : List Token} {statements : List Stmt}

theorem BodyReading.balanced
    (reads : BodyReading Breaks (StmtReading limit limit) used statements []) :
    Skip.Balanced (used.map Token.kind) := by
  have yields := reads.yields id
    (fun _ breaks _ => by rw [Breaks.kindsOf breaks]; rfl)
    (fun _ _ _ reads quiet _ => by rw [StmtReading.yielding limit limit _ _ _ reads quiet]; rfl)
    rfl []
  simp only [List.append_nil, id] at yields
  intro depth
  rw [← Skip.foldl_kindsOf, yields, List.flatMap_def, ← stmtKinds_eq]
  exact Skip.Balanced.flatten (stmtKinds_balanced statements) depth

theorem StmtReading.head_ne_else {statement : Stmt} {token : Token} {rest : List Token}
    (reads : StmtReading limit limit (token :: rest) statement [])
    (visible : token.kind ≠ .lineBreak) : token.kind ≠ .keyword .elseWord := by
  have yields := StmtReading.yielding limit limit _ _ _ reads rfl
  rw [kindsOf_cons visible] at yields
  exact statement.head_ne_else token.kind (by rw [← yields]; rfl)

end

def bodyTokens (text : Text) : List Token := fnBreak :: tokensBehind fnHead (text ++ ['\n'])

/-- A body that is read without a report, up to the brace behind it. -/
structure IsBody (limit : Nat) (text : Text) (found : List (Option Stmt)) : Prop where
  value : (readBody limit (withBrace text)).value = some found
  reports : (readBody limit (withBrace text)).reports = []
  reads : BodyReading Breaks (StmtReading limit limit) (bodyTokens text) found.reduceOption []
  passes : (bodyStart (withBrace text)).Passes (bodyTokens text)
    (readBody limit (withBrace text)).cursor
  ends : ∃ brace, (readBody limit (withBrace text)).cursor.ahead = [brace] ∧
    brace.kind = .punctuation .rightBrace
  lexed : reportsFrom 0 (inFunction text) = []

theorem bodyStart_ahead (text more : Text) :
    (bodyStart (text ++ '\n' :: more)).ahead =
      bodyTokens text ++ tokensBehind (withHead text) more := by
  have apart := @tokensBehind_append fnHead (text ++ ['\n']) rfl (by simp) more
  rw [List.append_assoc] at apart
  rw [(bodyStart_passes _).2, bodyTokens, List.cons_append, withHead, ← apart]
  rfl

theorem bodyTokens_getLast (text : Text) :
    ∃ front feed, bodyTokens text = front ++ [feed] ∧ feed.kind = .lineBreak := by
  obtain ⟨front, feed, tokens, breaks⟩ := @tokensBehind_getLast fnHead (text ++ ['\n']) (by simp)
  exact ⟨fnBreak :: front, feed, by rw [bodyTokens, tokens]; rfl, breaks⟩

theorem tokensBehind_brace (text : Text) :
    ∃ brace, tokensBehind text ['\x7d'] = [brace] ∧ brace.kind = .punctuation .rightBrace :=
  ⟨_, rfl, rfl⟩

/-- If only line breaks follow one of the tokens, and the last one is not a line break, it is that. -/
theorem append_singleton_eq {front used rest : List Token} {last token : Token}
    (whole : front ++ [last] = used ++ token :: rest) (visible : last.kind ≠ .lineBreak)
    (breaks : Breaks rest) : used = front ∧ token = last ∧ rest = [] := by
  rcases List.eq_nil_or_concat rest with rfl | ⟨others, final, rfl⟩
  · obtain ⟨same, tokens⟩ := List.append_inj' whole rfl
    exact ⟨same.symm, (List.singleton_inj.1 tokens).symm, rfl⟩
  · rw [List.concat_eq_append, ← List.cons_append, ← List.append_assoc] at whole
    obtain ⟨_, tokens⟩ := List.append_inj' whole rfl
    obtain rfl := List.singleton_inj.1 tokens
    exact absurd (breaks last (by simp)) visible

theorem read_of_functionBody? {source name : Text} {depth : Nat} {statements : List Stmt}
    (function : (parse source name ⟨depth, none⟩).program.functionBody? = some statements) :
    ∃ span name parameters result body,
      (Parser.declarations depth (sourceCursor source none)).value =
        some [.function span name parameters result body] ∧ body.statements = statements := by
  obtain ⟨span, name, parameters, result, body, same, inner⟩ :=
    Program.functionBody?_eq_some function
  rw [parse_declarations] at same
  refine ⟨span, name, parameters, result, body, ?_, inner⟩
  cases found : (Parser.declarations depth (sourceCursor source none)).value with
  | none => simp [found] at same
  | some read =>
    rw [found] at same
    exact congrArg some same

theorem parse_silent {source name : Text} {depth : Nat}
    (clean : (parse source name ⟨depth, none⟩).diagnostics = []) :
    reportsFrom 0 source = [] ∧
      (Parser.declarations depth (sourceCursor source none)).reports = [] := by
  have silent := Bag.reported_eq_nil clean
  simp only [List.append_eq_nil_iff, Lexed.ofText_reports] at silent
  exact ⟨silent.1.1, silent.2⟩

theorem statements_reads {limit : Nat} {start : Cursor} (intact : start.Intact)
    {found : List (Option Stmt)}
    (value : (many (nextStatement (statement limit limit)) start).value = some found)
    (silent : (many (nextStatement (statement limit limit)) start).reports = []) :
    ∃ used, start.Passes used (many (nextStatement (statement limit limit)) start).cursor ∧
      BodyReading Breaks (StmtReading limit limit) used found.reduceOption [] := by
  have rounds := nextStatement_sound (statement_sound limit limit (Nat.le_refl _))
    fun _ _ _ => StmtReading.ne_nil
  obtain ⟨_, used, passes, reads⟩ := Sound.many rounds start intact
  rw [silent, value] at reads
  exact ⟨used, passes, .body reads⟩

theorem IsBody.of_parse {text name : Text} {depth : Nat} {statements : List Stmt}
    (clean : (parse (inFunction text) name ⟨depth, none⟩).diagnostics = [])
    (function : (parse (inFunction text) name ⟨depth, none⟩).program.functionBody? =
      some statements) :
    ∃ found, IsBody depth text found ∧ found.reduceOption = statements := by
  obtain ⟨lexed, parsed⟩ := parse_silent clean
  obtain ⟨_, _, _, _, _, read, inner⟩ := read_of_functionBody? function
  obtain ⟨found, value, same, reports, brace, rest, ahead, closes, breaks⟩ :=
    body_of_declarations read parsed
  obtain ⟨used, passes, reads⟩ := statements_reads (bodyStart_intact _) value reports
  obtain ⟨last, tokens, closes'⟩ := tokensBehind_brace (withHead text)
  have whole : bodyTokens text ++ [last] = used ++ brace :: rest := by
    rw [← tokens, ← ahead, ← passes.ahead]
    exact (bodyStart_ahead text ['\x7d']).symm
  obtain ⟨rfl, rfl, rfl⟩ := append_singleton_eq whole (by simp [closes']) breaks
  exact ⟨found, ⟨value, reports, reads, passes, ⟨_, ahead, closes⟩, lexed⟩,
    same.symm.trans inner⟩

theorem IsBody.level {text : Text} {limit : Nat} {found : List (Option Stmt)}
    (body : IsBody limit text found) :
    Skip.levelAfter? 0 ((bodyTokens text).map Token.kind) = some 0 :=
  body.reads.balanced.levelAfter? 0

theorem head_ne_else_of_silent {limit : Nat} {start : Cursor} (intact : start.Intact)
    (silent : (many (nextStatement (statement limit limit)) start).reports = []) :
    ∀ token ∈ (pastBreaks start).ahead.head?, token.kind ≠ .keyword .elseWord := by
  intro token head word
  have sound := statement_sound limit limit (Nat.le_refl _)
  obtain ⟨rest, ahead⟩ : ∃ rest, (pastBreaks start).ahead = token :: rest :=
    List.head?_eq_some_iff.1 head
  have goesOn : ¬ endsBlock (pastBreaks start) := by
    rw [endsBlock, Cursor.atEnd, Cursor.current_of_ahead ahead, ahead, word,
      List.isEmpty_cons]
    decide
  -- The first round would read a statement that begins with it.
  have leads := Leads.statement sound (fun _ _ _ => StmtReading.ne_nil) intact goesOn
  have opened := nextStatement_behind (statement limit limit) start
  rw [if_neg goesOn] at opened
  rw [leads.reports, opened, List.append_eq_nil_iff] at silent
  have quiet := List.prefix_nil.1 (silent.1 ▸ reports_recover (statement limit limit) skipStatement _)
  obtain ⟨_, used, passes, holds⟩ := sound _ ((pastBreaks_passes start).1.intact intact)
  rw [quiet] at holds
  cases value : (statement limit limit (pastBreaks start)).value with
  | none =>
    rw [value] at holds
    exact absurd rfl holds
  | some statement =>
    rw [value] at holds
    obtain ⟨first, others, rfl⟩ := List.exists_cons_of_ne_nil (StmtReading.ne_nil holds)
    obtain ⟨rfl, _⟩ := List.cons.inj (ahead.symm.trans passes.ahead)
    exact StmtReading.head_ne_else holds (by simp [word]) word

/-- Tokens with balanced brackets and a line break behind them are alike to themselves. -/
theorem Parting.Alike.of_level {c : Parting} (wild : ¬ c.mild) {front : List Token} {feed : Token}
    (breaks : feed.kind = .lineBreak) {depth : Nat}
    (level : Skip.levelAfter? depth ((front ++ [feed]).map Token.kind) = some 0) :
    c.Alike depth (front ++ feed :: c.left) (front ++ feed :: c.right) := by
  induction front generalizing depth with
  | nil =>
    have feeds : Skip.levelAfter? depth [feed.kind] = some depth := by rw [breaks]; rfl
    obtain rfl : depth = 0 := Option.some.inj (feeds.symm.trans level)
    exact .feed breaks
  | cons first front ih =>
    rw [List.cons_append, List.map_cons, Skip.levelAfter?, List.foldlM_cons] at level
    obtain ⟨next, step, further⟩ := Option.bind_eq_some_iff.1 level
    exact .token step (fun mild => absurd mild wild) (ih further)

theorem aligned_brace {c : Comparison} (whole : c.tail = []) {depth : Nat} {brace : Token}
    {others : List Token} (closes : brace.kind = .punctuation .rightBrace)
    (aligned : c.Aligned depth [brace] others) :
    ∃ brace', others = [brace'] ∧ brace'.kind = .punctuation .rightBrace := by
  obtain ⟨_, none, _⟩ | ⟨cut, _⟩ | ⟨_, _, second, rest, here, rfl, alike⟩ := aligned.head
  · simp at none
  · exact absurd whole cut
  · obtain ⟨rfl, rfl⟩ := List.cons.inj here
    have further : c.Aligned 0 [] rest := (aligned.behind (by simp [closes]) (absurd whole)).1
    obtain ⟨_, _, rfl⟩ | ⟨cut, _⟩ | ⟨_, _, _, _, none, _⟩ := further.head
    · exact ⟨second, rfl, alike.kind.symm.trans closes⟩
    · exact absurd whole cut
    · simp at none

namespace IsBody

variable {text : Text} {limit : Nat} {found : List (Option Stmt)} (body : IsBody limit text found)

include body

/-- Whatever follows the body instead of its brace, its statements are read all the same. -/
theorem leads {more : Text}
    (plain : ∀ token ∈ ((tokensBehind (withHead text) more).dropWhile
      (·.kind == .lineBreak)).head?, token.kind ≠ .keyword .elseWord) :
    ∃ stop, Leads (nextStatement (statement limit limit)) (bodyStart (text ++ '\n' :: more)) found []
        stop ∧
      (pastBreaks stop).ahead =
        (tokensBehind (withHead text) more).dropWhile (·.kind == .lineBreak) := by
  obtain ⟨brace, ends, closes⟩ := body.ends
  let c : Parting := ⟨[brace], tokensBehind (withHead text) more, False,
    .inr ⟨brace, [], rfl, closes⟩, .inr plain⟩
  obtain ⟨front, feed, tokens, breaks⟩ := bodyTokens_getLast text
  have alike : c.Alike 0 (bodyStart (withBrace text)).ahead
      (bodyStart (text ++ '\n' :: more)).ahead := by
    have alike : c.Alike 0 (front ++ feed :: c.left) (front ++ feed :: c.right) :=
      .of_level not_false breaks (tokens ▸ body.level)
    rw [body.passes.ahead, ends, bodyStart_ahead, tokens, List.append_assoc, List.append_assoc]
    exact alike
  have like : c.Cursors 0 (bodyStart (withBrace text)) (bodyStart (text ++ '\n' :: more)) :=
    ⟨bodyStart_intact _, bodyStart_intact _, alike⟩
  exact like.leads (statement_sound limit limit (Nat.le_refl _)) (fun _ _ _ => StmtReading.ne_nil)
    (.statement limit (Nat.le_refl _) 0) not_false body.value body.reports ends

theorem head_ne_else {back : List Token} {move : Nat → Nat}
    (same : back.map Token.mark = ((tokensBehind fnHead (withBrace text)).map
      (Token.relocate move)).map Token.mark) :
    ∀ token ∈ (back.dropWhile (·.kind == .lineBreak)).head?, token.kind ≠ .keyword .elseWord := by
  intro token head
  obtain ⟨rest, ahead⟩ := List.head?_eq_some_iff.1 head
  have moved := dropWhile_moved same
  rw [ahead, List.map_map] at moved
  obtain ⟨first, others, tokens, mark, _⟩ := List.map_eq_cons_iff.1 moved.symm
  have kind : first.kind = token.kind := congrArg Prod.fst mark
  rw [← kind]
  refine head_ne_else_of_silent (bodyStart_intact _) body.reports first ?_
  rw [(pastBreaks_passes _).2, (bodyStart_passes _).2, List.dropWhile_cons_of_pos (by rfl), tokens]
  rfl

theorem read_moved {start : Cursor} {back : List Token} {move : Nat} (intact : start.Intact)
    (ahead : (pastBreaks start).ahead = back.dropWhile (·.kind == .lineBreak))
    (same : back.map Token.mark = ((tokensBehind fnHead (withBrace text)).map
      (Token.relocate (move + ·))).map Token.mark)
    (eof : start.eof.mark =
      ((bodyStart (withBrace text)).eof.relocate (move + ·)).mark) :
    ∃ found', (many (nextStatement (statement limit limit)) start).value = some found' ∧
      found'.reduceOption = found.reduceOption.map (Stmt.relocate (move + ·)) ∧
      (many (nextStatement (statement limit limit)) start).reports = [] ∧
      ∃ brace, (many (nextStatement (statement limit limit)) start).cursor.ahead = [brace] ∧
        brace.kind = .punctuation .rightBrace := by
  have sound := statement_sound limit limit (Nat.le_refl _)
  have rounds := nextStatement_sound sound fun _ _ _ => StmtReading.ne_nil
  have moves := (pastBreaks_passes start).1
  obtain ⟨moves', left⟩ := pastBreaks_passes (bodyStart (withBrace text))
  have like : (Comparison.moved (move + ·) []).Cursors False 0
      (pastBreaks (bodyStart (withBrace text))) (pastBreaks start) := by
    refine ⟨moves'.intact (bodyStart_intact _), moves.intact intact, ?_, fun _ => ?_, False.elim⟩
    · rw [ahead, left, (bodyStart_passes _).2, List.dropWhile_cons_of_pos (by rfl)]
      exact Comparison.moved_aligned_whole (add_injective _) 0 (dropWhile_moved same)
    · rw [moves.eof, moves'.eof]
      exact Comparison.moved_tokens eof
  have stmts : (Comparison.moved (move + ·) []).Likes False True 0 0 _
      (nextStatement (statement limit limit)) (nextStatement (statement limit limit)) :=
    .nextStatement sound (.statement limit (Nat.le_refl _)) (.inl rfl)
  cases Comparison.Likes.many stmts rounds.advances rounds.advances _ _ like with
  | lost cut => exact absurd rfl cut
  | same values told cursors =>
    have stop := cursors (.inl rfl)
    rw [statements_pastBreaks sound (fun _ _ _ => StmtReading.ne_nil) (bodyStart_intact _)]
      at values told stop
    rw [statements_pastBreaks sound (fun _ _ _ => StmtReading.ne_nil) intact] at values told stop
    rw [body.value] at values
    rw [body.reports] at told
    obtain ⟨found', value, alike⟩ := Comparison.rel_some values
    refine ⟨found', value, Comparison.moved_stmts (Comparison.reduceOption alike),
      List.forall₂_nil_left_iff.1 told, ?_⟩
    obtain ⟨brace, ends, closes⟩ := body.ends
    have aligned := stop.ahead
    rw [ends] at aligned
    exact aligned_brace rfl closes aligned

end IsBody

end MoSyntax
