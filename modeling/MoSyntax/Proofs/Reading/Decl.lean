import MoSyntax.Parser.Decl
import MoSyntax.Proofs.Reading.Stmt

/-!
Readings of declarations and of a file. A declaration that could not be read is lost together with
all the tokens before the next keyword that begins one.
-/
namespace MoSyntax

def Separators (tokens : List Token) : Prop := ∀ token ∈ tokens, Parser.isFieldSeparator token.kind

inductive LocalReading : List Token → Option (Located Text) → Prop
  | none : LocalReading [] none
  | some {token value} (kind : token.kind = .string value) :
      LocalReading [token] (some ⟨token.span, value⟩)

inductive TypedReading (type : Reading TypeExpr) : Reading TypedName
  | typed {token name used declared reports} (names : token.Names name)
      (reads : type used declared reports) :
      TypedReading type (token :: used) ⟨name.span.through declared.span, name, declared⟩ reports

/-- A field, and what follows it on its line without belonging to the struct. -/
inductive FieldReading (type : Reading TypeExpr) : Reading TypedName
  | field {used field reports} (reads : TypedReading type used field reports) :
      FieldReading type used field reports
  | trailing {used field reports behind found} (reads : TypedReading type used field reports) :
      FieldReading type (used ++ behind) field
        (reports ++ [Report.unexpected "`,`, a line break or `\x7d` after a struct field" found])

/-- A declaration whose types and statements are read by the given readings. -/
inductive DeclLevel (type : Reading TypeExpr) (stmt : Reading Stmt) : Reading Decl
  | importing {word opening used path left alternative} (mark : Mark (.keyword .useWord) word opening)
      (reads : NameReading used (.path path)) (renamed : LocalReading left alternative) :
      DeclLevel type stmt (word ++ (used ++ left))
        (.importing (opening.through ((alternative.map Located.span).getD path.span)) path
          alternative) []
  | record {word opening token name breaks left brace body fields reports right closing}
      (mark : Mark (.keyword .structWord) word opening) (names : token.Names name)
      (between : Breaks breaks) (first : Mark (.punctuation .leftBrace) left brace)
      (reads : BodyReading Separators (FieldReading type) body fields reports)
      (second : Mark (.punctuation .rightBrace) right closing) :
      DeclLevel type stmt (word ++ (token :: (breaks ++ (left ++ (body ++ right)))))
        (.record (opening.through closing) name fields) reports
  | function {word opening token name left paren items parameters reports right closing used result
        later breaks more body last}
      (mark : Mark (.keyword .fnWord) word opening) (names : token.Names name)
      (first : Mark (.punctuation .leftParen) left paren)
      (reads : ItemsReading (TypedReading type) items parameters reports)
      (second : Mark (.punctuation .rightParen) right closing)
      (returns : OptionalReading type used result later) (between : Breaks breaks)
      (block : BlockReading stmt more body last) :
      DeclLevel type stmt
        (word ++ (token :: (left ++ (items ++ (right ++ (used ++ (breaks ++ more)))))))
        (.function (opening.through body.span) name parameters result body)
        (reports ++ (later ++ last))

def DeclReading (limit : Nat) : Reading Decl :=
  DeclLevel (TypeReading limit limit) (StmtReading limit limit)

theorem DeclLevel.ne_nil {type : Reading TypeExpr} {stmt : Reading Stmt} {used found reports}
    (reads : DeclLevel type stmt used found reports) : used ≠ [] := by
  cases reads with
  | importing mark => simp [mark.ne_nil]
  | record mark => simp [mark.ne_nil]
  | function mark => simp [mark.ne_nil]

theorem TypedReading.ne_nil {type : Reading TypeExpr} {used found reports}
    (reads : TypedReading type used found reports) : used ≠ [] := by
  cases reads
  simp

namespace Parser

theorem localName_sound :
    Sound (fun used alternative reports => LocalReading used alternative ∧ reports = [])
      localName := by
  intro start
  apply SoundAt.current_bind
  split
  · rename_i value kind
    apply SoundAt.advance_bind (by simp [kind])
    intro stop _
    exact SoundAt.pure ⟨.some kind, rfl⟩
  · exact SoundAt.pure ⟨.none, rfl⟩

section
variable {type : Reading TypeExpr} {stmt : Reading Stmt} {typeParser : Parser TypeExpr}
  {stmtParser : Parser Stmt}

theorem useDeclaration_sound : Sound (DeclLevel type stmt) useDeclaration := by
  intro start
  apply SoundAt.bind (expect_sound (by simp) _ start)
  rintro word opening _ _ _ ⟨mark, rfl⟩
  apply SoundAt.bind (name_sound _ _)
  rintro used found _ _ _ ⟨reads, rfl⟩
  cases found with
  | ident first => exact SoundAt.fail_with _
  | path path =>
    apply SoundAt.bind (localName_sound _)
    rintro left alternative _ _ _ ⟨renamed, rfl⟩
    exact SoundAt.pure (by simpa using DeclLevel.importing mark reads renamed)

theorem typedName_sound (types : Sound type typeParser) (message : String) :
    Sound (TypedReading type) (typedName message typeParser) := by
  intro start
  apply SoundAt.bind (ident_sound _ start)
  rintro _ name _ _ _ ⟨⟨token, rfl, names⟩, rfl⟩
  apply SoundAt.bind (types _)
  intro used declared reports _ _ reads
  exact SoundAt.pure (by simpa using TypedReading.typed names reads)

theorem skipFieldSeparators_at (start : Cursor) :
    SoundAt start (fun used _ reports => reports = [] ∧
      used = start.ahead.takeWhile fun token => isFieldSeparator token.kind)
      skipFieldSeparators := by
  refine SoundAt.here_bind ((SoundAt.skipWhile _).imp ?_)
  rintro used _ _ ⟨rfl, rfl⟩
  exact ⟨rfl, rfl⟩

theorem separators_takeWhile (tokens : List Token) :
    Separators (tokens.takeWhile fun token => isFieldSeparator token.kind) :=
  fun token member => List.all_eq_true.1 List.all_takeWhile token member

theorem endField_sound :
    Sound (fun used _ reports => used = [] ∧ reports = [] ∨ ∃ found, reports =
      [Report.unexpected "`,`, a line break or `\x7d` after a struct field" found]) endField := by
  intro start
  apply SoundAt.current_bind
  split
  · exact SoundAt.pure (.inl ⟨rfl, rfl⟩)
  · refine SoundAt.report_bind ((skipStatement_at start).imp ?_)
    rintro _ _ _ ⟨rfl, _⟩
    exact .inr ⟨_, rfl⟩

theorem nextField_sound (types : Sound type typeParser) :
    Sound (Round (RecoveredReading Separators (FieldReading type)) Separators)
      (nextField typeParser) := by
  intro start
  apply SoundAt.bind (skipFieldSeparators_at start)
  rintro before _ _ stop passes ⟨rfl, rfl⟩
  have separators := separators_takeWhile start.ahead
  apply SoundAt.here_bind
  split
  · exact SoundAt.pure ⟨by simpa using separators, rfl⟩
  · rename_i goesOn
    simp only [Bool.or_eq_true, not_or, Cursor.atEnd, List.isEmpty_iff] at goesOn
    obtain ⟨⟨more, inner⟩, _⟩ := goesOn
    obtain ⟨token, rest, ahead⟩ := List.exists_cons_of_ne_nil more
    have here := Cursor.current_of_ahead ahead
    have inside : Skip.endsStatement token.kind = false := by
      have other := passes.other ahead
      simp only [isFieldSeparator, Bool.or_eq_false_iff] at other
      rw [Skip.endsStatement, other.1, Bool.false_or, ← here]
      simpa using inner
    refine SoundAt.bind (Sound.recover (typedName_sound types _ stop)
      (fun used next further => skipStatement_moves ahead inside further) (fun _ => rfl)) ?_
    intro used value reports _ _ holds
    cases value with
    | none =>
      obtain ⟨moved, told⟩ := holds
      exact SoundAt.pure ⟨.lost (by simp [moved]) (by simpa using told), by simp [moved]⟩
    | some field =>
      apply SoundAt.bind (endField_sound _)
      intro behind _ later _ _ ends
      refine SoundAt.pure ⟨?_, by simp [holds.ne_nil]⟩
      rcases ends with ⟨rfl, rfl⟩ | ⟨found, rfl⟩
      · simpa using RecoveredReading.read separators (.field holds)
      · simpa using RecoveredReading.read separators (.trailing holds)

theorem structDeclaration_sound (types : Sound type typeParser) :
    Sound (DeclLevel type stmt) (structDeclaration typeParser) := by
  intro start
  apply SoundAt.bind (expect_sound (by simp) _ start)
  rintro word opening _ _ _ ⟨mark, rfl⟩
  apply SoundAt.bind (ident_sound _ _)
  rintro _ name _ _ _ ⟨⟨token, rfl, names⟩, rfl⟩
  apply SoundAt.bind (skipLineBreaks_sound _)
  rintro breaks _ _ _ _ ⟨between, rfl⟩
  apply SoundAt.bind (expect_sound (by simp) _ _)
  rintro left brace _ _ _ ⟨first, rfl⟩
  apply SoundAt.bind (Sound.many (nextField_sound types) _)
  intro body fields reports _ _ rounds
  apply SoundAt.bind (expect_sound (by simp) _ _)
  rintro right closing _ _ _ ⟨second, rfl⟩
  exact SoundAt.pure (by
    simpa using DeclLevel.record mark names between first (.body rounds) second)

theorem parameters_sound (types : Sound type typeParser) :
    Sound (fun used items reports => ∃ left paren inner right closing,
      used = left ++ (inner ++ right) ∧ Mark (.punctuation .leftParen) left paren ∧
        ItemsReading (TypedReading type) inner items reports ∧
          Mark (.punctuation .rightParen) right closing) (parameters typeParser) := by
  intro start
  apply SoundAt.bind (expect_sound (by simp) _ start)
  rintro left paren _ _ _ ⟨first, rfl⟩
  apply SoundAt.bind (listUntil_sound (typedName_sound types _) _ _ _)
  rintro _ ⟨items, closing⟩ reports _ _ ⟨inner, right, rfl, reads, second⟩
  exact SoundAt.pure ⟨left, paren, inner, right, closing, by simp, first, by simpa using reads,
    second⟩

theorem resultType_sound (types : Sound type typeParser) :
    Sound (OptionalReading type) (resultType typeParser) := by
  intro start
  apply SoundAt.current_bind
  split
  · exact SoundAt.pure .none
  · apply SoundAt.bind (types _)
    intro used result reports _ _ reads
    exact SoundAt.pure (by simpa using OptionalReading.some reads)

theorem fnDeclaration_sound (types : Sound type typeParser)
    (blocks : Sound (BlockReading stmt) (block stmtParser)) :
    Sound (DeclLevel type stmt) (fnDeclaration typeParser stmtParser) := by
  intro start
  apply SoundAt.bind (expect_sound (by simp) _ start)
  rintro word opening _ _ _ ⟨mark, rfl⟩
  apply SoundAt.bind (ident_sound _ _)
  rintro _ name _ _ _ ⟨⟨token, rfl, names⟩, rfl⟩
  apply SoundAt.bind (parameters_sound types _)
  rintro _ items reports _ _ ⟨left, paren, inner, right, closing, rfl, first, reads, second⟩
  apply SoundAt.bind (resultType_sound types _)
  intro used result later _ _ returns
  apply SoundAt.bind (skipLineBreaks_sound _)
  rintro breaks _ _ _ _ ⟨between, rfl⟩
  apply SoundAt.bind (blocks _)
  intro more body last _ _ block
  exact SoundAt.pure (by
    simpa using DeclLevel.function mark names first reads second returns between block)

theorem topLevel_sound (types : Sound type typeParser)
    (blocks : Sound (BlockReading stmt) (block stmtParser)) :
    Sound (DeclLevel type stmt) (topLevel typeParser stmtParser) := by
  intro start
  apply SoundAt.current_bind
  split
  · exact useDeclaration_sound start
  · exact structDeclaration_sound types start
  · exact fnDeclaration_sound types blocks start
  · exact SoundAt.fail_with _

end

theorem advance_at (start : Cursor) :
    SoundAt start (fun used _ reports => reports = [] ∧ (start.ahead ≠ [] → used ≠ [])) advance := by
  cases ahead : start.ahead with
  | cons token rest =>
    refine (SoundAt.skip [token] rest ahead rfl).imp ?_
    rintro _ _ _ ⟨rfl, rfl⟩
    exact ⟨rfl, by simp⟩
  | nil =>
    have stays : start.advanceBy 1 = start := by
      rw [Cursor.advanceBy, Cursor.advanceBy, Cursor.advance, ahead]
    refine fun _ => ⟨rfl, [], ?_, rfl, by simp⟩
    simpa [advance, skip, stays] using Cursor.Passes.refl start

theorem skipDeclaration_at (start : Cursor) :
    SoundAt start (fun used _ reports => reports = [] ∧ (start.ahead ≠ [] → used ≠ []))
      skipDeclaration := by
  apply SoundAt.bind (advance_at start)
  rintro used _ _ _ _ ⟨rfl, moves⟩
  refine SoundAt.here_bind ((SoundAt.skipWhile _).imp ?_)
  rintro more _ _ ⟨_, rfl⟩
  exact ⟨rfl, fun some => List.append_ne_nil_of_left_ne_nil (moves some) more⟩

theorem resynchronize_moves {start stop : Cursor} {used : List Token} (more : start.ahead ≠ [])
    (passes : start.Passes used stop) :
    SoundAt stop (fun behind _ reports => reports = [] ∧ used ++ behind ≠ [])
      (resynchronize start) := by
  apply SoundAt.here_bind
  split
  · rename_i stays
    refine SoundAt.pure ⟨rfl, ?_⟩
    intro none
    obtain rfl : used = [] := by simpa using none
    simp [Cursor.movedSince, passes.of_nil] at stays
  · refine (skipDeclaration_at stop).imp ?_
    rintro behind _ _ ⟨rfl, moves⟩
    refine ⟨rfl, ?_⟩
    cases used with
    | cons first used => simp
    | nil =>
      obtain rfl := passes.of_nil
      simp [moves more]

theorem resynchronize_some (start cursor : Cursor) :
    (resynchronize start cursor).value = some () := by
  show ((if _ then pure () else skipDeclaration : Parser Unit) cursor).value = some ()
  split <;> rfl

theorem nextDeclaration_sound {decl : Reading Decl} {parser : Parser Decl}
    (sound : Sound decl parser)
    (some : ∀ used value reports, decl used value reports → used ≠ []) :
    Sound (Round (RecoveredReading Breaks decl) Breaks) (nextDeclaration parser) := by
  intro start
  apply SoundAt.bind (skipLineBreaks_at start)
  rintro before _ _ stop _ ⟨rfl, rfl⟩
  have breaks := breaks_takeWhile start.ahead
  apply SoundAt.here_bind
  split
  · exact SoundAt.pure ⟨by simpa using breaks, rfl⟩
  · rename_i goesOn
    have more : stop.ahead ≠ [] := by simpa [Cursor.atEnd] using goesOn
    refine SoundAt.bind (Sound.recover (sound stop)
      (fun used next further => resynchronize_moves more further) (resynchronize_some stop)) ?_
    intro used value reports _ _ holds
    refine SoundAt.pure ?_
    cases value with
    | none =>
      obtain ⟨moved, told⟩ := holds
      exact ⟨.lost (by simp [moved]) (by simpa using told), by simp [moved]⟩
    | some value =>
      have moved := some _ _ _ holds
      exact ⟨by simpa using .read breaks holds, by simp [moved]⟩

theorem declaration_rounds (limit : Nat) :
    Sound (Round (RecoveredReading Breaks (DeclReading limit)) Breaks)
      (nextDeclaration (topLevel (typeExpr limit limit) (statement limit limit))) := by
  have blocks := block_sound (statement_sound limit limit (Nat.le_refl _))
    fun _ _ _ => StmtReading.ne_nil
  have types := typeExpr_sound limit limit (Nat.le_refl _)
  exact nextDeclaration_sound (topLevel_sound types blocks) fun _ _ _ => DeclLevel.ne_nil

theorem declarations_sound (limit : Nat) :
    Sound (BodyReading Breaks (DeclReading limit)) (declarations limit) := by
  intro start
  apply SoundAt.bind (Sound.many (declaration_rounds limit) start)
  intro used found reports _ _ rounds
  exact SoundAt.pure (by simpa using BodyReading.body rounds)

end Parser

end MoSyntax
