import MoSyntax.Proofs.Course.Stmt
import MoSyntax.Proofs.Reading.Decl

/-!
The course through a declaration, from behind its keyword on. Only its body can lose tokens to
anything but the limit on nesting.
-/
namespace MoSyntax.Parser

variable {body : Cursor → Cursor → Prop} {start : Cursor} {type : Parser TypeExpr}
  {types : Reading TypeExpr}

theorem typedName_runs {message : String} (other : message ∉ Diagnostic.unclosedMessages)
    (runs : Runs body type) : Runs body (typedName message type) :=
  (ident_runs other).bind fun _ => runs.bind fun _ => .pure _

theorem skipFieldSeparators_runs : Runs body skipFieldSeparators := by
  intro start
  refine .of_sound (skipFieldSeparators_at start) rfl ?_
  rintro used _ _ ⟨rfl, rfl⟩
  refine ⟨rfl, fun token member => ?_⟩
  have separator : isFieldSeparator token.kind := separators_takeWhile start.ahead token member
  simp only [isFieldSeparator, Bool.or_eq_true, beq_iff_eq] at separator
  rcases separator with kind | kind
  · simp [kind, TokenKind.startsDeclaration]
  · simp [kind, TokenKind.startsDeclaration]

theorem RunsAt.report_skip {diagnostic : Diagnostic} (marks : diagnostic.Marks start.current)
    (wrong : ¬ diagnostic.isUnclosed) :
    RunsAt anyBody start (Parser.report diagnostic >>= fun _ => skipStatement) := by
  intro intact
  obtain ⟨_, more, passes, silent, _⟩ := skipStatement_at start intact
  rw [bind_of_some rfl]
  have skipped : Course anyBody start ([] ++ more) ([] ++ [diagnostic])
      (skipStatement start).cursor :=
    .skip (.tell .start marks) List.mem_cons_self marks wrong (.statement trivial rfl) passes
  refine ⟨⟨more, ?_⟩, fun lost => absurd (show some () = none from lost) (by simp)⟩
  show Course anyBody start more ([diagnostic] ++ (skipStatement start).reports) _
  rw [silent]
  exact skipped

theorem endField_runs : Runs anyBody endField := by
  intro start
  apply RunsAt.current_bind
  split
  · exact .pure _
  · refine .report_skip rfl (unexpected_wrong (fun rest => ?_) _)
    simp [Diagnostic.unclosedMessages, ← String.toList_inj]

theorem nextField_runs (runs : Runs anyBody type) : Runs anyBody (nextField type) := by
  refine skipFieldSeparators_runs.bind fun _ start => RunsAt.here_bind ?_
  split
  · exact .pure _
  · refine ((typedName_runs (by decide) runs).recover.bind fun found => ?_) start
    split
    · exact endField_runs.bind fun _ => .pure _
    · exact .pure _

theorem parameters_runs (runs : Runs body type) (sound : Sound types type) :
    Runs body (parameters type) :=
  (mark_runs _ (by decide)).bind fun _ =>
    (listUntil_runs (typedName_runs (by decide) runs) (typedName_sound sound _) _ (by decide)).bind
      fun _ => .pure _

theorem resultType_runs (runs : Runs body type) : Runs body (resultType type) := by
  intro start
  apply RunsAt.current_bind
  split
  · exact .pure _
  · exact runs.bind (fun _ => .pure _) start

/-- A path with a single segment is reported where it begins. -/
theorem modulePath_goes {α : Type} {message : String} {next : ModulePath → Parser α}
    (other : message ∉ Diagnostic.unclosedMessages) (goes : ∀ path, Goes body (next path)) :
    Goes body (do
      match ← name message with
      | .ident first => reject (Report.singleSegment first.span first.name)
      | .path path => next path) := by
  intro start intact
  obtain ⟨used, course⟩ := (name_runs other start : RunsAt body start _).goes intact
  obtain ⟨_, passed, passes, reads⟩ := name_sound message start intact
  cases found : (name message start).value with
  | none =>
    rw [bind_of_none found]
    exact ⟨used, course⟩
  | some named =>
    rw [bind_of_some found]
    rw [found] at reads
    obtain ⟨reads, silent⟩ := reads
    cases named with
    | path path =>
      obtain ⟨more, further⟩ := goes path _ (passes.intact intact)
      exact ⟨used ++ more, course.trans further⟩
    | ident first =>
      cases reads with
      | ident names =>
        have marks : (Report.singleSegment first.span first.name).Marks start.current := by
          rw [Cursor.current_of_ahead passes.ahead]
          exact congrArg Span.start names.2
        have told : Course body start _ _ _ :=
          (Course.tell .start marks).pass passes (by simp [names.1, TokenKind.startsDeclaration])
        show ∃ used, Course body start used ((name message start).reports ++ [_]) _
        rw [silent]
        exact ⟨_, told⟩

theorem localName_runs : Runs body localName := by
  intro start
  apply RunsAt.current_bind
  split
  · rename_i value kind
    exact RunsAt.advance_bind (by simp [kind]) (by simp [kind, TokenKind.startsDeclaration])
      fun _ => .pure _
  · exact .pure _

/-- Where the loop over a body ends, of the declaration that is read from `place`. -/
inductive BodyEnds (limit : Nat) (place opening : Cursor) : Cursor → Prop
  | statements (word : place.current.kind = .keyword .fnWord) :
      BodyEnds limit place opening
        (many (nextStatement (statement limit limit)) opening.advance).cursor
  | fields (word : place.current.kind = .keyword .structWord) :
      BodyEnds limit place opening (many (nextField (typeExpr limit limit)) opening.advance).cursor

/-- The way between the two places lies in the body of the declaration that is read from `place`:
behind the opening brace, and not behind the end of the loop over the statements or fields. -/
inductive InBody (limit : Nat) (place first last : Cursor) : Prop
  | inside {header opening front finish rest} (reaches : place.Passes header opening)
      (brace : opening.current.kind = .punctuation .leftBrace)
      (loop : BodyEnds limit place opening finish)
      (behind : opening.advance.Passes front first) (before : last.Passes rest finish) :
      InBody limit place first last

/-- From all that lies behind `place` the parser goes a course that skips statements and fields only
in the body of the declaration there. -/
def GoesWithin {α : Type} (limit : Nat) (place : Cursor) (parser : Parser α) : Prop :=
  ∀ start used, place.Passes used start → GoesAt (InBody limit place) start parser

namespace GoesWithin

variable {α β : Type} {limit : Nat} {place : Cursor}

theorem of_runs {parser : Parser α} (runs : Runs (InBody limit place) parser) :
    GoesWithin limit place parser := fun start _ _ => (runs start).goes

theorem bind {first : Parser α} {next : α → Parser β} (head : GoesWithin limit place first)
    (tail : ∀ value, GoesWithin limit place (next value)) :
    GoesWithin limit place (first >>= next) := by
  intro start used passes intact
  refine (head start used passes).bind (fun value _ => ?_) intact
  obtain ⟨_, course⟩ := head start used passes intact
  exact tail value _ _ (passes.trans course.passes)

theorem braced {message : String} {loop : Parser α} {next : Span → α → Parser β}
    (other : message ∉ Diagnostic.unclosedMessages) (runs : Runs anyBody loop)
    (ends : ∀ opening, BodyEnds limit place opening (loop opening.advance).cursor)
    (tail : ∀ opening value, GoesWithin limit place (next opening value)) :
    GoesWithin limit place
      (expect (.punctuation .leftBrace) message >>= fun opening => loop >>= next opening) := by
  intro start used passes intact
  have brace : Runs (InBody limit place) (expect (.punctuation .leftBrace) message) :=
    mark_runs _ other
  refine (brace start).goes.bind (fun opening found => ?_) intact
  have kind : start.current.kind = .punctuation .leftBrace := by
    refine Decidable.byContradiction fun different => ?_
    rw [expect_other (by simpa using different)] at found
    simp at found
  have first := Cursor.advance_passes intact (by simp [kind])
  rw [expect_found (by simpa using kind)]
  -- The loop knows no body but its own, and that one begins here.
  have rounds : GoesAt (InBody limit place) start.advance loop := by
    intro intact
    obtain ⟨more, course⟩ := (runs start.advance).goes intact
    refine ⟨more, course.within fun _ _ _ _ behind before _ => ?_⟩
    exact .inside passes kind (ends start) behind before
  refine rounds.bind fun value _ => ?_
  obtain ⟨_, course⟩ := rounds (first.intact intact)
  exact tail opening value _ _ ((passes.trans first).trans course.passes)

end GoesWithin

theorem startsDeclaration_cases {kind : TokenKind} (declares : kind.startsDeclaration) :
    kind = .keyword .useWord ∨ kind = .keyword .structWord ∨ kind = .keyword .fnWord := by
  unfold TokenKind.startsDeclaration at declares
  split at declares
  · rename_i word
    cases word with
    | useWord => exact .inl rfl
    | structWord => exact .inr (.inl rfl)
    | fnWord => exact .inr (.inr rfl)
    | _ => simp [Keyword.startsDeclaration] at declares
  · simp at declares

/-- The parser goes such a course from behind the keyword on. -/
def GoesBehind {α : Type} (limit : Nat) (place : Cursor) (parser : Parser α) : Prop :=
  place.Intact → ∃ used,
    Course (InBody limit place) place.advance used (parser place).reports (parser place).cursor

section
variable {limit : Nat} {place : Cursor}

theorem GoesBehind.current_bind {next : Token → Parser Decl}
    (tail : GoesBehind limit place (next place.current)) :
    GoesBehind limit place (current >>= next) := tail

theorem GoesBehind.expect {word : Keyword} {next : Span → Parser Decl}
    (here : place.current.kind = .keyword word) (message : String)
    (tail : ∀ opening, GoesWithin limit place (next opening)) :
    GoesBehind limit place (expect (.keyword word) message >>= next) := by
  intro intact
  have passes := Cursor.advance_passes intact (by simp [here])
  rw [bind_of_some (congrArg Reply.value (expect_found (by simpa using here) message)),
    expect_found (by simpa using here)]
  exact tail _ _ _ passes (passes.intact intact)

theorem useDeclaration_goes (word : place.current.kind = .keyword .useWord) :
    GoesBehind limit place useDeclaration := by
  refine GoesBehind.expect word _ fun opening start _ _ => modulePath_goes (by decide) ?_ start
  exact fun path start => ((localName_runs.bind fun _ => .pure _) start).goes

theorem structDeclaration_goes (word : place.current.kind = .keyword .structWord) :
    GoesBehind limit place (structDeclaration (typeExpr limit limit)) := by
  have rounds := Runs.many (nextField_runs (typeExpr_runs limit limit))
    (nextField_sound (typeExpr_sound limit limit (Nat.le_refl _))).moves
  refine GoesBehind.expect word _ fun opening => ?_
  refine (GoesWithin.of_runs (ident_runs (by decide))).bind fun declared => ?_
  refine (GoesWithin.of_runs skipLineBreaks_runs).bind fun _ => ?_
  refine GoesWithin.braced (by decide) rounds (fun _ => .fields word) fun _ fields start _ _ => ?_
  refine (expect_goes (by simp) ?_ _ start).bind fun _ _ => (RunsAt.pure _).goes
  simp [TokenKind.startsDeclaration]

theorem fnDeclaration_goes (word : place.current.kind = .keyword .fnWord) :
    GoesBehind limit place (fnDeclaration (typeExpr limit limit) (statement limit limit)) := by
  have rounds := Runs.many (nextStatement_runs (statement_runs limit limit (Nat.le_refl _)))
    (nextStatement_sound (statement_sound limit limit (Nat.le_refl _)) fun _ _ _ =>
      StmtReading.ne_nil).moves
  have types := typeExpr_sound limit limit (Nat.le_refl _)
  refine GoesBehind.expect word _ fun opening => ?_
  refine (GoesWithin.of_runs (ident_runs (by decide))).bind fun declared => ?_
  refine (GoesWithin.of_runs (parameters_runs (typeExpr_runs limit limit) types)).bind
    fun items => ?_
  refine (GoesWithin.of_runs (resultType_runs (typeExpr_runs limit limit))).bind fun result => ?_
  refine (GoesWithin.of_runs skipLineBreaks_runs).bind fun _ => ?_
  refine GoesWithin.bind ?_ fun _ => .of_runs (.pure _)
  exact GoesWithin.braced (by decide) rounds (fun _ => .statements word) fun opening _ =>
    .of_runs ((closeBlock_runs opening).bind fun _ => .pure _)

/-- The top level of a file, with the limit on nesting. -/
abbrev fileLevel (limit : Nat) : Parser Decl :=
  topLevel (typeExpr limit limit) (statement limit limit)

theorem fileLevel_goes (limit : Nat) {place : Cursor}
    (declares : place.current.kind.startsDeclaration) : GoesBehind limit place (fileLevel limit) := by
  apply GoesBehind.current_bind
  split
  · rename_i word
    exact useDeclaration_goes word
  · rename_i word
    exact structDeclaration_goes word
  · rename_i word
    exact fnDeclaration_goes word
  · rename_i notUse notStruct notFn
    rcases startsDeclaration_cases declares with kind | kind | kind
    · exact absurd kind notUse
    · exact absurd kind notStruct
    · exact absurd kind notFn

end

end MoSyntax.Parser
