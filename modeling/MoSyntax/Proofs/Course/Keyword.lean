import MoSyntax.Proofs.Course.Decl
import MoSyntax.Proofs.Deepening.Program

/-!
The keywords that begin declarations. Each of them begins one that is read, unless it is lost in the
declaration before: then it is skipped, and what is skipped before it has opened a bracket.
-/
namespace MoSyntax

namespace Skip

/-- The number of open brackets behind some tokens. -/
def openAfterAll (depth : Nat) (tokens : List Token) : Nat :=
  tokens.foldl (fun depth token => openAfter depth token.kind) depth

/-- What is passed before the end does not end anything outside of brackets. -/
theorem goesOn_of_lt_lengthTo {halts : TokenKind → Bool} {depth : Nat} {before rest : List Token}
    {token : Token} (within : before.length < lengthTo halts depth (before ++ token :: rest)) :
    ¬ (openAfterAll depth before = 0 ∧ halts token.kind) := by
  induction before generalizing depth with
  | nil =>
    intro ends
    rw [List.nil_append, lengthTo, if_pos (show depth = 0 ∧ _ from ends)] at within
    simp at within
  | cons first before ih =>
    rw [List.cons_append, lengthTo] at within
    split at within
    · simp at within
    · exact ih (by simpa using within)

end Skip

/-- A skip on the way of a parser: the course to where it begins, which has made a report of that
place, the skip itself, and the rest of the way. -/
structure Leap (body : Cursor → Cursor → Prop) (start : Cursor) (reports : List Diagnostic)
    (finish : Cursor) where
  used : List Token
  told : List Diagnostic
  stop : Cursor
  course : Course body start used told stop
  report : Diagnostic
  reported : report ∈ told
  marks : report.Marks stop.current
  wrong : ¬ report.isUnclosed
  skipped : List Token
  next : Cursor
  skips : SkipsTo body report stop next
  passes : stop.Passes skipped next
  rest : List Token
  onward : next.Passes rest finish
  later : List Diagnostic
  all : told ++ later = reports

namespace Leap

variable {body : Cursor → Cursor → Prop} {start finish : Cursor} {reports : List Diagnostic}
  {front behind : List Token} {keyword : Token}

/-- The keyword is skipped, with the tokens `front` before it; all that follows it is `behind`. -/
def Loses (leap : Leap body start reports finish) (front : List Token) (keyword : Token)
    (behind : List Token) : Prop :=
  ∃ more, leap.skipped = front ++ keyword :: more ∧ behind = more ++ leap.next.ahead

theorem mem_reports (leap : Leap body start reports finish) : leap.report ∈ reports := by
  have told := List.mem_append_left leap.later leap.reported
  rwa [leap.all] at told

/-- On a longer way the parser skips no less. -/
def further (leap : Leap body start reports finish) {more : List Token} {stop : Cursor}
    (passes : finish.Passes more stop) {last whole : List Diagnostic}
    (all : reports ++ last = whole) : Leap body start whole stop :=
  { leap with
    rest := leap.rest ++ more
    onward := leap.onward.trans passes
    later := leap.later ++ last
    all := by rw [← List.append_assoc, leap.all, all] }

theorem ahead {leap : Leap body start reports finish} (loses : leap.Loses front keyword behind) :
    leap.stop.ahead = front ++ keyword :: behind := by
  obtain ⟨more, skipped, rfl⟩ := loses
  rw [leap.passes.ahead, skipped]
  simp

theorem lengths {leap : Leap body start reports finish} (loses : leap.Loses front keyword behind) :
    finish.ahead.length ≤ behind.length ∧ behind.length < start.ahead.length := by
  have before := leap.course.passes.length
  have after := leap.onward.length
  rw [ahead loses, List.length_append, List.length_cons] at before
  obtain ⟨more, _, rfl⟩ := loses
  rw [List.length_append] at before ⊢
  omega

theorem goesOn {leap : Leap body start reports finish} (loses : leap.Loses front keyword behind) :
    ∀ between token rest, front = between ++ token :: rest →
      ¬ (Skip.openAfterAll 0 between = 0 ∧ Skip.endsStatement token.kind) := by
  rintro between token rest rfl
  have length := leap.skips.length_le leap.passes
  rw [ahead loses, List.append_assoc, List.cons_append] at length
  obtain ⟨more, skipped, _⟩ := loses
  have inner : between.length < leap.skipped.length := by
    simp only [skipped, List.length_append, List.length_cons]
    omega
  exact Skip.goesOn_of_lt_lengthTo (Nat.lt_of_lt_of_le inner length)

/-- Behind a line break a keyword is skipped only inside brackets, or where it is itself reported. -/
theorem enclosed {leap : Leap body start reports finish} (loses : leap.Loses front keyword behind)
    (breaks : ∀ last ∈ front.getLast?, last.kind = .lineBreak) :
    front = [] ∨ 0 < Skip.openAfterAll 0 front := by
  rcases List.eq_nil_or_concat front with rfl | ⟨inner, last, rfl⟩
  · exact .inl rfl
  · have kind : last.kind = .lineBreak := breaks last (by simp)
    have goesOn := goesOn loses inner last [] List.concat_eq_append
    have flat : Skip.openAfterAll 0 (inner ++ [last]) = Skip.openAfterAll 0 inner := by
      simp [Skip.openAfterAll, kind, Skip.openAfter, Skip.openAfter?, TokenKind.opens,
        TokenKind.closes]
    rw [List.concat_eq_append, flat]
    refine .inr (Nat.pos_of_ne_zero fun zero => goesOn ⟨zero, ?_⟩)
    simp [kind, Skip.endsStatement]

end Leap

theorem split_append {first second before behind : List Token} {token : Token}
    (split : first ++ second = before ++ token :: behind) :
    (∃ rest, first = before ++ token :: rest ∧ behind = rest ++ second) ∨
      ∃ front, before = first ++ front ∧ second = front ++ token :: behind := by
  rcases List.append_eq_append_iff.1 split with ⟨front, same, rest⟩ | ⟨rest, same, others⟩
  · exact .inr ⟨front, same, rest⟩
  · cases rest with
    | nil => exact .inr ⟨[], by simpa using same.symm, by simpa using others.symm⟩
    | cons head rest =>
      obtain ⟨rfl, rfl⟩ := List.cons.inj others
      exact .inl ⟨rest, same, rfl⟩

/-- A keyword on the way is skipped, because everything else that is passed is no such keyword. -/
theorem Course.lost {body : Cursor → Cursor → Prop} {start stop : Cursor} {used : List Token}
    {reports : List Diagnostic} (course : Course body start used reports stop)
    {before behind : List Token} {keyword : Token} (split : used = before ++ keyword :: behind)
    (declares : keyword.kind.startsDeclaration) :
    ∃ (leap : Leap body start reports stop) (front : List Token),
      leap.Loses front keyword (behind ++ stop.ahead) ∧ before = leap.used ++ front := by
  induction course generalizing before behind with
  | start => simp at split
  | @pass used reports stop more next course passes plain ih =>
    rcases split_append split with ⟨rest, earlier, rfl⟩ | ⟨front, _, same⟩
    · obtain ⟨leap, front, loses, same⟩ := ih earlier
      rw [List.append_assoc, ← passes.ahead]
      exact ⟨leap.further passes (List.append_nil reports), front, loses, same⟩
    · exact absurd declares (plain keyword (by simp [same]))
  | @tell used reports stop report course marks ih =>
    obtain ⟨leap, front, loses, same⟩ := ih split
    exact ⟨leap.further (.refl stop) rfl, front, loses, same⟩
  | @skip used reports stop skipped next report course told marks wrong skips passes ih =>
    rcases split_append split with ⟨rest, earlier, rfl⟩ | ⟨front, same, rfl⟩
    · obtain ⟨leap, front, loses, same⟩ := ih earlier
      rw [List.append_assoc, ← passes.ahead]
      exact ⟨leap.further passes (List.append_nil reports), front, loses, same⟩
    · let leap : Leap body start reports next :=
        { used, told := reports, stop, course, report, reported := told, marks, wrong
          skipped := front ++ keyword :: behind, next, skips, passes
          rest := [], onward := .refl next, later := [], all := List.append_nil reports }
      exact ⟨leap, front, ⟨behind, rfl, rfl⟩, same⟩

/-! The places where declarations are read. -/

theorem Cursor.Passes.moved {start stop : Cursor} {used : List Token}
    (passes : start.Passes used stop) (some : used ≠ []) : stop.movedSince start.index := by
  have positive := List.length_pos_iff.2 some
  have further : stop.passed.length + stop.beyond ≠ start.passed.length + start.beyond := by
    rw [passes.passed, passes.beyond, List.length_append, List.length_reverse]
    omega
  simpa [Cursor.movedSince, Cursor.index] using further

namespace Parser

def placesUpTo (decl : Parser Decl) : Nat → Cursor → List Cursor
  | 0, _ => []
  | count + 1, cursor =>
    let start := (skipLineBreaks cursor).cursor
    if start.atEnd then []
    else start :: placesUpTo decl count (nextDeclaration decl cursor).cursor

/-- The places where the declarations of a file are read, one after the other. -/
def declarationPlaces (limit : Nat) (cursor : Cursor) : List Cursor :=
  placesUpTo (fileLevel limit) (cursor.ahead.length + 1) cursor

theorem recover_value {α : Type} (parser : Parser α) (recovery : Parser Unit) (start : Cursor) :
    (recover parser recovery start).value = some (parser start).value := by
  rw [recover]
  split
  · rename_i found
    rw [found]
  · rename_i lost
    rw [lost]

theorem nextDeclaration_eq (decl : Parser Decl) {cursor start : Cursor}
    (breaks : (skipLineBreaks cursor).cursor = start) :
    nextDeclaration decl cursor =
      if start.atEnd then { value := some none, cursor := start }
      else
        { recover decl (resynchronize start) start with
          value := some (some (decl start).value) } := by
  subst breaks
  have opened : nextDeclaration decl cursor =
      (if (skipLineBreaks cursor).cursor.atEnd then return none
      else do return some (← recover decl (resynchronize (skipLineBreaks cursor).cursor)) :
        Parser (Option (Option Decl))) (skipLineBreaks cursor).cursor := rfl
  rw [opened]
  split
  · rfl
  · rw [bind_of_some (recover_value _ _ _)]
    simp [Reply.after, pure, succeed]

theorem manyUpTo_places {decl : Parser Decl} (moves : Moves (nextDeclaration decl))
    (keeps : Keeps (nextDeclaration decl)) (count : Nat) {cursor : Cursor} (intact : cursor.Intact)
    (enough : cursor.ahead.length < count) :
    (manyUpTo count (nextDeclaration decl) cursor).value =
        some ((placesUpTo decl count cursor).map fun place => (decl place).value) ∧
      ∀ place ∈ placesUpTo decl count cursor, ∀ report ∈ (decl place).reports,
        report ∈ (manyUpTo count (nextDeclaration decl) cursor).reports := by
  induction count generalizing cursor with
  | zero => omega
  | succ count ih =>
    have round := nextDeclaration_eq decl (show (skipLineBreaks cursor).cursor = _ from rfl)
    rw [placesUpTo, manyUpTo]
    split
    · rename_i ended
      rw [if_pos ended] at round
      rw [bind_of_some (congrArg Reply.value round)]
      exact ⟨rfl, by simp⟩
    · rename_i goesOn
      rw [if_neg goesOn] at round
      have found : (nextDeclaration decl cursor).value = _ := congrArg Reply.value round
      have shorter := moves cursor intact _ found
      obtain ⟨values, told⟩ := ih (keeps cursor intact) (by omega)
      have later := bind_of_some values
        fun rest => (pure ((decl (skipLineBreaks cursor).cursor).value :: rest) : Parser _)
      rw [bind_of_some found]
      dsimp only
      rw [later]
      refine ⟨rfl, fun place member report reported => ?_⟩
      rcases List.mem_cons.1 member with rfl | behind
      · refine List.mem_append_left _ ?_
        rw [round]
        exact (reports_recover decl _ _).subset reported
      · exact List.mem_append_right _ (List.mem_append_left _ (told place behind report reported))

theorem topLevel_other (type : Parser TypeExpr) (stmt : Parser Stmt) {start : Cursor}
    (other : ¬ start.current.kind.startsDeclaration) :
    topLevel type stmt start =
      { value := none, cursor := start
        reports := [Report.unexpected "`use`, `struct` or `fn` at the top level" start.current] } := by
  rw [topLevel, bind_of_some (rfl : (current start).value = some start.current)]
  cases kind : start.current.kind with
  | keyword word =>
    rw [kind] at other
    cases word with
    | useWord => exact absurd rfl other
    | structWord => exact absurd rfl other
    | fnWord => exact absurd rfl other
    | _ => rfl
  | _ => rfl

theorem resynchronize_stops {start stop : Cursor} {front behind : List Token} {keyword : Token}
    (ahead : stop.ahead = front ++ keyword :: behind) (declares : keyword.kind.startsDeclaration)
    (moved : front = [] → stop.movedSince start.index) :
    ∃ rest, (resynchronize start stop).cursor.ahead = rest ++ keyword :: behind := by
  have opened : resynchronize start stop =
      (if stop.movedSince start.index && stop.current.kind.startsDeclaration then return ()
      else skipDeclaration : Parser Unit) stop := rfl
  rw [opened]
  cases front with
  | nil =>
    have current : stop.current = keyword := Cursor.current_of_ahead ahead
    rw [if_pos (by simp [moved rfl, current, declares])]
    exact ⟨[], ahead⟩
  | cons token front =>
    split
    · exact ⟨_, ahead⟩
    · obtain ⟨_, left⟩ := Cursor.advanceBy_passes [token] _ ahead
      have skipped : (skipDeclaration stop).cursor.ahead =
          (front ++ keyword :: behind).dropWhile fun token => !token.kind.startsDeclaration := by
        have whole : (stop.advanceBy 1).ahead = _ := (List.takeWhile_append_dropWhile
          (p := fun token : Token => !token.kind.startsDeclaration)).symm
        obtain ⟨_, found⟩ := Cursor.advanceBy_passes _ _ whole
        exact found.trans (congrArg _ left)
      rw [skipped, List.dropWhile_append]
      split
      · exact ⟨[], by simp [declares]⟩
      · exact ⟨_, rfl⟩

/-- A skip within the declaration that is read from the place. -/
abbrev LeapAt (limit : Nat) (place : Cursor) : Type :=
  Leap (InBody limit place) place.advance (fileLevel limit place).reports
    (fileLevel limit place).cursor

/-- A keyword behind the first token is skipped in the declaration, or it is not passed. -/
theorem fileLevel_keyword (limit : Nat) {start : Cursor} (intact : start.Intact)
    {word keyword : Token} {front behind : List Token}
    (ahead : start.ahead = word :: (front ++ keyword :: behind))
    (declares : keyword.kind.startsDeclaration) :
    (∃ (leap : LeapAt limit start) (skipped : List Token),
        leap.Loses skipped keyword behind ∧ skipped <:+ front) ∨
      ∃ rest, (fileLevel limit start).cursor.ahead = rest ++ keyword :: behind ∧
        (rest = [] → (fileLevel limit start).cursor.movedSince start.index) := by
  have current : start.current = word := Cursor.current_of_ahead ahead
  obtain ⟨passes, left⟩ := Cursor.advanceBy_passes [word] _ ahead
  by_cases begins : word.kind.startsDeclaration
  · obtain ⟨used, course⟩ := fileLevel_goes limit (current ▸ begins) intact
    have whole : used ++ (fileLevel limit start).cursor.ahead = front ++ keyword :: behind :=
      course.passes.ahead.symm.trans left
    rcases split_append whole with ⟨rest, split, rfl⟩ | ⟨rest, rfl, stop⟩
    · obtain ⟨leap, skipped, loses, rfl⟩ := course.lost split declares
      exact .inl ⟨leap, skipped, loses, List.suffix_append _ _⟩
    · exact .inr ⟨rest, stop, fun _ => (passes.trans course.passes).moved (by simp)⟩
  · refine .inr ⟨word :: front, ?_, by simp⟩
    have stays : fileLevel limit start = _ := topLevel_other _ _ (current ▸ begins)
    rw [stays]
    exact ahead

theorem fileLevel_sound (limit : Nat) : Sound (DeclReading limit) (fileLevel limit) :=
  topLevel_sound (typeExpr_sound limit limit (Nat.le_refl _))
    (block_sound (statement_sound limit limit (Nat.le_refl _)) fun _ _ _ => StmtReading.ne_nil)

theorem recover_declaration (limit : Nat) {start : Cursor} (intact : start.Intact)
    (more : start.ahead ≠ []) :
    (recover (fileLevel limit) (resynchronize start) start).reports =
        (fileLevel limit start).reports ∧
      ∃ used, (fileLevel limit start).cursor.Passes used
        (recover (fileLevel limit) (resynchronize start) start).cursor := by
  obtain ⟨_, used, passes, _⟩ := fileLevel_sound limit start intact
  obtain ⟨_, skipped, further, holds⟩ :=
    resynchronize_moves more passes (passes.intact intact)
  rw [resynchronize_some] at holds
  obtain ⟨silent, _⟩ := show _ ∧ _ from holds
  rw [recover]
  split
  · exact ⟨rfl, [], .refl _⟩
  · refine ⟨?_, skipped, further⟩
    simp [Reply.after, silent]

/-- Behind a declaration, read or not, the file goes on before the keyword. -/
theorem nextDeclaration_keyword (limit : Nat) {cursor start : Cursor} {keyword : Token}
    {rest behind : List Token} (breaks : (skipLineBreaks cursor).cursor = start)
    (more : ¬ start.atEnd)
    (ahead : (fileLevel limit start).cursor.ahead = rest ++ keyword :: behind)
    (declares : keyword.kind.startsDeclaration)
    (moved : rest = [] → (fileLevel limit start).cursor.movedSince start.index) :
    ∃ left, (nextDeclaration (fileLevel limit) cursor).cursor.ahead = left ++ keyword :: behind := by
  rw [nextDeclaration_eq _ breaks, if_neg more]
  show ∃ left, (recover (fileLevel limit) (resynchronize start) start).cursor.ahead = _
  rw [recover]
  split
  · exact ⟨rest, ahead⟩
  · exact resynchronize_stops ahead declares moved

/-- One of the places is the one of the keyword, or that of a declaration that skips it. -/
theorem placesUpTo_keyword (limit count : Nat) {cursor : Cursor} (intact : cursor.Intact)
    (enough : cursor.ahead.length < count) {keyword : Token} {before behind : List Token}
    (split : cursor.ahead = before ++ keyword :: behind)
    (declares : keyword.kind.startsDeclaration) :
    ∃ place ∈ placesUpTo (fileLevel limit) count cursor,
      place.ahead = keyword :: behind ∨
        ∃ (leap : LeapAt limit place) (skipped : List Token),
          leap.Loses skipped keyword behind ∧ skipped <:+ before := by
  induction count generalizing cursor before with
  | zero => omega
  | succ count ih =>
    obtain ⟨_, breaks, passes, reads⟩ := skipLineBreaks_at cursor intact
    obtain ⟨_, taken⟩ := show _ ∧ _ from reads
    obtain ⟨start, skipped⟩ : ∃ start, (skipLineBreaks cursor).cursor = start := ⟨_, rfl⟩
    rw [skipped] at passes
    obtain ⟨front, rfl, ahead⟩ : ∃ front, before = breaks ++ front ∧
        start.ahead = front ++ keyword :: behind := by
      refine (split_append (passes.ahead.symm.trans split)).resolve_left fun ⟨rest, same, _⟩ => ?_
      have line : keyword ∈ breaks := by simp [same]
      rw [taken] at line
      exact (breaks_takeWhile _).plain keyword line declares
    have more : ¬ start.atEnd := by simp [Cursor.atEnd, ahead]
    rw [placesUpTo, skipped]
    simp only [more, Bool.false_eq_true, ↓reduceIte]
    -- Each round leaves fewer tokens before the keyword, until they are none or it is skipped.
    cases front with
    | nil => exact ⟨start, List.mem_cons_self, .inl ahead⟩
    | cons word front =>
      rcases fileLevel_keyword limit (passes.intact intact) ahead declares with
        ⟨leap, lost, loses, suffix⟩ | ⟨rest, stop, moved⟩
      · have within : lost <:+ breaks ++ word :: front :=
          (suffix.trans (List.suffix_cons word front)).trans (List.suffix_append breaks _)
        exact ⟨start, List.mem_cons_self, .inr ⟨leap, lost, loses, within⟩⟩
      · obtain ⟨left, next⟩ := nextDeclaration_keyword limit skipped more stop declares moved
        obtain ⟨_, used, further, _⟩ := declaration_rounds limit cursor intact
        have round := nextDeclaration_eq (fileLevel limit) skipped
        rw [if_neg more] at round
        have shorter := (declaration_rounds limit).moves cursor intact _ (congrArg Reply.value round)
        obtain ⟨place, member, found⟩ := ih (further.intact intact) (by omega) next
        have whole : breaks ++ word :: front = used ++ left := by
          refine (List.append_left_inj (keyword :: behind)).1 ?_
          rw [← split, further.ahead, next, List.append_assoc]
        refine ⟨place, List.mem_cons_of_mem _ member, found.imp_right ?_⟩
        rintro ⟨leap, lost, loses, suffix⟩
        exact ⟨leap, lost, loses, whole ▸ suffix.trans (List.suffix_append used left)⟩

/-- What is read of a declaration lies before the end of the round that reads it. -/
theorem nextDeclaration_onward (limit : Nat) {cursor start : Cursor} (intact : cursor.Intact)
    (breaks : (skipLineBreaks cursor).cursor = start) (more : ¬ start.atEnd) :
    ∃ read skipped, start.Passes read (fileLevel limit start).cursor ∧
      (fileLevel limit start).cursor.Passes skipped
        (nextDeclaration (fileLevel limit) cursor).cursor := by
  obtain ⟨_, _, passes, _⟩ := skipLineBreaks_sound cursor intact
  have there : start.Intact := breaks ▸ passes.intact intact
  obtain ⟨_, read, through, _⟩ := fileLevel_sound limit start there
  obtain ⟨_, skipped, further⟩ :=
    recover_declaration limit there (by simpa [Cursor.atEnd] using more)
  rw [nextDeclaration_eq _ breaks, if_neg more]
  exact ⟨read, skipped, through, further⟩

theorem placesUpTo_behind (limit count : Nat) {cursor : Cursor} (intact : cursor.Intact) :
    ∀ place ∈ placesUpTo (fileLevel limit) count cursor, ∃ used, cursor.Passes used place := by
  induction count generalizing cursor with
  | zero => simp [placesUpTo]
  | succ count ih =>
    rw [placesUpTo]
    split
    · simp
    · intro place member
      obtain ⟨_, breaks, passes, _⟩ := skipLineBreaks_sound cursor intact
      obtain ⟨_, used, further, _⟩ := declaration_rounds limit cursor intact
      rcases List.mem_cons.1 member with rfl | later
      · exact ⟨breaks, passes⟩
      · obtain ⟨more, behind⟩ := ih (further.intact intact) place later
        exact ⟨used ++ more, further.trans behind⟩

/-- No declaration is read from within what is read of another one. -/
theorem placesUpTo_apart (limit count : Nat) {cursor place other : Cursor} (intact : cursor.Intact)
    (member : place ∈ placesUpTo (fileLevel limit) count cursor)
    (among : other ∈ placesUpTo (fileLevel limit) count cursor) :
    other.ahead.length ≤ (fileLevel limit place).cursor.ahead.length ∨
      place.ahead.length ≤ other.ahead.length := by
  induction count generalizing cursor with
  | zero => simp [placesUpTo] at member
  | succ count ih =>
    obtain ⟨start, breaks⟩ : ∃ start, (skipLineBreaks cursor).cursor = start := ⟨_, rfl⟩
    rw [placesUpTo, breaks] at member among
    split at member
    · simp at member
    · rename_i goesOn
      rw [if_neg goesOn] at among
      obtain ⟨_, _, through, onward⟩ := nextDeclaration_onward limit intact breaks goesOn
      obtain ⟨_, _, round, _⟩ := declaration_rounds limit cursor intact
      have there := round.intact intact
      have later : ∀ place ∈ placesUpTo (fileLevel limit) count
          (nextDeclaration (fileLevel limit) cursor).cursor,
          place.ahead.length ≤ (fileLevel limit start).cursor.ahead.length := by
        intro place member
        obtain ⟨_, behind⟩ := placesUpTo_behind limit count there place member
        have whole := (onward.trans behind).length
        omega
      have read := through.length
      rcases List.mem_cons.1 member with rfl | inside
      · rcases List.mem_cons.1 among with rfl | behind
        · exact .inr (Nat.le_refl _)
        · exact .inl (later other behind)
      · rcases List.mem_cons.1 among with rfl | behind
        · have within := later place inside
          exact .inr (by omega)
        · exact ih there inside behind

theorem declarations_places (limit : Nat) {cursor : Cursor} (intact : cursor.Intact) :
    (declarations limit cursor).value =
        some ((declarationPlaces limit cursor).filterMap fun place => (fileLevel limit place).value) ∧
      ∀ place ∈ declarationPlaces limit cursor, ∀ report ∈ (fileLevel limit place).reports,
        report ∈ (declarations limit cursor).reports := by
  have rounds := declaration_rounds limit
  obtain ⟨values, told⟩ :=
    manyUpTo_places rounds.moves rounds.keeps (cursor.ahead.length + 1) intact (Nat.lt_succ_self _)
  have opened : declarations limit cursor = _ := bind_of_some values _
  rw [opened]
  refine ⟨?_, fun place member report reported => ?_⟩
  · show some (List.filterMap id _) = some _
    rw [List.filterMap_map]
    rfl
  · exact List.mem_append_left _ (told place member report reported)

end Parser

/-- The declarations of a parse are those that are found at their places. -/
theorem parse_places (source name : Text) (limits : Limits) :
    (parse source name limits).program.declarations =
      (Parser.declarationPlaces limits.depth (sourceCursor source limits.tokens)).filterMap
        fun place => (Parser.fileLevel limits.depth place).value := by
  obtain ⟨values, _⟩ :=
    Parser.declarations_places limits.depth (sourceCursor_intact source limits.tokens)
  rw [parse_declarations, values]
  rfl

/-- The keyword is skipped in the declaration that is read from the place. From the token of a report
made there, other than of a missing closing brace, the parser skips to a place behind the keyword
that the declaration reaches: at the limit on nesting to the end of the construct, or in its body to
the end of the statement or field. No line break and no closing brace is skipped before the keyword
outside of brackets. So the keyword lies inside brackets that are opened in what is skipped, unless
the report is of the keyword itself. -/
def HiddenFrom (source name : Text) (limits : Limits) (place : Cursor) (keyword : Token)
    (behind : List Token) : Prop :=
  ∃ (leap : Parser.LeapAt limits.depth place) (front : List Token),
    leap.Loses front keyword behind ∧
    (Bag.ofSource source).place leap.report ∈ (parse source name limits).diagnostics ∧
    (∀ between token rest, front = between ++ token :: rest →
      ¬ (Skip.openAfterAll 0 between = 0 ∧ Skip.endsStatement token.kind)) ∧
    (front = [] ∨ 0 < Skip.openAfterAll 0 front)

/-- A keyword that is hidden begins no declaration. -/
theorem HiddenFrom.not_read {source name : Text} {limits : Limits} {place : Cursor}
    {keyword : Token} {behind : List Token}
    (hidden : HiddenFrom source name limits place keyword behind)
    (member : place ∈ Parser.declarationPlaces limits.depth (sourceCursor source limits.tokens)) :
    ∀ other ∈ Parser.declarationPlaces limits.depth (sourceCursor source limits.tokens),
      other.ahead ≠ keyword :: behind := by
  intro other among same
  obtain ⟨leap, front, loses, _⟩ := hidden
  have apart := Parser.placesUpTo_apart limits.depth _
    (sourceCursor_intact source limits.tokens) member among
  have lengths := Leap.lengths loses
  rw [Cursor.ahead_advance, List.length_tail] at lengths
  rw [same, List.length_cons] at apart
  omega

/-- A keyword at the beginning of a line is the first token of a declaration that is read, or else
the declaration before hides it. -/
theorem keyword_declares (source name : Text) (limits : Limits) {before behind : List Token}
    {keyword : Token} (split : readTokens source limits.tokens = before ++ keyword :: behind)
    (declares : keyword.kind.startsDeclaration)
    (line : ∃ last, before.getLast? = some last ∧ last.kind = .lineBreak) :
    ∃ place ∈ Parser.declarationPlaces limits.depth (sourceCursor source limits.tokens),
      place.ahead = keyword :: behind ∨
        (HiddenFrom source name limits place keyword behind ∧
          ∀ other ∈ Parser.declarationPlaces limits.depth (sourceCursor source limits.tokens),
            other.ahead ≠ keyword :: behind) := by
  have intact := sourceCursor_intact source limits.tokens
  have ahead : (sourceCursor source limits.tokens).ahead = before ++ keyword :: behind := by
    rw [sourceCursor_eq]
    exact split
  obtain ⟨place, member, found⟩ := Parser.placesUpTo_keyword limits.depth
    ((sourceCursor source limits.tokens).ahead.length + 1) intact (Nat.lt_succ_self _) ahead declares
  refine ⟨place, member, found.imp_right ?_⟩
  rintro ⟨leap, skipped, loses, suffix⟩
  obtain ⟨_, told⟩ := Parser.declarations_places limits.depth intact
  have enclosed := Leap.enclosed loses fun last ends => by
    obtain ⟨passed, rfl⟩ := suffix
    obtain ⟨other, same, kind⟩ := line
    rw [List.getLast?_append, Option.mem_def.1 ends] at same
    obtain rfl := Option.some.inj same
    exact kind
  have hidden : HiddenFrom source name limits place keyword behind :=
    ⟨leap, skipped, loses, mem_diagnostics name limits (told place member _ leap.mem_reports),
      Leap.goesOn loses, enclosed⟩
  exact ⟨hidden, hidden.not_read member⟩

/-- A function whose body is not closed before the next one. -/
def unclosedSource : Text := "fn a() \x7b\n    x := 1\nfn b() \x7b\n\x7d\n".toList

theorem keyword_declares_unclosed :
    ∃ keyword : Token,
      readTokens unclosedSource none =
          (readTokens unclosedSource none).take 10 ++
            keyword :: (readTokens unclosedSource none).drop 11 ∧
        keyword.kind.startsDeclaration ∧
        (∃ last, ((readTokens unclosedSource none).take 10).getLast? = some last ∧
          last.kind = .lineBreak) ∧
        ∃ place ∈ Parser.declarationPlaces 64 (sourceCursor unclosedSource none),
          place.ahead = keyword :: (readTokens unclosedSource none).drop 11 ∨
            (HiddenFrom unclosedSource unnamed ⟨64, none⟩ place keyword
                ((readTokens unclosedSource none).drop 11) ∧
              ∀ other ∈ Parser.declarationPlaces 64 (sourceCursor unclosedSource none),
                other.ahead ≠ keyword :: (readTokens unclosedSource none).drop 11) := by
  have split : readTokens unclosedSource none =
      (readTokens unclosedSource none).take 10 ++
        ⟨.keyword .fnWord, "fn".toList, ⟨20, 22⟩, ⟨3, 1⟩⟩ ::
          (readTokens unclosedSource none).drop 11 := by
    decide +kernel
  have line : ∃ last, ((readTokens unclosedSource none).take 10).getLast? = some last ∧
      last.kind = .lineBreak :=
    ⟨⟨.lineBreak, "\n".toList, ⟨19, 20⟩, ⟨2, 11⟩⟩, by decide +kernel, rfl⟩
  exact ⟨_, split, rfl, line, keyword_declares _ unnamed ⟨64, none⟩ split rfl line⟩

/-- A function with a bracket that is opened on a line that cannot be read. -/
def strayBrackets : Text := "fn a() \x7b\n) (\nfn b() \x7b\x7d\n".toList

theorem keyword_enclosed :
    ¬ ∀ (source : Text) (before behind : List Token) (keyword : Token),
      readTokens source none = before ++ keyword :: behind →
      keyword.kind.startsDeclaration →
      (∃ last, before.getLast? = some last ∧ last.kind = .lineBreak) →
      ∃ place ∈ Parser.declarationPlaces 64 (sourceCursor source none),
        place.ahead = keyword :: behind := by
  intro every
  have split : readTokens strayBrackets none = (readTokens strayBrackets none).take 9 ++
      ⟨.keyword .fnWord, "fn".toList, ⟨13, 15⟩, ⟨3, 1⟩⟩ ::
        (readTokens strayBrackets none).drop 10 := by
    decide +kernel
  have line : ∃ last, ((readTokens strayBrackets none).take 9).getLast? = some last ∧
      last.kind = .lineBreak :=
    ⟨⟨.lineBreak, "\n".toList, ⟨12, 13⟩, ⟨2, 4⟩⟩, by decide +kernel, rfl⟩
  obtain ⟨place, member, begins⟩ := every _ _ _ _ split rfl line
  have first : ∀ place ∈ Parser.declarationPlaces 64 (sourceCursor strayBrackets none),
      place.ahead.length ≠ 7 := by decide +kernel
  refine first place member ?_
  rw [begins]
  decide +kernel

end MoSyntax
