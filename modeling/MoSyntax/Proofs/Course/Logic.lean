import MoSyntax.Proofs.Deepening.Logic
import MoSyntax.Proofs.Reading.Skip

/-!
The course of a parser through the tokens, whether it finds something or not. It passes tokens other
than the keywords that begin a declaration, it reports something at the token where it stands, or it
skips from the token of such a report. So whatever is lost is skipped behind a report.
-/
namespace MoSyntax

namespace Diagnostic

/-- The diagnostic begins where the token does. -/
def Marks (diagnostic : Diagnostic) (token : Token) : Prop :=
  diagnostic.span.start = token.span.start

/-- What is reported where the body of a declaration is not closed. -/
def unclosedMessages : List String :=
  ["expected `\x7d` to close the code block", "expected `\x7d` to close the struct body"]

def isUnclosed (diagnostic : Diagnostic) : Bool := unclosedMessages.contains diagnostic.message

end Diagnostic

theorem Breaks.plain {tokens : List Token} (breaks : Breaks tokens) :
    ∀ token ∈ tokens, ¬ token.kind.startsDeclaration := by
  intro token member
  simp [breaks token member, TokenKind.startsDeclaration]

/-- Where the parser goes on when it skips from the place of a report: behind the construct that
exceeds the limit on nesting, or where `body` holds behind the statement or field. -/
inductive SkipsTo (body : Cursor → Cursor → Prop) (report : Diagnostic) (start stop : Cursor) : Prop
  | subtree {stops} (limit : report.isLimit)
      (construct : stops ∈ [Skip.stopsType, Skip.stopsExpression, Skip.stopsStatement])
      (cursor : stop = (Parser.skipSubtree stops start).cursor)
  | statement (inside : body start stop) (cursor : stop = (Parser.skipStatement start).cursor)

/-- The tokens passed between two places of one text, and the reports made on the way. Whatever is
skipped is skipped from the place of a report that has been made. -/
inductive Course (body : Cursor → Cursor → Prop) (start : Cursor) :
    List Token → List Diagnostic → Cursor → Prop
  | start : Course body start [] [] start
  | pass {used reports stop more next} (course : Course body start used reports stop)
      (passes : stop.Passes more next) (plain : ∀ token ∈ more, ¬ token.kind.startsDeclaration) :
      Course body start (used ++ more) reports next
  | tell {used reports stop report} (course : Course body start used reports stop)
      (marks : report.Marks stop.current) : Course body start used (reports ++ [report]) stop
  | skip {used reports stop skipped next report} (course : Course body start used reports stop)
      (told : report ∈ reports) (marks : report.Marks stop.current) (wrong : ¬ report.isUnclosed)
      (skips : SkipsTo body report stop next) (passes : stop.Passes skipped next) :
      Course body start (used ++ skipped) reports next

namespace Course

variable {body : Cursor → Cursor → Prop} {start middle stop : Cursor} {used more : List Token}
  {reports later : List Diagnostic}

theorem passes (course : Course body start used reports stop) : start.Passes used stop := by
  induction course with
  | start => exact .refl start
  | pass _ passes _ ih => exact ih.trans passes
  | tell _ _ ih => exact ih
  | skip _ _ _ _ _ passes ih => exact ih.trans passes

theorem trans (first : Course body start used reports middle)
    (second : Course body middle more later stop) :
    Course body start (used ++ more) (reports ++ later) stop := by
  induction second with
  | start => simpa using first
  | pass _ passes plain ih =>
    rw [← List.append_assoc]
    exact ih.pass passes plain
  | tell _ marks ih =>
    rw [← List.append_assoc]
    exact ih.tell marks
  | skip _ told marks wrong skips passes ih =>
    rw [← List.append_assoc]
    exact ih.skip (List.mem_append_right _ told) marks wrong skips passes

/-- All that is skipped on the way lies between its two ends. -/
theorem within {inside : Cursor → Cursor → Prop} (course : Course inside start used reports stop)
    (holds : ∀ first last front rest, start.Passes front first → last.Passes rest stop →
      inside first last → body first last) : Course body start used reports stop := by
  induction course with
  | start => exact .start
  | pass course passes plain ih =>
    refine (ih fun first last front rest before behind => ?_).pass passes plain
    exact holds first last front _ before (behind.trans passes)
  | tell course marks ih => exact (ih holds).tell marks
  | @skip _ _ _ _ next _ course told marks wrong skips passes ih =>
    have shorter := ih fun first last front rest before behind =>
      holds first last front _ before (behind.trans passes)
    refine shorter.skip told marks wrong ?_ passes
    cases skips with
    | subtree limit construct cursor => exact .subtree limit construct cursor
    | statement within cursor =>
      exact .statement (holds _ next _ [] course.passes (.refl next) within) cursor

end Course

/-- A failure is blamed on the token where it stands. -/
def Blamed (reports : List Diagnostic) (stop : Cursor) : Prop :=
  ∃ report ∈ reports, report.Marks stop.current ∧ ¬ report.isUnclosed

variable {α β : Type}

structure Reply.Runs (body : Cursor → Cursor → Prop) (start : Cursor) (reply : Reply α) : Prop where
  course : ∃ used, Course body start used reply.reports reply.cursor
  blames : reply.value = none → Blamed reply.reports reply.cursor

/-- Wherever a statement or a field is read, it may be skipped. -/
def anyBody (_ _ : Cursor) : Prop := True

namespace Parser

/-- From an intact cursor the parser goes such a course. -/
def GoesAt (body : Cursor → Cursor → Prop) (start : Cursor) (parser : Parser α) : Prop :=
  start.Intact → ∃ used, Course body start used (parser start).reports (parser start).cursor

def Goes (body : Cursor → Cursor → Prop) (parser : Parser α) : Prop :=
  ∀ start, GoesAt body start parser

/-- The parser goes such a course, and if it fails it stops at the token to blame. -/
def RunsAt (body : Cursor → Cursor → Prop) (start : Cursor) (parser : Parser α) : Prop :=
  start.Intact → (parser start).Runs body start

def Runs (body : Cursor → Cursor → Prop) (parser : Parser α) : Prop :=
  ∀ start, RunsAt body start parser

variable {body : Cursor → Cursor → Prop} {start : Cursor}

theorem RunsAt.goes {parser : Parser α} (runs : RunsAt body start parser) :
    GoesAt body start parser := fun intact => (runs intact).course

namespace GoesAt

theorem keeps {parser : Parser α} (goes : GoesAt body start parser) (intact : start.Intact) :
    (parser start).cursor.Intact := by
  obtain ⟨used, course⟩ := goes intact
  exact course.passes.intact intact

theorem bind {first : Parser α} {next : α → Parser β} (head : GoesAt body start first)
    (tail : ∀ value, (first start).value = some value →
      GoesAt body (first start).cursor (next value)) :
    GoesAt body start (first >>= next) := by
  intro intact
  obtain ⟨used, course⟩ := head intact
  cases found : (first start).value with
  | none =>
    rw [bind_of_none found]
    exact ⟨used, course⟩
  | some value =>
    rw [bind_of_some found]
    obtain ⟨more, further⟩ := tail value found (head.keeps intact)
    exact ⟨used ++ more, course.trans further⟩

end GoesAt

theorem blamed_bind {first : Parser α} {next : α → Parser β}
    (head : (first start).value = none → Blamed (first start).reports (first start).cursor)
    (tail : ∀ value, (first start).value = some value →
      (next value (first start).cursor).value = none →
        Blamed (next value (first start).cursor).reports (next value (first start).cursor).cursor)
    (lost : ((first >>= next) start).value = none) :
    Blamed ((first >>= next) start).reports ((first >>= next) start).cursor := by
  cases found : (first start).value with
  | none =>
    rw [bind_of_none found]
    exact head found
  | some value =>
    rw [bind_of_some found] at lost ⊢
    obtain ⟨report, told, marks, wrong⟩ := tail value found lost
    exact ⟨report, List.mem_append_right _ told, marks, wrong⟩

namespace RunsAt

theorem pure (value : α) : RunsAt body start (Pure.pure value) :=
  fun _ => ⟨⟨[], .start⟩, fun lost => absurd lost (by simp [Pure.pure, succeed])⟩

theorem reject {diagnostic : Diagnostic} (marks : diagnostic.Marks start.current)
    (wrong : ¬ diagnostic.isUnclosed) : RunsAt body start (reject diagnostic : Parser α) :=
  fun _ => ⟨⟨[], .tell .start marks⟩, fun _ => ⟨diagnostic, List.mem_cons_self, marks, wrong⟩⟩

theorem report {diagnostic : Diagnostic} (marks : diagnostic.Marks start.current) :
    RunsAt body start (report diagnostic) :=
  fun _ => ⟨⟨[], .tell .start marks⟩, fun lost => absurd lost (by simp [Parser.report])⟩

theorem of_sound {reading : Reading α} {parser : Parser α} (sound : SoundAt start reading parser)
    (found : (parser start).value.isSome)
    (plain : ∀ used value reports, reading used value reports →
      reports = [] ∧ ∀ token ∈ used, ¬ token.kind.startsDeclaration) :
    RunsAt body start parser := by
  intro intact
  obtain ⟨_, used, passes, holds⟩ := sound intact
  obtain ⟨value, some⟩ := Option.isSome_iff_exists.1 found
  rw [some] at holds
  obtain ⟨silent, others⟩ := plain _ _ _ holds
  refine ⟨⟨used, ?_⟩, fun lost => absurd lost (by simp [some])⟩
  rw [silent]
  exact .pass .start passes others

theorem skip {count : Nat} (used rest : List Token) (ahead : start.ahead = used ++ rest)
    (length : used.length = count) (plain : ∀ token ∈ used, ¬ token.kind.startsDeclaration) :
    RunsAt body start (Parser.skip count) := by
  refine of_sound (SoundAt.skip used rest ahead length) rfl ?_
  rintro _ _ _ ⟨rfl, rfl⟩
  exact ⟨rfl, plain⟩

theorem bind {first : Parser α} {next : α → Parser β} (head : RunsAt body start first)
    (tail : ∀ value, (first start).value = some value →
      RunsAt body (first start).cursor (next value)) :
    RunsAt body start (first >>= next) := by
  intro intact
  have middle := head.goes.keeps intact
  exact ⟨head.goes.bind (fun value found => (tail value found).goes) intact,
    blamed_bind (head intact).blames fun value found => (tail value found middle).blames⟩

theorem here_bind {next : Cursor → Parser β} (tail : RunsAt body start (next start)) :
    RunsAt body start (here >>= next) := tail

theorem current_bind {next : Token → Parser β} (tail : RunsAt body start (next start.current)) :
    RunsAt body start (current >>= next) := tail

theorem check_bind {kind : TokenKind} {next : Bool → Parser β}
    (tail : RunsAt body start (next (start.current.kind == kind))) :
    RunsAt body start (check kind >>= next) := tail

theorem note_bind {event : Event} {next : Unit → Parser β}
    (tail : RunsAt body start (next ())) : RunsAt body start (note event >>= next) := by
  intro intact
  obtain ⟨course, blames⟩ := tail intact
  exact ⟨course, blames⟩

theorem previous : RunsAt body start previous := by
  intro intact
  rw [Parser.previous, Cursor.previous?_of_intact intact]
  exact ⟨⟨[], .start⟩, fun lost => absurd lost (by simp)⟩

theorem advance_bind {next : Unit → Parser β} (some : start.current.kind ≠ .endOfFile)
    (plain : ¬ start.current.kind.startsDeclaration) (tail : ∀ stop, RunsAt body stop (next ())) :
    RunsAt body start (advance >>= next) := by
  intro intact
  obtain ⟨rest, ahead⟩ := Cursor.ahead_of_current intact some
  exact bind (skip [start.current] rest ahead rfl (by simpa using plain)) (fun _ _ => tail _) intact

theorem inside {parser : Parser α} {depth : Nat} (runs : RunsAt body start parser) :
    RunsAt body start (Parser.inside depth parser) := by
  intro intact
  obtain ⟨course, blames⟩ := runs intact
  rw [Parser.inside]
  split
  · exact ⟨course, blames⟩
  · exact ⟨course, blames⟩

end RunsAt

namespace Runs

theorem bind {first : Parser α} {next : α → Parser β} (head : Runs body first)
    (tail : ∀ value, Runs body (next value)) : Runs body (first >>= next) :=
  fun start => (head start).bind fun value _ => tail value _

theorem pure (value : α) : Runs body (Pure.pure value) := fun _ => RunsAt.pure value

theorem attempt {parser : Parser α} (trial : Trial) (runs : Runs body parser) :
    Runs body (Parser.attempt trial parser) := by
  intro start intact
  rw [Parser.attempt]
  split
  · rename_i value found
    obtain ⟨⟨used, course⟩, _⟩ := runs start intact
    have noted : Runs body (do note (.matched trial (← previous).position)
                                 return some value) :=
      fun stop => RunsAt.previous.bind fun _ _ => RunsAt.note_bind (.pure _)
    obtain ⟨⟨more, further⟩, blames⟩ := noted _ (course.passes.intact intact)
    refine ⟨⟨_, course.trans further⟩, fun lost => ?_⟩
    obtain ⟨report, told, marks⟩ := blames lost
    exact ⟨report, List.mem_append_right _ told, marks⟩
  · exact ⟨⟨[], .start⟩, fun lost => absurd lost (by simp)⟩

theorem unlessDeclined {parser : Parser (Option α)} {other : Parser α} (first : Runs body parser)
    (second : Runs body other) : Runs body (Parser.unlessDeclined parser other) := by
  intro start intact
  rw [Parser.unlessDeclined]
  split
  · rename_i lost
    exact ⟨(first start intact).course, fun _ => (first start intact).blames lost⟩
  · exact ⟨(first start intact).course, fun lost => absurd lost (by simp)⟩
  · exact ⟨(second start intact).course, (second start intact).blames⟩

theorem recover {parser : Parser α} (runs : Runs anyBody parser) :
    Runs anyBody (Parser.recover parser skipStatement) := by
  intro start intact
  obtain ⟨⟨used, course⟩, blames⟩ := runs start intact
  rw [Parser.recover]
  split
  · exact ⟨⟨used, course⟩, fun lost => absurd lost (by simp)⟩
  · rename_i lost
    obtain ⟨report, told, marks, wrong⟩ := blames lost
    obtain ⟨_, more, passes, silent, _⟩ :=
      skipStatement_at (parser start).cursor (course.passes.intact intact)
    have skipped := course.skip told marks wrong (.statement trivial rfl) passes
    refine ⟨⟨used ++ more, ?_⟩, fun lost => absurd lost (by simp)⟩
    simpa [Reply.after, silent] using skipped

end Runs

/-- A step that has something has passed a token. -/
def Moves (step : Parser (Option α)) : Prop :=
  ∀ start, start.Intact → ∀ value, (step start).value = some (some value) →
    (step start).cursor.ahead.length < start.ahead.length

theorem Sound.moves {each : Reading α} {rest : List Token → Prop} {step : Parser (Option α)}
    (sound : Sound (Round each rest) step) : Moves step := by
  intro start intact value found
  obtain ⟨_, used, passes, holds⟩ := sound start intact
  rw [found] at holds
  have passed := List.length_pos_iff.2 holds.2
  have shorter := passes.length
  omega

namespace Runs

theorem manyUpTo {step : Parser (Option α)} (runs : Runs body step) (moves : Moves step)
    (count : Nat) (start : Cursor) (enough : start.ahead.length < count) :
    RunsAt body start (Parser.manyUpTo count step) := by
  intro intact
  induction count generalizing start with
  | zero => omega
  | succ count ih =>
    refine RunsAt.bind (runs start) (fun found some => ?_) intact
    cases found with
    | none => exact .pure _
    | some value =>
      have shorter := moves start intact value some
      exact RunsAt.bind (ih _ (by omega)) fun _ _ => .pure _

theorem many {step : Parser (Option α)} (runs : Runs body step) (moves : Moves step) :
    Runs body (Parser.many step) :=
  fun start => manyUpTo runs moves _ start (Nat.lt_succ_self _)

end Runs

/-! Single tokens. -/

theorem missing_marks (expected message : String) (found : Token) :
    (Report.missing expected message found).Marks found := rfl

theorem missing_wrong {message : String} (other : message ∉ Diagnostic.unclosedMessages)
    (expected : String) (found : Token) : ¬ (Report.missing expected message found).isUnclosed := by
  show ¬ Diagnostic.unclosedMessages.contains message
  simpa using other

theorem unexpected_marks (expected : String) (found : Token) :
    (Report.unexpected expected found).Marks found := rfl

variable {message : String}

theorem expect_goes {kind : TokenKind} (some : kind ≠ .endOfFile)
    (plain : ¬ kind.startsDeclaration) (message : String) : Goes body (expect kind message) := by
  intro start intact
  by_cases here : start.current.kind == kind
  · have found : start.current.kind = kind := by simpa using here
    rw [expect_found here]
    have passes := Cursor.advance_passes intact (found ▸ some)
    exact ⟨_, .pass .start passes (by simpa [found] using plain)⟩
  · rw [expect_other here]
    exact ⟨[], .tell .start rfl⟩

theorem expect_runs {kind : TokenKind} (some : kind ≠ .endOfFile)
    (plain : ¬ kind.startsDeclaration) (other : message ∉ Diagnostic.unclosedMessages) :
    Runs body (expect kind message) := by
  intro start intact
  refine ⟨expect_goes some plain message start intact, fun lost => ?_⟩
  by_cases here : start.current.kind == kind
  · rw [expect_found here] at lost
    exact absurd lost (by simp)
  · rw [expect_other here]
    exact ⟨_, List.mem_cons_self, rfl, missing_wrong other _ _⟩

theorem ident_runs (other : message ∉ Diagnostic.unclosedMessages) :
    Runs body (ident message) := by
  intro start
  apply RunsAt.current_bind
  split
  · rename_i name found
    exact RunsAt.advance_bind (by simp [found]) (by simp [found, TokenKind.startsDeclaration])
      fun _ => .pure _
  · exact .reject (missing_marks _ _ _) (missing_wrong other _ _)

theorem accept_runs {kind : TokenKind} (some : kind ≠ .endOfFile)
    (plain : ¬ kind.startsDeclaration) : Runs body (accept kind) := by
  intro start
  apply RunsAt.check_bind
  split
  · rename_i found
    have found : start.current.kind = kind := by simpa using found
    exact RunsAt.advance_bind (found ▸ some) (found ▸ plain) fun _ => .pure _
  · exact .pure _

theorem mark_runs (mark : Punctuation) (other : message ∉ Diagnostic.unclosedMessages) :
    Runs body (expect (.punctuation mark) message) :=
  expect_runs (by simp) (by simp [TokenKind.startsDeclaration]) other

theorem acceptMark_runs (mark : Punctuation) : Runs body (accept (.punctuation mark)) :=
  accept_runs (by simp) (by simp [TokenKind.startsDeclaration])

theorem skipLineBreaks_runs : Runs body skipLineBreaks := by
  intro start
  refine .of_sound (skipLineBreaks_sound start) rfl ?_
  rintro used _ _ ⟨breaks, rfl⟩
  exact ⟨rfl, breaks.plain⟩

end Parser

end MoSyntax
