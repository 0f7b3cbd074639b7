import MoSyntax.Proofs.Reading.Phrase

/-!
Two parsers of which the second may go deeper. It gives the reply of the first one, unless that one
reports the limit on nesting; and whatever the first one reports before the limit, the second one
reports too. A trial that is given up forgets its reports, so more has to be known of it.
-/
namespace MoSyntax

namespace Diagnostic

def isLimit (diagnostic : Diagnostic) : Bool := diagnostic.fault == .recursionLimitExceeded

/-- The reports up to the first one of the limit on nesting. -/
def beforeLimit (reports : List Diagnostic) : List Diagnostic :=
  reports.takeWhile fun report => !report.isLimit

def ReachesLimit (reports : List Diagnostic) : Prop := ∃ report ∈ reports, report.isLimit

variable {reports more : List Diagnostic}

theorem ReachesLimit.append (reaches : ReachesLimit reports) (more : List Diagnostic) :
    ReachesLimit (reports ++ more) := by
  obtain ⟨report, member, limit⟩ := reaches
  exact ⟨report, List.mem_append_left more member, limit⟩

theorem ReachesLimit.behind (reaches : ReachesLimit more) (reports : List Diagnostic) :
    ReachesLimit (reports ++ more) := by
  obtain ⟨report, member, limit⟩ := reaches
  exact ⟨report, List.mem_append_right reports member, limit⟩

theorem beforeLimit_prefix (reports : List Diagnostic) : beforeLimit reports <+: reports :=
  List.takeWhile_prefix _

theorem beforeLimit_append (reaches : ReachesLimit reports) (more : List Diagnostic) :
    beforeLimit (reports ++ more) = beforeLimit reports := by
  obtain ⟨report, member, limit⟩ := reaches
  induction reports with
  | nil => simp at member
  | cons first rest ih =>
    rw [List.cons_append, beforeLimit, beforeLimit, List.takeWhile_cons, List.takeWhile_cons]
    split
    · rename_i unlimited
      have behind : report ∈ rest := by
        refine (List.mem_cons.1 member).resolve_left fun same => ?_
        simp [← same, limit] at unlimited
      exact congrArg (first :: ·) (ih behind)
    · rfl

theorem beforeLimit_append_prefix (reports : List Diagnostic) {more others : List Diagnostic}
    (agrees : beforeLimit more <+: others) :
    beforeLimit (reports ++ more) <+: reports ++ others := by
  induction reports with
  | nil => exact agrees
  | cons first rest ih =>
    rw [List.cons_append, List.cons_append, beforeLimit, List.takeWhile_cons]
    split
    · exact List.cons_prefix_cons.2 ⟨rfl, ih⟩
    · exact List.nil_prefix

theorem reaches_at_once (reaches : ReachesLimit reports) (before : beforeLimit reports = []) :
    ∃ first rest, reports = first :: rest ∧ first.isLimit := by
  cases reports with
  | nil =>
    obtain ⟨report, member, _⟩ := reaches
    simp at member
  | cons first rest =>
    refine ⟨first, rest, rfl, ?_⟩
    rw [beforeLimit, List.takeWhile_cons] at before
    split at before
    · simp at before
    · rename_i limit
      simpa using limit

end Diagnostic

open Diagnostic (ReachesLimit beforeLimit beforeLimit_append beforeLimit_prefix)

variable {α β : Type}

/-- The replies agree until the first one reports the limit. -/
inductive Reply.DeepensTo (shallow deep : Reply α) : Prop
  | same (eq : deep = shallow)
  | limited (reaches : ReachesLimit shallow.reports)
      (agrees : beforeLimit shallow.reports <+: deep.reports)

namespace Reply.DeepensTo

theorem agrees {shallow deep : Reply α} (deepens : shallow.DeepensTo deep) :
    beforeLimit shallow.reports <+: deep.reports := by
  cases deepens with
  | same eq => exact eq ▸ beforeLimit_prefix _
  | limited _ agrees => exact agrees

theorem eq_of_unlimited {shallow deep : Reply α} (deepens : shallow.DeepensTo deep)
    (unlimited : ¬ ReachesLimit shallow.reports) : deep = shallow := by
  cases deepens with
  | same eq => exact eq
  | limited reaches _ => exact absurd reaches unlimited

/-- What is reported behind the limit does not matter. -/
theorem extend {shallow deep : Reply α} {shallow' deep' : Reply β}
    (reaches : ReachesLimit shallow.reports) (agrees : beforeLimit shallow.reports <+: deep.reports)
    (first : shallow.reports <+: shallow'.reports) (second : deep.reports <+: deep'.reports) :
    shallow'.DeepensTo deep' := by
  obtain ⟨more, same⟩ := first
  refine .limited (same ▸ reaches.append more) ?_
  rw [← same, beforeLimit_append reaches]
  exact agrees.trans second

theorem after {first : Reply α} {shallow deep : Reply β} (deepens : shallow.DeepensTo deep) :
    (shallow.after first).DeepensTo (deep.after first) := by
  cases deepens with
  | same eq => exact .same (by rw [eq])
  | limited reaches agrees =>
    exact .limited (reaches.behind _) (Diagnostic.beforeLimit_append_prefix _ agrees)

end Reply.DeepensTo

namespace Parser

/-- The parser does not leave the text. -/
def Keeps (parser : Parser α) : Prop := ∀ start, start.Intact → (parser start).cursor.Intact

theorem Sound.keeps {reading : Reading α} {parser : Parser α} (sound : Sound reading parser) :
    Keeps parser := by
  intro start intact
  obtain ⟨_, used, passes, _⟩ := sound start intact
  exact passes.intact intact

theorem reports_bind (first : Parser α) (next : α → Parser β) (start : Cursor) :
    (first start).reports <+: ((first >>= next) start).reports := by
  show _ <+: (andThen first next start).reports
  rw [andThen]
  split
  · exact List.prefix_refl _
  · exact List.prefix_append _ _

theorem reports_recover (parser : Parser α) (recovery : Parser Unit) (start : Cursor) :
    (parser start).reports <+: (recover parser recovery start).reports := by
  rw [recover]
  split
  · exact List.prefix_refl _
  · exact List.prefix_append _ _

theorem bind_of_none {first : Parser α} {start : Cursor} (lost : (first start).value = none)
    (next : α → Parser β) :
    (first >>= next) start = { first start with value := none } := by
  show andThen first next start = _
  rw [andThen, lost]

theorem bind_congr {shallow deep : Parser α} {start : Cursor} (same : deep start = shallow start)
    (next : α → Parser β) : (deep >>= next) start = (shallow >>= next) start := by
  show andThen deep next start = andThen shallow next start
  rw [andThen, andThen, same]

namespace Keeps

theorem pure (value : α) : Keeps (Pure.pure value) := fun _ intact => intact

theorem reject (diagnostic : Diagnostic) : Keeps (reject diagnostic : Parser α) :=
  fun _ intact => intact

theorem here : Keeps Parser.here := fun _ intact => intact

theorem current : Keeps Parser.current := fun _ intact => intact

theorem check (kind : TokenKind) : Keeps (Parser.check kind) := fun _ intact => intact

theorem note (event : Event) : Keeps (Parser.note event) := fun _ intact => intact

theorem report (diagnostic : Diagnostic) : Keeps (Parser.report diagnostic) :=
  fun _ intact => intact

theorem previous : Keeps Parser.previous := by
  intro start intact
  rw [Parser.previous, Cursor.previous?_of_intact intact]
  exact intact

theorem skip (count : Nat) : Keeps (Parser.skip count) := by
  intro start intact
  show (start.advanceBy count).Intact
  induction count generalizing start with
  | zero => exact intact
  | succ count ih =>
    refine ih start.advance ?_
    rw [Cursor.advance]
    split
    · exact intact
    · exact ⟨intact.beyond, intact.eof⟩

theorem bind {first : Parser α} {next : α → Parser β} (head : Keeps first)
    (tail : ∀ value, Keeps (next value)) : Keeps (first >>= next) := by
  intro start intact
  cases found : (first start).value with
  | none =>
    rw [bind_of_none found]
    exact head start intact
  | some value =>
    rw [bind_of_some found]
    exact tail value _ (head start intact)

end Keeps

theorem bind_of_silent {first : Parser α} {goesOn : α → Parser β} {value : α} {start stop : Cursor}
    (found : first start = { value := some value, cursor := stop }) :
    (first >>= goesOn) start = goesOn value stop := by
  rw [bind_of_some (by rw [found]), found]
  rfl

theorem expect_found {kind : TokenKind} {start : Cursor} (here : start.current.kind == kind)
    (message : String) :
    expect kind message start = { value := some start.current.span, cursor := start.advance } := by
  show ((if start.current.kind == kind then do
    advance
    return start.current.span
    else reject _ : Parser Span) start) = _
  rw [if_pos here]
  rfl

theorem expect_other {kind : TokenKind} {start : Cursor} (other : ¬ start.current.kind == kind)
    (message : String) :
    expect kind message start =
      { value := none, cursor := start
        reports := [Report.missing kind.description message start.current] } := by
  show ((if start.current.kind == kind then do
    advance
    return start.current.span
    else reject (Report.missing kind.description message start.current) : Parser Span) start) = _
  rw [if_neg other]
  rfl

theorem accept_found {kind : TokenKind} {start : Cursor} (here : start.current.kind == kind) :
    accept kind start = { value := some true, cursor := start.advance } := by
  show ((if start.current.kind == kind then do
    advance
    return true
    else return false : Parser Bool) start) = _
  rw [if_pos here]
  rfl

theorem accept_other {kind : TokenKind} {start : Cursor} (other : ¬ start.current.kind == kind) :
    accept kind start = { value := some false, cursor := start } := by
  show ((if start.current.kind == kind then do
    advance
    return true
    else return false : Parser Bool) start) = _
  rw [if_neg other]
  rfl

theorem accept_stays {kind : TokenKind} {start : Cursor}
    (other : (accept kind start).value = some false) : (accept kind start).cursor = start := by
  by_cases here : start.current.kind == kind
  · rw [accept_found here] at other
    exact absurd other (by simp)
  · rw [accept_other here]

/-- The parser reports nothing but failures. -/
structure Silent (parser : Parser α) : Prop where
  keeps : Keeps parser
  reports : ∀ start, start.Intact → ∀ value, (parser start).value = some value →
    (parser start).reports = []

theorem Sound.silent {reading : Reading α} {parser : Parser α} (sound : Sound reading parser)
    (silent : ∀ used value reports, reading used value reports → reports = []) : Silent parser := by
  refine ⟨sound.keeps, fun start intact value found => ?_⟩
  obtain ⟨_, used, _, holds⟩ := sound start intact
  rw [found] at holds
  exact silent _ _ _ holds

namespace Silent

theorem current : Silent Parser.current := ⟨.current, fun _ _ _ _ => rfl⟩

theorem advance : Silent Parser.advance := ⟨.skip 1, fun _ _ _ _ => rfl⟩

theorem expect {kind : TokenKind} (some : kind ≠ .endOfFile) (message : String) :
    Silent (Parser.expect kind message) :=
  (expect_sound some message).silent fun _ _ _ holds => holds.2

theorem ident (message : String) : Silent (Parser.ident message) :=
  (ident_sound message).silent fun _ _ _ holds => holds.2

end Silent

/-- From every place the second parser does what the first one does, and it may go deeper. -/
structure Deepens (shallow deep : Parser α) : Prop where
  keeps : Keeps shallow
  deepens : ∀ start, start.Intact → (shallow start).DeepensTo (deep start)

namespace Deepens

theorem refl {parser : Parser α} (keeps : Keeps parser) : Deepens parser parser :=
  ⟨keeps, fun _ _ => .same rfl⟩

theorem bind {shallow deep : Parser α} {next further : α → Parser β}
    (head : Deepens shallow deep) (tail : ∀ value, Deepens (next value) (further value)) :
    Deepens (shallow >>= next) (deep >>= further) := by
  refine ⟨head.keeps.bind fun value => (tail value).keeps, fun start intact => ?_⟩
  cases head.deepens start intact with
  | limited reaches agrees =>
    exact .extend reaches agrees (reports_bind _ _ _) (reports_bind _ _ _)
  | same eq =>
    cases found : (shallow start).value with
    | none =>
      rw [bind_of_none found, bind_of_none (eq ▸ found), eq]
      exact .same rfl
    | some value =>
      rw [bind_of_some found, bind_of_some (eq ▸ found), eq]
      exact ((tail value).deepens _ (head.keeps start intact)).after

theorem recover {shallow deep : Parser α} {recovery : Parser Unit} (deepens : Deepens shallow deep)
    (keeps : Keeps recovery) :
    Deepens (Parser.recover shallow recovery) (Parser.recover deep recovery) := by
  refine ⟨fun start intact => ?_, fun start intact => ?_⟩
  · have reached := deepens.keeps start intact
    rw [Parser.recover]
    split
    · exact reached
    · exact keeps _ reached
  · cases deepens.deepens start intact with
    | limited reaches agrees => exact .extend reaches agrees (reports_recover _ _ _) (reports_recover _ _ _)
    | same eq =>
      rw [Parser.recover, Parser.recover, eq]
      exact .same rfl

theorem manyUpTo {step further : Parser (Option α)} (deepens : Deepens step further)
    (count : Nat) : Deepens (Parser.manyUpTo count step) (Parser.manyUpTo count further) := by
  induction count with
  | zero => exact refl fun _ intact => intact
  | succ count ih =>
    refine deepens.bind fun found => ?_
    cases found with
    | none => exact refl (.pure _)
    | some value => exact ih.bind fun _ => refl (.pure _)

theorem many {step further : Parser (Option α)} (deepens : Deepens step further) :
    Deepens (Parser.many step) (Parser.many further) :=
  ⟨fun start => (manyUpTo deepens _).keeps start, fun start => (manyUpTo deepens _).deepens start⟩

end Deepens

/-- How a trial may come to the limit where the second one may go deeper: the limit is the first
thing it reports, and if it fails for that the second one fails too. -/
structure Overruns (shallow deep : Reply α) : Prop where
  first : ∃ report rest, shallow.reports = report :: rest ∧ report.isLimit
  fails : shallow.value = none →
    deep.value = none ∧ deep.events = shallow.events ∧ deep.missteps = shallow.missteps

/-- Parsers that may be tried: giving the trials up leaves no difference between them. -/
structure Tries (shallow deep : Parser α) : Prop where
  keeps : Keeps shallow
  tries : ∀ start, start.Intact → deep start = shallow start ∨ Overruns (shallow start) (deep start)

namespace Overruns

variable {shallow deep : Reply α}

theorem reaches (overruns : Overruns shallow deep) : ReachesLimit shallow.reports := by
  obtain ⟨report, rest, same, limit⟩ := overruns.first
  exact ⟨report, same ▸ List.mem_cons_self, limit⟩

theorem beforeLimit_eq (overruns : Overruns shallow deep) : beforeLimit shallow.reports = [] := by
  obtain ⟨report, rest, same, limit⟩ := overruns.first
  rw [same, beforeLimit, List.takeWhile_cons_of_neg (by simp [limit])]

end Overruns

namespace Tries

theorem deepens {shallow deep : Parser α} (tries : Tries shallow deep) : Deepens shallow deep := by
  refine ⟨tries.keeps, fun start intact => ?_⟩
  rcases tries.tries start intact with same | overruns
  · exact .same same
  · exact .limited overruns.reaches (overruns.beforeLimit_eq ▸ List.nil_prefix)

/-- What is read in silence before a trial does not count. -/
theorem behind {first : Parser α} {shallow deep : α → Parser β} (silent : Silent first)
    (tail : ∀ value, Tries (shallow value) (deep value)) :
    Tries (first >>= shallow) (first >>= deep) := by
  refine ⟨silent.keeps.bind fun value => (tail value).keeps, fun start intact => ?_⟩
  cases found : (first start).value with
  | none =>
    rw [bind_of_none found, bind_of_none found]
    exact .inl rfl
  | some value =>
    rw [bind_of_some found, bind_of_some found]
    rcases (tail value).tries _ (silent.keeps start intact) with same | overruns
    · exact .inl (by rw [same])
    · refine .inr ⟨?_, fun lost => ?_⟩
      · simpa [Reply.after, silent.reports start intact value found] using overruns.first
      · obtain ⟨none, events, missteps⟩ := overruns.fails lost
        exact ⟨none, by simp [Reply.after, events], by simp [Reply.after, missteps]⟩

/-- A trial forgets the limit, and then the second one has found nothing either. -/
theorem attempt {shallow deep : Parser α} (tries : Tries shallow deep) (trial : Trial) :
    Deepens (Parser.attempt trial shallow) (Parser.attempt trial deep) := by
  have matched (value : α) : Keeps (do note (.matched trial (← previous).position)
                                       return some value) :=
    Keeps.previous.bind fun _ => (Keeps.note _).bind fun _ => .pure _
  refine ⟨fun start intact => ?_, fun start intact => ?_⟩
  · rw [Parser.attempt]
    split
    · exact matched _ _ (tries.keeps start intact)
    · exact intact
  · rcases tries.tries start intact with same | overruns
    · rw [Parser.attempt, Parser.attempt, same]
      exact .same rfl
    · cases found : (shallow start).value with
      | none =>
        obtain ⟨none, events, missteps⟩ := overruns.fails found
        rw [Parser.attempt, Parser.attempt, found, none]
        exact .same (by simp [events, missteps])
      | some value =>
        obtain ⟨more, told⟩ :
            (shallow start).reports <+: (Parser.attempt trial shallow start).reports := by
          rw [Parser.attempt, found]
          exact List.prefix_append _ _
        refine .limited (told ▸ overruns.reaches.append more) ?_
        rw [← told, beforeLimit_append overruns.reaches, overruns.beforeLimit_eq]
        exact List.nil_prefix

end Tries

end Parser

end MoSyntax
