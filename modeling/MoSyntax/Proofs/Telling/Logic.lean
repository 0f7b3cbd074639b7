import MoSyntax.Proofs.Course.Order
import MoSyntax.Proofs.Tally.Logic

/-!
What is reported, and of which place. A report points at tokens of the text, and it lies between the
place where the parser begins and the one it comes to. What has been found lies behind all reports,
except where it stops at a token of which nothing more is reported. So no report is made twice.
-/
namespace MoSyntax

namespace Cursor

/-- The span goes from a token of the text to the same or a later one, or it is the end of the
file. -/
def Points (cursor : Cursor) (span : Span) : Prop :=
  span = cursor.eof.span ∨
    span.start < span.stop ∧ (∃ first ∈ cursor.tokens, first.span.start = span.start) ∧
      ∃ last ∈ cursor.tokens, last.span.stop = span.stop

variable {start stop : Cursor} {used : List Token}

theorem Passes.tokens (passes : start.Passes used stop) : stop.tokens = start.tokens := by
  simp [Cursor.tokens, passes.passed, passes.ahead]

theorem Passes.points (passes : start.Passes used stop) {span : Span} (points : stop.Points span) :
    start.Points span := by
  rwa [Points, passes.tokens, passes.eof] at points

theorem mem_tokens_of_ahead {cursor : Cursor} {token : Token} (member : token ∈ cursor.ahead) :
    token ∈ cursor.tokens := List.mem_append_right _ member

theorem points_of_mem {cursor : Cursor} {token : Token} (member : token ∈ cursor.tokens)
    (solid : token.span.start < token.span.stop) : cursor.Points token.span :=
  .inr ⟨solid, ⟨token, member, rfl⟩, token, member, rfl⟩

namespace InOrder

theorem points_current {cursor : Cursor} (inOrder : cursor.InOrder) :
    cursor.Points cursor.current.span := by
  cases ahead : cursor.ahead with
  | nil => exact .inl (by simp [current, peek, ahead])
  | cons token rest =>
    have member : token ∈ cursor.ahead := by simp [ahead]
    rw [current_of_ahead ahead]
    exact points_of_mem (mem_tokens_of_ahead member) (inOrder.ahead.solid token member)

theorem points_through {cursor : Cursor} (inOrder : cursor.InOrder) (between : List Token)
    {first last : Token} {rest : List Token}
    (ahead : cursor.ahead = first :: between ++ last :: rest) :
    cursor.Points (first.span.through last.span) := by
  have among {token : Token} (member : token ∈ first :: between ++ last :: rest) :
      token ∈ cursor.tokens := mem_tokens_of_ahead (ahead ▸ member)
  have ordered := inOrder.ahead
  rw [ahead] at ordered
  have apart := (List.pairwise_cons.1 ordered.apart).1 last (by simp)
  have solid := ordered.solid first (by simp)
  have solid' := ordered.solid last (by simp)
  refine .inr ⟨?_, ⟨first, among (by simp), rfl⟩, last, among (by simp), rfl⟩
  show first.span.start < last.span.stop
  omega

theorem stop_le_current {token : Token} (inOrder : start.InOrder)
    (passes : start.Passes (token :: used) stop) : token.span.stop ≤ stop.current.span.start := by
  cases ahead : stop.ahead with
  | nil =>
    have ended : stop.current = start.eof := by simp [current, peek, ahead, passes.eof]
    exact ended ▸ inOrder.eof token (by simp [passes.ahead])
  | cons next rest =>
    have ordered := inOrder.ahead.apart
    rw [passes.ahead] at ordered
    rw [current_of_ahead ahead]
    exact (List.pairwise_cons.1 ordered).1 next (by simp [ahead])

theorem current_lt (inOrder : start.InOrder) (passes : start.Passes used stop) (moved : used ≠ []) :
    start.current.span.start < stop.current.span.start := by
  obtain ⟨token, used, rfl⟩ := List.exists_cons_of_ne_nil moved
  have solid := inOrder.ahead.solid token (by simp [passes.ahead])
  rw [current_of_ahead passes.ahead]
  exact Nat.lt_of_lt_of_le solid (inOrder.stop_le_current passes)

theorem eq_of_current (inOrder : start.InOrder) (passes : start.Passes used stop)
    (same : start.current.span.start = stop.current.span.start) : stop = start := by
  cases used with
  | nil => exact passes.of_nil
  | cons token used => exact absurd same (Nat.ne_of_lt (inOrder.current_lt passes (by simp)))

end InOrder

end Cursor

/-- The report points at tokens, all of them behind the first cursor, and its place is not behind
the second one. Its line and column are not known yet. -/
structure Told (start stop : Cursor) (report : Diagnostic) : Prop where
  points : ∀ label ∈ report.labels, start.Points label.span
  after : ∀ label ∈ report.labels, start.current.span.start ≤ label.span.start
  before : report.span.start ≤ stop.current.span.start
  unplaced : report.position = ⟨0, 0⟩

namespace Told

variable {start middle stop : Cursor} {used : List Token} {report : Diagnostic}

theorem le (told : Told start stop report) : start.current.span.start ≤ report.span.start :=
  told.after report.primary List.mem_cons_self

theorem further (told : Told start middle report)
    (le : middle.current.span.start ≤ stop.current.span.start) : Told start stop report :=
  { told with before := Nat.le_trans told.before le }

theorem earlier (told : Told middle stop report) (inOrder : start.InOrder)
    (passes : start.Passes used middle) : Told start stop report where
  points label member := passes.points (told.points label member)
  after label member := Nat.le_trans (inOrder.current_le passes) (told.after label member)
  before := told.before
  unplaced := told.unplaced

theorem alone (points : start.Points report.span)
    (here : report.span.start = start.current.span.start) (alone : report.secondary = [])
    (unplaced : report.position = ⟨0, 0⟩) : Told start start report := by
  have only {label : Label} (member : label ∈ report.labels) : label = report.primary := by
    rwa [Diagnostic.labels, alone, List.mem_singleton] at member
  refine ⟨fun label member => ?_, fun label member => ?_, Nat.le_of_eq here, unplaced⟩
  · exact only member ▸ points
  · exact only member ▸ Nat.le_of_eq here.symm

theorem here (inOrder : start.InOrder) (here : report.span = start.current.span)
    (alone : report.secondary = []) (unplaced : report.position = ⟨0, 0⟩) :
    Told start start report :=
  .alone (here ▸ inOrder.points_current) (congrArg Span.start here) alone unplaced

/-- Who stops at the token of an earlier report has passed nothing since. -/
theorem stays (told : Told start middle report) (inOrder : middle.InOrder)
    (onward : middle.Passes used stop) (here : report.span.start = stop.current.span.start) :
    stop = middle :=
  inOrder.eq_of_current onward (Nat.le_antisymm (inOrder.current_le onward) (here ▸ told.before))

end Told

variable {α β : Type} {bodies : Prop}

/-- The reports of a reply, with those about an open body only as told. Of the token that comes next
after what has been found, a report is made only where that token is an end. -/
structure Reply.Reported (bodies : Prop) (ends : α → Cursor → Prop) (start : Cursor)
    (reply : Reply α) : Prop where
  passes : ∃ used, start.Passes used reply.cursor
  body : ∀ report ∈ reply.reports, report.isUnclosed → bodies
  told : ∀ report ∈ reply.reports, Told start reply.cursor report
  distinct : reply.reports.Nodup
  clean : ∀ value, reply.value = some value → ∀ report ∈ reply.reports,
    report.span.start = reply.cursor.current.span.start → ends value reply.cursor

namespace Reply.Reported

variable {start middle : Cursor} {used more : List Token} {ends : α → Cursor → Prop}
  {last : β → Cursor → Prop}

theorem earlier {reply : Reply α} (reported : reply.Reported bodies ends middle)
    (inOrder : start.InOrder) (passes : start.Passes used middle) :
    reply.Reported bodies ends start where
  passes := reported.passes.imp' (used ++ ·) fun _ => passes.trans
  body := reported.body
  told report member := (reported.told report member).earlier inOrder passes
  distinct := reported.distinct
  clean := reported.clean

theorem lost {reply : Reply α} (reported : reply.Reported bodies ends start) :
    ({ reply with value := none } : Reply β).Reported bodies last start :=
  ⟨reported.passes, reported.body, reported.told, reported.distinct,
    fun _ none => absurd none (by simp)⟩

/-- Another reply can follow that makes none of the reports again. -/
theorem append {first : Reply α} {second : Reply β} (head : first.Reported bodies ends start)
    (inOrder : start.InOrder) (onward : first.cursor.Passes more second.cursor)
    (body : ∀ report ∈ second.reports, report.isUnclosed → bodies)
    (told : ∀ report ∈ second.reports, Told start second.cursor report)
    (distinct : second.reports.Nodup)
    (apart : ∀ report ∈ first.reports, report ∉ second.reports)
    (clean : ∀ value, second.value = some value → ∀ report ∈ first.reports ++ second.reports,
      report.span.start = second.cursor.current.span.start → last value second.cursor) :
    (second.after first).Reported bodies last start := by
  obtain ⟨used, passes⟩ := head.passes
  have le := (inOrder.later passes).current_le onward
  refine ⟨⟨used ++ more, passes.trans onward⟩, List.forall_mem_append.2 ⟨head.body, body⟩,
    List.forall_mem_append.2 ⟨fun report member => (head.told report member).further le, told⟩,
    List.nodup_append.2 ⟨head.distinct, distinct, ?_⟩, clean⟩
  rintro report member _ again rfl
  exact apart report member again

end Reply.Reported

namespace Parser

variable {start : Cursor} {ends further : α → Cursor → Prop} {last : β → Cursor → Prop}

def PlacesAt (bodies : Prop) (ends : α → Cursor → Prop) (start : Cursor) (parser : Parser α) :
    Prop := start.Intact → start.InOrder → (parser start).Reported bodies ends start

/-- From every place in an ordered text, the reports of the parser are such. -/
def Places (bodies : Prop) (ends : α → Cursor → Prop) (parser : Parser α) : Prop :=
  ∀ start, PlacesAt bodies ends start parser

/-- What is found lies behind all reports. -/
def Clean : α → Cursor → Prop := fun _ _ => False

/-- All reports are about later tokens. -/
def LaterAt (start : Cursor) (parser : Parser α) : Prop :=
  start.Intact → start.InOrder →
    ∀ report ∈ (parser start).reports, start.current.span.start < report.span.start

namespace PlacesAt

variable {parser : Parser α}

theorem imp {allowed : Prop} (places : PlacesAt bodies ends start parser)
    (implies : bodies → allowed) (more : ∀ value stop, ends value stop → further value stop) :
    PlacesAt allowed further start parser := by
  intro intact inOrder
  obtain ⟨passes, body, told, distinct, clean⟩ := places intact inOrder
  exact ⟨passes, fun report member unclosed => implies (body report member unclosed), told, distinct,
    fun value found report member here => more _ _ (clean value found report member here)⟩

theorem of_clean (places : PlacesAt bodies Clean start parser) : PlacesAt bodies ends start parser :=
  places.imp id fun _ _ => False.elim

theorem silent {used : List Token} (passes : start.Passes used (parser start).cursor)
    (silent : (parser start).reports = []) : PlacesAt bodies ends start parser := by
  refine fun _ _ => ⟨⟨used, passes⟩, ?_, ?_, ?_, ?_⟩ <;> simp [silent]

theorem pure (value : α) : PlacesAt bodies ends start (Pure.pure value) :=
  .silent (.refl start) rfl

theorem reject {diagnostic : Diagnostic} (body : diagnostic.isUnclosed → bodies)
    (told : start.InOrder → Told start start diagnostic) :
    PlacesAt bodies ends start (reject diagnostic) := by
  refine fun _ inOrder => ⟨⟨[], .refl start⟩, ?_, ?_, List.pairwise_singleton _ _, ?_⟩
  · exact List.forall_mem_singleton.2 body
  · exact List.forall_mem_singleton.2 (told inOrder)
  · exact fun _ found => absurd found (by simp [Parser.reject])

theorem reject_here {diagnostic : Diagnostic} (body : diagnostic.isUnclosed → bodies)
    (here : diagnostic.span = start.current.span) (alone : diagnostic.secondary = [])
    (unplaced : diagnostic.position = ⟨0, 0⟩) :
    PlacesAt bodies ends start (Parser.reject diagnostic) :=
  .reject body fun inOrder => .here inOrder here alone unplaced

theorem report {diagnostic : Diagnostic} (body : diagnostic.isUnclosed → bodies)
    (here : diagnostic.span = start.current.span) (alone : diagnostic.secondary = [])
    (unplaced : diagnostic.position = ⟨0, 0⟩) :
    PlacesAt bodies (fun _ stop => stop = start) start (Parser.report diagnostic) := by
  intro _ inOrder
  have told : Told start start diagnostic := .here inOrder here alone unplaced
  exact ⟨⟨[], .refl start⟩, List.forall_mem_singleton.2 body, List.forall_mem_singleton.2 told,
    List.pairwise_singleton _ _, fun _ _ _ _ _ => rfl⟩

theorem bind_apart {first : Parser α} {next : α → Parser β}
    (head : PlacesAt bodies ends start first)
    (tail : ∀ value, (first start).value = some value →
      PlacesAt bodies last (first start).cursor (next value))
    (apart : ∀ value, (first start).value = some value → start.Intact → start.InOrder →
      ∀ report ∈ (first start).reports, report ∉ (next value (first start).cursor).reports)
    (keeps : ∀ value stop found, stop.Intact → ends value stop →
      (next value stop).value = some found → (next value stop).cursor = stop → last found stop) :
    PlacesAt bodies last start (first >>= next) := by
  intro intact inOrder
  have reported := head intact inOrder
  cases found : (first start).value with
  | none =>
    rw [bind_of_none found]
    exact reported.lost
  | some value =>
    rw [bind_of_some found]
    obtain ⟨used, passes⟩ := reported.passes
    have order := inOrder.later passes
    have middle := passes.intact intact
    obtain ⟨⟨more, onward⟩, body, told, distinct, clean⟩ := tail value found middle order
    refine reported.append inOrder onward body
      (fun report member => (told report member).earlier inOrder passes) distinct
      (apart value found intact inOrder) fun result final report member here => ?_
    rcases List.mem_append.1 member with member | member
    · have stays := (reported.told report member).stays order onward here
      rw [stays] at here ⊢
      exact keeps value _ result middle (reported.clean value found report member here) final stays
    · exact clean result final report member here

/-- Where the first part stops at an end, the second one reports of later tokens only; elsewhere the
first one has reported of earlier ones. -/
theorem bind {first : Parser α} {next : α → Parser β} (head : PlacesAt bodies ends start first)
    (tail : ∀ value, (first start).value = some value →
      PlacesAt bodies last (first start).cursor (next value))
    (later : ∀ value stop, ends value stop → LaterAt stop (next value))
    (keeps : ∀ value stop found, stop.Intact → ends value stop →
      (next value stop).value = some found → (next value stop).cursor = stop → last found stop) :
    PlacesAt bodies last start (first >>= next) := by
  refine head.bind_apart tail (fun value found intact inOrder report member again => ?_) keeps
  have reported := head intact inOrder
  obtain ⟨used, passes⟩ := reported.passes
  have middle := passes.intact intact
  have order := inOrder.later passes
  have told := (tail value found middle order).told report again
  have here := Nat.le_antisymm (reported.told report member).before told.le
  have stops := reported.clean value found report member here
  exact absurd here (Nat.ne_of_gt (later value _ stops middle order report again))

theorem clean_bind {first : Parser α} {next : α → Parser β}
    (head : PlacesAt bodies Clean start first)
    (tail : ∀ value, (first start).value = some value →
      PlacesAt bodies last (first start).cursor (next value)) :
    PlacesAt bodies last start (first >>= next) :=
  head.bind tail (fun _ _ stops => stops.elim) fun _ _ _ _ stops _ _ => stops.elim

theorem map {make : α → β} (places : PlacesAt bodies ends start parser)
    (keeps : ∀ value stop, ends value stop → last (make value) stop) :
    PlacesAt bodies last start (parser >>= fun value => Pure.pure (make value)) := by
  refine places.bind (fun value _ => .pure _) ?_ ?_
  · intro _ _ _ _ _ report member
    cases member
  · rintro value stop _ _ stops ⟨⟩ _
    exact keeps value _ stops

theorem here_bind {next : Cursor → Parser β} (tail : PlacesAt bodies last start (next start)) :
    PlacesAt bodies last start (here >>= next) := tail

theorem current_bind {next : Token → Parser β}
    (tail : PlacesAt bodies last start (next start.current)) :
    PlacesAt bodies last start (current >>= next) := tail

theorem check_bind {kind : TokenKind} {next : Bool → Parser β}
    (tail : PlacesAt bodies last start (next (start.current.kind == kind))) :
    PlacesAt bodies last start (check kind >>= next) := tail

theorem note_bind {event : Event} {next : Unit → Parser β}
    (tail : PlacesAt bodies last start (next ())) :
    PlacesAt bodies last start (note event >>= next) := by
  intro intact inOrder
  obtain ⟨passes, body, told, distinct, clean⟩ := tail intact inOrder
  exact ⟨passes, body, told, distinct, clean⟩

theorem inside {depth : Nat} (places : PlacesAt bodies ends start parser) :
    PlacesAt bodies ends start (Parser.inside depth parser) := by
  intro intact inOrder
  obtain ⟨passes, body, told, distinct, clean⟩ := places intact inOrder
  rw [Parser.inside]
  split
  · exact ⟨passes, body, told, distinct, clean⟩
  · exact ⟨passes, body, told, distinct, clean⟩

theorem skip_bind {count : Nat} {next : Unit → Parser β}
    (tail : PlacesAt bodies last (start.advanceBy count) (next ())) :
    PlacesAt bodies last start (skip count >>= next) :=
  clean_bind (.silent (start.advanceBy_take count) rfl) fun _ _ => tail

end PlacesAt

namespace Places

theorem clean_bind {first : Parser α} {next : α → Parser β} (head : Places bodies Clean first)
    (tail : ∀ value, Places bodies last (next value)) : Places bodies last (first >>= next) :=
  fun start => (head start).clean_bind fun value _ => tail value _

theorem pure (value : α) : Places bodies ends (Pure.pure value) := fun _ => .pure value

theorem map {parser : Parser α} {make : α → β} (places : Places bodies ends parser)
    (keeps : ∀ value stop, ends value stop → last (make value) stop) :
    Places bodies last (parser >>= fun value => Pure.pure (make value)) :=
  fun start => (places start).map keeps

theorem attempt {parser : Parser α} (trial : Trial) (places : Places bodies Clean parser) :
    Places bodies Clean (Parser.attempt trial parser) := by
  intro start intact inOrder
  obtain ⟨⟨used, passes⟩, body, told, distinct, clean⟩ := places start intact inOrder
  cases found : (parser start).value with
  | none =>
    simp only [Parser.attempt, found]
    exact ⟨⟨[], .refl start⟩, List.forall_mem_nil _, List.forall_mem_nil _, .nil, by simp⟩
  | some value =>
    have kept : (Parser.attempt trial parser start).reports = (parser start).reports ∧
        (Parser.attempt trial parser start).cursor = (parser start).cursor := by
      simp [Parser.attempt, found, Sound.matched_of_intact (passes.intact intact), Reply.after]
    refine ⟨⟨used, kept.2 ▸ passes⟩, kept.1 ▸ body, ?_, kept.1 ▸ distinct, ?_⟩
    · rwa [kept.1, kept.2]
    · rw [kept.1, kept.2]
      exact fun _ _ => clean value found

theorem unlessDeclined {parser : Parser (Option α)} {other : Parser α}
    (first : Places bodies Clean parser) (second : Places bodies Clean other) :
    Places bodies Clean (Parser.unlessDeclined parser other) := by
  intro start intact inOrder
  obtain ⟨passes, body, told, distinct, clean⟩ := first start intact inOrder
  rw [Parser.unlessDeclined]
  split
  · exact ⟨passes, body, told, distinct, by simp⟩
  · rename_i value found
    exact ⟨passes, body, told, distinct, fun _ _ => clean (some value) found⟩
  · obtain ⟨passes, body, told, distinct, clean⟩ := second start intact inOrder
    exact ⟨passes, body, told, distinct, clean⟩

end Places

theorem PlacesAt.recover {parser : Parser α} {recovery : Parser Unit} {stops : Cursor → Prop}
    (places : PlacesAt bodies ends start parser)
    (recovers : ∀ used stop, start.Passes used stop → stop.Intact →
      (recovery stop).reports = [] ∧ ∃ more, stop.Passes more (recovery stop).cursor ∧
        (more = [] → stops stop)) :
    PlacesAt bodies (fun value? stop => match value? with
      | some value => ends value stop
      | none => stops stop) start (Parser.recover parser recovery) := by
  intro intact inOrder
  have reported := places intact inOrder
  obtain ⟨used, passes⟩ := reported.passes
  rw [Parser.recover]
  split
  · rename_i value found
    refine ⟨⟨used, passes⟩, reported.body, reported.told, reported.distinct, ?_⟩
    rintro _ ⟨⟩
    exact reported.clean value found
  · obtain ⟨silent, more, onward, stays⟩ := recovers used _ passes (passes.intact intact)
    have order := inOrder.later passes
    show Reply.Reported _ _ start
      (({ recovery (parser start).cursor with value := some none } : Reply (Option α)).after _)
    refine reported.append inOrder onward ?_ ?_ ?_ ?_ ?_
    · simp [silent]
    · simp [silent]
    · simp [silent]
    · simp [silent]
    · rintro _ ⟨⟩ report member here
      have member : report ∈ (parser start).reports := by simpa [silent] using member
      have same := (reported.told report member).stays order onward here
      show stops (recovery (parser start).cursor).cursor
      rw [same] at onward ⊢
      exact stays onward.eq_nil

namespace LaterAt

theorem of_silent {parser : Parser α} (silent : (parser start).reports = []) :
    LaterAt start parser := by
  simp [LaterAt, silent]

theorem current_bind {next : Token → Parser β} (tail : LaterAt start (next start.current)) :
    LaterAt start (current >>= next) := tail

/-- A part that passes a token leaves only later ones to the next. -/
theorem bind {first : Parser α} {next : α → Parser β} (later : LaterAt start first)
    (head : PlacesAt bodies ends start first) (tail : ∀ value, Places bodies last (next value))
    (stays : ∀ value, (first start).value = some value → (first start).cursor = start →
      LaterAt start (next value)) : LaterAt start (first >>= next) := by
  intro intact inOrder
  obtain ⟨used, passes⟩ := (head intact inOrder).passes
  cases found : (first start).value with
  | none =>
    rw [bind_of_none found]
    exact later intact inOrder
  | some value =>
    rw [bind_of_some found]
    refine List.forall_mem_append.2 ⟨later intact inOrder, fun report member => ?_⟩
    by_cases moved : used = []
    · subst moved
      have same := passes.of_nil
      rw [same] at member
      exact stays value found same intact inOrder report member
    · have reported := tail value _ (passes.intact intact) (inOrder.later passes)
      exact Nat.lt_of_lt_of_le (inOrder.current_lt passes moved) (reported.told report member).le

end LaterAt

/-! Repetition. -/

/-- If a round stops at the token of a report, that is an end, and a round that begins at an end
reports of later tokens only. -/
structure Resumes (bodies : Prop) (stops : Cursor → Prop) (step : Parser α) : Prop where
  places : Places bodies (fun _ => stops) step
  later : ∀ start, stops start → LaterAt start step

namespace Resumes

variable {stops : Cursor → Prop}

/-- Something is skipped before a round, so that only where it is not there can a round begin at the
next token. -/
theorem after {gap : Parser Unit} {next : Unit → Parser α} (skips : Places bodies Clean gap)
    (silent : ∀ start, (gap start).reports = [])
    (places : Places bodies (fun _ => stops) (next ()))
    (later : ∀ start, start.Intact → stops start → (gap start).cursor = start →
      LaterAt start (gap >>= next)) : Resumes bodies stops (gap >>= next) where
  places := skips.clean_bind fun _ => places
  later start ends := by
    by_cases stays : (gap start).cursor = start
    · exact fun intact => later start intact ends stays intact
    · exact (LaterAt.of_silent (silent start)).bind (skips start) (fun _ => places)
        fun _ _ same => absurd same stays

theorem pure (value : α) : Resumes bodies stops (Pure.pure value) :=
  ⟨.pure value, fun _ _ => .of_silent rfl⟩

theorem bind {first : Parser α} {next : α → Parser β} (head : Resumes bodies stops first)
    (tail : ∀ value, Resumes bodies stops (next value)) :
    Resumes bodies stops (first >>= next) where
  places start := (head.places start).bind (fun value _ => (tail value).places _)
    (fun value stop => (tail value).later stop) fun _ _ _ _ ends _ _ => ends
  later start ends := (head.later start ends).bind (head.places start)
    (fun value => (tail value).places) fun value _ _ => (tail value).later start ends

theorem manyUpTo {step : Parser (Option α)} (rounds : Resumes bodies stops step) (count : Nat) :
    Resumes bodies stops (Parser.manyUpTo count step) := by
  induction count with
  | zero => exact ⟨fun start => .silent (.refl start) rfl, fun _ _ => .of_silent rfl⟩
  | succ count ih =>
    rw [Parser.manyUpTo]
    refine rounds.bind fun value => ?_
    cases value with
    | none => exact .pure _
    | some value => exact ih.bind fun _ => .pure _

theorem many {step : Parser (Option α)} (rounds : Resumes bodies stops step) :
    Places bodies (fun _ => stops) (Parser.many step) :=
  fun start => (rounds.manyUpTo _).places start

end Resumes

theorem Places.clean_many {step : Parser (Option α)} (rounds : Places bodies Clean step) :
    Places bodies Clean (Parser.many step) :=
  Resumes.many ⟨rounds, fun _ => False.elim⟩

theorem manyUpTo_stops (stops : Cursor → Prop) {step : Parser (Option α)}
    (ends : ∀ start, (step start).value = some none → stops (step start).cursor) (count : Nat)
    {values : List α} (found : (manyUpTo count step start).value = some values) :
    stops (manyUpTo count step start).cursor := by
  induction count generalizing start values with
  | zero => cases found
  | succ count ih =>
    rw [manyUpTo] at found ⊢
    cases round : (step start).value with
    | none =>
      rw [bind_of_none round] at found
      cases found
    | some value =>
      rw [bind_of_some round] at found ⊢
      cases value with
      | none => exact ends start round
      | some value =>
        dsimp only at found ⊢
        cases others : (manyUpTo count step (step start).cursor).value with
        | none =>
          rw [bind_of_none others] at found
          cases found
        | some rest =>
          rw [bind_of_some others]
          exact ih others

/-! Single tokens, names, and lists. -/

variable {message : String} {item : Parser α}

theorem expect_clean {kind : TokenKind} (body : message ∈ Diagnostic.unclosedMessages → bodies) :
    Places bodies Clean (expect kind message) := by
  intro start
  apply PlacesAt.current_bind
  split
  · exact .skip_bind (.pure _)
  · refine .reject_here (fun unclosed => body ?_) rfl rfl rfl
    have held : Diagnostic.unclosedMessages.contains message := unclosed
    simpa using held

theorem mark_clean {kind : TokenKind} (other : message ∉ Diagnostic.unclosedMessages) :
    Places bodies Clean (expect kind message) := expect_clean fun member => absurd member other

theorem ident_clean (other : message ∉ Diagnostic.unclosedMessages) :
    Places bodies Clean (ident message) := by
  intro start
  apply PlacesAt.current_bind
  split
  · exact .skip_bind (.pure _)
  · exact .reject_here (fun unclosed => absurd unclosed (missing_wrong other _ _)) rfl rfl rfl

theorem accept_clean (kind : TokenKind) : Places bodies Clean (accept kind) := by
  intro start
  apply PlacesAt.check_bind
  split
  · exact .skip_bind (.pure _)
  · exact .pure _

theorem skipLineBreaks_clean : Places bodies Clean skipLineBreaks :=
  fun start => .here_bind (.silent (start.advanceBy_take _) rfl)

theorem name_clean (other : message ∉ Diagnostic.unclosedMessages) :
    Places bodies Clean (name message) := by
  have segments : Places bodies Clean nextSegment := by
    intro start
    apply PlacesAt.here_bind
    split
    · exact .skip_bind ((ident_clean (by decide)).clean_bind (fun _ => .pure _) _)
    · exact .pure _
  refine (ident_clean other).clean_bind fun first => segments.clean_many.clean_bind fun rest => ?_
  split
  · exact .pure _
  · exact .pure _

theorem listUntil_clean (items : Places bodies Clean item) (closing : Punctuation)
    (other : message ∉ Diagnostic.unclosedMessages) :
    Places bodies Clean (listUntil item closing message) := by
  have next : Places bodies Clean (nextItem item) := by
    refine (accept_clean _).clean_bind fun comma => ?_
    split
    · exact skipLineBreaks_clean.clean_bind fun _ => items.clean_bind fun _ =>
        skipLineBreaks_clean.clean_bind fun _ => .pure _
    · exact .pure _
  have separated : Places bodies Clean (commaSeparated item) :=
    items.clean_bind fun _ => skipLineBreaks_clean.clean_bind fun _ =>
      next.clean_many.clean_bind fun _ => .pure _
  have before : Places bodies Clean (itemsBefore item closing) := by
    refine skipLineBreaks_clean.clean_bind fun _ start => .check_bind ?_
    split
    · exact .pure _
    · exact separated start
  exact before.clean_bind fun _ => (mark_clean other).clean_bind fun _ => .pure _

end Parser

end MoSyntax
