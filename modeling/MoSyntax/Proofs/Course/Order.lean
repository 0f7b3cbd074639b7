import MoSyntax.Proofs.Course.Keyword

/-!
Reports come in the order of the text. So where a source that can be read without a report is cut
short by the limit on nesting, nothing is reported before the limit is.
-/
namespace MoSyntax

structure Cursor.InOrder (cursor : Cursor) : Prop where
  ahead : Ordered cursor.ahead
  eof : ∀ token ∈ cursor.ahead, token.span.stop ≤ cursor.eof.span.start

namespace Cursor.InOrder

variable {start stop : Cursor} {used : List Token}

theorem later (inOrder : start.InOrder) (passes : start.Passes used stop) : stop.InOrder := by
  have sublist : stop.ahead.Sublist start.ahead := passes.ahead ▸ List.sublist_append_right _ _
  refine ⟨inOrder.ahead.sublist sublist, fun token member => ?_⟩
  rw [passes.eof]
  exact inOrder.eof token (sublist.subset member)

theorem current_le (inOrder : start.InOrder) (passes : start.Passes used stop) :
    start.current.span.start ≤ stop.current.span.start := by
  cases used with
  | nil => exact passes.of_nil ▸ Nat.le_refl _
  | cons token used =>
    have ordered := inOrder.ahead
    rw [Cursor.current_of_ahead passes.ahead]
    rw [passes.ahead] at ordered
    have solid := ordered.solid token (by simp)
    cases ahead : stop.ahead with
    | nil =>
      have current : stop.current = start.eof := by
        simp [Cursor.current, Cursor.peek, ahead, passes.eof]
      have bound := inOrder.eof token (by simp [passes.ahead])
      rw [current]
      omega
    | cons next rest =>
      rw [Cursor.current_of_ahead ahead]
      have apart := (List.pairwise_cons.1 ordered.apart).1 next (by simp [ahead])
      omega

end Cursor.InOrder

/-- The reports come in order, and none of them is about what lies outside of the two places. -/
structure Orderly (start : Cursor) (reports : List Diagnostic) (stop : Cursor) : Prop where
  sorted : reports.Pairwise fun first second => first.span.start ≤ second.span.start
  after : ∀ report ∈ reports, start.current.span.start ≤ report.span.start
  before : ∀ report ∈ reports, report.span.start ≤ stop.current.span.start

namespace Orderly

variable {start middle stop : Cursor} {reports later : List Diagnostic}

theorem nil : Orderly start [] stop := ⟨.nil, by simp, by simp⟩

theorem append (first : Orderly start reports middle) (second : Orderly middle later stop)
    (le : start.current.span.start ≤ middle.current.span.start)
    (further : middle.current.span.start ≤ stop.current.span.start) :
    Orderly start (reports ++ later) stop := by
  refine ⟨List.pairwise_append.2 ⟨first.sorted, second.sorted, fun report told other behind => ?_⟩,
    fun report told => ?_, fun report told => ?_⟩
  · exact Nat.le_trans (first.before report told) (second.after other behind)
  · rcases List.mem_append.1 told with told | told
    · exact first.after report told
    · exact Nat.le_trans le (second.after report told)
  · rcases List.mem_append.1 told with told | told
    · exact Nat.le_trans (first.before report told) further
    · exact second.before report told

theorem single {report : Diagnostic} (marks : report.Marks start.current) :
    Orderly start [report] start := by
  refine ⟨List.pairwise_singleton _ _, fun other told => ?_, fun other told => ?_⟩
  · obtain rfl := List.mem_singleton.1 told
    exact Nat.le_of_eq marks.symm
  · obtain rfl := List.mem_singleton.1 told
    exact Nat.le_of_eq marks

end Orderly

theorem Course.orderly {body : Cursor → Cursor → Prop} {start stop : Cursor} {used : List Token}
    {reports : List Diagnostic} (course : Course body start used reports stop)
    (inOrder : start.InOrder) : Orderly start reports stop := by
  have on {middle next : Cursor} {used more : List Token} {reports : List Diagnostic}
      (course : Course body start used reports middle) (ih : Orderly start reports middle)
      (passes : middle.Passes more next) : Orderly start reports next := by
    have le := (inOrder.later course.passes).current_le passes
    simpa using ih.append .nil (inOrder.current_le course.passes) le
  induction course with
  | start => exact .nil
  | pass course passes _ ih => exact on course ih passes
  | tell course marks ih =>
    exact ih.append (.single marks) (inOrder.current_le course.passes) (Nat.le_refl _)
  | skip course _ _ _ _ passes ih => exact on course ih passes

namespace Parser

theorem fileLevel_orderly (limit : Nat) {start : Cursor} (intact : start.Intact)
    (inOrder : start.InOrder) :
    Orderly start (fileLevel limit start).reports (fileLevel limit start).cursor := by
  by_cases declares : start.current.kind.startsDeclaration
  · have passes := Cursor.advance_passes intact fun none => by
      simp [none, TokenKind.startsDeclaration] at declares
    obtain ⟨used, course⟩ := fileLevel_goes limit declares intact
    have orderly := course.orderly (inOrder.later passes)
    have le := (inOrder.later passes).current_le course.passes
    have whole := Orderly.nil.append orderly (inOrder.current_le passes) le
    simpa using whole
  · have stays : fileLevel limit start = _ := topLevel_other _ _ declares
    rw [stays]
    exact .single rfl

/-- From an intact cursor the parser passes tokens, and its reports come in order. -/
def Ranges {α : Type} (parser : Parser α) : Prop :=
  ∀ start, start.Intact → start.InOrder →
    (∃ used, start.Passes used (parser start).cursor) ∧
      Orderly start (parser start).reports (parser start).cursor

namespace Ranges

variable {α β : Type}

theorem pure (value : α) : Ranges (Pure.pure value) := fun start _ _ => ⟨⟨[], .refl start⟩, .nil⟩

theorem bind {first : Parser α} {next : α → Parser β} (head : Ranges first)
    (tail : ∀ value, Ranges (next value)) : Ranges (first >>= next) := by
  intro start intact inOrder
  obtain ⟨⟨used, passes⟩, orderly⟩ := head start intact inOrder
  cases found : (first start).value with
  | none =>
    rw [bind_of_none found]
    exact ⟨⟨used, passes⟩, orderly⟩
  | some value =>
    rw [bind_of_some found]
    have order := inOrder.later passes
    obtain ⟨⟨more, further⟩, later⟩ := tail value _ (passes.intact intact) order
    exact ⟨⟨used ++ more, passes.trans further⟩,
      orderly.append later (inOrder.current_le passes) (order.current_le further)⟩

theorem manyUpTo {step : Parser (Option α)} (ranges : Ranges step) (count : Nat) :
    Ranges (Parser.manyUpTo count step) := by
  induction count with
  | zero => exact fun start _ _ => ⟨⟨[], .refl start⟩, .nil⟩
  | succ count ih =>
    refine ranges.bind fun found => ?_
    cases found with
    | none => exact pure _
    | some value => exact ih.bind fun _ => pure _

end Ranges

theorem nextDeclaration_ranges (limit : Nat) : Ranges (nextDeclaration (fileLevel limit)) := by
  intro cursor intact inOrder
  obtain ⟨_, breaks, passes, _⟩ := skipLineBreaks_sound cursor intact
  rw [nextDeclaration_eq _ rfl]
  split
  · exact ⟨⟨breaks, passes⟩, .nil⟩
  · rename_i goesOn
    have more : (skipLineBreaks cursor).cursor.ahead ≠ [] := by simpa [Cursor.atEnd] using goesOn
    have there := passes.intact intact
    obtain ⟨_, used, through, _⟩ := fileLevel_sound limit _ there
    obtain ⟨told, skipped, further⟩ := recover_declaration limit there more
    have order := inOrder.later passes
    have orderly := fileLevel_orderly limit there order
    have behind := order.current_le through
    have beyond := (order.later through).current_le further
    have whole := (Orderly.nil.append orderly (inOrder.current_le passes) behind).append .nil
      (Nat.le_trans (inOrder.current_le passes) behind) beyond
    rw [List.nil_append, List.append_nil, ← told] at whole
    exact ⟨⟨_, passes.trans (through.trans further)⟩, whole⟩

theorem declarations_ranges (limit : Nat) : Ranges (declarations limit) := by
  have rounds : Ranges (many (nextDeclaration (fileLevel limit))) :=
    fun start => (nextDeclaration_ranges limit).manyUpTo _ start
  exact rounds.bind fun _ => .pure _

end Parser

theorem sourceCursor_inOrder (source : Text) (limit : Option Nat) :
    (sourceCursor source limit).InOrder := by
  rw [sourceCursor_eq]
  exact ⟨readTokens_ordered source limit, fun token => stop_le_of_mem_readTokens⟩

/-- Where a source can be read without a report, a smaller limit on nesting either makes no
difference, or it is reported before anything else that stands in the text. -/
theorem parse_limited (source name : Text) (tokens : Option Nat) {depth deeper : Nat}
    (le : depth ≤ deeper) (clean : (parse source name ⟨deeper, tokens⟩).diagnostics = []) :
    parse source name ⟨depth, tokens⟩ = parse source name ⟨deeper, tokens⟩ ∨
      ∃ first ∈ (parse source name ⟨depth, tokens⟩).diagnostics,
        first.fault = .recursionLimitExceeded ∧
          ∀ diagnostic ∈ (parse source name ⟨depth, tokens⟩).diagnostics,
            first.span.start ≤ diagnostic.span.start := by
  have silent : (Lexed.ofText source).reports = [] ∧
      (limitTokens tokens (Cursor.ofTokens (Lexed.ofText source).tokens)).2 = [] ∧
      (Parser.declarations deeper (sourceCursor source tokens)).reports = [] := by
    rw [parse_diagnostics] at clean
    simpa [and_assoc] using Bag.reported_eq_nil clean
  obtain ⟨lexed, uncut, read⟩ := silent
  rcases Nat.eq_or_lt_of_le le with rfl | lt
  · exact .inl rfl
  · have intact := sourceCursor_intact source tokens
    cases (Parser.declarations_deepens lt).deepens _ intact with
    | same eq => exact .inl (parse_congr source name tokens eq.symm)
    | limited reaches agrees =>
      obtain ⟨_, orderly⟩ :=
        Parser.declarations_ranges depth _ intact (sourceCursor_inOrder source tokens)
      have sorted := orderly.sorted
      rw [read, List.prefix_nil] at agrees
      obtain ⟨first, rest, told, limit⟩ := Diagnostic.reaches_at_once reaches agrees
      rw [told] at sorted
      have member : first ∈ (Parser.declarations depth (sourceCursor source tokens)).reports := by
        simp [told]
      refine .inr ⟨_, mem_diagnostics name ⟨depth, tokens⟩ member, ?_, fun diagnostic found => ?_⟩
      · show first.fault = .recursionLimitExceeded
        simpa [Diagnostic.isLimit] using limit
      · obtain ⟨report, reported, rfl⟩ := mem_diagnostics_iff.1 found
        rw [lexed, uncut] at reported
        have among : report ∈ first :: rest := told ▸ reported
        rcases List.mem_cons.1 among with rfl | later
        · exact Nat.le_refl _
        · exact (List.pairwise_cons.1 sorted).1 report later

/-- A condition that does not fit into one level of nesting. -/
def limitedCondition : Text := "fn f() \x7b if a \x7b \x7d \x7d".toList

theorem parse_limited_condition :
    1 ≤ 64 ∧ (parse limitedCondition unnamed ⟨64, none⟩).diagnostics = [] ∧
      (parse limitedCondition unnamed ⟨1, none⟩ = parse limitedCondition unnamed ⟨64, none⟩ ∨
        ∃ first ∈ (parse limitedCondition unnamed ⟨1, none⟩).diagnostics,
          first.fault = .recursionLimitExceeded ∧
            ∀ diagnostic ∈ (parse limitedCondition unnamed ⟨1, none⟩).diagnostics,
              first.span.start ≤ diagnostic.span.start) := by
  have le : 1 ≤ 64 := by decide
  have clean : (parse limitedCondition unnamed ⟨64, none⟩).diagnostics = [] := by decide +kernel
  exact ⟨le, clean, parse_limited _ _ _ le clean⟩

/-- Behind the limit there may be more: what is skipped for the condition includes its block. -/
theorem limited_condition_block :
    ¬ ∀ (source : Text) (depth deeper : Nat), depth ≤ deeper →
      (parse source unnamed ⟨deeper, none⟩).diagnostics = [] →
      ∀ diagnostic ∈ (parse source unnamed ⟨depth, none⟩).diagnostics,
        diagnostic.fault = .recursionLimitExceeded := by
  intro every
  have only := every limitedCondition 1 64 (by decide) (by decide +kernel)
  have missing : ∃ diagnostic ∈ (parse limitedCondition unnamed ⟨1, none⟩).diagnostics,
      diagnostic.fault = .missingExpectedToken := by decide +kernel
  obtain ⟨diagnostic, member, fault⟩ := missing
  exact absurd (fault.symm.trans (only diagnostic member)) (by decide)

end MoSyntax
