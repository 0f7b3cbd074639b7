import MoSyntax.Proofs.Parting.Rounds
import MoSyntax.Proofs.Yield.Brackets

/-!
A line that asks for nothing on another line. Whatever it says, its statements and reports stay on
it, and the block goes on behind it.
-/
namespace MoSyntax

/-- No token of the line can take up several lines, none begins a declaration, and the last one is no
binary operator. -/
structure Calm (line : List Token) : Prop where
  alone : ∀ token ∈ line, token.kind.spreads = false
  inner : ∀ token ∈ line, token.kind.startsDeclaration = false
  single : ∀ token ∈ line, token.kind ≠ .lineBreak
  last : ∀ token ∈ line.getLast?, ∀ sign, token.kind = .operator sign →
    BinaryOperator.ofSign? sign = none

namespace Calm

variable {line rest : List Token} {feed : Token}

theorem behind {used left : List Token} (calm : Calm (used ++ left)) : Calm left where
  alone token member := calm.alone token (List.mem_append_right _ member)
  inner token member := calm.inner token (List.mem_append_right _ member)
  single token member := calm.single token (List.mem_append_right _ member)
  last token final := by
    refine calm.last token ?_
    rw [List.getLast?_append, Option.mem_def.1 final]
    rfl

theorem tail {token : Token} (calm : Calm (token :: line)) : Calm line :=
  @behind [token] line calm

theorem goesOn {token : Token} (member : token ∈ line) (calm : Calm line) {cursor : Cursor}
    (ahead : cursor.ahead = token :: rest) : ¬ Parser.endsBlock cursor := by
  have alone := calm.alone token member
  have brace : token.kind ≠ .punctuation .rightBrace := fun same => by
    simp [same, TokenKind.spreads, TokenKind.closes, Punctuation.closes] at alone
  rw [Parser.endsBlock, Cursor.current_of_ahead ahead]
  simp [Cursor.atEnd, ahead, brace, calm.inner token member]

theorem mild {token : Token} (calm : Calm (token :: line)) (feed : Token) (rest : List Token) :
    token.Mild (line ++ feed :: rest) where
  alone := calm.alone token List.mem_cons_self
  operand sign operator kind means next head := by
    cases line with
    | nil =>
      have none := calm.last token rfl sign kind
      simp [none] at means
    | cons second line =>
      obtain rfl := Option.some.inj head
      exact calm.single second (by simp)

theorem alike (calm : Calm line) (breaks : feed.kind = .lineBreak) {c : Parting}
    {rest : List Token} (left : c.left = rest) (right : c.right = rest) :
    c.Alike 0 (line ++ feed :: rest) (line ++ feed :: rest) := by
  induction line with
  | nil =>
    have ends : c.Alike 0 (feed :: c.left) (feed :: c.right) := .feed breaks
    rwa [left, right] at ends
  | cons token line ih =>
    refine .token ?_ (fun _ => calm.mild feed rest) (ih calm.tail)
    have alone := calm.alone token List.mem_cons_self
    simp only [TokenKind.spreads, Bool.or_eq_false_iff] at alone
    simp [Skip.openAfter?, alone.1.1.1, alone.1.1.2]

theorem lengthTo (calm : Calm line) (breaks : feed.kind = .lineBreak) :
    Skip.lengthTo Skip.endsStatement 0 (line ++ feed :: rest) = line.length := by
  induction line with
  | nil =>
    rw [List.nil_append, Skip.lengthTo, if_pos ⟨rfl, by simp [Skip.endsStatement, breaks]⟩]
    rfl
  | cons token line ih =>
    have alone := calm.alone token List.mem_cons_self
    simp only [TokenKind.spreads, Bool.or_eq_false_iff] at alone
    have goesOn : Skip.endsStatement token.kind = false := by
      have brace : token.kind ≠ .punctuation .rightBrace := fun same => by
        simp [same, TokenKind.closes, Punctuation.closes] at alone
      simp [Skip.endsStatement, brace, calm.single token List.mem_cons_self]
    rw [List.cons_append, Skip.lengthTo, if_neg (by simp [goesOn]),
      Skip.openAfter_of_plain alone.1.1.1 alone.1.1.2, ih calm.tail]
    rfl

end Calm

/-- What is read of a line: statements between its tokens, and reports that begin on it or at its
end. -/
structure Confines (line : List Token) (feed : Token) (found : List (Option Stmt))
    (reports : List Diagnostic) : Prop where
  statements : ∀ statement, some statement ∈ found →
    ∃ part, part.Sublist line ∧ Spans part statement.span
  reports : ∀ report ∈ reports, ∃ first ∈ line, ∃ last ∈ line ++ [feed],
    first.span.start ≤ report.span.start ∧ report.span.start ≤ last.span.start

namespace Confines

variable {line : List Token} {feed : Token} {found more : List (Option Stmt)}
  {reports later : List Diagnostic}

theorem nil : Confines line feed [] [] := ⟨by simp, by simp⟩

theorem wider {left : List Token} (confines : Confines left feed found reports) (used : List Token) :
    Confines (used ++ left) feed found reports where
  statements statement member := by
    obtain ⟨part, sublist, spans⟩ := confines.statements statement member
    exact ⟨part, sublist.trans (List.sublist_append_right _ _), spans⟩
  reports report told := by
    obtain ⟨first, member, last, member', bounds⟩ := confines.reports report told
    exact ⟨first, List.mem_append_right _ member, last,
      by simpa using Or.inr (by simpa using member'), bounds⟩

theorem append (first : Confines line feed found reports) (second : Confines line feed more later) :
    Confines line feed (found ++ more) (reports ++ later) where
  statements statement member :=
    (List.mem_append.1 member).elim (first.statements statement) (second.statements statement)
  reports report told :=
    (List.mem_append.1 told).elim (first.reports report) (second.reports report)

end Confines

namespace Parser

variable {limit : Nat} {start : Cursor} {line rest : List Token} {feed : Token}

theorem statement_stays (intact : start.Intact) (calm : Calm line) (breaks : feed.kind = .lineBreak)
    (ahead : start.ahead = line ++ feed :: rest) {used : List Token}
    (passes : start.Passes used (statement limit limit start).cursor) :
    ∃ left, line = used ++ left ∧
      (statement limit limit start).cursor.ahead = left ++ feed :: rest := by
  let c : Parting := ⟨rest, rest, True, .inl trivial, .inl trivial⟩
  have like : c.Cursors 0 start start := ⟨intact, intact, ahead ▸ calm.alike breaks rfl rfl⟩
  cases Parting.Agrees.statement limit (Nat.le_refl _) 0 start start like with
  | lost wild => exact absurd trivial wild
  | same _ _ cursors =>
    obtain ⟨_, _, further⟩ := cursors
    obtain ⟨left, feed', behind, _⟩ := further.ahead.common
    have whole : (line ++ [feed]) ++ rest = ((used ++ left) ++ [feed']) ++ rest := by
      simpa [ahead, behind] using passes.ahead
    obtain ⟨same, feeds⟩ := List.append_inj' (List.append_cancel_right whole) rfl
    obtain rfl := List.singleton_inj.1 feeds
    exact ⟨left, same, behind⟩

theorem nextStatement_tells (intact : start.Intact) (inOrder : start.InOrder) {first : Token}
    (ahead : (pastBreaks start).ahead = first :: line ++ feed :: rest) {left : List Token}
    (behind : left.Sublist (first :: line))
    (stop : (nextStatement (statement limit limit) start).cursor.ahead = left ++ feed :: rest) :
    ∀ report ∈ (nextStatement (statement limit limit) start).reports,
      ∃ token ∈ first :: line, ∃ last ∈ first :: line ++ [feed],
        token.span.start ≤ report.span.start ∧ report.span.start ≤ last.span.start := by
  intro report told
  have moves := (pastBreaks_passes start).1
  obtain ⟨⟨_, course⟩, _⟩ :=
    nextStatement_runs (statement_runs limit limit (Nat.le_refl _)) _ (moves.intact intact)
  have orderly := course.orderly (inOrder.later moves)
  rw [nextStatement_pastBreaks (statement limit limit) start] at orderly
  have among := List.head_mem (l := left ++ [feed]) (by simp)
  refine ⟨first, List.mem_cons_self, _, (behind.append (.refl [feed])).subset among, ?_, ?_⟩
  · have after := orderly.after report told
    rwa [Cursor.current_of_ahead ahead] at after
  · have before := orderly.before report told
    have current : (nextStatement (statement limit limit) start).cursor.current =
        (left ++ [feed]).head (by simp) := by
      cases left <;> exact Cursor.current_of_ahead stop
    rwa [current] at before

/-- One round on the line leaves the rest of the line, and says something about its statement. -/
theorem nextStatement_stays (intact : start.Intact) (inOrder : start.InOrder) (calm : Calm line)
    (breaks : feed.kind = .lineBreak) (ahead : (pastBreaks start).ahead = line ++ feed :: rest)
    (more : line ≠ []) :
    ∃ used left found reports stop, line = used ++ left ∧ used ≠ [] ∧
      Leads (nextStatement (statement limit limit)) start [found] reports stop ∧
      stop.ahead = left ++ feed :: rest ∧ Confines line feed [found] reports := by
  have sound := statement_sound limit limit (Nat.le_refl _)
  have there := (pastBreaks_passes start).1.intact intact
  obtain ⟨first, others, rfl⟩ := List.exists_cons_of_ne_nil more
  have goesOn := calm.goesOn List.mem_cons_self ahead
  have leads := Leads.statement sound (fun _ _ _ => StmtReading.ne_nil) intact goesOn
  obtain ⟨_, used, passes, holds⟩ := sound _ there
  obtain ⟨left, same, stays⟩ := statement_stays there calm breaks ahead passes
  have opened := nextStatement_behind (statement limit limit) start
  rw [if_neg goesOn] at opened
  cases found : (statement limit limit (pastBreaks start)).value with
  | some statement =>
    simp only [recover, found] at opened
    rw [found] at holds leads
    have stop := (congrArg (·.cursor.ahead) opened).trans stays
    refine ⟨used, left, some statement, _, _, same, StmtReading.ne_nil holds, leads, stop, ?_,
      nextStatement_tells intact inOrder ahead (same ▸ List.sublist_append_right _ _) stop⟩
    intro statement' member
    obtain rfl := Option.some.inj (List.mem_singleton.1 member)
    refine ⟨used, same ▸ List.sublist_append_left _ _, ?_⟩
    exact Stmt.node_span statement' ▸ (StmtReading.covering limit limit _ _ _ holds).spans
  | none =>
    simp only [recover, found] at opened
    rw [found] at leads
    obtain ⟨_, skipped, further, skips⟩ := skipStatement_at _ (passes.intact there)
    obtain ⟨_, length⟩ := show _ ∧ _ from skips
    have calm' : Calm left := @Calm.behind used left (same ▸ calm)
    rw [stays, calm'.lengthTo breaks] at length
    have skip := further.ahead
    rw [stays] at skip
    obtain ⟨rfl, behind⟩ := List.append_inj skip length.symm
    have stop := (congrArg (·.cursor.ahead) opened).trans behind.symm
    exact ⟨first :: others, [], none, _, _, (List.append_nil _).symm, more, leads, stop, by simp,
      nextStatement_tells intact inOrder ahead (List.nil_sublist _) stop⟩

/-- On the line all rounds stay, and those that are left go on behind it. -/
theorem line_leads (intact : start.Intact) (inOrder : start.InOrder) (calm : Calm line)
    (breaks : feed.kind = .lineBreak)
    (ahead : (pastBreaks start).ahead = (line ++ feed :: rest).dropWhile (·.kind == .lineBreak)) :
    ∃ found reports stop,
      Leads (nextStatement (statement limit limit)) start found reports stop ∧
      (pastBreaks stop).ahead = rest.dropWhile (·.kind == .lineBreak) ∧
      Confines line feed found reports := by
  induction length : line.length using Nat.strongRecOn generalizing start line with
  | _ size ih =>
    cases line with
    | nil =>
      refine ⟨[], [], start, .refl start, ?_, .nil⟩
      simpa [breaks] using ahead
    | cons first others =>
      rw [List.cons_append, List.dropWhile_cons_of_neg
        (by simpa using calm.single first List.mem_cons_self)] at ahead
      obtain ⟨used, left, found, reports, stop, same, moved, leads, behind, confines⟩ :=
        @nextStatement_stays limit _ _ _ _ intact inOrder calm breaks ahead (List.cons_ne_nil _ _)
      obtain ⟨_, passes⟩ := leads.passes
      have shorter : left.length < size := by
        have positive := List.length_pos_iff.2 moved
        rw [← length, same, List.length_append]
        omega
      obtain ⟨more, later, stop', further, done, inside⟩ :=
        ih _ shorter (passes.intact intact) (inOrder.later passes) (same ▸ calm).behind
          (behind ▸ (pastBreaks_passes stop).2) rfl
      exact ⟨_, _, stop', leads.trans further, done,
        confines.append (same ▸ inside.wider used)⟩

end Parser

end MoSyntax
