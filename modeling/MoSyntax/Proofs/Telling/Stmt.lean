import MoSyntax.Proofs.Parting.Rounds
import MoSyntax.Proofs.Telling.Expr

/-!
What statements and blocks report. A block that is not closed is reported where a declaration begins
or the text ends, and all blocks around it are reported at the same place. Each of these reports
shows where its own block begins, which is before all that is reported inside of it.
-/
namespace MoSyntax

namespace Cursor

/-- No statement begins there, in any block. -/
def Halts (cursor : Cursor) : Prop := cursor.atEnd ∨ cursor.current.kind.startsDeclaration

/-- A recovery from a statement goes no further. -/
def Pauses (cursor : Cursor) : Prop :=
  Parser.endsBlock cursor ∨ cursor.current.kind == .lineBreak

variable {cursor : Cursor}

theorem Halts.pauses (halts : cursor.Halts) : cursor.Pauses := by
  rcases halts with ended | declares
  · exact .inl (by simp [Parser.endsBlock, ended])
  · exact .inl (by simp [Parser.endsBlock, declares])

theorem halts_of_endsBlock (ends : Parser.endsBlock cursor)
    (other : cursor.current.kind ≠ .punctuation .rightBrace) : cursor.Halts := by
  simpa [Parser.endsBlock, Halts, other] using ends

theorem Halts.other (halts : cursor.Halts) (intact : cursor.Intact) {kind : TokenKind}
    (some : kind ≠ .endOfFile) (plain : ¬ kind.startsDeclaration) :
    ¬ cursor.current.kind == kind := by
  intro same
  have same : cursor.current.kind = kind := by simpa using same
  rcases halts with ended | declares
  · have ahead : cursor.ahead = [] := by simpa [atEnd] using ended
    have last : cursor.current = cursor.eof := by simp [current, peek, ahead]
    exact some (by rw [← same, last, intact.eof])
  · exact plain (same ▸ declares)

end Cursor

namespace Parser

variable {start : Cursor} {type : Parser TypeExpr} {expr : Parser Expr} {stmt : Parser Stmt}

/-- Nothing is skipped only where a recovery goes no further. -/
theorem skipStatement_onward (intact : start.Intact) :
    (skipStatement start).reports = [] ∧ ∃ more, start.Passes more (skipStatement start).cursor ∧
      (more = [] → start.Pauses) := by
  obtain ⟨_, more, passes, silent, length⟩ := skipStatement_at start intact
  refine ⟨silent, more, passes, ?_⟩
  rintro rfl
  cases ahead : start.ahead with
  | nil => exact .inl (by simp [endsBlock, Cursor.atEnd, ahead])
  | cons token rest =>
    rw [ahead, Skip.lengthTo] at length
    split at length
    · rename_i ends
      rw [← Cursor.current_of_ahead ahead, Skip.endsStatement, Bool.or_eq_true] at ends
      rcases ends.2 with breaks | closes
      · exact .inr breaks
      · exact .inl (by simp [endsBlock, closes])
    · cases length

theorem SoundAt.stays {holds : Token → Bool} {gap : Parser Unit} {value : Unit}
    (skips : SoundAt start (fun used _ reports => reports = [] ∧
      used = start.ahead.takeWhile holds) gap) (found : (gap start).value = some value)
    (intact : start.Intact) (stays : (gap start).cursor = start) :
    start.atEnd ∨ holds start.current = false := by
  obtain ⟨_, used, passes, reads⟩ := skips intact
  rw [found] at reads
  obtain ⟨_, rfl⟩ := reads
  rw [stays] at passes
  cases ahead : start.ahead with
  | nil => exact .inl (by simp [Cursor.atEnd, ahead])
  | cons token rest =>
    rw [Cursor.current_of_ahead ahead]
    exact .inr (passes.other ahead)

theorem nextStatement_resumes (stmts : Places True (fun _ => Cursor.Halts) stmt) :
    Resumes True Cursor.Pauses (nextStatement stmt) := by
  refine .after skipLineBreaks_clean (fun _ => rfl) (fun start => .here_bind ?_) ?_
  · split
    · exact .pure _
    · refine ((stmts start).recover fun _ stop _ there => skipStatement_onward there).map ?_
      intro value? stop ends
      cases value? with
      | none => exact ends
      | some _ => exact ends.pauses
  · intro start intact pauses stays
    have ended : endsBlock start := by
      rcases pauses with ended | breaks
      · exact ended
      · rcases (skipLineBreaks_at start).stays rfl intact stays with ended | other
        · simp [endsBlock, ended]
        · exact absurd breaks (by simp [other])
    have opened := nextStatement_behind stmt start
    rw [show pastBreaks start = start from stays, if_pos ended] at opened
    exact .of_silent (congrArg Reply.reports opened)

theorem nextStatement_stops (ended : (nextStatement stmt start).value = some none) :
    endsBlock (nextStatement stmt start).cursor = true := by
  rw [nextStatement_behind] at ended ⊢
  split at ended
  · rename_i ends
    rwa [if_pos ends]
  · simp at ended

theorem closeBlock_other (intact : start.Intact) (opening : Span)
    (other : start.current.kind ≠ .punctuation .rightBrace) :
    closeBlock opening start =
      { value := some start.last.span, cursor := start
        reports := [Report.unclosedBlock opening start.current] } := by
  have last : previous start = { value := some start.last, cursor := start } := by
    rw [previous, Cursor.previous?_of_intact intact]
  rw [closeBlock_eq, if_neg (by simpa using other), bind_of_some rfl]
  show ((previous >>= _) start).after _ = _
  rw [bind_of_silent last]
  rfl

theorem closeBlock_halts {α β : Type} {ends : α → Cursor → Prop} {inner : Cursor} {rounds : Reply α}
    (intact : start.Intact) (inOrder : start.InOrder) (enters : start.Passes [start.current] inner)
    (reported : rounds.Reported True ends inner) (stops : endsBlock rounds.cursor)
    (make : Span → β) :
    (((closeBlock start.current.span >>= fun closing => pure (make closing)) rounds.cursor).after
      rounds).Reported True (fun _ => Cursor.Halts) start := by
  have whole := reported.earlier inOrder enters
  obtain ⟨used, through⟩ := reported.passes
  have passes := enters.trans through
  have there := passes.intact intact
  have order := inOrder.later passes
  by_cases closes : rounds.cursor.current.kind = .punctuation .rightBrace
  · have onward := Cursor.advance_passes there (by simp [closes])
    rw [bind_of_silent (closeBlock_found _ closes)]
    refine whole.append inOrder onward (List.forall_mem_nil _) (List.forall_mem_nil _) .nil
      (fun _ _ => List.not_mem_nil) fun _ _ report member here => ?_
    have member : report ∈ rounds.reports := by simpa [pure, succeed] using member
    have before := (whole.told report member).before
    have beyond := order.current_lt onward (List.cons_ne_nil _ _)
    exact absurd here (Nat.ne_of_lt (Nat.lt_of_le_of_lt before beyond))
  · have missed := closeBlock_other there start.current.span closes
    rw [bind_of_some (congrArg Reply.value missed), missed]
    have told : Told start rounds.cursor
        (Report.unclosedBlock start.current.span rounds.cursor.current) := by
      refine ⟨?_, ?_, Nat.le_refl _, rfl⟩
      · intro label member
        rcases List.mem_cons.1 member with rfl | member
        · exact passes.points order.points_current
        · obtain rfl := List.mem_singleton.1 member
          exact inOrder.points_current
      · intro label member
        rcases List.mem_cons.1 member with rfl | member
        · exact inOrder.current_le passes
        · obtain rfl := List.mem_singleton.1 member
          exact Nat.le_refl _
    refine whole.append inOrder (.refl _) (fun _ _ _ => trivial)
      (List.forall_mem_singleton.2 told) (List.pairwise_singleton _ _) ?_ ?_
    · -- The label of the opening brace lies before all that the rounds report.
      intro report member again
      obtain rfl := List.mem_singleton.1 again
      have after := (reported.told _ member).after ⟨start.current.span, "block opened here"⟩
        (List.mem_cons_of_mem _ (List.mem_singleton.2 rfl))
      have beyond := inOrder.current_lt enters (List.cons_ne_nil _ _)
      exact absurd after (Nat.not_le_of_gt beyond)
    · exact fun _ _ _ _ _ => Cursor.halts_of_endsBlock stops closes

theorem block_halts (stmts : Places True (fun _ => Cursor.Halts) stmt) :
    Places True (fun _ => Cursor.Halts) (block stmt) := by
  intro start
  by_cases opens : start.current.kind == .punctuation .leftBrace
  · intro intact inOrder
    have passes := Cursor.advance_passes intact fun ended => by simp [ended] at opens
    have rounds := (nextStatement_resumes stmts).many start.advance (passes.intact intact)
      (inOrder.later passes)
    rw [block_opened opens]
    cases found : (many (nextStatement stmt) start.advance).value with
    | none =>
      rw [bind_of_none found]
      exact (rounds.earlier inOrder passes).lost
    | some statements =>
      have stops := manyUpTo_stops (fun cursor => endsBlock cursor)
        (fun _ => nextStatement_stops) _ found
      rw [bind_of_some found]
      exact closeBlock_halts intact inOrder passes rounds stops _
  · refine PlacesAt.clean_bind (expect_clean (fun _ => trivial) start) fun opening found => ?_
    rw [expect_other opens] at found
    cases found

theorem elseBlock_halted (intact : start.Intact) (halts : start.Halts) :
    elseBlock stmt start = { value := some none, cursor := start } := by
  have opened : elseBlock stmt start =
      (if (start.peek (lineBreaksAhead start.ahead)).kind == .keyword .elseWord then do
        skip (lineBreaksAhead start.ahead + 1)
        skipLineBreaks
        return some (← block stmt)
      else return none : Parser (Option Block)) start := rfl
  have breaks : lineBreaksAhead start.ahead = 0 := by
    cases ahead : start.ahead with
    | nil => rfl
    | cons token rest =>
      have other : ¬ start.current.kind == .lineBreak :=
        halts.other intact (by simp) (by simp [TokenKind.startsDeclaration])
      rw [Cursor.current_of_ahead ahead] at other
      simp [lineBreaksAhead, other]
  have other : ¬ (start.peek 0).kind == .keyword .elseWord :=
    halts.other intact (by simp) (by simp [TokenKind.startsDeclaration, Keyword.startsDeclaration])
  rw [opened, breaks, if_neg other]
  rfl

theorem elseBlock_halts (blocks : Places True (fun _ => Cursor.Halts) (block stmt)) :
    Places True (fun _ => Cursor.Halts) (elseBlock stmt) := by
  refine fun start => .here_bind ?_
  dsimp only
  split
  · exact .skip_bind (skipLineBreaks_clean.clean_bind (fun _ => blocks.map fun _ _ => id) _)
  · exact .pure _

section
variable (exprs : Places True Clean expr) (stmts : Places True (fun _ => Cursor.Halts) stmt)

include stmts

theorem defer_halts : Places True (fun _ => Cursor.Halts) (defer stmt) :=
  (mark_clean (by decide)).clean_bind fun _ => stmts.map fun _ _ => id

include exprs

theorem forLoop_halts : Places True (fun _ => Cursor.Halts) (forLoop expr stmt) :=
  (mark_clean (by decide)).clean_bind fun _ => exprs.clean_bind fun _ =>
    skipLineBreaks_clean.clean_bind fun _ => (block_halts stmts).map fun _ _ => id

theorem ifElse_halts : Places True (fun _ => Cursor.Halts) (ifElse expr stmt) := by
  refine (mark_clean (by decide)).clean_bind fun _ => exprs.clean_bind fun _ =>
    skipLineBreaks_clean.clean_bind fun _ start => ?_
  have otherwise := elseBlock_halts (block_halts stmts)
  refine (block_halts stmts start).bind (fun consequence _ => ?_) ?_ ?_
  · exact otherwise.map (fun _ _ => id) _
  · intro consequence stop halts intact _
    rw [bind_of_silent (elseBlock_halted intact halts)]
    exact List.forall_mem_nil _
  · exact fun _ _ _ _ halts _ _ => halts

end

theorem ret_clean (exprs : Places True Clean expr) : Places True Clean (ret expr) := by
  refine (mark_clean (by decide)).clean_bind fun _ start => .here_bind ?_
  split
  · exact .pure _
  · exact exprs.clean_bind (fun _ => .pure _) start

theorem declaration_clean (types : Places True Clean type) (exprs : Places True Clean expr) :
    Places True Clean (declaration type expr) := by
  refine fun start => .here_bind ?_
  split
  · exact .pure _
  · split
    · exact (ident_clean (by decide)).clean_bind
        (fun _ stop => .skip_bind (exprs.clean_bind (fun _ => .pure _) _)) start
    · have heads : Places True Clean (typedHead type) :=
        (ident_clean (by decide)).clean_bind fun _ => types.clean_bind fun _ =>
          (mark_clean (by decide)).clean_bind fun _ => .pure _
      refine (heads.attempt _).clean_bind (fun found => ?_) start
      split
      · exact .pure _
      · exact exprs.clean_bind fun _ => .pure _

theorem assignment_clean {target : Parser Expr} (targets : Places True Clean target)
    (exprs : Places True Clean expr) : Places True Clean (assignment target expr) := by
  refine targets.clean_bind fun target start => .here_bind ?_
  refine PlacesAt.clean_bind (accept_clean _ start) fun found some => ?_
  cases found with
  | true => exact exprs.clean_bind (fun _ => .pure _) _
  | false =>
    rw [accept_stays some]
    simp only [Bool.false_eq_true, ↓reduceIte]
    split
    · exact .pure _
    · rename_i sign operator compound
      split
      · exact .skip_bind (exprs.clean_bind (fun _ => .pure _) _)
      · intro intact
        obtain ⟨kind, equals, _⟩ := compoundOperator?_eq_some compound
        obtain ⟨_, current⟩ := Cursor.ahead_of_current intact (by simp [kind])
        obtain ⟨rest, ahead⟩ := Cursor.ahead_of_peek intact [_] current
          (fun none => by simp [equals] at none)
        refine PlacesAt.reject (fun unclosed => absurd unclosed (spacedCompound_wrong _ _))
          (fun inOrder => .alone ?_ rfl rfl rfl) intact
        exact inOrder.points_through [] ahead

theorem simpleStatement_clean (types : Places True Clean type) (exprs : Places True Clean expr) :
    Places True Clean (simpleStatement type expr) := by
  refine (declaration_clean types exprs).clean_bind fun found => ?_
  cases found with
  | some statement => exact .pure _
  | none =>
    have assigned := assignment_clean (unary_clean exprs types) exprs
    refine assigned.unlessDeclined fun start => .current_bind (.note_bind ?_)
    exact exprs.clean_bind (fun _ => .pure _) start

theorem stmtLevel_halts (types : Places True Clean type) (exprs : Places True Clean expr)
    (stmts : Places True (fun _ => Cursor.Halts) stmt) :
    Places True (fun _ => Cursor.Halts) (stmtLevel type expr stmt) := by
  intro start
  apply PlacesAt.current_bind
  split
  · exact forLoop_halts exprs stmts start
  · exact ifElse_halts exprs stmts start
  · exact (ret_clean exprs start).of_clean
  · exact defer_halts stmts start
  · exact (block_halts stmts).map (fun _ _ => id) start
  · exact (simpleStatement_clean types exprs start).of_clean

theorem statement_halts (limit budget : Nat) :
    Places True (fun _ => Cursor.Halts) (statement limit budget) := by
  induction budget with
  | zero => exact fun start => (tooDeep_clean limit _ _ start).of_clean
  | succ budget ih =>
    exact fun start => .inside
      (stmtLevel_halts (typeExpr_clean limit budget) (expression_clean limit budget) ih start)

end Parser

end MoSyntax
