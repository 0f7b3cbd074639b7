import MoSyntax.Proofs.Telling.Stmt

/-!
What declarations report, and so a whole file. A declaration that is given up may stop where the
next one begins; that one reports nothing of its own keyword.
-/
namespace MoSyntax.Parser

variable {α β : Type} {bodies : Prop} {start : Cursor} {type : Parser TypeExpr}
  {stmt : Parser Stmt}

theorem typedName_clean {message : String} (other : message ∉ Diagnostic.unclosedMessages)
    (types : Places bodies Clean type) : Places bodies Clean (typedName message type) :=
  (ident_clean other).clean_bind fun _ => types.clean_bind fun _ => .pure _

theorem endField_pauses : Places bodies (fun _ => Cursor.Pauses) endField := by
  refine fun start => .current_bind ?_
  split
  · exact .pure _
  · intro intact
    refine PlacesAt.bind (.report (fun unclosed => ?_) rfl rfl rfl) ?_ ?_ ?_ intact
    · refine absurd unclosed (unexpected_wrong (fun rest => ?_) _)
      simp [Diagnostic.unclosedMessages, ← String.toList_inj]
    · exact fun _ _ => .silent (start.advanceBy_take _) rfl
    · exact fun _ stop _ => .of_silent rfl
    · rintro _ stop _ intact _ _ stays
      obtain ⟨_, more, passes, pauses⟩ := skipStatement_onward intact
      rw [stays] at passes
      exact pauses passes.eq_nil

theorem nextField_resumes (types : Places bodies Clean type) :
    Resumes bodies Cursor.Pauses (nextField type) := by
  have skips : Places bodies Clean skipFieldSeparators :=
    fun start => .here_bind (.silent (start.advanceBy_take _) rfl)
  refine .after skips (fun _ => rfl) (fun start => .here_bind ?_) ?_
  · split
    · exact .pure _
    · have fields := (typedName_clean (by decide) types start : PlacesAt bodies _ _
        (typedName "expected a field name" type))
      refine (fields.recover fun _ stop _ there => skipStatement_onward there).bind
        (fun field? _ => ?_) ?_ ?_
      · cases field? with
        | none => exact .pure _
        | some field => exact endField_pauses.map (fun _ _ => id) _
      · intro field? stop ends
        cases field? with
        | none => exact .of_silent rfl
        | some field => exact ends.elim
      · intro field? stop _ _ ends _ _
        cases field? with
        | none => exact ends
        | some field => exact ends.elim
  · intro start intact pauses stays
    have ended : endsBlock start := by
      rcases pauses with ended | breaks
      · exact ended
      · rcases (skipFieldSeparators_at start).stays rfl intact stays with ended | other
        · simp [endsBlock, ended]
        · exact absurd breaks (by simpa using (Bool.or_eq_false_iff.1 other).1)
    have skipped : skipFieldSeparators start = { value := some (), cursor := start } :=
      congrArg (fun cursor => ({ value := some (), cursor } : Reply Unit)) stays
    refine .of_silent ?_
    rw [bind_of_silent skipped]
    show ((if endsBlock start then return none else _ :
      Parser (Option (Option TypedName))) start).reports = []
    rw [if_pos ended]
    rfl

/-- The end of a struct is missed where a field could be, but no report about a field says so. -/
theorem structBody_clean (types : ∀ bodies, Places bodies Clean type)
    (make : List TypedName → Span → Decl) : Places True Clean (do
      let fields ← many (nextField type)
      let closing ← expect (.punctuation .rightBrace) "expected `\x7d` to close the struct body"
      return make fields.reduceOption closing) := by
  intro start
  have rounds : PlacesAt False _ start (many (nextField type)) :=
    (nextField_resumes (types False)).many start
  refine (rounds.imp (fun _ => trivial) fun _ _ => id).bind_apart (fun fields _ => ?_) ?_ ?_
  · exact (expect_clean fun _ => trivial).clean_bind (fun _ => .pure _) _
  · intro fields _ intact inOrder report member again
    refine (rounds intact inOrder).body report member ?_
    by_cases closes : (many (nextField type) start).cursor.current.kind == .punctuation .rightBrace
    · rw [bind_of_silent (expect_found closes _)] at again
      cases again
    · rw [bind_of_none (by rw [expect_other closes]), expect_other closes] at again
      obtain rfl := List.mem_singleton.1 again
      rfl
  · intro fields stop found intact _ closed stays
    by_cases closes : stop.current.kind == .punctuation .rightBrace
    · have passes := Cursor.advance_passes intact fun ended => by simp [ended] at closes
      rw [bind_of_silent (expect_found closes _)] at stays
      rw [show stop.advance = stop from stays] at passes
      cases passes.eq_nil
    · rw [bind_of_none (by rw [expect_other closes])] at closed
      cases closed

theorem behind_keyword {word : Keyword} {message : String} {ends : α → Cursor → Prop}
    (other : message ∉ Diagnostic.unclosedMessages) {next : Span → Parser α}
    (tail : ∀ opening, Places bodies ends (next opening)) :
    Places bodies ends (expect (.keyword word) message >>= next) ∧
      ∀ start, start.current.kind = .keyword word →
        LaterAt start (expect (.keyword word) message >>= next) := by
  refine ⟨(mark_clean other).clean_bind tail, fun start here intact inOrder report member => ?_⟩
  have passes := Cursor.advance_passes intact (by simp [here])
  rw [bind_of_silent (expect_found (by simp [here]) _)] at member
  have reported := tail start.current.span _ (passes.intact intact) (inOrder.later passes)
  exact Nat.lt_of_lt_of_le (inOrder.current_lt passes (List.cons_ne_nil _ _))
    (reported.told report member).le

theorem modulePath_clean {message : String} (other : message ∉ Diagnostic.unclosedMessages)
    {next : ModulePath → Parser Decl} (tail : ∀ path, Places True Clean (next path)) :
    Places True Clean (do
      match ← name message with
      | .ident first => reject (Report.singleSegment first.span first.name)
      | .path path => next path) := by
  intro start
  by_cases single : ∃ first, (name message start).value = some (.ident first)
  · intro intact inOrder
    obtain ⟨first, found⟩ := single
    obtain ⟨_, used, passes, reads⟩ := name_sound message start intact
    rw [found] at reads
    obtain ⟨⟨names⟩, silent⟩ := reads
    have here : first.span = start.current.span := by
      rw [Cursor.current_of_ahead passes.ahead]
      exact names.2
    have told : Told start (name message start).cursor
        (Report.singleSegment first.span first.name) :=
      Told.further (.here inOrder here rfl rfl) (inOrder.current_le passes)
    have named : (name message start).Reported True Clean start :=
      name_clean other start intact inOrder
    rw [bind_of_some found]
    refine named.append inOrder (.refl _) (fun _ _ _ => trivial) (List.forall_mem_singleton.2 told)
      (List.pairwise_singleton _ _) (by simp [silent]) fun _ none => ?_
    cases none
  · refine PlacesAt.clean_bind (name_clean other start) fun named found => ?_
    cases named with
    | ident first => exact absurd ⟨first, found⟩ single
    | path path => exact tail path _

theorem parameters_clean (types : Places bodies Clean type) :
    Places bodies Clean (parameters type) :=
  (mark_clean (by decide)).clean_bind fun _ =>
    (listUntil_clean (typedName_clean (by decide) types) _ (by decide)).clean_bind fun _ => .pure _

theorem resultType_clean (types : Places bodies Clean type) :
    Places bodies Clean (resultType type) := by
  refine fun start => .current_bind ?_
  split
  · exact .pure _
  · exact types.clean_bind (fun _ => .pure _) start

section
variable (types : ∀ bodies, Places bodies Clean type)
  (stmts : Places True (fun _ => Cursor.Halts) stmt)

theorem useDeclaration_halts :
    Places True (fun _ => Cursor.Halts) useDeclaration ∧
      ∀ start, start.current.kind = .keyword .useWord → LaterAt start useDeclaration := by
  have names : Places True Clean localName := by
    refine fun start => .current_bind ?_
    split
    · exact .skip_bind (.pure _)
    · exact .pure _
  refine behind_keyword (by decide) fun opening start => ?_
  exact (modulePath_clean (by decide) (fun _ => names.clean_bind fun _ => .pure _) start).of_clean

include types

theorem structDeclaration_halts :
    Places True (fun _ => Cursor.Halts) (structDeclaration type) ∧
      ∀ start, start.current.kind = .keyword .structWord →
        LaterAt start (structDeclaration type) := by
  refine behind_keyword (by decide) fun opening start => ?_
  refine PlacesAt.of_clean ((ident_clean (by decide)).clean_bind (fun declared => ?_) start)
  exact skipLineBreaks_clean.clean_bind fun _ => (mark_clean (by decide)).clean_bind fun _ =>
    structBody_clean types fun fields closing => .record (opening.through closing) declared fields

include stmts

theorem fnDeclaration_halts :
    Places True (fun _ => Cursor.Halts) (fnDeclaration type stmt) ∧
      ∀ start, start.current.kind = .keyword .fnWord → LaterAt start (fnDeclaration type stmt) := by
  refine behind_keyword (by decide) fun opening => ?_
  refine (ident_clean (by decide)).clean_bind fun declared => ?_
  exact (parameters_clean (types True)).clean_bind fun _ =>
    (resultType_clean (types True)).clean_bind fun _ => skipLineBreaks_clean.clean_bind fun _ =>
      (block_halts stmts).map fun _ _ => id

theorem topLevel_halts :
    Places True (fun _ => Cursor.Halts) (topLevel type stmt) ∧
      ∀ start, start.current.kind.startsDeclaration → LaterAt start (topLevel type stmt) := by
  refine ⟨fun start => .current_bind ?_, fun start declares => ?_⟩
  · split
    · exact useDeclaration_halts.1 start
    · exact (structDeclaration_halts types).1 start
    · exact (fnDeclaration_halts types stmts).1 start
    · exact .reject_here (fun _ => trivial) rfl rfl rfl
  · apply LaterAt.current_bind
    split
    · rename_i word
      exact useDeclaration_halts.2 start word
    · rename_i word
      exact (structDeclaration_halts types).2 start word
    · rename_i word
      exact (fnDeclaration_halts types stmts).2 start word
    · rename_i notUse notStruct notFn
      rcases startsDeclaration_cases declares with kind | kind | kind
      · exact absurd kind notUse
      · exact absurd kind notStruct
      · exact absurd kind notFn

end

theorem resynchronize_onward {stop : Cursor} (intact : stop.Intact) :
    (resynchronize start stop).reports = [] ∧
      ∃ more, stop.Passes more (resynchronize start stop).cursor ∧ (more = [] → stop.Halts) := by
  have opened : resynchronize start stop =
      (if stop.movedSince start.index && stop.current.kind.startsDeclaration then return ()
      else skipDeclaration : Parser Unit) stop := rfl
  rw [opened]
  split
  · rename_i stays
    refine ⟨rfl, [], .refl stop, fun _ => .inr ?_⟩
    simpa using (Bool.and_eq_true_iff.1 stays).2
  · obtain ⟨_, more, passes, silent, moves⟩ := skipDeclaration_at stop intact
    refine ⟨silent, more, passes, fun none => .inl ?_⟩
    simpa [Cursor.atEnd] using fun some => moves some none

theorem nextDeclaration_resumes (limit : Nat) :
    Resumes True Cursor.Halts (nextDeclaration (fileLevel limit)) := by
  have decls := topLevel_halts (fun _ => typeExpr_clean limit limit) (statement_halts limit limit)
  refine .after skipLineBreaks_clean (fun _ => rfl) (fun start => .here_bind ?_) ?_
  · split
    · exact .pure _
    · refine ((decls.1 start).recover fun _ stop _ there => resynchronize_onward there).map ?_
      intro decl? stop halts
      cases decl? with
      | none => exact halts
      | some _ => exact halts
  · intro start intact halts stays
    have opened := nextDeclaration_eq (fileLevel limit) stays
    split at opened
    · exact .of_silent (congrArg Reply.reports opened)
    · rename_i goesOn
      have more : start.ahead ≠ [] := by simpa [Cursor.atEnd] using goesOn
      have told := (congrArg Reply.reports opened).trans (recover_declaration limit intact more).1
      intro _ inOrder report (member : report ∈ (nextDeclaration (fileLevel limit) start).reports)
      exact decls.2 start (halts.resolve_left goesOn) intact inOrder report (told ▸ member)

theorem declarations_halts (limit : Nat) :
    Places True (fun _ => Cursor.Halts) (declarations limit) :=
  (nextDeclaration_resumes limit).many.map fun _ _ => id

end MoSyntax.Parser
