import MoSyntax.Proofs.Course.Order
import MoSyntax.Proofs.Likeness.Stmt

/-!
Declarations, read from two texts. They stand outside of all brackets, so the first text may come to
its end within one; then it misses something that has to be there, and reports it.
-/
namespace MoSyntax

namespace Parser

def skipToDeclaration : Parser Unit := do
  skip ((← here).ahead.takeWhile fun token => !token.kind.startsDeclaration).length

theorem skipToDeclaration_eq (cursor : Cursor) :
    skipToDeclaration cursor =
      { value := some ()
        cursor := cursor.advanceBy
          (cursor.ahead.takeWhile fun token => !token.kind.startsDeclaration).length } := rfl

theorem skipDeclaration_eq (cursor : Cursor) :
    skipDeclaration cursor = skipToDeclaration (cursor.advanceBy 1) := rfl

/-- The first token need not be passed on its own where it does not begin a declaration. -/
theorem skipToDeclaration_advance {cursor : Cursor}
    (other : ¬ cursor.current.kind.startsDeclaration) :
    skipToDeclaration (cursor.advanceBy 1) = skipToDeclaration cursor := by
  rw [skipToDeclaration_eq, skipToDeclaration_eq]
  cases ahead : cursor.ahead with
  | nil => rw [Cursor.advanceBy, Cursor.advanceBy, Cursor.advance, ahead, ahead]
  | cons token rest =>
    obtain ⟨_, left⟩ := Cursor.advanceBy_passes [token] _ ahead
    rw [Cursor.current_of_ahead ahead] at other
    rw [List.takeWhile_cons_of_pos (by simpa using other), List.length_cons, Nat.add_comm,
      Cursor.advanceBy_add, show (cursor.advanceBy 1).ahead = _ from left]

theorem skipToDeclaration_here {cursor : Cursor} (declares : cursor.current.kind.startsDeclaration) :
    skipToDeclaration cursor = { value := some (), cursor } := by
  rw [skipToDeclaration_eq]
  cases ahead : cursor.ahead with
  | nil => rfl
  | cons token rest =>
    rw [Cursor.current_of_ahead ahead] at declares
    rw [List.takeWhile_cons_of_neg (by simpa using declares)]
    rfl

/-- A declaration that begins with its keyword has passed it, even if it could not be read. -/
theorem resynchronize_fileLevel (limit : Nat) {start : Cursor} (intact : start.Intact)
    (more : ¬ start.atEnd) :
    resynchronize start (fileLevel limit start).cursor =
      skipToDeclaration (fileLevel limit start).cursor := by
  have opened (stop : Cursor) : resynchronize start stop =
      (if stop.movedSince start.index && stop.current.kind.startsDeclaration then return ()
      else skipDeclaration : Parser Unit) stop := rfl
  rw [opened]
  -- The two differ only where a keyword is current from which the declaration has not moved on.
  by_cases declares : (fileLevel limit start).cursor.current.kind.startsDeclaration
  · have moved : (fileLevel limit start).cursor.movedSince start.index := by
      by_cases begins : start.current.kind.startsDeclaration
      · obtain ⟨token, rest, ahead⟩ := List.exists_cons_of_ne_nil (l := start.ahead)
          (by simpa [Cursor.atEnd] using more)
        obtain ⟨passes, _⟩ := Cursor.advanceBy_passes [token] _ ahead
        obtain ⟨used, course⟩ := fileLevel_goes limit begins intact
        exact (passes.trans course.passes).moved (by simp)
      · rw [show fileLevel limit start = _ from topLevel_other _ _ begins] at declares
        exact absurd declares begins
    rw [if_pos (by rw [moved, declares]; rfl)]
    exact (skipToDeclaration_here declares).symm
  · rw [if_neg (by simp [declares]), skipDeclaration_eq, skipToDeclaration_advance declares]

theorem recover_fileLevel_eq (limit : Nat) {start : Cursor} (intact : start.Intact)
    (more : ¬ start.atEnd) :
    recover (fileLevel limit) (resynchronize start) start =
      recover (fileLevel limit) skipToDeclaration start := by
  rw [recover, recover, resynchronize_fileLevel limit intact more]

def Tells {α : Type} (parser : Parser α) (cursor : Cursor) : Prop := (parser cursor).reports ≠ []

theorem Tells.bind {α β : Type} {parser : Parser α} {goesOn : α → Parser β} {cursor : Cursor}
    (tells : Tells parser cursor) : Tells (parser >>= goesOn) cursor :=
  fun none => tells (List.prefix_nil.1 (none ▸ reports_bind parser goesOn cursor))

theorem Sound.tells {α : Type} {reading : Reading α} {parser : Parser α} {cursor : Cursor}
    (sound : Sound reading parser) (some : ∀ used value reports, reading used value reports → used ≠ [])
    (intact : cursor.Intact) (ended : cursor.ahead = []) : Tells parser cursor := by
  obtain ⟨_, used, passes, holds⟩ := sound cursor intact
  obtain ⟨rfl, _⟩ := List.append_eq_nil_iff.1 (passes.ahead.symm.trans ended)
  cases found : (parser cursor).value with
  | none =>
    rw [found] at holds
    exact holds
  | some value =>
    rw [found] at holds
    exact absurd rfl (some _ _ _ holds)

theorem expect_tells {kind : TokenKind} {cursor : Cursor} (ahead : kind ≠ .endOfFile)
    (ended : cursor.current.kind = .endOfFile) (message : String) :
    Tells (expect kind message) cursor := by
  rw [Tells, expect_other (by simpa [ended] using ahead.symm)]
  exact List.cons_ne_nil _ _

end Parser

namespace Comparison

open MoSyntax.Parser

variable {c : Comparison} {near : Prop} {depth : Nat} {start other : Cursor}

theorem Typed.of_parts {span span' : Span} {name name' : Ident} {type type' : TypeExpr}
    (spans : c.Spans span span') (names : c.Idents name name') (types : c.Types type type') :
    c.Typed ⟨span, name, type⟩ ⟨span', name', type'⟩ := by
  rw [Typed, TypedName.relocate, TypedName.relocate, spans.eq, names.eq, types.tree]

namespace Decls

variable {span span' : Span} {name name' : Ident}

theorem importing {path path' : ModulePath} {localName localName' : Option (Located Text)}
    (spans : c.Spans span span') (paths : path.relocate c.left = path'.relocate c.right)
    (names : Option.Rel c.Marked localName localName') :
    c.Decls (.importing span path localName) (.importing span' path' localName') := by
  rw [Decls, Decl.relocate, Decl.relocate, spans.eq, paths,
    option_map_eq (fun _ _ => Marked.eq) names]

theorem record {fields fields' : List TypedName} (spans : c.Spans span span')
    (names : c.Idents name name') (alike : List.Forall₂ c.Typed fields fields') :
    c.Decls (.record span name fields) (.record span' name' fields') := by
  rw [Decls, Decl.relocate, Decl.relocate, spans.eq, names.eq, map_eq (fun _ _ alike => alike) alike]

theorem function {parameters parameters' : List TypedName} {result result' : Option TypeExpr}
    {body body' : Block} (spans : c.Spans span span') (names : c.Idents name name')
    (alike : List.Forall₂ c.Typed parameters parameters') (results : Option.Rel c.Types result result')
    (bodies : c.Blocks body body') :
    c.Decls (.function span name parameters result body)
      (.function span' name' parameters' result' body') := by
  rw [Decls, Decl.relocate, Decl.relocate, spans.eq, names.eq, map_eq (fun _ _ alike => alike) alike,
    option_map_eq (fun _ _ alike => alike.tree) results, bodies.tree]

end Decls

namespace Likes

/-- Where the first text ends among line breaks, what comes next has to say so. -/
theorem skipLineBreaks_bind {α β : Type} {values : α → β → Prop} {last : Nat}
    {goesOn : Unit → Parser α} {goesOn' : Unit → Parser β}
    (tail : c.Likes near True depth last values (goesOn ()) (goesOn' ()))
    (tells : ∀ cursor : Cursor, cursor.current.kind = .endOfFile → Tells (goesOn ()) cursor) :
    c.Likes near True depth last values (Parser.skipLineBreaks >>= goesOn)
      (Parser.skipLineBreaks >>= goesOn') := by
  intro start other like
  rcases like.skipBreaks with behind | ⟨cut, _, ended⟩
  · exact Replies.bind (.same (.some rfl) .nil fun _ => behind) fun _ _ _ _ _ => tail _ _
  · obtain ⟨passes, _⟩ := Cursor.advanceBy_passes _ _
      (List.takeWhile_append_dropWhile (p := (·.kind == .lineBreak)) (l := start.ahead)).symm
    refine .lost cut trivial ?_
    rw [bind_of_some rfl]
    have current : (start.advanceBy (start.ahead.takeWhile (·.kind == .lineBreak)).length).current =
        start.eof := by
      rw [Cursor.current, Cursor.peek, ended, passes.eof]
      rfl
    have reports := tells _ (current ▸ like.intact.eof)
    exact fun none => reports (List.append_eq_nil_iff.1 none).2

theorem localName : c.Likes near True depth depth (Option.Rel c.Marked) localName localName := by
  intro start other like
  refine LikesAt.current_bind ?_ like
  rcases like.current with alike | past
  · rw [← alike.kind]
    split
    · rename_i value found
      exact LikesAt.advance_bind (by simp [found]) (by simp [found]) (fun _ => by rw [found]; rfl)
        fun _ _ => LikesAt.pure (.some (Marked.of_spans alike.span value))
    · exact LikesAt.pure .none
  · rw [past.kind, past.breaks]
    exact LikesAt.pure .none

theorem useDeclaration :
    c.Likes near True depth depth c.Decls useDeclaration useDeclaration := by
  intro start other
  refine (expect (.inr (.inr trivial)) (by simp) (by simp) (fun _ => rfl) _ _ _).bind
    fun _ _ _ _ opening => ?_
  refine (name (.inr (.inr trivial)) _ _ _).bind fun found found' _ _ names => ?_
  have tree := names.tree
  cases found with
  | ident first =>
    cases found' with
    | path path => simp [Name.relocate] at tree
    | ident second => exact LikesAt.reject (Idents.singleSegment (Name.ident.inj tree))
  | path path =>
    cases found' with
    | ident second => simp [Name.relocate] at tree
    | path path' =>
      refine (localName _ _).bind fun _ _ _ _ alternative => ?_
      refine LikesAt.pure (.importing (opening.through ?_) (Name.path.inj tree) alternative)
      cases alternative with
      | none => exact names.span
      | some alike => exact alike.span

section

variable {type : Parser TypeExpr} {reading : Reading TypeExpr} {stmt : Parser Stmt}
  {statements : Reading Stmt} (sound : Sound reading type)
  (types : ∀ (near : Prop) depth, c.Likes near True depth depth c.Types type type)
  (filled : ∀ used value reports, reading used value reports → used ≠ [])
  (sounds : Sound statements stmt)
  (some : ∀ used value reports, statements used value reports → used ≠ [])
  (stmts : ∀ (near : Prop) depth, (c.tail = [] ∨ 0 < depth) →
    c.Likes near True depth depth c.Stmts stmt stmt)

include types in
theorem typedName (message : String) :
    c.Likes near True depth depth c.Typed (typedName message type) (typedName message type) := by
  intro start other
  refine (ident (.inr (.inr trivial)) _ _ _).bind fun _ _ _ _ declared => ?_
  refine (types near depth _ _).bind fun _ _ _ _ type => ?_
  exact LikesAt.pure (.of_parts (declared.span.through type.span) declared type)

theorem skipFieldSeparators :
    c.Likes near True (depth + 1) (depth + 1) Eq skipFieldSeparators skipFieldSeparators := by
  intro start other
  refine LikesAt.here_bind (LikesAt.skipWhile _ (.inr (Nat.succ_pos depth)) fun _ kind separates => ?_)
  rcases (Bool.or_eq_true _ _).mp separates with breaks | comma
  · obtain rfl : kind = .lineBreak := by simpa using breaks
    exact ⟨rfl, rfl⟩
  · obtain rfl : kind = .punctuation .comma := by simpa using comma
    exact ⟨rfl, rfl⟩

theorem endField : c.Likes near True (depth + 1) (depth + 1) Eq endField endField := by
  intro start other like
  have alike := like.current_of_guarded (.inr (Nat.succ_pos depth))
  refine LikesAt.current_bind ?_ like
  rw [← alike.kind]
  split
  · exact LikesAt.pure rfl
  · by_cases whole : c.tail = []
    · exact LikesAt.report_bind (alike.unexpected _) (skipStatement whole _ _)
    · exact LikesAt.report_lost whole trivial _

include sound types in
theorem nextField :
    c.Likes near True (depth + 1) (depth + 1) (Option.Rel (Option.Rel c.Typed)) (nextField type)
      (nextField type) := by
  have inside : c.tail = [] ∨ 0 < depth + 1 := .inr (Nat.succ_pos depth)
  intro start other
  refine (skipFieldSeparators _ _).bind fun _ _ stop stop' _ like => ?_
  refine LikesAt.here_bind ?_ like
  rw [← (like.current_of_guarded inside).kind, ← like.atEnd inside]
  split
  · exact LikesAt.pure .none
  · refine (LikesAt.recover (typedName_sound sound _) (.inr trivial) (typedName types _ _ _)
      fun whole => skipStatement whole).bind fun _ _ _ _ found => ?_
    cases found with
    | none => exact LikesAt.pure (.some .none)
    | some field =>
      exact (endField _ _).bind fun _ _ _ _ _ => LikesAt.pure (.some (.some field))

include sound types in
theorem structDeclaration :
    c.Likes near True depth depth c.Decls (structDeclaration type) (structDeclaration type) := by
  have rounds := nextField_sound sound
  intro start other
  refine (expect (.inr (.inr trivial)) (by simp) (by simp) (fun _ => rfl) _ _ _).bind
    fun _ _ _ _ opening => ?_
  refine (ident (.inr (.inr trivial)) _ _ _).bind fun _ _ _ _ declared => ?_
  refine skipLineBreaks_bind (fun _ _ => ?_) (fun cursor ended => ?_) _ _
  · refine (expect (.inr (.inr trivial)) (by simp) (by simp) (fun _ => rfl) _ _ _).bind
      fun _ _ _ _ _ => ?_
    refine (many (nextField sound types) rounds.advances rounds.advances _ _).bind
      fun _ _ _ _ fields => ?_
    exact (expect (.inr (.inr trivial)) (by simp) (by simp) (fun _ => rfl) _ _ _).bind
      fun _ _ _ _ closing =>
        LikesAt.pure (.record (opening.through closing) declared (reduceOption fields))
  · exact (expect_tells (by simp) ended _).bind

include sound types in
theorem parameters :
    c.Likes near True depth depth (List.Forall₂ c.Typed) (parameters type) (parameters type) := by
  have items := nextItem_sound (typedName_sound sound "expected a parameter name")
  intro start other
  refine (expect (.inr (.inr trivial)) (by simp) (by simp) (fun _ => rfl) _ _ _).bind
    fun _ _ _ _ _ => ?_
  exact (listUntil rfl (typedName types _) items.advances items.advances _ _ _).bind
    fun _ _ _ _ listed => LikesAt.pure listed.1

include sound filled types in
/-- Where the first text has come to its end, the type is missed that a line break stands for. -/
theorem resultType :
    c.Likes near True depth depth (Option.Rel c.Types) (resultType type) (resultType type) := by
  intro start other like
  rcases like.current with alike | past
  · refine LikesAt.current_bind ?_ like
    rw [← alike.kind]
    split
    · exact LikesAt.pure .none
    · exact (types near depth _ _).bind fun _ _ _ _ result => LikesAt.pure (.some result)
  · have told : Tells (Parser.resultType type) start := by
      have opened : Parser.resultType type start =
          (if start.current.kind == .punctuation .leftBrace || start.current.kind == .lineBreak then
            return none
          else return some (← type) : Parser (Option TypeExpr)) start := rfl
      rw [Tells, opened, past.kind]
      exact (sound.tells filled like.intact past.ended).bind
    exact .lost past.cut trivial told

include sound filled types sounds some stmts in
theorem fnDeclaration :
    c.Likes near True depth depth c.Decls (fnDeclaration type stmt) (fnDeclaration type stmt) := by
  intro start other
  refine (expect (.inr (.inr trivial)) (by simp) (by simp) (fun _ => rfl) _ _ _).bind
    fun _ _ _ _ opening => ?_
  refine (ident (.inr (.inr trivial)) _ _ _).bind fun _ _ _ _ declared => ?_
  refine (parameters sound types _ _).bind fun _ _ _ _ items => ?_
  refine (resultType sound types filled _ _).bind fun _ _ _ _ result => ?_
  refine skipLineBreaks_bind (fun _ _ => ?_) (fun cursor ended => ?_) _ _
  · exact (block sounds stmts some depth _ _).bind fun _ _ _ _ body =>
      LikesAt.pure (.function (opening.through body.span) declared items result body)
  · exact (expect_tells (by simp) ended _).bind.bind

include sound filled types sounds some stmts in
theorem topLevel :
    c.Likes near True depth depth c.Decls (topLevel type stmt) (topLevel type stmt) := by
  intro start other like
  refine LikesAt.current_bind ?_ like
  rcases like.current with alike | past
  · rw [← alike.kind]
    split
    · exact useDeclaration _ _
    · exact structDeclaration sound types _ _
    · exact fnDeclaration sound types filled sounds some stmts _ _
    · exact LikesAt.reject (alike.unexpected _)
  · rw [past.kind]
    exact LikesAt.reject_past past trivial _

end

theorem fileLevel (limit : Nat) :
    c.Likes near True depth depth c.Decls (fileLevel limit) (fileLevel limit) :=
  topLevel (typeExpr_sound limit limit (Nat.le_refl _))
    (fun _ _ => typeExpr (.inr (.inr trivial)) limit limit) (fun _ _ _ => TypeReading.ne_nil)
    (statement_sound limit limit (Nat.le_refl _)) (fun _ _ _ => StmtReading.ne_nil)
    (statement limit (Nat.le_refl _))

theorem skipToDeclaration (whole : c.tail = []) :
    c.Likes near True depth depth Eq skipToDeclaration skipToDeclaration :=
  fun _ _ => LikesAt.here_bind (LikesAt.skipWhile
    (fun kind => !kind.startsDeclaration) (.inl whole) (absurd whole))

theorem recover_fileLevel (limit : Nat) (more : ¬ start.atEnd) (more' : ¬ other.atEnd) :
    c.LikesAt near True depth depth (Option.Rel c.Decls) start other
      (recover (Parser.fileLevel limit) (resynchronize start))
      (recover (Parser.fileLevel limit) (resynchronize other)) := by
  intro like
  rw [recover_fileLevel_eq limit like.intact more, recover_fileLevel_eq limit like.intact' more']
  exact LikesAt.recover (fileLevel_sound limit) (.inr trivial) (fileLevel limit _ _)
    skipToDeclaration like

theorem nextDeclaration (whole : c.tail = []) (limit : Nat) :
    c.Likes near True depth depth (Option.Rel (Option.Rel c.Decls))
      (nextDeclaration (Parser.fileLevel limit)) (nextDeclaration (Parser.fileLevel limit)) := by
  intro start other
  refine (skipLineBreaks (.inl whole) _ _).bind fun _ _ stop stop' _ like => ?_
  have ends := like.atEnd (.inl whole)
  refine LikesAt.here_bind ?_ like
  rw [← ends]
  split
  · exact LikesAt.pure .none
  · rename_i more
    exact (recover_fileLevel limit more (ends ▸ more)).bind fun _ _ _ _ found =>
      LikesAt.pure (.some found)

theorem declarations (whole : c.tail = []) (limit : Nat) :
    c.Likes near True depth depth (List.Forall₂ c.Decls) (declarations limit)
      (declarations limit) := by
  have rounds := declaration_rounds limit
  intro start other
  exact (many (nextDeclaration whole limit) rounds.advances rounds.advances _ _).bind
    fun _ _ _ _ found => LikesAt.pure (reduceOption found)

end Likes

theorem Cursors.declarations (like : c.Cursors near depth start other) (whole : c.tail = [])
    (limit : Nat) :
    List.Forall₂ c.Decls ((Parser.declarations limit start).value.getD [])
        ((Parser.declarations limit other).value.getD []) ∧
      List.Forall₂ c.Reports (Parser.declarations limit start).reports
        (Parser.declarations limit other).reports := by
  cases Likes.declarations whole limit start other like with
  | lost cut => exact absurd whole cut
  | same value reports _ =>
    refine ⟨?_, reports⟩
    generalize (Parser.declarations limit start).value = found at value ⊢
    generalize (Parser.declarations limit other).value = found' at value ⊢
    cases value with
    | none => exact .nil
    | some alike => exact alike

end Comparison

end MoSyntax
