import MoSyntax.Proofs.Likeness.Trees

/-!
The phrases that all constructs share, read from two texts: single tokens, line breaks, names, lists
and what is skipped.
-/
namespace MoSyntax

theorem Skip.openAfter?_closing {closing : Punctuation} (closes : closing.closes) (depth : Nat) :
    openAfter? (depth + 1) (.punctuation closing) = some depth := by
  cases closing <;> first | rfl | simp [Punctuation.closes] at closes

theorem Cursor.getLast?_take {cursor : Cursor} {count : Nat} (enough : count < cursor.ahead.length) :
    (cursor.ahead.take (count + 1)).getLast? = some (cursor.peek count) := by
  rw [List.getLast?_take, if_neg (Nat.succ_ne_zero _), Nat.add_sub_cancel,
    List.getElem?_eq_getElem enough, peek, List.getD_eq_getElem?_getD,
    List.getElem?_eq_getElem enough]
  rfl

theorem Cursor.peek_one {cursor : Cursor} (intact : cursor.Intact)
    (ahead : cursor.current.kind ≠ .endOfFile) : cursor.peek 1 = (cursor.advanceBy 1).current := by
  obtain ⟨rest, whole⟩ := ahead_of_current intact ahead
  exact (advanceBy_passes [cursor.current] rest whole).1.peek 0

namespace Comparison

open MoSyntax.Parser

variable {c : Comparison} {near lax : Prop} {depth next last : Nat} {start other : Cursor}

theorem path_span {first first' : Ident} {rest rest' : List Ident} (head : c.Idents first first')
    (others : List.Forall₂ c.Idents rest rest') :
    c.Spans (ModulePath.span ⟨first :: rest⟩) (ModulePath.span ⟨first' :: rest'⟩) := by
  have last := getLast? others
  simp only [ModulePath.span, List.head?_cons, List.getLast?_cons]
  generalize rest.getLast? = final at last ⊢
  generalize rest'.getLast? = final' at last ⊢
  cases last with
  | none => exact head.span.through head.span
  | some alike => exact head.span.through alike.span

theorem Guarded.of_past (guarded : c.Guarded lax depth) (past : c.Past depth start other) : lax := by
  rcases guarded with whole | inside | allowed
  · exact absurd whole past.cut
  · exact absurd past.outside (ne_zero_of_enclosed (.inr inside) past.cut)
  · exact allowed

theorem Guarded.of_enclosed (enclosed : c.tail = [] ∨ 0 < depth) : c.Guarded lax depth :=
  enclosed.imp_right .inl

namespace Likes

theorem expect {kind : TokenKind} (guarded : c.Guarded lax depth)
    (ahead : kind ≠ .endOfFile) (plain : kind ≠ .lineBreak)
    (level : c.tail ≠ [] → Skip.openAfter? depth kind = some next) (message : String) :
    c.Likes near lax depth next c.Spans (expect kind message) (expect kind message) := by
  intro start other like
  refine LikesAt.current_bind ?_ like
  rcases like.current with alike | past
  · rw [← alike.kind]
    split
    · rename_i found
      have here : start.current.kind = kind := by simpa using found
      exact LikesAt.advance_bind (here ▸ ahead) (here ▸ plain) (here ▸ level)
        fun _ _ => LikesAt.pure alike.span
    · exact LikesAt.reject (alike.missing _ _)
  · rw [if_neg (by simpa [past.kind] using ahead.symm)]
    exact LikesAt.reject_past past (guarded.of_past past) _

theorem ident (guarded : c.Guarded lax depth) (message : String) :
    c.Likes near lax depth depth c.Idents (ident message) (ident message) := by
  intro start other like
  rcases like.current with alike | past
  · refine LikesAt.current_bind ?_ like
    rw [← alike.kind]
    split
    · rename_i name found
      refine LikesAt.advance_bind (by simp [found]) (by simp [found]) (fun _ => by rw [found]; rfl)
        fun _ _ => LikesAt.pure (Idents.of_spans alike.span name)
    · exact LikesAt.reject (alike.missing _ _)
  · refine LikesAt.current_bind ?_ like
    rw [past.kind]
    exact LikesAt.reject_past past (guarded.of_past past) _

theorem expect_bind {α β : Type} {values : α → β → Prop} {kind : TokenKind}
    {goesOn : Span → Parser α} {goesOn' : Span → Parser β} (guarded : c.Guarded lax depth)
    (ahead : kind ≠ .endOfFile) (plain : kind ≠ .lineBreak)
    (level : c.tail ≠ [] → Skip.openAfter? depth kind = some next) (message : String)
    (tail : ∀ span span', c.Spans span span' →
      c.Likes True lax next last values (goesOn span) (goesOn' span')) :
    c.Likes near lax depth last values (Parser.expect kind message >>= goesOn)
      (Parser.expect kind message >>= goesOn') := by
  intro start other like
  by_cases found : start.current.kind == kind
  · have here : start.current.kind = kind := by simpa using found
    rcases like.current with alike | past
    · have like := like.advance (here ▸ ahead) (here ▸ plain) (here ▸ level)
      rw [bind_of_some (by rw [expect_found found]),
        bind_of_some (by rw [expect_found (alike.kind ▸ found)]), expect_found found,
        expect_found (alike.kind ▸ found)]
      exact (tail _ _ alike.span _ _ like).weaken fun _ => trivial
    · exact absurd (here.symm.trans past.kind) ahead
  · refine (expect guarded ahead plain level message _ _ like).bind fun span _ missed _ _ => ?_
    rw [expect_other found] at missed
    simp at missed

end Likes

/-- The tokens behind like tokens are alike, unless the first text ends between them. -/
theorem Cursors.peek (like : c.Cursors near depth start other)
    (ahead : start.current.kind ≠ .endOfFile) (plain : start.current.kind ≠ .lineBreak)
    (level : c.tail ≠ [] → Skip.openAfter? depth start.current.kind = some next) :
    c.Tokens (start.peek 1) (other.peek 1) ∨
      (start.peek 1).kind = .endOfFile ∧ (other.peek 1).kind = .lineBreak := by
  have alike : c.Tokens start.current other.current :=
    like.current.resolve_right fun past => ahead past.kind
  rw [Cursor.peek_one like.intact ahead, Cursor.peek_one like.intact' (alike.kind ▸ ahead)]
  rcases (like.advance ahead plain level).current with alike | past
  · exact .inl alike
  · exact .inr ⟨past.kind, past.breaks⟩

namespace LikesAt

variable {α β : Type} {values : α → β → Prop}

theorem accept_bind {kind : TokenKind} {goesOn : Bool → Parser α} {goesOn' : Bool → Parser β}
    (ahead : kind ≠ .endOfFile) (plain : kind ≠ .lineBreak)
    (level : c.tail ≠ [] → Skip.openAfter? depth kind = some next)
    (found : ∀ stop stop', c.LikesAt near lax next last values stop stop' (goesOn true) (goesOn' true))
    (missed : c.LikesAt near lax depth last values start other (goesOn false) (goesOn' false)) :
    c.LikesAt near lax depth last values start other (accept kind >>= goesOn)
      (accept kind >>= goesOn') := by
  intro like
  by_cases here : start.current.kind == kind
  · have same : start.current.kind = kind := by simpa using here
    have alike : c.Tokens start.current other.current :=
      like.current.resolve_right fun past => ahead (same.symm.trans past.kind)
    rw [bind_of_some (by rw [accept_found here]),
      bind_of_some (by rw [accept_found (alike.kind ▸ here)]), accept_found here,
      accept_found (alike.kind ▸ here)]
    exact found _ _ ((like.advance (same ▸ ahead) (same ▸ plain) (same ▸ level)).weaken
      fun _ => trivial)
  · have there : ¬ other.current.kind == kind := by
      rcases like.current with alike | past
      · exact alike.kind ▸ here
      · simpa [past.breaks] using plain.symm
    rw [bind_of_some (by rw [accept_other here]), bind_of_some (by rw [accept_other there]),
      accept_other here, accept_other there]
    exact missed like

theorem check_bind {kind : TokenKind} {goesOn : Bool → Parser α} {goesOn' : Bool → Parser β}
    (enclosed : c.tail = [] ∨ 0 < depth)
    (tail : ∀ found, c.LikesAt near lax depth last values start other (goesOn found) (goesOn' found)) :
    c.LikesAt near lax depth last values start other (check kind >>= goesOn)
      (check kind >>= goesOn') := by
  intro like
  have alike := like.current_of_guarded enclosed
  have found := tail (start.current.kind == kind) like
  have same : (other.current.kind == kind) = (start.current.kind == kind) := by rw [alike.kind]
  have opened {γ : Type} (more : Bool → Parser γ) :
      (check kind >>= more) = (current >>= fun token => more (token.kind == kind)) := rfl
  rw [opened, opened]
  exact LikesAt.current_bind (fun _ => same ▸ found) like

theorem skipWhile (holds : TokenKind → Bool) (enclosed : c.tail = [] ∨ 0 < depth)
    (neutral : c.tail ≠ [] → ∀ kind, holds kind → kind.opens = false ∧ kind.closes = false) :
    c.LikesAt near lax depth depth Eq start other
      (skip (start.ahead.takeWhile fun token => holds token.kind).length)
      (skip (other.ahead.takeWhile fun token => holds token.kind).length) := by
  intro like
  rcases like.skip (Skip.steady_stepWhile neutral depth) () rfl (Skip.length_takeWhile _ _)
    (Skip.length_takeWhile _ _) with like | ⟨cut, outside, _⟩
  · exact .same (.some rfl) .nil fun _ => like
  · exact absurd outside (ne_zero_of_enclosed enclosed cut)

end LikesAt

namespace Likes

variable {α β : Type} {values : α → β → Prop}

theorem skipLineBreaks (enclosed : c.tail = [] ∨ 0 < depth) :
    c.Likes near lax depth depth Eq skipLineBreaks skipLineBreaks :=
  fun _ _ => LikesAt.here_bind
    (LikesAt.skipWhile (· == .lineBreak) enclosed fun _ => Skip.neutral_lineBreak)

theorem nextSegment (guarded : c.Guarded lax depth) :
    c.Likes near lax depth depth (Option.Rel c.Idents) nextSegment nextSegment := by
  intro start other like
  have agrees : (start.current.kind == .punctuation .colon && (start.peek 1).kind.isIdentifier) =
      (other.current.kind == .punctuation .colon && (other.peek 1).kind.isIdentifier) := by
    rcases like.current with alike | past
    · rw [← alike.kind]
      by_cases colon : start.current.kind = .punctuation .colon
      · rcases like.peek (by simp [colon]) (by simp [colon]) (fun _ => by rw [colon]; rfl)
          with alike | ⟨ended, breaks⟩
        · rw [alike.kind]
        · rw [ended, breaks]
          rfl
      · rw [beq_eq_false_iff_ne.2 colon, Bool.false_and, Bool.false_and]
    · rw [past.kind, past.breaks]
      rfl
  refine LikesAt.here_bind ?_ like
  rw [← agrees]
  split
  · rename_i found
    obtain ⟨colon, _⟩ : start.current.kind = .punctuation .colon ∧ _ := by simpa using found
    refine LikesAt.advance_bind (by simp [colon]) (by simp [colon])
      (fun _ => by rw [colon]; rfl) fun _ _ => ?_
    exact (ident guarded _ _ _).bind fun _ _ _ _ alike => LikesAt.pure (.some alike)
  · exact LikesAt.pure .none

theorem name (guarded : c.Guarded lax depth) (message : String) :
    c.Likes near lax depth depth c.Names (name message) (name message) := by
  intro start other
  refine (ident guarded message _ _).bind fun first first' _ _ head => ?_
  refine (many (nextSegment guarded) nextSegment_sound.advances nextSegment_sound.advances _ _).bind
    fun rest rest' _ _ segments => ?_
  cases segments with
  | nil => exact LikesAt.pure ⟨congrArg Name.ident head, head.span⟩
  | cons second others =>
    have segments := List.Forall₂.cons head (.cons second others)
    refine LikesAt.pure ⟨?_, ?_⟩
    · exact congrArg (fun names => Name.path ⟨names⟩) (map_eq (fun _ _ alike => alike) segments)
    · exact path_span head (.cons second others)

section

variable {item : Parser α} {item' : Parser β}

theorem nextItem (enclosed : c.tail = [] ∨ 0 < depth)
    (items : c.Likes near lax depth depth values item item') :
    c.Likes near lax depth depth (Option.Rel values) (nextItem item) (nextItem item') := by
  intro start other
  refine LikesAt.accept_bind (by simp) (by simp) (fun _ => rfl) (fun _ _ => ?_) (LikesAt.pure .none)
  refine (skipLineBreaks enclosed _ _).bind fun _ _ _ _ _ => ?_
  refine (items _ _).bind fun _ _ _ _ alike => ?_
  exact (skipLineBreaks enclosed _ _).bind fun _ _ _ _ _ => LikesAt.pure (.some alike)

theorem commaSeparated (enclosed : c.tail = [] ∨ 0 < depth)
    (items : c.Likes near lax depth depth values item item')
    (advances : Advances (Parser.nextItem item)) (advances' : Advances (Parser.nextItem item')) :
    c.Likes near lax depth depth (List.Forall₂ values) (commaSeparated item)
      (commaSeparated item') := by
  intro start other
  refine (items _ _).bind fun _ _ _ _ first => ?_
  refine (skipLineBreaks enclosed _ _).bind fun _ _ _ _ _ => ?_
  exact (many (nextItem enclosed items) advances advances' _ _).bind fun _ _ _ _ rest =>
    LikesAt.pure (.cons first rest)

theorem itemsBefore (enclosed : c.tail = [] ∨ 0 < depth)
    (items : c.Likes near lax depth depth values item item')
    (advances : Advances (Parser.nextItem item)) (advances' : Advances (Parser.nextItem item'))
    (closing : Punctuation) :
    c.Likes near lax depth depth (List.Forall₂ values) (itemsBefore item closing)
      (itemsBefore item' closing) := by
  intro start other
  refine (skipLineBreaks enclosed _ _).bind fun _ _ _ _ _ => ?_
  refine LikesAt.check_bind enclosed fun found => ?_
  cases found with
  | true => exact LikesAt.pure .nil
  | false => exact commaSeparated enclosed items advances advances' _ _

theorem listUntil {closing : Punctuation} (closes : closing.closes)
    (items : c.Likes near lax (depth + 1) (depth + 1) values item item')
    (advances : Advances (Parser.nextItem item)) (advances' : Advances (Parser.nextItem item'))
    (message : String) :
    c.Likes near lax (depth + 1) depth
      (fun list list' => List.Forall₂ values list.1 list'.1 ∧ c.Spans list.2 list'.2)
      (listUntil item closing message) (listUntil item' closing message) := by
  have enclosed : c.tail = [] ∨ 0 < depth + 1 := .inr (Nat.succ_pos depth)
  intro start other
  refine (itemsBefore enclosed items advances advances' closing _ _).bind
    fun _ _ _ _ listed => ?_
  exact (expect (.of_enclosed enclosed) (by simp) (by simp)
    (fun _ => Skip.openAfter?_closing closes depth) message _ _).bind
    fun _ _ _ _ spans => LikesAt.pure ⟨listed, spans⟩

end

/-! What is skipped. -/

theorem skipStatement (whole : c.tail = []) :
    c.Likes near lax depth depth Eq skipStatement skipStatement := by
  intro start other
  refine LikesAt.here_bind fun like => ?_
  rcases like.skip (Skip.steady_stepTo (absurd whole) depth) 0 rfl (Skip.lengthTo_eq _ _ _)
    (Skip.lengthTo_eq _ _ _) with like | ⟨cut, _⟩
  · exact .same (.some rfl) .nil fun _ => like
  · exact absurd whole cut

theorem skipSubtree {stops : TokenKind → Bool} (enclosed : c.tail = [] ∨ 0 < depth) :
    c.Likes near lax depth depth (Option.Rel c.Spans) (skipSubtree stops) (skipSubtree stops) := by
  intro start other
  refine LikesAt.here_bind fun like => ?_
  have closers : c.tail ≠ [] → ∀ kind : TokenKind, kind.closes → Skip.endsSubtree stops kind := by
    intro _ kind closes
    simp [Skip.endsSubtree, closes]
  have steady := Skip.steady_stepTo closers depth
  have bound := Skip.scan_le (Skip.stepTo (Skip.endsSubtree stops)) 0 start.ahead
  have bound' := Skip.scan_le (Skip.stepTo (Skip.endsSubtree stops)) 0 other.ahead
  rw [Skip.subtreeLength?_eq, Skip.subtreeLength?_eq, Skip.lengthTo_eq, Skip.lengthTo_eq]
  rcases like.skip steady 0 rfl rfl rfl with further | ⟨cut, outside, _⟩
  · cases like.ahead.scan steady 0 fun _ => (Nat.add_zero depth).symm with
    | past cut outside => exact absurd outside (ne_zero_of_enclosed enclosed cut)
    | both _ last =>
      generalize Skip.scan (Skip.stepTo (Skip.endsSubtree stops)) 0 start.ahead = count at *
      generalize Skip.scan (Skip.stepTo (Skip.endsSubtree stops)) 0 other.ahead = count' at *
      -- What was passed last tells whether anything was, so both spans exist or neither does.
      cases count with
      | zero =>
        cases count' with
        | zero => exact .same (.some .none) .nil fun _ => like
        | succ count' =>
          rw [Cursor.getLast?_take (by omega)] at last
          cases last
      | succ count =>
        rw [Cursor.getLast?_take (by omega)] at last
        obtain ⟨_, found, alike⟩ := rel_some last
        cases count' with
        | zero => cases found
        | succ count' =>
          rw [Cursor.getLast?_take (by omega)] at found
          obtain rfl := Option.some.inj found
          have first := like.current_of_guarded enclosed
          exact .same (.some (.some (first.span.through alike.span))) .nil fun _ => further
  · exact absurd outside (ne_zero_of_enclosed enclosed cut)

theorem tooDeep {placeholder : Span → α} {placeholder' : Span → β} (guarded : c.Guarded lax depth)
    (alike : ∀ span span', c.Spans span span' → values (placeholder span) (placeholder' span'))
    (limit : Nat) (stops : TokenKind → Bool) :
    c.Likes near lax depth depth values (tooDeep limit stops placeholder)
      (tooDeep limit stops placeholder') := by
  intro start other like
  refine LikesAt.current_bind ?_ like
  by_cases enclosed : c.tail = [] ∨ 0 < depth
  · refine LikesAt.report_bind ((like.current_of_guarded enclosed).span.tooDeep limit) ?_
    refine (skipSubtree enclosed _ _).bind fun _ _ _ _ skipped => ?_
    cases skipped with
    | none => exact LikesAt.fail
    | some spans => exact LikesAt.pure (alike _ _ spans)
  · obtain ⟨cut, outside⟩ := not_or.1 enclosed
    exact LikesAt.report_lost cut ((guarded.resolve_left cut).resolve_left outside) _

end Likes

end Comparison

end MoSyntax
