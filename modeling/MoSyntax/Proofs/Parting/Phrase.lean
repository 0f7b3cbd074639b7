import MoSyntax.Proofs.Parting.Logic

/-! The phrases that all constructs share, and types, read from two texts that part. -/
namespace MoSyntax.Parting

open MoSyntax.Parser

variable {c : Parting} {loss : Loss} {depth next last : Nat} {start other : Cursor} {α β : Type}

namespace Cursors

theorem identifier (like : c.Cursors depth start other) (word : start.current.kind.isIdentifier) :
    start.peek 1 = other.peek 1 := by
  obtain ⟨_, visible, level⟩ := Comparison.neutral_of_isIdentifier word
  exact like.peek _ visible (level depth)

end Cursors

namespace AgreesAt

theorem accept_bind (next : Nat) {kind : TokenKind} {goesOn goesOn' : Bool → Parser β}
    (visible : kind ≠ .lineBreak) (level : Skip.openAfter? depth kind = some next)
    (found : ∀ stop stop', c.AgreesAt loss next last stop stop' (goesOn true) (goesOn' true))
    (missed : c.AgreesAt loss depth last start other (goesOn false) (goesOn' false)) :
    c.AgreesAt loss depth last start other (accept kind >>= goesOn) (accept kind >>= goesOn') := by
  intro like
  by_cases here : start.current.kind == kind
  · have same : start.current.kind = kind := by simpa using here
    rw [bind_of_some (by rw [accept_found here]),
      bind_of_some (by rw [accept_found (like.current ▸ here)]), accept_found here,
      accept_found (like.current ▸ here)]
    exact found _ _ (like.advance next (same ▸ visible) (same ▸ level)).1
  · rw [bind_of_some (by rw [accept_other here]),
      bind_of_some (by rw [accept_other (like.current ▸ here)]), accept_other here,
      accept_other (like.current ▸ here)]
    exact missed like

theorem check_bind {kind : TokenKind} {goesOn : Bool → Parser β}
    (tail : ∀ found, c.AgreesAt loss depth last start other (goesOn found) (goesOn found)) :
    c.AgreesAt loss depth last start other (check kind >>= goesOn) (check kind >>= goesOn) := by
  have opened : (check kind >>= goesOn) = (current >>= fun token => goesOn (token.kind == kind)) :=
    rfl
  rw [opened]
  exact current_bind (tail _)

end AgreesAt

namespace Agrees

theorem expect (next : Nat) {kind : TokenKind} (visible : kind ≠ .lineBreak)
    (level : Skip.openAfter? depth kind = some next) (message : String) :
    c.Agrees loss depth next (expect kind message) := by
  intro start other
  refine AgreesAt.current_bind ?_
  split
  · rename_i found
    have here : start.current.kind = kind := by simpa using found
    exact AgreesAt.advance_bind _ (here ▸ visible) (here ▸ level) fun _ _ => AgreesAt.pure _
  · exact AgreesAt.reject _

theorem ident (message : String) : c.Agrees loss depth depth (ident message) := by
  intro start other
  refine AgreesAt.current_bind ?_
  split
  · rename_i name found
    exact AgreesAt.advance_bind _ (by simp [found]) (by rw [found]; rfl) fun _ _ => AgreesAt.pure _
  · exact AgreesAt.reject _

theorem nextSegment : c.Agrees loss depth depth nextSegment := by
  intro start other like
  have agrees : (start.current.kind == .punctuation .colon && (start.peek 1).kind.isIdentifier) =
      (other.current.kind == .punctuation .colon && (other.peek 1).kind.isIdentifier) := by
    rw [← like.current]
    by_cases colon : start.current.kind = .punctuation .colon
    · rw [like.peek depth (by simp [colon]) (by rw [colon]; rfl)]
    · rw [beq_eq_false_iff_ne.2 colon, Bool.false_and, Bool.false_and]
  refine AgreesAt.here_bind ?_ like
  rw [← agrees]
  split
  · rename_i found
    obtain ⟨colon, _⟩ : start.current.kind = .punctuation .colon ∧ _ := by simpa using found
    refine AgreesAt.advance_bind _ (by simp [colon]) (by rw [colon]; rfl) fun _ _ => ?_
    exact (ident _ _ _).bind fun _ _ _ => AgreesAt.pure _
  · exact AgreesAt.pure _

theorem name (message : String) : c.Agrees loss depth depth (name message) := by
  intro start other
  refine (ident message _ _).bind fun first _ _ => ?_
  refine (many nextSegment nextSegment_sound.advances _ _).bind fun rest _ _ => ?_
  cases rest <;> exact AgreesAt.pure _

/-- Inside of brackets the line breaks do not lead past the place where the texts part. -/
theorem skipLineBreaks : c.Agrees loss (depth + 1) (depth + 1) skipLineBreaks := by
  intro start other like
  rcases like.pastBreaks with ⟨_, further⟩ | past
  · exact .same rfl rfl ⟨_, fun _ => rfl, further⟩
  · exact absurd past.outside (Nat.succ_ne_zero depth)

section

variable {item : Parser α}

theorem nextItem (items : c.Agrees loss (depth + 1) (depth + 1) item) :
    c.Agrees loss (depth + 1) (depth + 1) (nextItem item) := by
  intro start other
  refine AgreesAt.accept_bind _ (by simp) rfl (fun _ _ => ?_) (AgreesAt.pure _)
  refine (skipLineBreaks _ _).bind fun _ _ _ => ?_
  refine (items _ _).bind fun _ _ _ => ?_
  exact (skipLineBreaks _ _).bind fun _ _ _ => AgreesAt.pure _

theorem listUntil {closing : Punctuation} (closes : closing.closes)
    (items : c.Agrees loss (depth + 1) (depth + 1) item) (advances : Advances (Parser.nextItem item))
    (message : String) : c.Agrees loss (depth + 1) depth (listUntil item closing message) := by
  have visible : (TokenKind.punctuation closing) ≠ .lineBreak := by simp
  have level := Skip.openAfter?_closing closes depth
  intro start other
  refine AgreesAt.bind (show c.AgreesAt _ _ (depth + 1) _ _ _ _ from ?_) fun _ _ _ =>
    (expect depth visible level message _ _).bind fun _ _ _ => AgreesAt.pure _
  refine (skipLineBreaks _ _).bind fun _ _ _ => AgreesAt.check_bind fun found => ?_
  cases found with
  | true => exact AgreesAt.pure _
  | false =>
    refine (items _ _).bind fun _ _ _ => ?_
    refine (skipLineBreaks _ _).bind fun _ _ _ => ?_
    exact (many (nextItem items) advances _ _).bind fun _ _ _ => AgreesAt.pure _

end

/-! What is skipped. -/

theorem skipSubtree (stops : TokenKind → Bool) :
    c.Agrees loss depth depth (skipSubtree stops) := by
  have breaks : Skip.endsSubtree stops .lineBreak := by simp [Skip.endsSubtree]
  have closers : ∀ kind : TokenKind, kind.closes → Skip.endsSubtree stops kind := by
    intro kind closes
    simp [Skip.endsSubtree, closes]
  intro start other like
  obtain ⟨count, taken, further⟩ := like.ahead.lengthTo breaks closers (Nat.add_zero depth).symm
  refine AgreesAt.here_bind ?_ like
  rw [Skip.subtreeLength?_eq, Skip.subtreeLength?_eq, ← count, ← like.current]
  have bound := Skip.lengthTo_le (Skip.endsSubtree stops) 0 start.ahead
  have bound' := Skip.lengthTo_le (Skip.endsSubtree stops) 0 other.ahead
  rw [← count] at bound'
  cases length : Skip.lengthTo (Skip.endsSubtree stops) 0 start.ahead with
  | zero => exact AgreesAt.pure _
  | succ count =>
    rw [length] at taken further bound bound'
    have last := congrArg List.getLast? taken
    rw [Cursor.getLast?_take bound, Cursor.getLast?_take bound'] at last
    obtain ⟨passes, behind⟩ :=
      Cursor.advanceBy_passes _ _ (List.take_append_drop (count + 1) start.ahead).symm
    obtain ⟨passes', behind'⟩ :=
      Cursor.advanceBy_passes _ _ (List.take_append_drop (count + 1) other.ahead).symm
    rw [List.length_take_of_le bound] at passes behind
    rw [List.length_take_of_le bound'] at passes' behind'
    intro _
    refine .same ?_ rfl ⟨depth, fun _ => rfl, passes.intact like.intact,
      passes'.intact like.intact', ?_⟩
    · show some (some (start.current.span.through (start.peek count).span)) =
        some (some (start.current.span.through (other.peek count).span))
      rw [Option.some.inj last]
    · show c.Alike depth (start.advanceBy (count + 1)).ahead (other.advanceBy (count + 1)).ahead
      rw [behind, behind']
      exact further

theorem tooDeep (limit : Nat) (stops : TokenKind → Bool) (placeholder : Span → α) :
    c.Agrees loss depth depth (tooDeep limit stops placeholder) := by
  intro start other
  refine AgreesAt.current_bind (AgreesAt.report_bind _ ?_)
  refine (skipSubtree stops _ _).bind fun skipped _ _ => ?_
  cases skipped with
  | none => exact AgreesAt.fail
  | some span => exact AgreesAt.pure _

/-! Types. -/

theorem arrayLength : c.Agrees loss depth depth arrayLength := by
  intro start other
  refine AgreesAt.current_bind ?_
  split
  · rename_i literal found
    split
    · exact AgreesAt.advance_bind _ (by simp [found]) (by rw [found]; rfl)
        fun _ _ => AgreesAt.pure _
    · exact AgreesAt.reject _
  · exact AgreesAt.pure _

theorem typeLevel {type : Parser TypeExpr} (types : c.Agrees loss depth depth type) :
    c.Agrees loss depth depth (typeLevel type) := by
  intro start other
  refine AgreesAt.current_bind ?_
  split
  · refine (expect (depth + 1) (by simp) rfl _ _ _).bind fun _ _ _ => ?_
    refine (arrayLength _ _).bind fun _ _ _ => ?_
    refine (expect _ (by simp) rfl _ _ _).bind fun _ _ _ => ?_
    exact (types _ _).bind fun _ _ _ => AgreesAt.pure _
  · rename_i star
    refine AgreesAt.current_bind ?_
    refine AgreesAt.advance_bind _ (by simp [star]) (by rw [star]; rfl) fun _ _ => ?_
    exact (types _ _).bind fun _ _ _ => AgreesAt.pure _
  · exact (name _ _ _).bind fun _ _ _ => AgreesAt.pure _
  · exact AgreesAt.reject _

theorem typeExpr (limit budget : Nat) : c.Agrees loss depth depth (typeExpr limit budget) := by
  induction budget with
  | zero => exact tooDeep limit Skip.stopsType _
  | succ budget ih => exact fun _ _ => AgreesAt.inside (typeLevel ih _ _)

end Agrees

end MoSyntax.Parting
