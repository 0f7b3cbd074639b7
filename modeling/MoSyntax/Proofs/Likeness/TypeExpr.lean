import MoSyntax.Proofs.Likeness.Phrase

/-! Types, read from two texts. -/
namespace MoSyntax.Comparison

open MoSyntax.Parser

variable {c : Comparison} {near lax : Prop} {depth : Nat} {type type' : Parser TypeExpr}

namespace Types

theorem named {name name' : Name} (alike : c.Names name name') :
    c.Types (.named name) (.named name') :=
  ⟨by rw [TypeExpr.relocate, TypeExpr.relocate, alike.tree], alike.span⟩

theorem pointer {span span' : Span} {target target' : TypeExpr} (spans : c.Spans span span')
    (alike : c.Types target target') : c.Types (.pointer span target) (.pointer span' target') :=
  ⟨by rw [TypeExpr.relocate, TypeExpr.relocate, spans.eq, alike.tree], spans⟩

theorem array {span span' : Span} {length length' : Option (Located NumberLiteral)}
    {element element' : TypeExpr} (spans : c.Spans span span')
    (lengths : Option.Rel c.Marked length length') (alike : c.Types element element') :
    c.Types (.array span length element) (.array span' length' element') :=
  ⟨by rw [TypeExpr.relocate, TypeExpr.relocate, spans.eq, alike.tree,
    option_map_eq (fun _ _ => Marked.eq) lengths], spans⟩

theorem skipped {span span' : Span} (spans : c.Spans span span') :
    c.Types (.skipped span) (.skipped span') :=
  ⟨by rw [TypeExpr.relocate, TypeExpr.relocate, spans.eq], spans⟩

end Types

namespace Likes

theorem arrayLength (enclosed : c.tail = [] ∨ 0 < depth) :
    c.Likes near lax depth depth (Option.Rel c.Marked) arrayLength arrayLength := by
  intro start other like
  have alike := like.current_of_guarded enclosed
  refine LikesAt.current_bind ?_ like
  rw [← alike.kind]
  split
  · rename_i literal found
    split
    · exact LikesAt.advance_bind (by simp [found]) (by simp [found]) (fun _ => by rw [found]; rfl)
        fun _ _ => LikesAt.pure (.some (Marked.of_spans alike.span literal))
    · exact LikesAt.reject (alike.lengthNotDecimal (by simp [found]))
  · exact LikesAt.pure .none

theorem arrayType (guarded : c.Guarded lax depth)
    (types : c.Likes near lax depth depth c.Types type type') :
    c.Likes near lax depth depth c.Types (arrayType type) (arrayType type') := by
  intro start other
  refine (expect guarded (by simp) (by simp) (fun _ => rfl) _ _ _).bind
    fun opening opening' _ _ opens => ?_
  refine (arrayLength (.inr (Nat.succ_pos depth)) _ _).bind fun _ _ _ _ lengths => ?_
  refine (expect (.inr (.inl (Nat.succ_pos depth))) (by simp) (by simp) (fun _ => rfl) _ _ _).bind
    fun _ _ _ _ _ => ?_
  exact (types _ _).bind fun _ _ _ _ alike =>
    LikesAt.pure (.array (opens.through alike.span) lengths alike)

theorem pointerType (start other : Cursor) (alike : c.Tokens start.current other.current)
    (star : start.current.kind = .operator .star)
    (types : c.Likes near lax depth depth c.Types type type') :
    c.LikesAt near lax depth depth c.Types start other (pointerType type) (pointerType type') := by
  refine LikesAt.current_bind ?_
  refine LikesAt.advance_bind (by simp [star]) (by simp [star]) (fun _ => by rw [star]; rfl)
    fun _ _ => ?_
  exact (types _ _).bind fun _ _ _ _ target =>
    LikesAt.pure (.pointer (alike.span.through target.span) target)

theorem typeLevel (guarded : c.Guarded lax depth)
    (types : c.Likes near lax depth depth c.Types type type') :
    c.Likes near lax depth depth c.Types (typeLevel type) (typeLevel type') := by
  intro start other like
  refine LikesAt.current_bind ?_ like
  rcases like.current with alike | past
  · rw [← alike.kind]
    split
    · exact arrayType guarded types _ _
    · rename_i star
      exact pointerType _ _ alike star types
    · exact (name guarded _ _ _).bind fun _ _ _ _ names => LikesAt.pure (.named names)
    · exact LikesAt.reject (alike.unexpected _)
  · rw [past.kind]
    exact LikesAt.reject_past past (guarded.of_past past) _

theorem typeExpr (guarded : c.Guarded lax depth) (limit budget : Nat) :
    c.Likes near lax depth depth c.Types (typeExpr limit budget) (typeExpr limit budget) := by
  induction budget with
  | zero => exact tooDeep guarded (fun _ _ => .skipped) limit Skip.stopsType
  | succ budget ih => exact fun _ _ => LikesAt.inside (typeLevel guarded ih _ _)

end Likes

end MoSyntax.Comparison
