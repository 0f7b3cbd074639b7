import MoSyntax.Parser.TypeExpr
import MoSyntax.Proofs.Reading.Skip

/-! Readings of types, level by level, and that the parser of types gives them. -/
namespace MoSyntax

inductive LengthReading : List Token → Option (Located NumberLiteral) → Prop
  | none : LengthReading [] none
  | some {token literal} (number : token.kind = .number literal) (decimal : literal.radix = .decimal)
      (whole : literal.fractional = false) :
      LengthReading [token] (some ⟨token.span, literal⟩)

/-- A type whose parts are read one level further in. -/
inductive TypeLevel (inner : Reading TypeExpr) : Reading TypeExpr
  | named {used name} (reads : NameReading used name) : TypeLevel inner used (.named name) []
  | pointer {star opening used target reports} (mark : Mark (.operator .star) star opening)
      (reads : inner used target reports) :
      TypeLevel inner (star ++ used) (.pointer (opening.through target.span) target) reports
  | array {left opening digits length right closing used element reports}
      (first : Mark (.punctuation .leftBracket) left opening) (count : LengthReading digits length)
      (second : Mark (.punctuation .rightBracket) right closing)
      (reads : inner used element reports) :
      TypeLevel inner (left ++ (digits ++ (right ++ used)))
        (.array (opening.through element.span) length element) reports

def TypeReading (limit : Nat) : Nat → Reading TypeExpr
  | 0 => SkippedReading limit .skipped
  | budget + 1 => TypeLevel (TypeReading limit budget)

theorem TypeLevel.ne_nil {inner : Reading TypeExpr} {used type reports}
    (reads : TypeLevel inner used type reports) : used ≠ [] := by
  cases reads with
  | named reads => exact reads.ne_nil
  | pointer mark => simp [mark.ne_nil]
  | array first => simp [first.ne_nil]

theorem TypeReading.ne_nil {limit budget : Nat} {used type reports}
    (reads : TypeReading limit budget used type reports) : used ≠ [] := by
  cases budget with
  | zero => exact SkippedReading.ne_nil reads
  | succ budget => exact TypeLevel.ne_nil reads

namespace Parser

theorem arrayLength_sound :
    Sound (fun used length reports => LengthReading used length ∧ reports = []) arrayLength := by
  intro start
  apply SoundAt.current_bind
  split
  · rename_i literal number
    split
    · rename_i whole
      simp only [Bool.and_eq_true, beq_iff_eq, Bool.not_eq_true'] at whole
      apply SoundAt.advance_bind (by simp [number])
      intro stop _
      exact SoundAt.pure ⟨.some number whole.1 whole.2, rfl⟩
    · exact SoundAt.fail_with _
  · exact SoundAt.pure ⟨.none, rfl⟩

variable {type : Parser TypeExpr} {inner : Reading TypeExpr}

theorem arrayType_sound (sound : Sound inner type) :
    Sound (TypeLevel inner) (arrayType type) := by
  intro start
  apply SoundAt.bind (expect_sound (by simp) _ start)
  rintro left opening _ _ _ ⟨first, rfl⟩
  apply SoundAt.bind (arrayLength_sound _)
  rintro digits length _ _ _ ⟨count, rfl⟩
  apply SoundAt.bind (expect_sound (by simp) _ _)
  rintro right closing _ _ _ ⟨second, rfl⟩
  apply SoundAt.bind (sound _)
  intro used element reports _ _ reads
  exact SoundAt.pure (by simpa using TypeLevel.array first count second reads)

theorem pointerType_sound (sound : Sound inner type) {start : Cursor}
    (star : start.current.kind = .operator .star) :
    SoundAt start (TypeLevel inner) (pointerType type) := by
  refine SoundAt.current_bind (SoundAt.advance_bind (by simp [star]) ?_)
  intro stop _
  apply SoundAt.bind (sound stop)
  intro used target reports _ _ reads
  exact SoundAt.pure (by simpa using TypeLevel.pointer ⟨_, rfl, star, rfl⟩ reads)

theorem typeLevel_sound (sound : Sound inner type) : Sound (TypeLevel inner) (typeLevel type) := by
  intro start
  apply SoundAt.current_bind
  split
  · exact arrayType_sound sound start
  · rename_i star
    exact pointerType_sound sound star
  · apply SoundAt.bind (name_sound _ start)
    rintro used name _ _ _ ⟨reads, rfl⟩
    exact SoundAt.pure (by simpa using TypeLevel.named reads)
  · exact SoundAt.fail_with _

theorem typeExpr_sound (limit budget : Nat) (within : budget ≤ limit) :
    Sound (TypeReading limit budget) (typeExpr limit budget) := by
  induction budget with
  | zero => exact tooDeep_sound limit _ _
  | succ budget ih =>
    intro start
    exact SoundAt.inside (by omega) (typeLevel_sound (ih (by omega)) start)

end Parser

end MoSyntax
