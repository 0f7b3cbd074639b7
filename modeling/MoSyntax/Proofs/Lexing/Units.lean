import MoSyntax.Proofs.Lexing.Lookahead

/-!
The units of a string and the stretches of text they stand in. A text falls into units from left to
right, whatever follows it; the units that the reader finds in a string are those of their own text.
-/
namespace MoSyntax

namespace StringUnit

/-- A text in units: a backslash takes the character behind it. -/
def ofText : Text → List StringUnit
  | [] => []
  | ['\\'] => [.loneBackslash]
  | '\\' :: c :: text => .escape c :: ofText text
  | c :: text => .plain c :: ofText text

/-- Units with the stretches of text they stand in, one behind the other from an offset on. -/
def placeAll : Nat → List StringUnit → List (Span × StringUnit)
  | _, [] => []
  | start, unit :: units =>
    let stop := start + Text.byteSize unit.text
    (⟨start, stop⟩, unit) :: placeAll stop units

theorem text_ne_nil (unit : StringUnit) : unit.text ≠ [] := by
  cases unit <;> exact List.cons_ne_nil _ _

theorem textOf_cons (unit : StringUnit) (units : List StringUnit) :
    textOf (unit :: units) = unit.text ++ textOf units :=
  List.flatMap_cons

theorem ofText_of_plain {c : Char} (plain : c ≠ '\\') (text : Text) :
    ofText (c :: text) = .plain c :: ofText text := by
  cases text <;> simp [ofText, plain]

theorem within_of_mem_placeAll {units : List StringUnit} {offset : Nat} {placed : Span × StringUnit}
    (member : placed ∈ placeAll offset units) :
    offset ≤ placed.1.start ∧ placed.1.start < placed.1.stop ∧
      placed.1.stop ≤ offset + Text.byteSize (textOf units) := by
  induction units generalizing offset with
  | nil => simp [placeAll] at member
  | cons unit units ih =>
    rw [textOf_cons, Text.byteSize_append]
    rcases List.mem_cons.1 member with rfl | further
    · exact ⟨Nat.le_refl _, Nat.lt_add_of_pos_right (Text.byteSize_pos unit.text_ne_nil),
        Nat.add_le_add_left (Nat.le_add_right _ _) _⟩
    · obtain ⟨after, solid, within⟩ := ih further
      exact ⟨by omega, solid, by omega⟩

theorem placeAll_ordered (offset : Nat) (units : List StringUnit) :
    (placeAll offset units).Pairwise fun first second => first.1.stop ≤ second.1.start := by
  induction units generalizing offset with
  | nil => exact .nil
  | cons unit units ih =>
    exact .cons (fun placed member => (within_of_mem_placeAll member).1) (ih _)

theorem slice?_of_mem_placeAll {units : List StringUnit} {before : Text} (behind : Text)
    {placed : Span × StringUnit} (member : placed ∈ placeAll (Text.byteSize before) units) :
    placed.1.slice? (before ++ (textOf units ++ behind)) = some placed.2.text := by
  induction units generalizing before with
  | nil => simp [placeAll] at member
  | cons unit units ih =>
    rw [textOf_cons, List.append_assoc]
    rw [placeAll, ← Text.byteSize_append] at member
    rcases List.mem_cons.1 member with rfl | further
    · exact Span.slice?_append _ before unit.text _ rfl (Text.byteSize_append _ _)
    · rw [← List.append_assoc]
      exact ih further

theorem badEscapes_eq (offset : Nat) (units : List StringUnit) :
    badEscapes offset units =
      (placeAll offset units).filterMap fun placed => placed.2.bad?.map (placed.1, ·) := by
  induction units generalizing offset with
  | nil => rfl
  | cons unit units ih =>
    rw [badEscapes, ih, placeAll, List.filterMap_cons]
    cases unit.bad? <;> rfl

end StringUnit

namespace UnitsStand

variable {units : List StringUnit} {rest : Text}

theorem unquoted (stand : UnitsStand units rest) : .plain '"' ∉ units := by
  induction stand with
  | none => exact List.not_mem_nil
  | lone => simp
  | @plain c _ _ inside _ ih =>
    have other : '"' ≠ c := by
      rintro rfl
      exact absurd inside.2 (by decide)
    simpa [other] using ih
  | escape _ _ ih => simpa using ih

theorem lineEnd_of_lone (stand : UnitsStand units rest) (lone : .loneBackslash ∈ units) :
    LineEnd rest := by
  induction stand with
  | none => cases lone
  | lone ends => exact ends
  | plain _ _ ih => exact ih (by simpa using lone)
  | escape _ _ ih => exact ih (by simpa using lone)

theorem not_lone (stand : UnitsStand units ('"' :: rest)) : .loneBackslash ∉ units :=
  fun lone => absurd (stand.lineEnd_of_lone lone '"' rfl) (by decide)

theorem ofText (stand : UnitsStand units rest) :
    StringUnit.ofText (StringUnit.textOf units) = units := by
  induction stand with
  | none => rfl
  | lone => rfl
  | plain inside _ ih =>
    rw [StringUnit.textOf_cons, StringUnit.text, List.singleton_append,
      StringUnit.ofText_of_plain inside.1, ih]
  | escape _ _ ih =>
    rw [StringUnit.textOf_cons]
    exact congrArg (_ :: ·) ih

/-- Where no backslash is left alone, a text that follows has its own units. -/
theorem ofText_append (stand : UnitsStand units rest) (paired : .loneBackslash ∉ units)
    (more : Text) :
    StringUnit.ofText (StringUnit.textOf units ++ more) = units ++ StringUnit.ofText more := by
  induction stand with
  | none => rfl
  | lone => simp at paired
  | plain inside _ ih =>
    rw [StringUnit.textOf_cons, List.append_assoc, StringUnit.text, List.singleton_append,
      StringUnit.ofText_of_plain inside.1, ih fun lone => paired (List.mem_cons_of_mem _ lone)]
    rfl
  | escape _ _ ih =>
    rw [StringUnit.textOf_cons, List.append_assoc]
    exact congrArg (_ :: ·) (ih fun lone => paired (List.mem_cons_of_mem _ lone))

end UnitsStand

end MoSyntax
