import MoSyntax.Proofs.Lexing.Lookahead
import MoSyntax.Proofs.Printing.Lexing

/-!
Gaps between lexemes. A blank or a line feed may take the place of whatever stands behind a lexeme,
and the lexeme is read as before; only comments and strings that are never closed go on to the end
of their line.
-/
namespace MoSyntax

/-- The second text is the first, or it has a gap where it first differs. -/
inductive Veils (gap : Char) : Text → Text → Prop
  | nil : Veils gap [] []
  | gap {rest other} : Veils gap rest (gap :: other)
  | same {c rest other} (veils : Veils gap rest other) : Veils gap (c :: rest) (c :: other)

namespace Veils

variable {gap : Char} {rest other : Text}

theorem append (run : Text) (veils : Veils gap rest other) :
    Veils gap (run ++ rest) (run ++ other) := by
  induction run with
  | nil => exact veils
  | cons c run ih => exact .same ih

theorem behind (text more : Text) : Veils gap text (text ++ gap :: more) := by
  induction text with
  | nil => exact .gap
  | cons c text ih => exact .same ih

theorem stops {holds : Char → Bool} (veils : Veils gap rest other) (lacks : holds gap = false)
    (stops : rest.Stops holds) : other.Stops holds := by
  cases veils with
  | nil => exact stops
  | gap =>
    rintro _ ⟨⟩
    exact lacks
  | same veils =>
    rintro _ ⟨⟩
    exact stops _ rfl

end Veils

namespace Lexeme

/-- Lexemes that only the end of the line ends. -/
def runsOn : Lexeme → Bool
  | comment _ | string false _ => true
  | _ => false

/-- A lexeme still stands where a blank or a line feed comes earlier than what followed it. -/
theorem Stands.veil {lexeme : Lexeme} {gap : Char} {rest other : Text} (stands : lexeme.Stands rest)
    (veils : Veils gap rest other) (free : gap = ' ' ∨ gap = '\n')
    (ended : lexeme.runsOn → gap = '\n') : lexeme.Stands other := by
  have word : continuesWord gap = false := by rcases free with rfl | rfl <;> rfl
  cases stands with
  | feed => exact .feed
  | carriage => exact .carriage
  | comment inside ends =>
    obtain rfl := ended rfl
    exact .comment inside (veils.stops rfl ends)
  | closed inside =>
    refine .closed (inside.imp (fun _ => ?_) fun line => ?_)
    · rintro _ ⟨⟩
      rfl
    · exact absurd (line '"' rfl) (by decide)
  | unclosed inside ends =>
    obtain rfl := ended rfl
    exact .unclosed (inside.imp (veils.stops rfl) (veils.stops rfl)) (veils.stops rfl ends)
  | word starts inside ends => exact .word starts inside (veils.stops word ends)
  | whole starts inside ends unpointed =>
    refine .whole starts inside (veils.stops word ends) fun digits d more point => ?_
    subst point
    cases veils with
    | gap => simp at free
    | same veils =>
      cases veils with
      | gap => rcases free with rfl | rfl <;> rfl
      | same veils => exact unpointed digits d _ rfl
  | fraction starts front goesOn back ends =>
    exact .fraction starts front goesOn back (veils.stops word ends)
  | operator ends =>
    rename_i sign
    have lacks : sign.extendedBy gap = false := by
      rcases free with rfl | rfl <;> cases sign <;> rfl
    exact .operator (veils.stops lacks ends)
  | punctuation ends =>
    rename_i mark
    have lacks : mark.extendedBy gap = false := by
      rcases free with rfl | rfl <;> cases mark <;> rfl
    exact .punctuation (veils.stops lacks ends)

theorem readSymbol?_eq_none {c : Char} {rest : Text} (none : readSymbol? (c :: rest) = none)
    (other : Text) : readSymbol? (c :: other) = Option.none := by
  rw [readSymbol?] at none ⊢
  split at none
  · simp at none
  · rename_i leads
    have unmarked : Punctuation.ofChar? c = Option.none := by simpa using none
    have colon : c ≠ ':' := by
      rintro rfl
      exact absurd unmarked (by decide)
    rw [Operator.leading?_eq_none leads colon]
    simp [unmarked]

theorem read?_carriage {rest : Text} (alone : rest.head? ≠ some '\n') :
    read? ('\r' :: rest) = none := by
  cases rest with
  | nil => rfl
  | cons c rest =>
    have other : c ≠ '\n' := by simpa using alone
    have digit : ('\r' : Char).isDigit = false := rfl
    have word : startsWord '\r' = false := rfl
    have generic : read? ('\r' :: c :: rest) = readSymbol? ('\r' :: c :: rest) := by
      simp [read?, other, digit, word]
    rw [generic]
    rfl

/-- A character that begins no lexeme begins none in front of another text either, except that a
carriage return may belong to a line break. -/
theorem read?_eq_none {c : Char} {rest other : Text} (none : read? (c :: rest) = none)
    (carriage : c = '\r' → rest.head? = other.head?) : read? (c :: other) = Option.none := by
  by_cases first : c = '\r'
  · subst first
    refine read?_carriage fun feed => ?_
    obtain ⟨more, rfl⟩ := List.head?_eq_some_iff.1 ((carriage rfl).trans feed)
    simp [read?] at none
  · have line : c ≠ '\n' := by
      rintro rfl
      simp [read?] at none
    have quote : c ≠ '"' := by
      rintro rfl
      simp [read?] at none
    have slash : c ≠ '/' := by
      rintro rfl
      by_cases double : rest.head? = some '/'
      · obtain ⟨more, rfl⟩ := List.head?_eq_some_iff.1 double
        simp [read?] at none
      · rw [read?_of_symbol line first quote rfl rfl fun _ => double] at none
        have leads : Operator.leading? ('/' :: rest) = some .slash := rfl
        simp [readSymbol?, leads] at none
    rw [read?_of_plain line first slash quote] at none ⊢
    split at none
    · simp at none
    · rename_i digit
      split at none
      · simp at none
      · rename_i word
        rw [if_neg digit, if_neg word]
        exact readSymbol?_eq_none none other

end Lexeme

end MoSyntax
