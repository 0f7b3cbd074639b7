import MoSyntax.Token.Lexeme

/-!
Nothing is lost or made up when a text is split: what is read first is the beginning of the text,
it is never empty, and so the pieces in order make up the text.
-/
namespace MoSyntax

theorem textOf_readUnits (text : Text) :
    StringUnit.textOf (readUnits text).1 ++ (readUnits text).2 = text := by
  fun_induction readUnits text with
  | case1 => rfl
  | case2 => rfl
  | case3 c text _ units rest read ih =>
    simpa [StringUnit.textOf, StringUnit.text, read] using ih
  | case4 => rfl
  | case5 => rfl
  | case6 c text _ _ _ units rest read ih =>
    simpa [StringUnit.textOf, StringUnit.text, read] using ih

namespace Operator

theorem leading?_append {text : Text} {sign : Operator} (found : leading? text = some sign) :
    sign.symbol ++ text.drop sign.symbol.length = text := by
  have begins := List.find?_some found
  obtain ⟨rest, rfl⟩ := List.isPrefixOf_iff_prefix.1 begins
  simp

end Operator

namespace Lexeme

theorem readNumber_append (text : Text) :
    (readNumber text).1.text ++ (readNumber text).2 = text := by
  unfold readNumber
  split
  · rename_i c rest split
    split
    · simp only [Lexeme.text, List.append_assoc, List.cons_append, List.takeWhile_append_dropWhile]
      rw [← split, List.takeWhile_append_dropWhile]
    · simp [Lexeme.text]
  · simp [Lexeme.text]

theorem readString_append (text : Text) :
    (readString text).1.text ++ (readString text).2 = '"' :: text := by
  have whole := textOf_readUnits text
  unfold readString
  split
  · rename_i units rest read
    simpa [Lexeme.text, read] using whole
  · rename_i units rest _ read
    simpa [Lexeme.text, read] using whole

theorem readSymbol?_append {text rest : Text} {lexeme : Lexeme}
    (read : readSymbol? text = some (lexeme, rest)) : lexeme.text ++ rest = text := by
  unfold readSymbol? at read
  split at read
  · rename_i sign found
    obtain ⟨rfl, rfl⟩ : Lexeme.operator sign = lexeme ∧ text.drop sign.symbol.length = rest := by
      simpa using read
    exact Operator.leading?_append found
  · cases text with
    | nil => simp at read
    | cons c tail =>
      obtain ⟨mark, found, same⟩ := Option.map_eq_some_iff.1 read
      obtain ⟨rfl, rfl⟩ := Prod.mk.inj same
      have symbol := List.find?_some found
      simp only [beq_iff_eq] at symbol
      simp [Lexeme.text, symbol]

theorem read?_append {text rest : Text} {lexeme : Lexeme}
    (read : read? text = some (lexeme, rest)) : lexeme.text ++ rest = text := by
  unfold read? at read
  split at read
  · obtain ⟨rfl, rfl⟩ := Prod.mk.inj (Option.some.inj read)
    rfl
  · obtain ⟨rfl, rfl⟩ := Prod.mk.inj (Option.some.inj read)
    rfl
  · obtain ⟨rfl, rfl⟩ := Prod.mk.inj (Option.some.inj read)
    simp [Lexeme.text]
  · rename_i body
    have whole := readString_append body
    rwa [Option.some.inj read] at whole
  · rename_i c tail _ _ _ _
    split at read
    · have whole := readNumber_append (c :: tail)
      rwa [Option.some.inj read] at whole
    · split at read
      · obtain ⟨rfl, rfl⟩ := Prod.mk.inj (Option.some.inj read)
        simp [Lexeme.text]
      · exact readSymbol?_append read
  · simp at read

theorem readNumber_ne_nil {c : Char} (digit : c.isDigit) (text : Text) :
    (readNumber (c :: text)).1.text ≠ [] := by
  have starts : continuesWord c := by simp [continuesWord, Char.isAlphanum, digit]
  unfold readNumber
  split
  · split
    · simp [Lexeme.text]
    · simp [Lexeme.text, starts]
  · simp [Lexeme.text, starts]

theorem readSymbol?_ne_nil {text rest : Text} {lexeme : Lexeme}
    (read : readSymbol? text = some (lexeme, rest)) : lexeme.text ≠ [] := by
  unfold readSymbol? at read
  split at read
  · rename_i sign _
    obtain ⟨rfl, _⟩ := Prod.mk.inj (Option.some.inj read)
    cases sign <;> simp [Lexeme.text, Operator.symbol]
  · cases text with
    | nil => simp at read
    | cons c tail =>
      obtain ⟨mark, _, same⟩ := Option.map_eq_some_iff.1 read
      obtain ⟨rfl, _⟩ := Prod.mk.inj same
      simp [Lexeme.text]

theorem read?_ne_nil {text rest : Text} {lexeme : Lexeme}
    (read : read? text = some (lexeme, rest)) : lexeme.text ≠ [] := by
  unfold read? at read
  split at read
  · obtain ⟨rfl, _⟩ := Prod.mk.inj (Option.some.inj read)
    simp [Lexeme.text]
  · obtain ⟨rfl, _⟩ := Prod.mk.inj (Option.some.inj read)
    simp [Lexeme.text]
  · obtain ⟨rfl, _⟩ := Prod.mk.inj (Option.some.inj read)
    simp [Lexeme.text]
  · rename_i body
    have same := Option.some.inj read
    unfold readString at same
    split at same <;>
      · obtain ⟨rfl, _⟩ := Prod.mk.inj same
        simp [Lexeme.text]
  · rename_i c tail _ _ _ _
    split at read
    · rename_i digit
      have starts := readNumber_ne_nil digit tail
      rwa [Option.some.inj read] at starts
    · split at read
      · obtain ⟨rfl, _⟩ := Prod.mk.inj (Option.some.inj read)
        simp [Lexeme.text]
      · exact readSymbol?_ne_nil read
  · simp at read

end Lexeme

namespace Piece

theorem read_append (c : Char) (text : Text) :
    (read c text).1.text ++ (read c text).2 = c :: text := by
  by_cases blank : isBlank c
  · simp [read, blank, Piece.text]
  · cases found : Lexeme.read? (c :: text) with
    | none => simp [read, blank, found, Piece.text]
    | some next => simpa [read, blank, found, Piece.text] using Lexeme.read?_append found

theorem read_ne_nil (c : Char) (text : Text) : (read c text).1.text ≠ [] := by
  by_cases blank : isBlank c
  · simp [read, blank, Piece.text]
  · cases found : Lexeme.read? (c :: text) with
    | none => simp [read, blank, found, Piece.text]
    | some next => simpa [read, blank, found, Piece.text] using Lexeme.read?_ne_nil found

theorem length_read_le (c : Char) (text : Text) : (read c text).2.length ≤ text.length := by
  have whole := congrArg List.length (read_append c text)
  have some := List.length_pos_iff.2 (read_ne_nil c text)
  simp only [List.length_append, List.length_cons] at whole
  omega

theorem splitUpTo_flatMap (count : Nat) (text : Text) (enough : text.length ≤ count) :
    (splitUpTo count text).flatMap Piece.text = text := by
  induction count generalizing text with
  | zero => simpa [splitUpTo] using enough
  | succ count ih =>
    cases text with
    | nil => simp [splitUpTo]
    | cons c rest =>
      have shorter := length_read_le c rest
      simp only [List.length_cons] at enough
      rw [splitUpTo, List.flatMap_cons, ih _ (by omega), read_append]

theorem split_flatMap (text : Text) : (split text).flatMap Piece.text = text :=
  splitUpTo_flatMap _ text (Nat.le_refl _)

end Piece

end MoSyntax
