import MoSyntax.Proofs.Lexing.Lines

/-!
String literals. A value that is written between quotes, with its quotes, backslashes and ends of
lines escaped, is read back as the only token of its text; tabs, NUL and single quotes may be escaped
or stand for themselves, each time anew.
-/
namespace MoSyntax

/-- A character as it is written in a string. Some have an escape that they may go without. -/
def writtenChar : Bool → Char → Text
  | true, '\t' => ['\\', 't']
  | true, '\x00' => ['\\', '0']
  | true, '\'' => ['\\', '\'']
  | _, c => quotedChar c

/-- A value as it is written in a string, with the places of the characters that are escaped although
they need not be. -/
def writtenValue (chosen : Nat → Bool) (value : Text) : Text :=
  (value.mapIdx fun place c => writtenChar (chosen place) c).flatten

def stringLiteral (chosen : Nat → Bool) (value : Text) : Text :=
  '"' :: (writtenValue chosen value ++ ['"'])

theorem writtenValue_cons (chosen : Nat → Bool) (c : Char) (value : Text) :
    writtenValue chosen (c :: value) =
      writtenChar (chosen 0) c ++ writtenValue (fun place => chosen (place + 1)) value := by
  rw [writtenValue, List.mapIdx_cons, List.flatten_cons]
  rfl

theorem writtenChar_cases (choice : Bool) (c : Char) :
    (∃ d, writtenChar choice c = ['\\', d] ∧ endsLine d = false ∧
        StringUnit.meaning? d = some c) ∨
      writtenChar choice c = [c] ∧ c ≠ '\\' ∧ endsUnits c = false := by
  unfold writtenChar
  split
  · exact .inl ⟨'t', rfl, rfl, rfl⟩
  · exact .inl ⟨'0', rfl, rfl, rfl⟩
  · exact .inl ⟨'\'', rfl, rfl, rfl⟩
  · rcases quotedChar_cases c with escaped | ⟨plain, backslash, quote, inside⟩
    · exact .inl escaped
    · exact .inr ⟨plain, backslash, by simp [endsUnits, quote, inside]⟩

theorem writtenValue_units (chosen : Nat → Bool) (value rest : Text) :
    ∃ units, StringUnit.textOf units = writtenValue chosen value ∧
      StringUnit.valueOf units = value ∧ (∀ unit ∈ units, unit.bad? = none) ∧
      UnitsStand units ('"' :: rest) := by
  induction value generalizing chosen with
  | nil =>
    have ends : UnitsEnd ('"' :: rest) := by
      rintro _ ⟨⟩
      rfl
    exact ⟨[], rfl, rfl, by simp, .none ends⟩
  | cons c value ih =>
    obtain ⟨units, text, same, good, stand⟩ := ih fun place => chosen (place + 1)
    rw [writtenValue_cons, ← text]
    rcases writtenChar_cases (chosen 0) c with ⟨d, written, inside, meant⟩ | ⟨written, inside⟩
    · refine ⟨.escape d :: units, ?_, ?_, ?_, .escape inside stand⟩
      · rw [written]
        rfl
      · simpa [StringUnit.valueOf, StringUnit.value, meant] using same
      · simpa [StringUnit.bad?, meant] using good
    · refine ⟨.plain c :: units, ?_, ?_, ?_, .plain inside stand⟩
      · rw [written]
        rfl
      · simpa [StringUnit.valueOf, StringUnit.value, StringUnit.text] using same
      · simpa [StringUnit.bad?] using good

/-- A literal is read as one string with the value, and nothing is wrong with it. -/
theorem stringLiteral_lexeme (chosen : Nat → Bool) (value : Text) :
    ∃ lexeme : Lexeme, lexeme.text = stringLiteral chosen value ∧ lexeme.Stands [] ∧
      lexeme.kind = .string value ∧ lexeme.Flawless ∧ '\n' ∉ lexeme.text := by
  obtain ⟨units, text, same, good, stand⟩ := writtenValue_units chosen value []
  refine ⟨.string true units, ?_, .closed stand, ?_, fun start => ?_, fun feed => ?_⟩
  · rw [Lexeme.text, text]
    rfl
  · rw [Lexeme.kind, same]
  · simp [PlacedPiece.reports, Lexeme.badEscapes_eq_nil good]
  · have inside : '\n' ∈ StringUnit.textOf units := by simpa [Lexeme.text] using feed
    exact absurd (stand.line '\n' inside) (by decide)

/-- String literals are read back: the text of a value between quotes is one string token with the
value, over the whole text, and there is no diagnostic. -/
theorem Lexed.ofText_stringLiteral (chosen : Nat → Bool) (value : Text) :
    (ofText (stringLiteral chosen value)).tokens =
        [⟨.string value, stringLiteral chosen value,
            ⟨0, Text.byteSize (stringLiteral chosen value)⟩, ⟨1, 1⟩⟩,
          .endOfFile (Text.byteSize (stringLiteral chosen value))
            ⟨1, (stringLiteral chosen value).length + 1⟩] ∧
      diagnostics (stringLiteral chosen value) = [] := by
  obtain ⟨lexeme, text, stands, kind, flawless, line⟩ := stringLiteral_lexeme chosen value
  rw [← text]
  have start := LineTable.position_behind [] lexeme.text
  have stop := LineTable.position_of_line line []
  have tokens := tokensFrom_lexeme stands (.ofText lexeme.text) 0
  rw [List.nil_append] at start
  rw [List.append_nil] at stop tokens
  refine ⟨?_, ?_⟩
  · rw [ofText_tokens, stop, show written lexeme.text = _ from tokens, kind,
      show (LineTable.ofText lexeme.text).position 0 = _ from start, Nat.zero_add]
    rfl
  · obtain ⟨c, more, whole, read⟩ := Piece.read_of_stands stands
    rw [List.append_nil] at whole
    rw [diagnostics_eq, whole, reportsFrom_cons, read, flawless]
    rfl

end MoSyntax
