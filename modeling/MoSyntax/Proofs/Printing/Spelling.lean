import MoSyntax.Proofs.Lexing.Layout
import MoSyntax.Tree.Operator

/-!
How tokens are written. One space separates them, but between an operator and the sign of a compound
assignment there is none. A legible token is read again from what it is written with.
-/
namespace MoSyntax

def quotedChar : Char → Text
  | '"' => ['\\', '"']
  | '\\' => ['\\', '\\']
  | '\r' => ['\\', 'r']
  | '\n' => ['\\', 'n']
  | c => [c]

namespace TokenKind

def text : TokenKind → Text
  | identifier name => name
  | number literal => literal.text
  | string value => '"' :: (value.flatMap quotedChar ++ ['"'])
  | keyword word => word.text
  | operator sign => sign.symbol
  | punctuation mark => [mark.symbol]
  | lineBreak => ['\n']
  | comment => ['/', '/']
  | endOfFile => []

/-- Whether two tokens are the operator and the sign of a compound assignment. -/
def compound : TokenKind → TokenKind → Bool
  | operator sign, operator .assign => (BinaryOperator.ofCompoundSign? sign).isSome
  | _, _ => false

def gap (kind next : TokenKind) : Text := if kind.compound next then [] else [' ']

end TokenKind

def spell : List TokenKind → Text
  | [] => []
  | [kind] => kind.text
  | kind :: next :: kinds => kind.text ++ (kind.gap next ++ spell (next :: kinds))

def legibleName : Text → Bool
  | [] => false
  | c :: rest => startsWord c && rest.all continuesWord && (Keyword.ofText? (c :: rest)).isNone

/-- Whole digits, or two runs of them with a point between. -/
def NumberLiteral.legible (literal : NumberLiteral) : Bool :=
  let valid (digits : Text) : Bool :=
    !digits.isEmpty && digits.all fun c => (literal.radix.digit? c).isSome
  if literal.fractional then
    literal.radix == .decimal && valid (literal.digits.takeWhile (· != '.')) &&
      valid ((literal.digits.dropWhile (· != '.')).drop 1)
  else valid literal.digits

def TokenKind.legible : TokenKind → Bool
  | identifier name => legibleName name
  | number literal => literal.legible
  | endOfFile | comment => false
  | _ => true

/-- What may follow a token directly: nothing, a space, or behind the operator of a compound
assignment its sign. -/
inductive Separated (kind : TokenKind) : Text → Prop
  | ended : Separated kind []
  | spaced {rest} : Separated kind (' ' :: rest)
  | joined {rest} (compound : kind.compound (.operator .assign)) : Separated kind ('=' :: rest)

theorem Separated.takeWhile {kind : TokenKind} {rest : Text} (separated : Separated kind rest)
    (holds : Char → Bool) (space : holds ' ' = false) (equals : holds '=' = false) :
    rest.takeWhile holds = [] ∧ rest.dropWhile holds = rest := by
  cases separated with
  | ended => simp
  | spaced => simp [space]
  | joined => simp [equals]

theorem Separated.run {kind : TokenKind} {rest : Text} (separated : Separated kind rest)
    {holds : Char → Bool} (space : holds ' ' = false) (equals : holds '=' = false) {run : Text}
    (all : ∀ c ∈ run, holds c) :
    (run ++ rest).takeWhile holds = run ∧ (run ++ rest).dropWhile holds = rest := by
  obtain ⟨none, whole⟩ := separated.takeWhile holds space equals
  rw [List.takeWhile_append_of_pos all, List.dropWhile_append_of_pos all, none, whole,
    List.append_nil]
  exact ⟨rfl, rfl⟩

theorem ne_of_class {α : Type} {holds : α → Bool} {x : α} (has : holds x) (other : α)
    (lacks : holds other = false) : x ≠ other := by
  rintro rfl
  simp [lacks] at has

theorem isAlpha_iff {c : Char} :
    c.isAlpha ↔ ('A' ≤ c ∧ c ≤ 'Z') ∨ ('a' ≤ c ∧ c ≤ 'z') := by
  show (decide ('A' ≤ c ∧ c ≤ 'Z') || (decide ('a' ≤ c) && decide (c ≤ 'z'))) = true ↔ _
  rw [Bool.or_eq_true, Bool.and_eq_true, decide_eq_true_eq, decide_eq_true_eq, decide_eq_true_eq]

theorem isDigit_iff {c : Char} : c.isDigit ↔ '0' ≤ c ∧ c ≤ '9' := by
  show (decide ('0' ≤ c) && decide (c ≤ '9')) = true ↔ _
  rw [Bool.and_eq_true, decide_eq_true_eq, decide_eq_true_eq]

namespace Radix

theorem digit?_isSome {radix : Radix} {c : Char} (some : (radix.digit? c).isSome) :
    ('0' ≤ c ∧ c ≤ '9') ∨ radix ≠ .decimal ∧ ('a' ≤ c ∧ c ≤ 'f' ∨ 'A' ≤ c ∧ c ≤ 'F') := by
  obtain ⟨value, answer⟩ := Option.isSome_iff_exists.1 some
  obtain ⟨found, bound⟩ := Option.filter_eq_some_iff.1 answer
  by_cases decimal : radix = .decimal
  · subst decimal
    have bound : value < 10 := of_decide_eq_true bound
    split at found
    · exact .inl ‹_›
    · split at found
      · obtain rfl := Option.some.inj found
        omega
      · split at found
        · obtain rfl := Option.some.inj found
          omega
        · simp at found
  · split at found
    · exact .inl ‹_›
    · split at found
      · exact .inr ⟨decimal, .inl ‹_›⟩
      · split at found
        · exact .inr ⟨decimal, .inr ‹_›⟩
        · simp at found

theorem continuesWord_of_digit? {radix : Radix} {c : Char} (some : (radix.digit? c).isSome) :
    continuesWord c := by
  have shown : c.isAlpha ∨ c.isDigit := by
    rw [isAlpha_iff, isDigit_iff]
    have range := digit?_isSome some
    simp only [Char.le_def] at range ⊢
    grind
  show (c.isAlpha || c.isDigit || c == '_') = true
  rw [Bool.or_eq_true, Bool.or_eq_true]
  exact .inl shown

theorem isDigit_of_digit? {c : Char} (some : (Radix.decimal.digit? c).isSome) : c.isDigit := by
  rw [isDigit_iff]
  simpa using digit?_isSome some

end Radix

namespace NumberLiteral

theorem splitRadix_marked {radix : Radix} (based : radix ≠ .decimal) (body : Text) :
    splitRadix (radix.marker ++ body) = (radix, body) := by
  cases radix with
  | decimal => exact absurd rfl based
  | binary | octal | hexadecimal => rfl

theorem splitRadix_unmarked {text : Text} (plain : ∀ c ∈ text, c ≠ 'x' ∧ c ≠ 'o' ∧ c ≠ 'b') :
    splitRadix text = (.decimal, text) := by
  unfold splitRadix
  split
  · exact absurd rfl (plain 'x' (by simp)).1
  · exact absurd rfl (plain 'o' (by simp)).2.1
  · exact absurd rfl (plain 'b' (by simp)).2.2
  · rfl

theorem splitRadix_append {radix : Radix} {digits : Text}
    (valid : ∀ c ∈ digits, (radix.digit? c).isSome ∨ radix = .decimal ∧ c = '.') :
    splitRadix (radix.marker ++ digits) = (radix, digits) := by
  by_cases based : radix = .decimal
  · subst based
    refine splitRadix_unmarked fun c member => ?_
    refine ⟨?_, ?_, ?_⟩ <;> rintro rfl <;> exact absurd (valid _ member) (by decide)
  · exact splitRadix_marked based digits

theorem read_of_split {text body : Text} {radix : Radix} (split : splitRadix text = (radix, body))
    (clean : stray? radix body = none) (some : body.filter (· != '_') ≠ []) :
    read text =
      .ok ⟨radix, radix == .decimal && body.contains '.', body.filter (· != '_')⟩ := by
  obtain ⟨c, digits, left⟩ := List.exists_cons_of_ne_nil some
  rw [read, split]
  simp only [clean, left]

theorem read_append {radix : Radix} {digits : Text} (some : digits ≠ [])
    (valid : ∀ c ∈ digits, (radix.digit? c).isSome ∨ radix = .decimal ∧ c = '.') :
    read (radix.marker ++ digits) =
      .ok ⟨radix, radix == .decimal && digits.contains '.', digits⟩ := by
  have clean : stray? radix digits = none := by
    refine List.find?_eq_none.2 fun c member => ?_
    rcases valid c member with digit | ⟨rfl, rfl⟩
    · simp [digit]
    · simp
  have shown : digits.filter (· != '_') = digits := by
    refine List.filter_eq_self.2 fun c member => ?_
    rcases valid c member with digit | ⟨_, rfl⟩
    · simp only [bne_iff_ne]
      rintro rfl
      have range := Radix.digit?_isSome digit
      rcases range with digit | ⟨_, letter | letter⟩
      · exact absurd digit (by decide)
      · exact absurd letter (by decide)
      · exact absurd letter (by decide)
    · rfl
  have left : digits.filter (· != '_') ≠ [] := by rwa [shown]
  rw [read_of_split (splitRadix_append valid) clean left, shown]

end NumberLiteral

theorem quotedChar_cases (c : Char) :
    (∃ d, quotedChar c = ['\\', d] ∧ endsLine d = false ∧ StringUnit.meaning? d = some c) ∨
      quotedChar c = [c] ∧ c ≠ '\\' ∧ c ≠ '"' ∧ endsLine c = false := by
  unfold quotedChar
  split
  · exact .inl ⟨'"', rfl, rfl, rfl⟩
  · exact .inl ⟨'\\', rfl, rfl, rfl⟩
  · exact .inl ⟨'r', rfl, rfl, rfl⟩
  · exact .inl ⟨'n', rfl, rfl, rfl⟩
  · rename_i quote backslash carriage line
    have inside : endsLine c = false := by
      simpa [endsLine] using And.intro (fun same => line same) (fun same => carriage same)
    exact .inr ⟨rfl, backslash, quote, inside⟩

theorem readUnits_quoted (value rest : Text) :
    ∃ units, readUnits (value.flatMap quotedChar ++ '"' :: rest) = (units, '"' :: rest) ∧
      StringUnit.valueOf units = value ∧ ∀ unit ∈ units, unit.bad? = none := by
  induction value with
  | nil => exact ⟨[], by simp [readUnits], rfl, by simp⟩
  | cons c value ih =>
    obtain ⟨units, read, same, good⟩ := ih
    rcases quotedChar_cases c with ⟨d, quoted, plain, meant⟩ | ⟨quoted, backslash, quote, plain⟩
    · refine ⟨.escape d :: units, ?_, ?_, ?_⟩
      · simp [quoted, readUnits, plain, read]
      · simpa [StringUnit.valueOf, StringUnit.value, meant] using same
      · simpa [StringUnit.bad?, meant] using good
    · refine ⟨.plain c :: units, ?_, ?_, ?_⟩
      · simp [quoted, readUnits, backslash, quote, plain, read]
      · simpa [StringUnit.valueOf, StringUnit.value, StringUnit.text] using same
      · simpa [StringUnit.bad?] using good

theorem Keyword.text_word (word : Keyword) :
    ∃ c rest, word.text = c :: rest ∧ startsWord c ∧ (∀ c ∈ rest, continuesWord c) ∧
      ofText? word.text = some word := by
  cases word <;> exact ⟨_, _, rfl, rfl, List.all_eq_true.1 rfl, rfl⟩

namespace Lexeme

theorem read?_of_plain {c : Char} (line : c ≠ '\n') (carriage : c ≠ '\r') (slash : c ≠ '/')
    (quote : c ≠ '"') (rest : Text) :
    read? (c :: rest) =
      if c.isDigit then some (readNumber (c :: rest))
      else if startsWord c then
        some (.word (c :: rest.takeWhile continuesWord), rest.dropWhile continuesWord)
      else readSymbol? (c :: rest) := by
  simp [read?, carriage, slash]

theorem not_isDigit_of_startsWord {c : Char} (starts : startsWord c) : c.isDigit = false := by
  rw [Bool.eq_false_iff]
  intro digit
  rw [startsWord, Bool.or_eq_true, beq_iff_eq, isAlpha_iff] at starts
  rcases starts with letter | rfl
  · rw [isDigit_iff] at digit
    simp only [Char.le_def] at letter digit
    grind
  · exact absurd digit (by decide)

theorem read?_word {kind : TokenKind} {c : Char} {word rest : Text} (starts : startsWord c)
    (continues : ∀ c ∈ word, continuesWord c) (separated : Separated kind rest) :
    read? (c :: (word ++ rest)) = some (.word (c :: word), rest) := by
  obtain ⟨same, behind⟩ := separated.run rfl rfl continues
  rw [read?_of_plain (ne_of_class starts _ rfl) (ne_of_class starts _ rfl)
    (ne_of_class starts _ rfl) (ne_of_class starts _ rfl), not_isDigit_of_startsWord starts,
    if_neg Bool.false_ne_true, if_pos starts, same, behind]

theorem read?_of_isDigit {c : Char} (digit : c.isDigit) (rest : Text) :
    read? (c :: rest) = some (readNumber (c :: rest)) := by
  rw [read?_of_plain (ne_of_class digit _ rfl) (ne_of_class digit _ rfl)
    (ne_of_class digit _ rfl) (ne_of_class digit _ rfl), if_pos digit]

theorem readNumber_whole {kind : TokenKind} {text rest : Text}
    (continues : ∀ c ∈ text, continuesWord c) (separated : Separated kind rest) :
    readNumber (text ++ rest) = (.number false text, rest) := by
  obtain ⟨same, behind⟩ := separated.run rfl rfl continues
  have noPoint : ∀ c more, (text ++ rest).dropWhile continuesDigits ≠ '.' :: c :: more := by
    intro c more point
    rw [List.dropWhile_append] at point
    split at point
    · obtain ⟨_, whole⟩ := separated.takeWhile continuesDigits rfl rfl
      rw [whole] at point
      subst point
      cases separated
    · rename_i some
      cases left : text.dropWhile continuesDigits with
      | nil => simp [left] at some
      | cons first others =>
        obtain ⟨rfl, _⟩ := List.cons.inj (left ▸ point)
        have member : '.' ∈ text := (List.dropWhile_sublist _).subset (left ▸ List.mem_cons_self)
        exact absurd (continues '.' member) (by decide)
  rw [readNumber]
  split
  · rename_i c more point
    exact absurd point (noPoint c more)
  · rw [same, behind]

theorem readNumber_fraction {kind : TokenKind} {whole part rest : Text} {c : Char}
    (front : ∀ c ∈ whole, continuesDigits c) (digit : c.isDigit) (back : ∀ c ∈ part, continuesWord c)
    (separated : Separated kind rest) :
    readNumber (whole ++ '.' :: c :: (part ++ rest)) =
      (.number true (whole ++ '.' :: c :: part), rest) := by
  obtain ⟨same, behind⟩ := separated.run rfl rfl back
  have point : continuesDigits '.' = false := rfl
  rw [readNumber, List.takeWhile_append_of_pos front, List.dropWhile_append_of_pos front,
    List.takeWhile_cons, List.dropWhile_cons, point]
  simp [digit, same, behind]

theorem read?_operator (sign : Operator) {rest : Text}
    (separated : Separated (.operator sign) rest) :
    read? (sign.symbol ++ rest) = some (.operator sign, rest) := by
  cases separated with
  | ended => cases sign <;> rfl
  | spaced => cases sign <;> rfl
  | joined compound => cases sign <;> first | rfl | exact absurd compound (by decide)

theorem read?_punctuation (mark : Punctuation) {rest : Text}
    (separated : Separated (.punctuation mark) rest) :
    read? (mark.symbol :: rest) = some (.punctuation mark, rest) := by
  cases separated with
  | ended => cases mark <;> rfl
  | spaced => cases mark <;> rfl
  | joined compound => simp [TokenKind.compound] at compound

theorem read?_whole {radix : Radix} {digits rest : Text}
    (legible : (NumberLiteral.mk radix false digits).legible)
    (separated : Separated (.number ⟨radix, false, digits⟩) rest) :
    read? (radix.marker ++ digits ++ rest) = some (.number false (radix.marker ++ digits), rest) ∧
      NumberLiteral.read (radix.marker ++ digits) = .ok ⟨radix, false, digits⟩ := by
  simp only [NumberLiteral.legible, Bool.false_eq_true, ↓reduceIte, Bool.and_eq_true,
    Bool.not_eq_true', List.isEmpty_eq_false_iff, List.all_eq_true] at legible
  obtain ⟨some, valid⟩ := legible
  have continues := fun c member => Radix.continuesWord_of_digit? (valid c member)
  have noPoint : digits.contains '.' = false := by
    rw [Bool.eq_false_iff, ne_eq, List.contains_iff_mem]
    exact fun member => absurd (continues '.' member) (by decide)
  obtain ⟨c, more, text, digit, all⟩ : ∃ c more, radix.marker ++ digits = c :: more ∧ c.isDigit ∧
      ∀ c ∈ radix.marker ++ digits, continuesWord c := by
    cases radix with
    | decimal =>
      obtain ⟨c, more, rfl⟩ := List.exists_cons_of_ne_nil some
      exact ⟨c, more, rfl, Radix.isDigit_of_digit? (valid c List.mem_cons_self), continues⟩
    | binary => exact ⟨'0', _, rfl, rfl, by simpa [Radix.marker, continuesWord] using continues⟩
    | octal => exact ⟨'0', _, rfl, rfl, by simpa [Radix.marker, continuesWord] using continues⟩
    | hexadecimal => exact ⟨'0', _, rfl, rfl, by simpa [Radix.marker, continuesWord] using continues⟩
  refine ⟨?_, ?_⟩
  · have whole := readNumber_whole all separated
    rw [text] at whole ⊢
    rw [List.cons_append] at whole ⊢
    rw [read?_of_isDigit digit, whole]
  · rw [NumberLiteral.read_append some fun c member => .inl (valid c member), noPoint, Bool.and_false]

theorem read?_fraction {radix : Radix} {digits rest : Text}
    (legible : (NumberLiteral.mk radix true digits).legible)
    (separated : Separated (.number ⟨radix, true, digits⟩) rest) :
    read? (radix.marker ++ digits ++ rest) = some (.number true (radix.marker ++ digits), rest) ∧
      NumberLiteral.read (radix.marker ++ digits) = .ok ⟨radix, true, digits⟩ := by
  simp only [NumberLiteral.legible, ↓reduceIte, Bool.and_eq_true, Bool.not_eq_true', beq_iff_eq,
    List.isEmpty_eq_false_iff, List.all_eq_true] at legible
  obtain ⟨⟨rfl, some, front⟩, more, back⟩ := legible
  obtain ⟨whole, c, part, rfl, first, left, digit, right⟩ : ∃ whole c part,
      digits = whole ++ '.' :: c :: part ∧ whole ≠ [] ∧
        (∀ c ∈ whole, (Radix.decimal.digit? c).isSome) ∧ (Radix.decimal.digit? c).isSome ∧
          ∀ c ∈ part, (Radix.decimal.digit? c).isSome := by
    have joined := List.takeWhile_append_dropWhile (p := (· != '.')) (l := digits)
    have stops := List.head?_dropWhile_not (· != '.') digits
    cases behind : digits.dropWhile (· != '.') with
    | nil => simp [behind] at more
    | cons point part =>
      rw [behind] at more back joined stops
      obtain ⟨c, part, rfl⟩ := List.exists_cons_of_ne_nil more
      obtain rfl : point = '.' := by simpa using stops
      exact ⟨_, c, part, joined.symm, some, front, back c List.mem_cons_self,
        fun d member => back d (List.mem_cons_of_mem _ member)⟩
  refine ⟨?_, ?_⟩
  · have word := fun d member => Radix.continuesWord_of_digit? (right d member)
    have run : ∀ d ∈ whole, continuesDigits d := fun d member => by
      simp [continuesDigits, Radix.isDigit_of_digit? (left d member)]
    have read := readNumber_fraction run (Radix.isDigit_of_digit? digit) word separated
    obtain ⟨d, others, rfl⟩ := List.exists_cons_of_ne_nil first
    have start := Radix.isDigit_of_digit? (left d List.mem_cons_self)
    rw [Radix.marker, List.nil_append, List.append_assoc, List.cons_append, List.cons_append,
      List.cons_append, List.cons_append, read?_of_isDigit start, ← List.cons_append, read]
    rfl
  · have valid : ∀ d ∈ whole ++ '.' :: c :: part, (Radix.decimal.digit? d).isSome ∨
        Radix.decimal = .decimal ∧ d = '.' := by
      simp only [List.forall_mem_append, List.forall_mem_cons]
      exact ⟨fun d member => .inl (left d member), .inr (by simp), .inl digit,
        fun d member => .inl (right d member)⟩
    rw [NumberLiteral.read_append (by simp) valid]
    simp

/-- Nothing is wrong with the lexeme, wherever it stands. -/
def Flawless (lexeme : Lexeme) : Prop :=
  ∀ start, PlacedPiece.reports ⟨start, .lexeme lexeme⟩ = []

theorem read?_number {literal : NumberLiteral} (legible : literal.legible) {rest : Text}
    (separated : Separated (.number literal) rest) :
    ∃ lexeme, read? (literal.text ++ rest) = some (lexeme, rest) ∧
      lexeme.kind = .number literal ∧ Flawless lexeme := by
  obtain ⟨radix, fractional, digits⟩ := literal
  cases fractional with
  | false =>
    obtain ⟨read, means⟩ := read?_whole legible separated
    exact ⟨_, read, by rw [kind, numberOf, means], fun _ => by simp [PlacedPiece.reports, means]⟩
  | true =>
    obtain ⟨read, means⟩ := read?_fraction legible separated
    exact ⟨_, read, by rw [kind, numberOf, means], fun _ => by simp [PlacedPiece.reports, means]⟩

theorem badEscapes_eq_nil {units : List StringUnit} (good : ∀ unit ∈ units, unit.bad? = none)
    (start : Nat) : StringUnit.badEscapes start units = [] := by
  induction units generalizing start with
  | nil => rfl
  | cons unit units ih =>
    obtain ⟨first, others⟩ := List.forall_mem_cons.1 good
    simp [StringUnit.badEscapes, first, ih others]

theorem read?_string (value rest : Text) :
    ∃ lexeme, read? ((TokenKind.string value).text ++ rest) = some (lexeme, rest) ∧
      lexeme.kind = .string value ∧ Flawless lexeme := by
  obtain ⟨units, read, same, good⟩ := readUnits_quoted value rest
  refine ⟨.string true units, ?_, by rw [kind, same], fun start => ?_⟩
  · have opened : (TokenKind.string value).text ++ rest =
        '"' :: (value.flatMap quotedChar ++ '"' :: rest) := by simp [TokenKind.text]
    rw [opened, read?, readString, read]
    rfl
  · simp [PlacedPiece.reports, badEscapes_eq_nil good]

/-- A legible token is read from its text, wherever it is separated from what follows. -/
theorem read?_text {kind : TokenKind} (legible : kind.legible) {rest : Text}
    (separated : Separated kind rest) :
    ∃ lexeme, read? (kind.text ++ rest) = some (lexeme, rest) ∧ lexeme.kind = kind ∧
      Flawless lexeme := by
  cases kind with
  | endOfFile | comment => simp [TokenKind.legible] at legible
  | identifier name =>
    cases name with
    | nil => simp [TokenKind.legible, legibleName] at legible
    | cons c name =>
      simp only [TokenKind.legible, legibleName, Bool.and_eq_true, List.all_eq_true] at legible
      obtain ⟨⟨starts, continues⟩, free⟩ := legible
      refine ⟨_, read?_word starts continues separated, ?_, fun _ => rfl⟩
      rw [Lexeme.kind, Option.isNone_iff_eq_none.1 free]
  | number literal => exact read?_number legible separated
  | string value => exact read?_string value rest
  | keyword word =>
    obtain ⟨c, more, text, starts, continues, found⟩ := word.text_word
    refine ⟨.word word.text, ?_, by rw [Lexeme.kind, found], fun _ => rfl⟩
    rw [TokenKind.text, text]
    exact read?_word starts continues separated
  | operator sign => exact ⟨_, read?_operator sign separated, rfl, fun _ => rfl⟩
  | punctuation mark => exact ⟨_, read?_punctuation mark separated, rfl, fun _ => rfl⟩
  | lineBreak => exact ⟨.lineBreak ['\n'], rfl, rfl, fun _ => rfl⟩

end Lexeme

end MoSyntax
