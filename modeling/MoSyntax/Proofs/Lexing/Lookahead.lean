import MoSyntax.Proofs.Printing.Spelling

/-!
How far a lexeme looks. Whether a lexeme is read in front of some text is a matter of the first one
or two characters of that text, and of none of them if it is a blank or a line feed.
-/
namespace MoSyntax

/-- Nothing is there, or a character that is not of the class. -/
def Text.Stops (holds : Char → Bool) (rest : Text) : Prop := ∀ c ∈ rest.head?, holds c = false

theorem Text.stops_dropWhile (holds : Char → Bool) (text : Text) :
    Stops holds (text.dropWhile holds) := by
  intro c first
  have stops := List.head?_dropWhile_not holds text
  rw [Option.mem_def.1 first] at stops
  simpa using stops

theorem Text.Stops.run {holds : Char → Bool} {run rest : Text} (stops : Stops holds rest)
    (all : ∀ c ∈ run, holds c) :
    (run ++ rest).takeWhile holds = run ∧ (run ++ rest).dropWhile holds = rest := by
  rw [List.takeWhile_append_of_pos all, List.dropWhile_append_of_pos all]
  cases rest with
  | nil => simp
  | cons c rest => simp [stops c rfl]

/-- The end of a line, which no string and no comment reads over. -/
def LineEnd (rest : Text) : Prop := rest.Stops (!endsLine ·)

def endsUnits (c : Char) : Bool := c == '"' || endsLine c

/-- What the reader of units leaves: nothing, the end of the line or a quote. -/
def UnitsEnd (rest : Text) : Prop := rest.Stops (!endsUnits ·)

/-- The units that are read in front of a text. -/
inductive UnitsStand : List StringUnit → Text → Prop
  | none {rest} (ends : UnitsEnd rest) : UnitsStand [] rest
  | lone {rest} (ends : LineEnd rest) : UnitsStand [.loneBackslash] rest
  | plain {c units rest} (inside : c ≠ '\\' ∧ endsUnits c = false)
      (others : UnitsStand units rest) : UnitsStand (.plain c :: units) rest
  | escape {c units rest} (inside : endsLine c = false) (others : UnitsStand units rest) :
      UnitsStand (.escape c :: units) rest

theorem UnitsStand.imp {units : List StringUnit} {rest other : Text} (stand : UnitsStand units rest)
    (ends : UnitsEnd rest → UnitsEnd other) (line : LineEnd rest → LineEnd other) :
    UnitsStand units other := by
  induction stand with
  | none units => exact .none (ends units)
  | lone ended => exact .lone (line ended)
  | plain inside _ ih => exact .plain inside (ih ends line)
  | escape inside _ ih => exact .escape inside (ih ends line)

theorem unitsStand_readUnits (text : Text) : UnitsStand (readUnits text).1 (readUnits text).2 := by
  fun_induction readUnits text with
  | case1 => exact .none (by simp [UnitsEnd, Text.Stops])
  | case2 c text ends => exact .lone (by simpa [LineEnd, Text.Stops] using ends)
  | case3 c text inside units rest read ih =>
    rw [read] at ih
    exact .escape (by simpa using inside) ih
  | case4 => exact .lone (by simp [LineEnd, Text.Stops])
  | case5 c text _ _ ends =>
    have ended : endsUnits c = true := ends
    exact .none (by simpa [UnitsEnd, Text.Stops] using ended)
  | case6 c text quoted lone inside units rest read ih =>
    rw [read] at ih
    have other : c ≠ '\\' := by
      rintro rfl
      cases text with
      | nil => exact lone rfl rfl
      | cons d text => exact quoted d text rfl rfl
    exact .plain ⟨other, by simpa [endsUnits] using inside⟩ ih

theorem UnitsStand.ends {units : List StringUnit} {rest : Text} (stand : UnitsStand units rest) :
    UnitsEnd rest := by
  induction stand with
  | none ends => exact ends
  | lone ends =>
    intro c first
    have ended : endsLine c = true := by simpa using ends c first
    simp [endsUnits, ended]
  | plain _ _ ih => exact ih
  | escape _ _ ih => exact ih

theorem UnitsStand.line {units : List StringUnit} {rest : Text} (stand : UnitsStand units rest) :
    ∀ c ∈ StringUnit.textOf units, endsLine c = false := by
  induction stand with
  | none => exact List.forall_mem_nil _
  | lone => exact List.forall_mem_singleton.2 rfl
  | @plain c units rest inside _ ih =>
    have other : endsLine c = false := (Bool.or_eq_false_iff.1 inside.2).2
    exact List.forall_mem_append.2 ⟨List.forall_mem_singleton.2 other, ih⟩
  | escape inside _ ih =>
    exact List.forall_mem_append.2
      ⟨List.forall_mem_cons.2 ⟨rfl, List.forall_mem_singleton.2 inside⟩, ih⟩

theorem readUnits_of_plain {c : Char} (plain : c ≠ '\\') (text : Text) :
    readUnits (c :: text) =
      if endsUnits c then ([], c :: text)
      else (.plain c :: (readUnits text).1, (readUnits text).2) := by
  rw [readUnits.eq_4 _ _ (by simp_all) (by simp_all)]
  rfl

theorem UnitsStand.readUnits {units : List StringUnit} {rest : Text}
    (stand : UnitsStand units rest) :
    readUnits (StringUnit.textOf units ++ rest) = (units, rest) := by
  induction stand with
  | none ends =>
    rename_i rest
    cases rest with
    | nil => rfl
    | cons c rest =>
      have stops : endsUnits c = true := by simpa using ends c rfl
      have other : c ≠ '\\' := by
        rintro rfl
        exact absurd stops (by decide)
      show MoSyntax.readUnits (c :: rest) = _
      rw [readUnits_of_plain other, if_pos stops]
  | lone ends =>
    rename_i rest
    cases rest with
    | nil => rfl
    | cons c rest =>
      have stops : endsLine c = true := by simpa using ends c rfl
      simp [StringUnit.textOf, StringUnit.text, MoSyntax.readUnits, stops]
  | plain inside others ih =>
    obtain ⟨other, inside⟩ := inside
    rename_i c units rest
    simp only [StringUnit.textOf, List.flatMap_cons, StringUnit.text, List.cons_append,
      List.nil_append] at ih ⊢
    rw [readUnits_of_plain other, inside, ih]
    rfl
  | escape inside others ih =>
    simp only [StringUnit.textOf, List.flatMap_cons, StringUnit.text, List.cons_append,
      List.nil_append] at ih ⊢
    rw [MoSyntax.readUnits, inside, ih]
    rfl

namespace Operator

/-- The characters that make another lexeme of an operator. -/
def extendedBy : Operator → Char → Bool
  | less, c => c == '<' || c == '='
  | greater, c => c == '>' || c == '='
  | assign, c | bang, c => c == '='
  | slash, c => c == '/'
  | _, _ => false

theorem leading?_of_stops {sign : Operator} {rest : Text} (stops : rest.Stops sign.extendedBy) :
    leading? (sign.symbol ++ rest) = some sign := by
  cases rest with
  | nil => cases sign <;> rfl
  | cons c rest =>
    have last := stops c rfl
    cases sign
    case less | greater | assign | bang =>
      simp_all [leading?, all, symbol, extendedBy, List.isPrefixOf, @eq_comm _ _ c]
    all_goals rfl

/-- An operator that is read is not extended by what follows, unless that makes a comment. -/
theorem stops_of_leading? {sign : Operator} {rest : Text}
    (leads : leading? (sign.symbol ++ rest) = some sign)
    (plain : sign = .slash → rest.head? ≠ some '/') : rest.Stops sign.extendedBy := by
  intro c first
  obtain ⟨rest, rfl⟩ : ∃ more, rest = c :: more := List.head?_eq_some_iff.1 first
  rw [Bool.eq_false_iff]
  intro extended
  cases sign <;>
    simp only [extendedBy, Bool.false_eq_true, Bool.or_eq_true, beq_iff_eq] at extended
  case slash => exact plain rfl (extended ▸ rfl)
  case bang =>
    subst extended
    exact absurd (show some notEqual = some bang from leads) (by decide)
  case assign =>
    subst extended
    exact absurd (show some equal = some assign from leads) (by decide)
  case less =>
    rcases extended with rfl | rfl
    · exact absurd (show some shiftLeft = some less from leads) (by decide)
    · exact absurd (show some lessEqual = some less from leads) (by decide)
  case greater =>
    rcases extended with rfl | rfl
    · exact absurd (show some shiftRight = some greater from leads) (by decide)
    · exact absurd (show some greaterEqual = some greater from leads) (by decide)

theorem symbol_cons (sign : Operator) : ∃ c more, sign.symbol = c :: more := by
  cases sign <;> exact ⟨_, _, rfl⟩

/-- The first character of an operator is an operator too, except the colon. -/
theorem exists_short : ∀ sign ∈ all, sign = .declare ∨ ∃ short ∈ all,
    short.symbol = sign.symbol.take 1 := by
  decide

/-- Whether a character begins an operator does not depend on what follows it, unless it is a
colon. -/
theorem leading?_eq_none {c : Char} {rest : Text} (none : leading? (c :: rest) = none)
    {other : Text} (colon : c ≠ ':') : leading? (c :: other) = Option.none := by
  refine List.find?_eq_none.2 fun sign known leads => ?_
  obtain ⟨more, whole⟩ := List.isPrefixOf_iff_prefix.1 leads
  obtain ⟨d, tail, shape⟩ := sign.symbol_cons
  rw [shape] at whole
  obtain ⟨rfl, _⟩ := List.cons.inj whole
  rcases exists_short sign known with rfl | ⟨short, listed, symbol⟩
  · exact colon (List.cons.inj shape).1.symm
  · refine List.find?_eq_none.1 none short listed ?_
    simp [symbol, shape, List.isPrefixOf]

end Operator

/-- The characters that make another lexeme of a punctuation mark. -/
def Punctuation.extendedBy (mark : Punctuation) (c : Char) : Bool := mark == .colon && c == '='

namespace Lexeme

/-- The lexeme is what is read where it stands in front of a text. -/
inductive Stands : Lexeme → Text → Prop
  | feed {rest} : Stands (.lineBreak ['\n']) rest
  | carriage {rest} : Stands (.lineBreak ['\r', '\n']) rest
  | comment {body rest} (inside : ∀ c ∈ body, !endsLine c) (ends : LineEnd rest) :
      Stands (.comment ('/' :: '/' :: body)) rest
  | closed {units rest} (inside : UnitsStand units ('"' :: rest)) :
      Stands (.string true units) rest
  | unclosed {units rest} (inside : UnitsStand units rest) (ends : LineEnd rest) :
      Stands (.string false units) rest
  | word {c : Char} {body rest : Text} (starts : startsWord c) (inside : ∀ c ∈ body, continuesWord c)
      (ends : rest.Stops continuesWord) : Stands (.word (c :: body)) rest
  | whole {c : Char} {body rest : Text} (starts : c.isDigit) (inside : ∀ c ∈ body, continuesWord c)
      (ends : rest.Stops continuesWord)
      (unpointed : (∀ c ∈ body, continuesDigits c) → ∀ d more, rest = '.' :: d :: more →
        d.isDigit = false) : Stands (.number false (c :: body)) rest
  | fraction {c d : Char} {body part rest : Text} (starts : c.isDigit)
      (front : ∀ c ∈ body, continuesDigits c) (goesOn : d.isDigit)
      (back : ∀ c ∈ part, continuesWord c) (ends : rest.Stops continuesWord) :
      Stands (.number true (c :: body ++ '.' :: d :: part)) rest
  | operator {sign : Operator} {rest : Text} (ends : rest.Stops sign.extendedBy) :
      Stands (.operator sign) rest
  | punctuation {mark : Punctuation} {rest : Text} (ends : rest.Stops mark.extendedBy) :
      Stands (.punctuation mark) rest

theorem stands_readString (text : Text) : (readString text).1.Stands (readString text).2 := by
  have stand := unitsStand_readUnits text
  rw [readString]
  split
  · rename_i units rest read
    rw [read] at stand
    exact .closed stand
  · rename_i units rest unquoted read
    rw [read] at stand
    refine .unclosed stand fun c first => ?_
    have ends := stand.ends c first
    have other : c ≠ '"' := by
      rintro rfl
      obtain ⟨more, rfl⟩ := List.head?_eq_some_iff.1 first
      exact unquoted more rfl
    simpa [endsUnits, other] using ends

theorem continuesDigits_of_isDigit {c : Char} (digit : c.isDigit) : continuesDigits c := by
  simp [continuesDigits, digit]

theorem continuesWord_of_digits {c : Char} (digits : continuesDigits c) : continuesWord c := by
  rw [continuesDigits, Bool.or_eq_true] at digits
  rw [continuesWord, Char.isAlphanum, Bool.or_eq_true, Bool.or_eq_true]
  exact digits.imp_left .inr

theorem stops_point (rest : Text) : Text.Stops continuesDigits ('.' :: rest) := by
  rintro _ ⟨⟩
  rfl

theorem dropWhile_point {run : Text} (digits : ∀ c ∈ run, continuesDigits c) (rest : Text) :
    (run ++ '.' :: rest).dropWhile continuesDigits = '.' :: rest :=
  ((stops_point rest).run digits).2

theorem stands_readNumber {c : Char} (digit : c.isDigit) (text : Text) :
    (readNumber (c :: text)).1.Stands (readNumber (c :: text)).2 := by
  have starts := continuesDigits_of_isDigit digit
  have word := continuesWord_of_digits starts
  have run := List.all_eq_true.1 (List.all_takeWhile (p := continuesWord) (l := text))
  have ends := Text.stops_dropWhile continuesWord text
  rw [readNumber]
  split
  · rename_i d rest split
    simp only [List.takeWhile_cons, List.dropWhile_cons, starts, word, ↓reduceIte] at split ⊢
    split
    · rename_i goesOn
      exact .fraction digit (List.all_eq_true.1 List.all_takeWhile) goesOn
        (List.all_eq_true.1 List.all_takeWhile) (Text.stops_dropWhile continuesWord rest)
    · rename_i stays
      refine .whole digit run ends fun digits e more point => ?_
      have behind := dropWhile_point digits (e :: more)
      rw [← point, List.takeWhile_append_dropWhile, split, point] at behind
      obtain ⟨_, same⟩ := List.cons.inj behind
      obtain ⟨rfl, _⟩ := List.cons.inj same
      simpa using stays
  · rename_i unpointed
    simp only [List.takeWhile_cons, List.dropWhile_cons, starts, word, ↓reduceIte] at unpointed ⊢
    refine .whole digit run ends fun digits e more point => ?_
    have behind := dropWhile_point digits (e :: more)
    rw [← point, List.takeWhile_append_dropWhile, point] at behind
    exact absurd behind (unpointed e more)

theorem stands_of_read? {text rest : Text} {lexeme : Lexeme}
    (read : read? text = some (lexeme, rest)) : lexeme.Stands rest := by
  unfold read? at read
  split at read
  · obtain ⟨rfl, rfl⟩ := Prod.mk.inj (Option.some.inj read)
    exact .feed
  · obtain ⟨rfl, rfl⟩ := Prod.mk.inj (Option.some.inj read)
    exact .carriage
  · obtain ⟨rfl, rfl⟩ := Prod.mk.inj (Option.some.inj read)
    exact .comment (List.all_eq_true.1 List.all_takeWhile) (Text.stops_dropWhile _ _)
  · rename_i body
    have stands := stands_readString body
    rwa [Option.some.inj read] at stands
  · rename_i c tail _ _ single _
    split at read
    · rename_i digit
      have stands := stands_readNumber digit tail
      rwa [Option.some.inj read] at stands
    · split at read
      · rename_i starts
        obtain ⟨rfl, rfl⟩ := Prod.mk.inj (Option.some.inj read)
        exact .word starts (List.all_eq_true.1 List.all_takeWhile) (Text.stops_dropWhile _ _)
      · have whole := readSymbol?_append read
        rw [readSymbol?] at read
        split at read
        · rename_i sign leads
          obtain ⟨rfl, rest⟩ := Prod.mk.inj (Option.some.inj read)
          refine .operator (Operator.stops_of_leading? (whole ▸ leads) ?_)
          rintro rfl first
          obtain ⟨more, rfl⟩ := List.head?_eq_some_iff.1 first
          obtain ⟨rfl, rfl⟩ := List.cons.inj whole
          exact single more rfl rfl
        · rename_i none
          obtain ⟨mark, _, same⟩ := Option.map_eq_some_iff.1 read
          obtain ⟨rfl, rfl⟩ := Prod.mk.inj same
          obtain ⟨rfl, _⟩ := List.cons.inj whole
          refine .punctuation fun d first => ?_
          obtain ⟨more, rfl⟩ := List.head?_eq_some_iff.1 first
          rw [Bool.eq_false_iff]
          intro extended
          obtain ⟨rfl, rfl⟩ : mark = .colon ∧ d = '=' := by
            simpa [Punctuation.extendedBy] using extended
          have leads : Operator.leading? (':' :: '=' :: more) = some .declare := rfl
          exact absurd (leads.symm.trans none) (by simp)
  · simp at read

theorem readNumber_of_whole {text rest : Text} (inside : ∀ c ∈ text, continuesWord c)
    (ends : rest.Stops continuesWord)
    (unpointed : (∀ c ∈ text, continuesDigits c) → ∀ d more, rest = '.' :: d :: more →
      d.isDigit = false) : readNumber (text ++ rest) = (.number false text, rest) := by
  obtain ⟨run, behind⟩ := ends.run inside
  have plain : ∀ d more, (text ++ rest).dropWhile continuesDigits = '.' :: d :: more →
      d.isDigit = false := by
    intro d more point
    rw [List.dropWhile_append] at point
    split at point
    · rename_i none
      have run := List.takeWhile_append_dropWhile (p := continuesDigits) (l := text)
      rw [List.isEmpty_iff.1 none, List.append_nil] at run
      have digits : ∀ c ∈ text, continuesDigits c :=
        run ▸ List.all_eq_true.1 List.all_takeWhile
      have stops : rest.Stops continuesDigits := fun c first => Bool.eq_false_iff.2 fun digit =>
        absurd (continuesWord_of_digits digit) (Bool.eq_false_iff.1 (ends c first))
      have whole := (stops.run (List.forall_mem_nil (continuesDigits ·))).2
      rw [List.nil_append] at whole
      exact unpointed digits d more (whole ▸ point)
    · rename_i some
      cases left : text.dropWhile continuesDigits with
      | nil => simp [left] at some
      | cons first others =>
        obtain ⟨rfl, _⟩ := List.cons.inj (left ▸ point)
        have member : '.' ∈ text := (List.dropWhile_sublist _).subset (left ▸ List.mem_cons_self)
        exact absurd (inside '.' member) (by decide)
  rw [readNumber]
  split
  · rename_i d more point
    rw [if_neg (by simp [plain d more point]), run, behind]
  · rw [run, behind]

theorem readNumber_of_fraction {body part rest : Text} {d : Char}
    (front : ∀ c ∈ body, continuesDigits c) (goesOn : d.isDigit) (back : ∀ c ∈ part, continuesWord c)
    (ends : rest.Stops continuesWord) :
    readNumber (body ++ '.' :: d :: (part ++ rest)) =
      (.number true (body ++ '.' :: d :: part), rest) := by
  obtain ⟨run, behind⟩ := ends.run back
  obtain ⟨whole, _⟩ := (stops_point (d :: (part ++ rest))).run front
  rw [readNumber, dropWhile_point front, whole]
  simp [goesOn, run, behind]

theorem read?_of_symbol {c : Char} {rest : Text} (line : c ≠ '\n') (carriage : c ≠ '\r')
    (quote : c ≠ '"') (digit : c.isDigit = false) (word : startsWord c = false)
    (single : c = '/' → rest.head? ≠ some '/') : read? (c :: rest) = readSymbol? (c :: rest) := by
  by_cases slash : c = '/'
  · subst slash
    cases rest with
    | nil => rfl
    | cons d rest =>
      have other : d ≠ '/' := fun same => single rfl (same ▸ rfl)
      simp [read?, other, digit, word]
  · rw [read?_of_plain line carriage slash quote, digit, word]
    rfl

theorem read?_closed {units : List StringUnit} {rest : Text}
    (inside : UnitsStand units ('"' :: rest)) :
    read? ((Lexeme.string true units).text ++ rest) = some (.string true units, rest) := by
  have quoted : (Lexeme.string true units).text ++ rest =
      '"' :: (StringUnit.textOf units ++ '"' :: rest) := by simp [text]
  rw [quoted, read?, readString, inside.readUnits]
  rfl

theorem read?_unclosed {units : List StringUnit} {rest : Text} (inside : UnitsStand units rest)
    (ends : LineEnd rest) :
    read? ((Lexeme.string false units).text ++ rest) = some (.string false units, rest) := by
  have quoted : (Lexeme.string false units).text ++ rest =
      '"' :: (StringUnit.textOf units ++ rest) := by simp [text]
  rw [quoted, read?, readString, inside.readUnits]
  cases rest with
  | nil => rfl
  | cons c rest =>
    have other : c ≠ '"' := by
      rintro rfl
      exact absurd (ends _ rfl) (by decide)
    simp [other]

theorem read?_sign {sign : Operator} {rest : Text} (ends : rest.Stops sign.extendedBy) :
    read? (sign.symbol ++ rest) = some (.operator sign, rest) := by
  have leads := Operator.leading?_of_stops ends
  obtain ⟨c, more, shape⟩ := sign.symbol_cons
  have read : readSymbol? (sign.symbol ++ rest) = some (.operator sign, rest) := by
    simp [readSymbol?, leads]
  rw [← read, shape, List.cons_append]
  cases sign <;> obtain ⟨rfl, rfl⟩ := List.cons.inj shape <;>
    refine read?_of_symbol (by decide) (by decide) (by decide) rfl rfl ?_ <;> simp
  exact fun first => absurd (ends '/' first) (by decide)

theorem read?_mark {mark : Punctuation} {rest : Text} (ends : rest.Stops mark.extendedBy) :
    read? (mark.symbol :: rest) = some (.punctuation mark, rest) := by
  have none : Operator.leading? (mark.symbol :: rest) = none := by
    cases rest with
    | nil => cases mark <;> rfl
    | cons c rest =>
      have last := ends c rfl
      cases mark <;>
        simp_all [Operator.leading?, Operator.all, Operator.symbol, Punctuation.symbol,
          Punctuation.extendedBy, List.isPrefixOf, @eq_comm _ _ c]
  have found : Punctuation.ofChar? mark.symbol = some mark := by cases mark <;> rfl
  have read : readSymbol? (mark.symbol :: rest) = some (.punctuation mark, rest) := by
    simp [readSymbol?, none, found]
  rw [← read]
  cases mark <;>
    exact read?_of_symbol (by decide) (by decide) (by decide) rfl rfl fun same =>
      absurd same (by decide)

theorem Stands.read? {lexeme : Lexeme} {rest : Text} (stands : lexeme.Stands rest) :
    read? (lexeme.text ++ rest) = some (lexeme, rest) := by
  cases stands with
  | feed => rfl
  | carriage => rfl
  | comment inside ends =>
    obtain ⟨run, behind⟩ := Text.Stops.run ends inside
    simp only [text, List.cons_append, Lexeme.read?, run, behind]
  | closed inside => exact read?_closed inside
  | unclosed inside ends => exact read?_unclosed inside ends
  | word starts inside ends =>
    obtain ⟨run, behind⟩ := ends.run inside
    rw [text, List.cons_append, read?_of_plain (ne_of_class starts _ rfl) (ne_of_class starts _ rfl)
      (ne_of_class starts _ rfl) (ne_of_class starts _ rfl), not_isDigit_of_startsWord starts,
      if_neg Bool.false_ne_true, if_pos starts, run, behind]
  | whole starts inside ends unpointed =>
    have word := continuesWord_of_digits (continuesDigits_of_isDigit starts)
    rw [text, List.cons_append, read?_of_isDigit starts, ← List.cons_append,
      readNumber_of_whole (List.forall_mem_cons.2 ⟨word, inside⟩) ends
        fun digits => unpointed (List.forall_mem_cons.1 digits).2]
  | fraction starts front goesOn back ends =>
    have digit := continuesDigits_of_isDigit starts
    have read := readNumber_of_fraction (List.forall_mem_cons.2 ⟨digit, front⟩) goesOn back ends
    simp only [List.cons_append] at read
    simp only [text, List.cons_append, List.append_assoc]
    rw [read?_of_isDigit starts, read]
  | operator ends => exact read?_sign ends
  | punctuation ends => exact read?_mark ends

end Lexeme

end MoSyntax
