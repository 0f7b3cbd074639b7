import Mathlib.Data.Nat.Digits.Defs
import MoSyntax.Proofs.Lexing.Lookahead

/-!
The patterns that numbers are written by. Digits may have a point among them, or stand behind the
marker of their base, and underscores may stand between them. What matches a pattern is read as the
pattern says; and of what begins like a number nothing else is read.
-/
namespace MoSyntax

/-- The ways to write a number. -/
inductive NumberForm where
  | whole
  | fraction
  | marked (radix : Radix) (based : radix ≠ .decimal)

namespace Radix

/-- The characters that write the digits of a base. -/
def figures : Radix → Text
  | binary => "01".toList
  | octal => "01234567".toList
  | decimal => "0123456789".toList
  | hexadecimal => "0123456789abcdefABCDEF".toList

/-- What a digit counts. -/
def figureValue (c : Char) : Nat := "0123456789abcdef".toList.idxOf c.toLower

/-- The number that digits write, the last of them counting once. -/
def positional (radix : Radix) (digits : Text) : Nat :=
  Nat.ofDigits radix.base (digits.reverse.map figureValue)

end Radix

namespace NumberForm

def radix : NumberForm → Radix
  | whole | fraction => .decimal
  | marked radix _ => radix

def fractional : NumberForm → Bool
  | fraction => true
  | whole | marked _ _ => false

/-- A digit, and then digits and underscores. -/
def Run (text : Text) : Prop :=
  ∃ c rest, text = c :: rest ∧ c ∈ Radix.decimal.figures ∧
    ∀ d ∈ rest, d ∈ Radix.decimal.figures ∨ d = '_'

/-- The text is written by the pattern. -/
def Matches : NumberForm → Text → Prop
  | whole, text => Run text
  | fraction, text => ∃ front back, text = front ++ '.' :: back ∧ Run front ∧ Run back
  | marked radix _, text => ∃ body, text = radix.marker ++ body ∧ body ≠ [] ∧
    ∀ c ∈ body, c ∈ radix.figures ∨ c = '_'

/-- What stands behind the marker, without the underscores. -/
def digits (form : NumberForm) (text : Text) : Text :=
  (text.drop form.radix.marker.length).filter (· != '_')

/-- What is read of a text that is written by the pattern. -/
def literal (form : NumberForm) (text : Text) : NumberLiteral :=
  ⟨form.radix, form.fractional,
    if form.digits text = [] then ['0'] else form.digits text⟩

end NumberForm

/-! Digits. -/

/-- What holds of the first 128 characters, which can be tried, holds of each of them. -/
@[elab_as_elim]
theorem forall_ascii {holds : Char → Prop} {c : Char} (ascii : c.toNat < 128)
    (tried : ∀ code < 128, holds (Char.ofNat code)) : holds c :=
  Char.ofNat_toNat c ▸ tried _ ascii

namespace Radix

theorem ascii_of_mem_figures {radix : Radix} {c : Char} (member : c ∈ radix.figures) :
    c.toNat < 128 := by
  have each : radix.figures.all (·.toNat < 128) := by cases radix <;> decide
  simpa using List.all_eq_true.1 each c member

theorem ascii_of_le {c last : Char} (least : c ≤ last) (ascii : last.toNat < 128) : c.toNat < 128 :=
  Nat.lt_of_le_of_lt (UInt32.le_iff_toNat_le.1 (Char.le_def.1 least)) ascii

theorem ascii_of_digit? {radix : Radix} {c : Char} (some : (radix.digit? c).isSome) :
    c.toNat < 128 := by
  rcases digit?_isSome some with ⟨_, digit⟩ | ⟨_, ⟨_, small⟩ | ⟨_, large⟩⟩
  · exact ascii_of_le digit (by decide)
  · exact ascii_of_le small (by decide)
  · exact ascii_of_le large (by decide)

theorem digit?_eq (radix : Radix) (c : Char) :
    radix.digit? c = if c ∈ radix.figures then some (figureValue c) else none := by
  -- no other character is a digit, neither on the left nor on the right
  by_cases ascii : c.toNat < 128
  · refine forall_ascii ascii ?_
    cases radix <;> decide +kernel
  · rw [if_neg fun member => ascii (ascii_of_mem_figures member), ← Option.not_isSome_iff_eq_none]
    exact fun some => ascii (ascii_of_digit? some)

theorem digit?_isSome_iff {radix : Radix} {c : Char} :
    (radix.digit? c).isSome ↔ c ∈ radix.figures := by
  rw [digit?_eq]
  split <;> simp_all

theorem isDigit_iff_mem {c : Char} : c.isDigit ↔ c ∈ decimal.figures := by
  by_cases ascii : c.toNat < 128
  · refine forall_ascii ascii ?_
    decide +kernel
  · refine iff_of_false (fun digit => ?_) fun member => ascii (ascii_of_mem_figures member)
    exact ascii (ascii_of_le (isDigit_iff.1 digit).2 (by decide))

theorem ne_of_mem_figures {radix : Radix} {c : Char} (member : c ∈ radix.figures) :
    c ≠ '_' ∧ c ≠ '.' := by
  have each : radix.figures.all fun c => c ≠ '_' ∧ c ≠ '.' := by cases radix <;> decide
  simpa using List.all_eq_true.1 each c member

theorem digitsValue?_eq {radix : Radix} {digits : Text} (valid : ∀ c ∈ digits, c ∈ radix.figures) :
    NumberLiteral.digitsValue? radix digits = some (radix.positional digits) := by
  -- the fold adds digits at the end, and `Nat.ofDigits` at the front of the reversed list
  rw [← List.reverse_reverse digits] at valid ⊢
  generalize digits.reverse = figures at valid ⊢
  induction figures with
  | nil => rfl
  | cons c figures ih =>
    rw [List.reverse_cons] at valid ⊢
    obtain ⟨front, last⟩ := List.forall_mem_append.1 valid
    have digit : radix.digit? c = some (figureValue c) := by
      rw [digit?_eq, if_pos (last c List.mem_cons_self)]
    have before := ih front
    rw [NumberLiteral.digitsValue?] at before ⊢
    rw [List.foldl_append, before, List.foldl_cons, List.foldl_nil, digit]
    simp [positional, Nat.ofDigits_cons, Nat.add_comm, Nat.mul_comm]

end Radix

namespace NumberLiteral

theorem splitRadix_append_body (text : Text) :
    (splitRadix text).1.marker ++ (splitRadix text).2 = text := by
  unfold splitRadix
  split <;> rfl

theorem stray?_eq_none_iff {radix : Radix} {body : Text} :
    stray? radix body = none ↔
      ∀ c ∈ body, c ∈ radix.figures ∨ c = '_' ∨ radix = .decimal ∧ c = '.' := by
  rw [stray?, List.find?_eq_none]
  refine forall₂_congr fun c _ => ?_
  rw [← Radix.digit?_isSome_iff]
  simp only [Bool.not_eq_true, Bool.not_eq_false', Bool.or_eq_true, Bool.and_eq_true, beq_iff_eq]
  tauto

theorem splitRadix_decimal {text : Text}
    (clean : ∀ c ∈ text, c ∈ Radix.decimal.figures ∨ c = '_' ∨ c = '.') :
    splitRadix text = (.decimal, text) := by
  refine splitRadix_unmarked fun c member => ?_
  refine ⟨?_, ?_, ?_⟩ <;> rintro rfl <;> exact absurd (clean _ member) (by decide)

theorem read_decimal {text : Text}
    (clean : ∀ c ∈ text, c ∈ Radix.decimal.figures ∨ c = '_' ∨ c = '.')
    (some : text.filter (· != '_') ≠ []) :
    read text = .ok ⟨.decimal, text.contains '.', text.filter (· != '_')⟩ := by
  have stray : stray? .decimal text = none := stray?_eq_none_iff.2 (by simpa using clean)
  exact read_of_split (splitRadix_decimal clean) stray some

theorem read_marked {radix : Radix} (based : radix ≠ .decimal) {body : Text} (some : body ≠ [])
    (clean : ∀ c ∈ body, c ∈ radix.figures ∨ c = '_') :
    read (radix.marker ++ body) = .ok ⟨radix, false,
      if body.filter (· != '_') = [] then ['0'] else body.filter (· != '_')⟩ := by
  have stray : stray? radix body = none :=
    stray?_eq_none_iff.2 fun c member => (clean c member).imp_right .inl
  have other : (radix == .decimal) = false := by simpa using based
  by_cases none : body.filter (· != '_') = []
  · rw [read, splitRadix_marked based]
    simp [stray, other, none, some]
  · rw [read_of_split (splitRadix_marked based body) stray none, other, if_neg none]
    rfl

theorem wholeValue?_eq {radix : Radix} {digits : Text} (some : digits ≠ [])
    (valid : ∀ c ∈ digits, c ∈ radix.figures) :
    wholeValue? radix digits = Option.some (radix.positional digits) := by
  unfold wholeValue?
  split
  · have plus : '+' ∉ radix.figures := by cases radix <;> decide
    exact absurd (valid '+' List.mem_cons_self) plus
  · rw [if_neg (by simpa using some), Radix.digitsValue?_eq valid]

theorem clean_of_read {text : Text} {literal : NumberLiteral} (read : read text = .ok literal) :
    (∀ c ∈ (splitRadix text).2, c ∈ (splitRadix text).1.figures ∨ c = '_' ∨
        (splitRadix text).1 = .decimal ∧ c = '.') ∧
      ((splitRadix text).1 ≠ .decimal → (splitRadix text).2 ≠ []) := by
  unfold NumberLiteral.read at read
  split at read
  rename_i radix body split
  rw [split]
  split at read
  · cases read
  · rename_i clean
    refine ⟨stray?_eq_none_iff.1 clean, ?_⟩
    rintro based rfl
    simp at read

end NumberLiteral

namespace NumberForm

variable {form : NumberForm} {text : Text}

namespace Run

theorem clean (run : Run text) : ∀ c ∈ text, c ∈ Radix.decimal.figures ∨ c = '_' := by
  obtain ⟨c, rest, rfl, first, others⟩ := run
  exact List.forall_mem_cons.2 ⟨.inl first, others⟩

theorem not_mem_point (run : Run text) : '.' ∉ text :=
  fun member => absurd (run.clean '.' member) (by decide)

theorem left (run : Run text) : text.filter (· != '_') ≠ [] ∧
    ∀ c ∈ text.filter (· != '_'), c ∈ Radix.decimal.figures := by
  refine ⟨?_, fun c member => ?_⟩
  · obtain ⟨c, rest, rfl, first, _⟩ := run
    have kept : (c != '_') = true := by simpa using (Radix.ne_of_mem_figures first).1
    exact List.ne_nil_of_mem (List.mem_filter.2 ⟨List.mem_cons_self, kept⟩)
  · obtain ⟨among, shown⟩ := List.mem_filter.1 member
    exact (run.clean c among).resolve_right (by simpa using shown)

end Run

theorem digits_fraction (front back : Text) :
    fraction.digits (front ++ '.' :: back) =
      front.filter (· != '_') ++ '.' :: back.filter (· != '_') := by
  show (front ++ '.' :: back).filter (· != '_') = _
  rw [List.filter_append]
  rfl

theorem digits_fraction_ne_nil (front back : Text) : fraction.digits (front ++ '.' :: back) ≠ [] := by
  simp [digits_fraction]

theorem literal_of_digits (some : form.digits text ≠ []) :
    form.literal text = ⟨form.radix, form.fractional, form.digits text⟩ := by
  rw [literal, if_neg some]

/-- A text that is written by a pattern is read as the pattern says. -/
theorem Matches.read (matching : form.Matches text) :
    NumberLiteral.read text = .ok (form.literal text) := by
  cases form with
  | whole =>
    have run : Run text := matching
    have unpointed : text.contains '.' = false := by simpa using run.not_mem_point
    have some : whole.digits text ≠ [] := run.left.1
    rw [NumberLiteral.read_decimal (fun c member => (run.clean c member).imp_right .inl) some,
      unpointed, literal_of_digits some]
    rfl
  | fraction =>
    obtain ⟨front, back, rfl, left, right⟩ := matching
    have clean : ∀ c ∈ front ++ '.' :: back, c ∈ Radix.decimal.figures ∨ c = '_' ∨ c = '.' := by
      rw [List.forall_mem_append, List.forall_mem_cons]
      exact ⟨fun c member => (left.clean c member).imp_right .inl, .inr (.inr rfl),
        fun c member => (right.clean c member).imp_right .inl⟩
    have some := digits_fraction_ne_nil front back
    have pointed : (front ++ '.' :: back).contains '.' = true := by simp
    rw [NumberLiteral.read_decimal clean some, pointed, literal_of_digits some]
    rfl
  | marked radix based =>
    obtain ⟨body, rfl, some, clean⟩ := matching
    rw [NumberLiteral.read_marked based some clean, literal, digits,
      show (marked radix based).radix = radix from rfl, List.drop_left]
    rfl

theorem Matches.exists_digits (matching : form.Matches text) (whole : form.fractional = false) :
    ∃ digits, form.literal text = ⟨form.radix, false, digits⟩ ∧ digits ≠ [] ∧
      (∀ c ∈ digits, c ∈ form.radix.figures) ∧
      form.radix.positional digits = form.radix.positional (form.digits text) := by
  have valid : ∀ c ∈ form.digits text, c ∈ form.radix.figures := by
    cases form with
    | fraction => cases whole
    | whole => exact (Run.left matching).2
    | marked radix based =>
      obtain ⟨body, rfl, _, clean⟩ := matching
      intro c member
      obtain ⟨among, shown⟩ := List.mem_filter.1 member
      rw [show (marked radix based).radix = radix from rfl, List.drop_left] at among
      exact (clean c among).resolve_right (by simpa using shown)
  by_cases none : form.digits text = []
  · refine ⟨['0'], by rw [literal, if_pos none, whole], List.cons_ne_nil _ _, ?_, ?_⟩
    · have zero : '0' ∈ form.radix.figures := by cases form.radix <;> decide
      exact List.forall_mem_singleton.2 zero
    · rw [none]
      rfl
  · exact ⟨_, by rw [literal_of_digits none, whole], none, valid, rfl⟩

theorem Matches.value?_eq_some_iff (matching : form.Matches text) (value : Nat) :
    (form.literal text).value? = some value ↔
      form.fractional = false ∧ value = form.radix.positional (form.digits text) ∧
        value < 2 ^ 64 := by
  cases whole : form.fractional with
  | true => simp [literal, NumberLiteral.value?, whole]
  | false =>
    obtain ⟨digits, same, some, valid, counts⟩ := matching.exists_digits whole
    rw [same, NumberLiteral.value?, if_neg Bool.false_ne_true, NumberLiteral.wordValue?,
      NumberLiteral.wholeValue?_eq some valid, counts, Option.filter_eq_some_iff,
      Option.some.injEq, decide_eq_true_eq, eq_comm]
    exact (and_iff_right rfl).symm

theorem legible_digits {radix : Radix} {digits : Text} (some : digits ≠ [])
    (valid : ∀ c ∈ digits, c ∈ radix.figures) :
    (!digits.isEmpty && digits.all fun c => (radix.digit? c).isSome) = true := by
  rw [Bool.and_eq_true, Bool.not_eq_true', List.isEmpty_eq_false_iff, List.all_eq_true]
  exact ⟨some, fun c member => Radix.digit?_isSome_iff.2 (valid c member)⟩

theorem Matches.legible (matching : form.Matches text) : (form.literal text).legible := by
  cases form with
  | whole | marked =>
    obtain ⟨digits, same, some, valid, _⟩ := matching.exists_digits rfl
    rw [same]
    exact legible_digits some valid
  | fraction =>
    obtain ⟨front, back, rfl, before, behind⟩ := matching
    have unpointed : ∀ c ∈ front.filter (· != '_'), (c != '.') = true :=
      fun c member => bne_iff_ne.2 (Radix.ne_of_mem_figures (before.left.2 c member)).2
    have shape : fraction.literal (front ++ '.' :: back) =
        ⟨.decimal, true, front.filter (· != '_') ++ '.' :: back.filter (· != '_')⟩ := by
      rw [literal_of_digits (digits_fraction_ne_nil front back), digits_fraction]
      rfl
    have first := legible_digits before.left.1 before.left.2
    have second := legible_digits behind.left.1 behind.left.2
    rw [shape, NumberLiteral.legible, if_pos rfl, List.takeWhile_append_of_pos unpointed,
      List.dropWhile_append_of_pos unpointed, List.takeWhile_cons_of_neg (by decide),
      List.dropWhile_cons_of_neg (by decide), List.append_nil]
    exact Bool.and_eq_true_iff.2 ⟨Bool.and_eq_true_iff.2 ⟨rfl, first⟩, second⟩

end NumberForm

theorem Lexeme.Stands.exists_form {fractional : Bool} {text rest : Text}
    (stands : (Lexeme.number fractional text).Stands rest) {literal : NumberLiteral}
    (read : NumberLiteral.read text = .ok literal) : ∃ form : NumberForm, form.Matches text := by
  obtain ⟨clean, solid⟩ := NumberLiteral.clean_of_read read
  have whole := NumberLiteral.splitRadix_append_body text
  generalize NumberLiteral.splitRadix text = split at clean solid whole
  obtain ⟨radix, body⟩ := split
  by_cases based : radix = .decimal
  · subst based
    obtain rfl : body = text := whole
    -- a point continues no word, so the only one stands where the lexer has seen it
    have inside : ∀ c ∈ body, continuesWord c → c ∈ Radix.decimal.figures ∨ c = '_' := by
      intro c member word
      rcases clean c member with figure | score | ⟨_, rfl⟩
      · exact .inl figure
      · exact .inr score
      · exact absurd word (by decide)
    cases stands with
    | @whole c body _ starts all =>
      exact ⟨.whole, c, body, rfl, Radix.isDigit_iff_mem.1 starts,
        fun d member => inside d (List.mem_cons_of_mem _ member) (all d member)⟩
    | @fraction c d body part _ starts front goesOn back =>
      refine ⟨.fraction, c :: body, d :: part, rfl, ⟨c, body, rfl, Radix.isDigit_iff_mem.1 starts, ?_⟩,
        d, part, rfl, Radix.isDigit_iff_mem.1 goesOn, ?_⟩
      · exact fun e member => inside e (by simp [member]) (continuesWord_of_digits (front e member))
      · exact fun e member => inside e (by simp [member]) (back e member)
  · refine ⟨.marked radix based, body, whole.symm, solid based, fun c member => ?_⟩
    rcases clean c member with figure | score | ⟨decimal, _⟩
    · exact .inl figure
    · exact .inr score
    · exact absurd decimal based

end MoSyntax
