import Mathlib.Data.List.TakeWhile
import MoSyntax.Lines

/-!
What the numbers of a place count. A place behind some text has as many line feeds before it as its
line says, and as many characters behind the last of them as its column says. Text that is put in
front, up to a line feed, only adds to the lines.
-/
namespace MoSyntax

namespace Text

def lastLine (text : Text) : Nat := (text.reverse.takeWhile (· != '\n')).length

def placeBehind (text : Text) : Position := ⟨text.count '\n' + 1, text.lastLine + 1⟩

theorem byteSize_feed (first second : Text) :
    byteSize (first ++ '\n' :: second) = byteSize first + 1 + byteSize second := by
  rw [byteSize_append, byteSize_cons, Nat.add_assoc]
  rfl

theorem lastLine_of_line {text : Text} (line : '\n' ∉ text) : text.lastLine = text.length := by
  have all : ∀ c ∈ text.reverse, (c != '\n') = true := by
    intro c member
    exact bne_iff_ne.2 fun same => line (same ▸ List.mem_reverse.1 member)
  rw [lastLine, List.takeWhile_eq_self_iff.2 all, List.length_reverse]

theorem lastLine_append (first second : Text) :
    (first ++ '\n' :: second).lastLine = second.lastLine := by
  simp only [lastLine, List.reverse_append, List.reverse_cons, List.append_assoc,
    List.takeWhile_append]
  split
  · rename_i whole
    simpa using whole.symm
  · rfl

theorem placeBehind_append (first second : Text) :
    (first ++ '\n' :: second).placeBehind =
      ⟨second.placeBehind.line + (first.count '\n' + 1), second.placeBehind.column⟩ := by
  rw [placeBehind, lastLine_append, List.count_append, List.count_cons_self, placeBehind]
  simp only [Position.mk.injEq, and_true]
  omega

end Text

/-- The same column, some lines further down. -/
def Position.lower (lines : Nat) (position : Position) : Position :=
  ⟨position.line + lines, position.column⟩

namespace LineTable

theorem splitLines_append (first second : Text) :
    ∃ lines, splitLines (first ++ '\n' :: second) = lines ++ splitLines second ∧
      lines.flatten = first ++ ['\n'] ∧ lines.length = first.count '\n' + 1 := by
  induction first with
  | nil => exact ⟨[['\n']], rfl, rfl, rfl⟩
  | cons c first ih =>
    obtain ⟨lines, split, whole, length⟩ := ih
    by_cases feed : c = '\n'
    · subst feed
      exact ⟨['\n'] :: lines, by rw [List.cons_append, splitLines, if_pos rfl, split]; rfl,
        by rw [List.flatten_cons, whole]; rfl, by simp [length]⟩
    · cases lines with
      | nil => simp at length
      | cons line lines =>
        refine ⟨(c :: line) :: lines, ?_, ?_, ?_⟩
        · rw [List.cons_append, splitLines, if_neg feed, split]
          rfl
        · rw [List.flatten_cons, List.cons_append, ← List.flatten_cons, whole]
          rfl
        · simpa [feed] using length

theorem placeLines_append (offset : Nat) (first second : List Text) :
    placeLines offset (first ++ second) =
      placeLines offset first ++ placeLines (offset + Text.byteSize first.flatten) second := by
  induction first generalizing offset with
  | nil => simp [placeLines]
  | cons line first ih =>
    simp [placeLines, ih, Nat.add_assoc]

theorem start_le_of_mem_placeLines {offset : Nat} {lines : List Text} {line : Line}
    (member : line ∈ placeLines offset lines) :
    line.start ≤ offset + Text.byteSize lines.flatten := by
  induction lines generalizing offset with
  | nil => simp [placeLines] at member
  | cons text lines ih =>
    rw [List.flatten_cons, Text.byteSize_append]
    rcases List.mem_cons.1 member with rfl | member
    · exact Nat.le_add_right _ _
    · have behind := ih member
      omega

theorem length_placeLines (offset : Nat) (lines : List Text) :
    (placeLines offset lines).length = lines.length := by
  induction lines generalizing offset with
  | nil => rfl
  | cons line lines ih => simp [placeLines, ih]

theorem placeLines_add (more offset : Nat) (lines : List Text) :
    placeLines (more + offset) lines =
      (placeLines offset lines).map fun line => ⟨more + line.start, line.text⟩ := by
  induction lines generalizing offset with
  | nil => rfl
  | cons line lines ih => simp [placeLines, ← ih, Nat.add_assoc]

theorem splitLines_first (text : Text) :
    ∃ first others, splitLines text = first :: others ∧ (others ≠ [] → first ≠ []) := by
  induction text with
  | nil => exact ⟨[], [], rfl, by simp⟩
  | cons c text ih =>
    obtain ⟨first, others, split, _⟩ := ih
    by_cases feed : c = '\n'
    · exact ⟨['\n'], _, by rw [splitLines, if_pos feed], by simp⟩
    · exact ⟨c :: first, others, by rw [splitLines, if_neg feed, split], by simp⟩

/-- The first line starts a text, so every offset lies in some line. -/
theorem upTo_ne_nil (text : Text) (offset : Nat) :
    ((ofText text).lines.takeWhile fun line => line.start ≤ offset) ≠ [] := by
  obtain ⟨line, lines, split, _⟩ := splitLines_first text
  simp [ofText, split, placeLines]

/-- What stands in front of a line feed adds its lines to the lines behind, and no columns. -/
theorem position_append (first second : Text) (offset : Nat) :
    (ofText (first ++ '\n' :: second)).position (Text.byteSize first + 1 + offset) =
      ((ofText second).position offset).lower (first.count '\n' + 1) := by
  obtain ⟨lines, split, whole, length⟩ := splitLines_append first second
  have feed : Text.byteSize (first ++ ['\n']) = Text.byteSize first + 1 := by
    rw [Text.byteSize_append]
    rfl
  have placed : (ofText (first ++ '\n' :: second)).lines = placeLines 0 lines ++
      (ofText second).lines.map fun line => ⟨Text.byteSize first + 1 + line.start, line.text⟩ := by
    show placeLines 0 (splitLines (first ++ '\n' :: second)) = _
    rw [split, placeLines_append, whole, feed, Nat.zero_add, ← Nat.add_zero (_ + 1), placeLines_add]
    rfl
  have size : min (Text.byteSize first + 1 + offset) (ofText (first ++ '\n' :: second)).size =
      Text.byteSize first + 1 + min offset (ofText second).size := by
    have whole : (ofText (first ++ '\n' :: second)).size =
        Text.byteSize first + 1 + (ofText second).size := Text.byteSize_feed first second
    omega
  have before : ∀ line ∈ placeLines 0 lines,
      decide (line.start ≤ Text.byteSize first + 1 + min offset (ofText second).size) := by
    intro line member
    have within := start_le_of_mem_placeLines member
    rw [whole, feed] at within
    exact decide_eq_true (by omega)
  rw [position, position, size, placed, List.takeWhile_append_of_pos before, List.takeWhile_map]
  simp only [Function.comp_def, Nat.add_le_add_iff_left, Position.lower]
  have some := upTo_ne_nil second (min offset (ofText second).size)
  generalize ((ofText second).lines.takeWhile fun line =>
    line.start ≤ min offset (ofText second).size) = upTo at some ⊢
  rw [List.getLast?_append, List.getLast?_map, List.getLast?_eq_some_getLast some]
  simp only [List.length_append, List.length_map, length_placeLines, length, Option.map_some,
    Option.getD_some, Position.mk.injEq]
  refine ⟨by omega, ?_⟩
  simp [columnIn, Nat.add_sub_add_left]

theorem splitLines_of_line {before : Text} (line : '\n' ∉ before) (behind : Text) :
    ∃ first others, splitLines (before ++ behind) = (before ++ first) :: others ∧
      (others ≠ [] → first ≠ []) := by
  induction before with
  | nil => exact splitLines_first behind
  | cons c before ih =>
    obtain ⟨other, line⟩ := not_or.1 (mt List.mem_cons.2 line)
    obtain ⟨first, others, split, some⟩ := ih line
    refine ⟨first, others, ?_, some⟩
    rw [List.cons_append, splitLines, if_neg fun same => other same.symm, split]
    rfl

theorem position_of_line {before : Text} (line : '\n' ∉ before) (behind : Text) :
    (ofText (before ++ behind)).position (Text.byteSize before) = ⟨1, before.length + 1⟩ := by
  obtain ⟨first, others, split, some⟩ := splitLines_of_line line behind
  have stops : ((placeLines (Text.byteSize (before ++ first)) others).takeWhile fun line =>
      line.start ≤ Text.byteSize before) = [] := by
    cases others with
    | nil => rfl
    | cons second others =>
      obtain ⟨c, first, rfl⟩ := List.exists_cons_of_ne_nil (some (by simp))
      have size := c.utf8Size_pos
      refine List.takeWhile_cons_of_neg ?_
      simp only [Text.byteSize_append, Text.byteSize_cons, decide_eq_true_eq]
      omega
  have size : min (Text.byteSize before) (ofText (before ++ behind)).size = Text.byteSize before :=
    Nat.min_eq_left (by simp [ofText])
  rw [position, size]
  show (⟨_, _⟩ : Position) = _
  simp only [ofText, split, placeLines, Nat.zero_add, List.takeWhile_cons, Nat.zero_le,
    decide_true, ↓reduceIte, stops]
  simp [columnIn]

/-- Line and column count what is before the place. -/
theorem position_behind (before behind : Text) :
    (ofText (before ++ behind)).position (Text.byteSize before) = before.placeBehind := by
  induction length : before.count '\n' generalizing before with
  | zero =>
    have line : '\n' ∉ before := List.count_eq_zero.1 length
    rw [position_of_line line, Text.placeBehind, length, Text.lastLine_of_line line]
  | succ count ih =>
    have feed : '\n' ∈ before := List.count_pos_iff.1 (by omega)
    obtain ⟨first, second, rfl, line⟩ := List.eq_append_cons_of_mem feed
    rw [List.count_append, List.count_eq_zero.2 line, List.count_cons_self] at length
    rw [List.append_assoc, List.cons_append, Text.byteSize_feed, position_append, ih second (by omega),
      Text.placeBehind_append]
    rfl

end LineTable

end MoSyntax
