import MoSyntax.Proofs.Lexing.Places

/-!
Line and column as counts. Between two characters the line counts the line feeds in front and the
column counts the characters behind the last of them, so positions come in the order of the places.
The line may also be looked up in the list of offsets where lines start: whether the offset is found
there or is missing, every answer tells the same line.
-/
namespace MoSyntax

/-- The offset lies between two characters, or at one of the ends. -/
def Text.Boundary (text : Text) (offset : Nat) : Prop :=
  ∃ before behind, text = before ++ behind ∧ offset = Text.byteSize before

theorem Text.Boundary.le {text : Text} {offset : Nat} (boundary : text.Boundary offset) :
    offset ≤ Text.byteSize text := by
  obtain ⟨before, behind, rfl, rfl⟩ := boundary
  simp

/-- Further up, or further left on the same line. -/
def Position.Before (first second : Position) : Prop :=
  first.line < second.line ∨ first.line = second.line ∧ first.column < second.column

theorem Position.Before.ne {first second : Position} (before : first.Before second) :
    first ≠ second := by
  rintro rfl
  rcases before with line | ⟨_, column⟩
  · exact Nat.lt_irrefl _ line
  · exact Nat.lt_irrefl _ column

namespace Text

theorem lastLine_append_of_line (before : Text) {more : Text} (line : '\n' ∉ more) :
    (before ++ more).lastLine = before.lastLine + more.length := by
  have all : ∀ c ∈ more.reverse, (c != '\n') = true := by
    intro c member
    exact bne_iff_ne.2 fun same => line (same ▸ List.mem_reverse.1 member)
  rw [lastLine, List.reverse_append, List.takeWhile_append_of_pos all, List.length_append,
    List.length_reverse, Nat.add_comm, lastLine]

theorem placeBehind_before (before : Text) {more : Text} (some : more ≠ []) :
    before.placeBehind.Before (before ++ more).placeBehind := by
  by_cases feed : '\n' ∈ more
  · have counts := List.count_pos_iff.2 feed
    refine .inl ?_
    show before.count '\n' + 1 < (before ++ more).count '\n' + 1
    rw [List.count_append]
    omega
  · have length := List.length_pos_iff.2 some
    refine .inr ⟨?_, ?_⟩
    · rw [placeBehind, placeBehind, List.count_append, List.count_eq_zero.2 feed, Nat.add_zero]
    · show before.lastLine + 1 < (before ++ more).lastLine + 1
      rw [lastLine_append_of_line before feed]
      omega

theorem exists_more {first second behind rest : Text} (whole : first ++ behind = second ++ rest)
    (less : byteSize first < byteSize second) : ∃ more, second = first ++ more ∧ more ≠ [] := by
  rcases List.append_eq_append_iff.1 whole with ⟨more, rfl, _⟩ | ⟨more, rfl, _⟩
  · refine ⟨more, rfl, ?_⟩
    rintro rfl
    simp at less
  · rw [byteSize_append] at less
    omega

/-- The offsets behind the line feeds of a text that begins at some offset. -/
def feedEnds : Nat → Text → List Nat
  | _, [] => []
  | offset, c :: text =>
    if c = '\n' then (offset + 1) :: feedEnds (offset + 1) text
    else feedEnds (offset + c.utf8Size) text

theorem feedEnds_increasing (offset : Nat) (text : Text) :
    (offset :: feedEnds offset text).Pairwise (· < ·) := by
  induction text generalizing offset with
  | nil => exact List.pairwise_singleton _ _
  | cons c text ih =>
    rw [feedEnds]
    split
    · refine .cons (fun stop member => ?_) (ih (offset + 1))
      rcases List.mem_cons.1 member with rfl | behind
      · exact Nat.lt_add_one offset
      · exact Nat.lt_of_succ_lt (List.rel_of_pairwise_cons (ih (offset + 1)) behind)
    · have further := ih (offset + c.utf8Size)
      refine .cons (fun stop member => ?_) further.of_cons
      have size := c.utf8Size_pos
      have behind := List.rel_of_pairwise_cons further member
      omega

end Text

/-- The answer to a search in a list of increasing numbers: the place where the number stands, or
where it would have to be put in. -/
inductive Search where
  | found (place : Nat)
  | missing (place : Nat)

namespace Search

def Answers (numbers : List Nat) (sought : Nat) : Search → Prop
  | found place => numbers[place]? = some sought
  | missing place => place ≤ numbers.length ∧ (∀ number ∈ numbers.take place, number < sought) ∧
    ∀ number ∈ numbers.drop place, sought < number

/-- The place of the last number that is not greater. -/
def last : Search → Nat
  | found place => place
  | missing place => place - 1

def count : Search → Nat
  | found place => place + 1
  | missing place => place

theorem length_of_cut {numbers : List Nat} {sought count : Nat} (least : count ≤ numbers.length)
    (before : ∀ number ∈ numbers.take count, number ≤ sought)
    (behind : ∀ number ∈ numbers.drop count, sought < number) :
    (numbers.takeWhile (· ≤ sought)).length = count := by
  have stops : (numbers.drop count).takeWhile (· ≤ sought) = [] := by
    cases left : numbers.drop count with
    | nil => rfl
    | cons number others =>
      have greater := behind number (left ▸ List.mem_cons_self)
      exact List.takeWhile_cons_of_neg (by simpa using greater)
  conv => lhs; rw [← List.take_append_drop count numbers]
  rw [List.takeWhile_append_of_pos (by simpa using before), stops, List.append_nil,
    List.length_take, Nat.min_eq_left least]

theorem Answers.length_takeWhile {numbers : List Nat} {sought : Nat} {answer : Search}
    (answers : answer.Answers numbers sought) (increasing : numbers.Pairwise (· < ·)) :
    (numbers.takeWhile (· ≤ sought)).length = answer.count := by
  cases answer with
  | missing place =>
    obtain ⟨least, before, behind⟩ := answers
    exact length_of_cut least (fun number member => Nat.le_of_lt (before number member)) behind
  | found place =>
    obtain ⟨inside, rfl⟩ := List.getElem?_eq_some_iff.1 answers
    show (numbers.takeWhile (· ≤ numbers[place])).length = place + 1
    refine length_of_cut inside (fun number member => ?_) fun number member => ?_
    · obtain ⟨index, within, rfl⟩ := List.mem_take_iff_getElem.1 member
      have upTo : index ≤ place := by omega
      rcases Nat.lt_or_eq_of_le upTo with earlier | rfl
      · exact Nat.le_of_lt (List.pairwise_iff_getElem.1 increasing _ _ _ _ earlier)
      · exact Nat.le_refl _
    · obtain ⟨index, within, rfl⟩ := List.mem_drop_iff_getElem.1 member
      exact List.pairwise_iff_getElem.1 increasing _ _ _ _ (by omega)

end Search

namespace LineTable

theorem placeLines_starts (offset : Nat) (text : Text) :
    (placeLines offset (splitLines text)).map Line.start = offset :: text.feedEnds offset := by
  induction text generalizing offset with
  | nil => rfl
  | cons c text ih =>
    rw [splitLines, Text.feedEnds]
    split
    · exact congrArg (offset :: ·) (ih (offset + 1))
    · have further := ih (offset + c.utf8Size)
      obtain ⟨first, others, split, _⟩ := splitLines_first text
      rw [split] at further ⊢
      refine congrArg (offset :: ·) ?_
      rw [Text.byteSize_cons, ← Nat.add_assoc]
      exact (List.cons.inj further).2

theorem starts_ofText (text : Text) :
    (ofText text).lines.map Line.start = 0 :: text.feedEnds 0 :=
  placeLines_starts 0 text

/-- Whatever a search among the starts answers, it tells the line, and there is one. -/
theorem line_of_answers {text : Text} {offset : Nat} {answer : Search}
    (answers : answer.Answers (0 :: text.feedEnds 0) (min offset (Text.byteSize text))) :
    answer ≠ .missing 0 ∧ ((ofText text).position offset).line = answer.last + 1 ∧
      answer.last < (ofText text).lineCount := by
  have counted := answers.length_takeWhile (text.feedEnds_increasing 0)
  rw [← starts_ofText, List.takeWhile_map, List.length_map] at counted
  have some := List.length_pos_iff.2 (upTo_ne_nil text (min offset (Text.byteSize text)))
  have least : answer.count ≤ (ofText text).lineCount :=
    counted ▸ (List.takeWhile_sublist _).length_le
  have line : ((ofText text).position offset).line = answer.count := counted
  have first : 0 < answer.count := counted ▸ some
  cases answer with
  | found place => exact ⟨Search.noConfusion, line, least⟩
  | missing place =>
    change 0 < place at first
    change place ≤ _ at least
    refine ⟨fun none => ?_, line.trans (Nat.sub_add_cancel first).symm, ?_⟩
    · obtain rfl := Search.missing.inj none
      exact Nat.lt_irrefl 0 first
    · show place - 1 < _
      omega

theorem position_of_le {text : Text} {offset : Nat} (past : Text.byteSize text ≤ offset) :
    (ofText text).position offset = (ofText text).position (Text.byteSize text) := by
  have size : min offset (ofText text).size = min (Text.byteSize text) (ofText text).size :=
    (Nat.min_eq_right past).trans (Nat.min_self _).symm
  rw [position, position, size]

theorem position_before {text : Text} {first second : Nat} (earlier : text.Boundary first)
    (later : text.Boundary second) (less : first < second) :
    ((ofText text).position first).Before ((ofText text).position second) := by
  obtain ⟨before, behind, rfl, rfl⟩ := earlier
  obtain ⟨front, rest, whole, rfl⟩ := later
  obtain ⟨more, rfl, some⟩ := Text.exists_more whole less
  rw [position_behind, whole, position_behind]
  exact before.placeBehind_before some

/-- Line and column are counted. At every boundary the line is one more than the line feeds in front
and the column one more than the characters behind the last of them; so boundaries have positions in
their order and no two the same one, and past the end there is the position of the end. The line is
also what any search among the starts of the lines tells. -/
theorem position_counts (source : Text) :
    (∀ before behind, source = before ++ behind →
      (ofText source).position (Text.byteSize before) =
        ⟨1 + before.count '\n', 1 + (before.reverse.takeWhile (· != '\n')).length⟩) ∧
      (∀ first second, source.Boundary first → source.Boundary second →
        (first < second →
          ((ofText source).position first).Before ((ofText source).position second)) ∧
        ((ofText source).position first = (ofText source).position second → first = second)) ∧
      (∀ offset, Text.byteSize source ≤ offset →
        (ofText source).position offset = (ofText source).position (Text.byteSize source)) ∧
      ∀ offset (answer : Search),
        answer.Answers (0 :: source.feedEnds 0) (min offset (Text.byteSize source)) →
          answer ≠ .missing 0 ∧ ((ofText source).position offset).line = answer.last + 1 ∧
            answer.last < (ofText source).lineCount := by
  refine ⟨?_, fun first second earlier later => ⟨position_before earlier later, fun same => ?_⟩,
    fun offset past => position_of_le past, fun offset answer answers => line_of_answers answers⟩
  · rintro before behind rfl
    rw [position_behind, Nat.add_comm 1, Nat.add_comm 1]
    rfl
  · rcases Nat.lt_trichotomy first second with less | equal | more
    · exact absurd same (position_before earlier later less).ne
    · exact equal
    · exact absurd same.symm (position_before later earlier more).ne

/-- An empty line behind a carriage return, a wide character in front of a place, and a line break at
the end. -/
theorem position_counts_wide :
    "é\r\n\n日x\n".toList = "é\r\n\n日".toList ++ "x\n".toList ∧
      (ofText "é\r\n\n日x\n".toList).position 8 = ⟨3, 2⟩ ∧
      (Text.Boundary "é\r\n\n日x\n".toList 4 ∧ Text.Boundary "é\r\n\n日x\n".toList 5 ∧
        ((ofText "é\r\n\n日x\n".toList).position 4).Before
          ((ofText "é\r\n\n日x\n".toList).position 5)) ∧
      (ofText "é\r\n\n日x\n".toList).position 12 = (ofText "é\r\n\n日x\n".toList).position 10 ∧
      Search.Answers (0 :: Text.feedEnds 0 "é\r\n\n日x\n".toList) 7 (.missing 3) ∧
      ((ofText "é\r\n\n日x\n".toList).position 7).line = 3 := by
  obtain ⟨counted, ordered, past, searched⟩ := position_counts "é\r\n\n日x\n".toList
  have whole : "é\r\n\n日x\n".toList = "é\r\n\n日".toList ++ "x\n".toList := by decide
  have empty : Text.Boundary "é\r\n\n日x\n".toList 4 :=
    ⟨"é\r\n".toList, "\n日x\n".toList, by decide, by decide⟩
  have wide : Text.Boundary "é\r\n\n日x\n".toList 5 :=
    ⟨"é\r\n\n".toList, "日x\n".toList, by decide, by decide⟩
  have answers : Search.Answers (0 :: Text.feedEnds 0 "é\r\n\n日x\n".toList) 7 (.missing 3) :=
    ⟨by decide, by decide, by decide⟩
  exact ⟨whole, counted _ _ whole, ⟨empty, wide, (ordered 4 5 empty wide).1 (by decide)⟩,
    past 12 (by decide), answers, (searched 7 _ answers).2.1⟩

end LineTable

end MoSyntax
