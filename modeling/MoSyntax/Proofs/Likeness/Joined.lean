import Mathlib.Data.List.ReduceOption
import MoSyntax.Proofs.Lexing.Joined
import MoSyntax.Proofs.Lexing.Places
import MoSyntax.Proofs.Likeness.Rounds
import MoSyntax.Proofs.Likeness.Restored

/-!
Two sources with a line feed between them. If the first one has no diagnostics, the whole has its
declarations and then those of the second one, and it has the diagnostics of the second one; all that
belongs to the second source is moved behind the first.
-/
namespace MoSyntax

/-- A diagnostic that has come to stand behind so many bytes and so many lines. -/
def Diagnostic.shift (bytes lines : Nat) (diagnostic : Diagnostic) : Diagnostic :=
  { diagnostic.relocate (bytes + ·) with position := diagnostic.position.lower lines }

theorem add_injective (bytes : Nat) : Function.Injective (bytes + ·) :=
  fun _ _ => Nat.add_left_cancel

namespace Bag

variable (bytes lines : Nat)

theorem precedes_shift (first second : Diagnostic) :
    precedes (first.shift bytes lines) (second.shift bytes lines) = precedes first second := by
  have start (diagnostic : Diagnostic) :
      (diagnostic.shift bytes lines).span.start = bytes + diagnostic.span.start := rfl
  have stop (diagnostic : Diagnostic) :
      (diagnostic.shift bytes lines).span.stop = bytes + diagnostic.span.stop := rfl
  have same (offset other : Nat) : (bytes + offset == bytes + other) = (offset == other) :=
    (add_injective bytes).beq_eq
  simp [precedes, start, stop, same]

theorem insertSorted_shift (diagnostic : Diagnostic) (sorted : List Diagnostic) :
    insertSorted (diagnostic.shift bytes lines) (sorted.map (Diagnostic.shift bytes lines)) =
      (insertSorted diagnostic sorted).map (Diagnostic.shift bytes lines) := by
  induction sorted with
  | nil => rfl
  | cons first rest ih =>
    rw [List.map_cons, insertSorted, insertSorted, precedes_shift, ih]
    split <;> rfl

theorem sorted_shift (items : List Diagnostic) :
    (items.map (Diagnostic.shift bytes lines)).foldr insertSorted [] =
      (items.foldr insertSorted []).map (Diagnostic.shift bytes lines) := by
  induction items with
  | nil => rfl
  | cons first rest ih => rw [List.map_cons, List.foldr_cons, ih, insertSorted_shift, List.foldr_cons]

end Bag

theorem Bag.place_joined (first second : Text) (report : Diagnostic) :
    (Bag.ofSource (first ++ '\n' :: second)).place (report.relocate (Text.byteSize first + 1 + ·)) =
      ((Bag.ofSource second).place report).shift (Text.byteSize first + 1) (first.count '\n' + 1) :=
  congrArg (fun position => { report.relocate (Text.byteSize first + 1 + ·) with position })
    (LineTable.position_append first second report.span.start)

theorem filter_moved {rest others : List Token} {move : Nat → Nat}
    (same : others.map Token.mark = (rest.map (Token.relocate move)).map Token.mark) :
    (others.filter (!·.isComment)).map Token.mark =
      ((rest.filter (!·.isComment)).map (Token.relocate move)).map Token.mark := by
  rw [filter_mark, same, ← filter_mark, List.filter_map]
  rfl

theorem dropWhile_moved {rest others : List Token} {move : Nat → Nat}
    (same : others.map Token.mark = (rest.map (Token.relocate move)).map Token.mark) :
    (others.dropWhile (·.kind == .lineBreak)).map Token.mark =
      ((rest.dropWhile (·.kind == .lineBreak)).map (Token.relocate move)).map Token.mark := by
  induction rest generalizing others with
  | nil =>
    obtain rfl := List.map_eq_nil_iff.1 same
    rfl
  | cons first rest ih =>
    obtain ⟨second, others, rfl, head, behind⟩ := List.map_eq_cons_iff.1 same
    have kind : second.kind = first.kind := congrArg Prod.fst head
    rw [List.dropWhile_cons, List.dropWhile_cons, kind]
    split
    · exact ih behind
    · exact same

namespace Parser

theorem declarations_eq (limit : Nat) (start : Cursor) :
    (declarations limit start).value = (rounds limit start).value.map List.reduceOption ∧
      (declarations limit start).reports = (rounds limit start).reports := by
  have opened : declarations limit start = (rounds limit >>= fun found => pure found.reduceOption)
    start := rfl
  rw [opened]
  cases found : (rounds limit start).value with
  | none =>
    rw [bind_of_none found]
    exact ⟨rfl, rfl⟩
  | some values =>
    rw [bind_of_some found]
    exact ⟨rfl, List.append_nil _⟩

end Parser

section

variable {first : Text} (second : Text)

theorem grammarTokens_joined (ends : first.getLast? ≠ some '\r') :
    ∃ front feed back, grammarTokens (first ++ '\n' :: second) = front ++ feed :: back ∧
      front.map Token.mark = ((grammarTokens first).map (Token.relocate id)).map Token.mark ∧
      feed.kind = .lineBreak ∧
      back.map Token.mark =
        ((grammarTokens second).map (Token.relocate (Text.byteSize first + 1 + ·))).map Token.mark := by
  obtain ⟨feed, breaks, tokens⟩ : ∃ feed : Token, feed.kind = .lineBreak ∧ _ = _ ++ feed :: _ :=
    ⟨_, rfl, tokensFrom_feed ends second (.ofText (first ++ '\n' :: second)) 0⟩
  have visible : feed.isComment = false := by rw [Token.isComment, breaks]; rfl
  rw [Nat.zero_add] at tokens
  have front := tokensFrom_add (.ofText (first ++ '\n' :: second)) (.ofText first) 0 0 first
  rw [Nat.zero_add, funext (g := id) Nat.zero_add] at front
  have back := tokensFrom_add (.ofText (first ++ '\n' :: second)) (.ofText second)
    (Text.byteSize first + 1) 0 second
  refine ⟨_, feed, _, ?_, filter_moved front, breaks, filter_moved back⟩
  rw [grammarTokens, show Lexed.written (first ++ '\n' :: second) = _ from tokens,
    List.filter_append, List.filter_cons_of_pos (by simp [visible])]

theorem cursors_front {front back : List Token} {feed : Token}
    (whole : grammarTokens (first ++ '\n' :: second) = front ++ feed :: back)
    (same : front.map Token.mark = ((grammarTokens first).map (Token.relocate id)).map Token.mark)
    (breaks : feed.kind = .lineBreak)
    (level : Skip.levelAfter? 0 ((grammarTokens first).map Token.kind) = some 0) :
    (Comparison.moved id (feed :: back)).Cursors False 0 (sourceCursor first none)
      (sourceCursor (first ++ '\n' :: second) none) := by
  refine ⟨sourceCursor_intact _ _, sourceCursor_intact _ _, ?_, fun none => ?_, False.elim⟩
  · have feeds : ∀ next ∈ (feed :: back).head?, next.kind = .lineBreak := by
      rintro _ ⟨⟩
      exact breaks
    have aligned := Comparison.moved_aligned Function.injective_id feeds (fun _ => level) same
    rw [← whole] at aligned
    rwa [sourceCursor_eq, sourceCursor_eq]
  · exact absurd none (List.cons_ne_nil _ _)

theorem cursors_back {behind : Cursor} {used back : List Token} {feed : Token}
    (passes : (sourceCursor (first ++ '\n' :: second) none).Passes used behind)
    (ahead : behind.ahead = (feed :: back).dropWhile (·.kind == .lineBreak))
    (breaks : feed.kind = .lineBreak)
    (same : back.map Token.mark =
      ((grammarTokens second).map (Token.relocate (Text.byteSize first + 1 + ·))).map Token.mark) :
    (Comparison.moved (Text.byteSize first + 1 + ·) []).Cursors False 0
      (Parser.pastBreaks (sourceCursor second none)) behind := by
  obtain ⟨skipped, left⟩ := Parser.pastBreaks_passes (sourceCursor second none)
  refine ⟨skipped.intact (sourceCursor_intact _ _), passes.intact (sourceCursor_intact _ _), ?_,
    fun _ => ?_, False.elim⟩
  · rw [ahead, List.dropWhile_cons_of_pos (by simp [breaks]), left, sourceCursor_eq]
    exact Comparison.moved_aligned_whole (add_injective _) 0 (dropWhile_moved same)
  · rw [skipped.eof, passes.eof, sourceCursor_eq, sourceCursor_eq, Text.byteSize_feed]
    exact ⟨rfl, fun _ => rfl, rfl⟩

/-- From a place on that is like one behind the line breaks of another text, the same is read. -/
theorem rounds_moved {start behind : Cursor} {move : Nat → Nat} (intact : start.Intact)
    (like : (Comparison.moved move []).Cursors False 0 (Parser.pastBreaks start) behind)
    {depth : Nat} {rest : List (Option Decl)}
    (given : (Parser.rounds depth start).value = some rest) :
    ∃ rest', (Parser.rounds depth behind).value = some rest' ∧
      rest'.reduceOption = rest.reduceOption.map (Decl.relocate move) ∧
      (Parser.rounds depth behind).reports =
        (Parser.rounds depth start).reports.map (Diagnostic.relocate move) := by
  have advances := (Parser.declaration_rounds depth).advances
  cases Comparison.Likes.many (Comparison.Likes.nextDeclaration rfl depth) advances advances _ _
      like with
  | lost cut => exact absurd rfl cut
  | same values told _ =>
    rw [← Parser.rounds, Parser.rounds_pastBreaks depth intact] at values told
    rw [given] at values
    obtain ⟨rest', given', alike⟩ := Comparison.rel_some values
    exact ⟨rest', given', Comparison.moved_decls (Comparison.reduceOption alike),
      Comparison.moved_reports told⟩

theorem declarations_joined (ends : first.getLast? ≠ some '\r') (depth : Nat)
    (level : Skip.levelAfter? 0 ((grammarTokens first).map Token.kind) = some 0)
    (silent : (Parser.declarations depth (sourceCursor first none)).reports = []) :
    (Parser.declarations depth (sourceCursor (first ++ '\n' :: second) none)).value.getD [] =
        (Parser.declarations depth (sourceCursor first none)).value.getD [] ++
          ((Parser.declarations depth (sourceCursor second none)).value.getD []).map
            (Decl.relocate (Text.byteSize first + 1 + ·)) ∧
      (Parser.declarations depth (sourceCursor (first ++ '\n' :: second) none)).reports =
        (Parser.declarations depth (sourceCursor second none)).reports.map
          (Diagnostic.relocate (Text.byteSize first + 1 + ·)) := by
  obtain ⟨front, feed, back, whole, left, breaks, right⟩ := grammarTokens_joined second ends
  obtain ⟨firstValue, firstReports⟩ := Parser.declarations_eq depth (sourceCursor first none)
  obtain ⟨secondValue, secondReports⟩ := Parser.declarations_eq depth (sourceCursor second none)
  obtain ⟨value, reports⟩ :=
    Parser.declarations_eq depth (sourceCursor (first ++ '\n' :: second) none)
  obtain ⟨behind, found, found', goesOn⟩ := (cursors_front second whole left breaks level).goesOn
    (List.cons_ne_nil _ _) depth (firstReports ▸ silent)
  have same := Comparison.moved_decls (Comparison.reduceOption goesOn.alike)
  rw [map_of_stays Decl.relocate_id] at same
  obtain ⟨used, passes⟩ := goesOn.passes
  have like := cursors_back second passes goesOn.ahead breaks right
  obtain ⟨_, some, _⟩ := Parser.declarations_reads depth (sourceCursor_intact second none)
  obtain ⟨rest, given, _⟩ := Option.map_eq_some_iff.1 (secondValue ▸ some)
  obtain ⟨rest', given', moved, told⟩ := rounds_moved (sourceCursor_intact second none) like given
  refine ⟨?_, ?_⟩
  · rw [value, goesOn.value, given', firstValue, goesOn.first, secondValue, given]
    simp only [Option.map_some, Option.getD_some, List.reduceOption_append, same, moved]
  · rw [reports, secondReports, goesOn.reports, told]

end

theorem parse_diagnostics_unlimited (source name : Text) (depth : Nat) :
    (parse source name ⟨depth, none⟩).diagnostics =
      ((reportsFrom 0 source ++ (Parser.declarations depth (sourceCursor source none)).reports).map
        (Bag.ofSource source).place).foldr Bag.insertSorted [] := by
  have uncut : (limitTokens none (Cursor.ofTokens (Lexed.ofText source).tokens)).2 = [] := rfl
  have empty : (Bag.ofSource source).items = [] := rfl
  rw [parse_diagnostics, Bag.sorted, Bag.items_reportAll, Lexed.ofText_reports, uncut, empty,
    List.append_nil, List.nil_append]

/-- A source without diagnostics may be followed by any other one behind a line feed. -/
theorem parse_joined {first name : Text} {depth : Nat}
    (clean : (parse first name ⟨depth, none⟩).diagnostics = []) (second other another : Text) :
    (parse (first ++ '\n' :: second) other ⟨depth, none⟩).program.declarations =
        (parse first name ⟨depth, none⟩).program.declarations ++
          (parse second another ⟨depth, none⟩).program.declarations.map
            (Decl.relocate (Text.byteSize first + 1 + ·)) ∧
      (parse (first ++ '\n' :: second) other ⟨depth, none⟩).diagnostics =
        (parse second another ⟨depth, none⟩).diagnostics.map
          (Diagnostic.shift (Text.byteSize first + 1) (first.count '\n' + 1)) := by
  have silent := Bag.reported_eq_nil clean
  simp only [List.append_eq_nil_iff] at silent
  obtain ⟨⟨lexed, _⟩, parsed⟩ := silent
  rw [Lexed.ofText_reports] at lexed
  have ends : first.getLast? ≠ some '\r' := fun carriage => carriage_reported carriage 0 lexed
  have level := (grammarTokens_balanced clean).levelAfter? 0
  obtain ⟨declared, reports⟩ := declarations_joined second ends depth level parsed
  refine ⟨?_, ?_⟩
  · rw [parse_declarations, parse_declarations, parse_declarations]
    exact declared
  · have told : reportsFrom 0 (first ++ '\n' :: second) =
        (reportsFrom 0 second).map (Diagnostic.relocate (Text.byteSize first + 1 + ·)) := by
      rw [reportsFrom_feed ends, lexed, List.nil_append, Nat.zero_add, ← reportsFrom_add]
    have placed : (Bag.ofSource (first ++ '\n' :: second)).place ∘
          Diagnostic.relocate (Text.byteSize first + 1 + ·) =
        Diagnostic.shift (Text.byteSize first + 1) (first.count '\n' + 1) ∘
          (Bag.ofSource second).place := funext (Bag.place_joined first second)
    rw [parse_diagnostics_unlimited, parse_diagnostics_unlimited, told, reports, ← List.map_append,
      List.map_map, placed, ← List.map_map, Bag.sorted_shift]

/-- Only the second of the declarations behind the line feed is a complete one. -/
theorem parse_joined_broken :
    (parse "fn f() \x7b\n\x7d // a".toList unnamed ⟨64, none⟩).diagnostics = [] ∧
      (parse ("fn f() \x7b\n\x7d // a".toList ++ '\n' :: "use b\nuse é c:d\nfn g(\"é".toList) unnamed
          ⟨64, none⟩).program.declarations =
        (parse "fn f() \x7b\n\x7d // a".toList unnamed ⟨64, none⟩).program.declarations ++
          (parse "use b\nuse é c:d\nfn g(\"é".toList unnamed ⟨64, none⟩).program.declarations.map
            (Decl.relocate (Text.byteSize "fn f() \x7b\n\x7d // a".toList + 1 + ·)) ∧
      (parse ("fn f() \x7b\n\x7d // a".toList ++ '\n' :: "use b\nuse é c:d\nfn g(\"é".toList) unnamed
          ⟨64, none⟩).diagnostics =
        (parse "use b\nuse é c:d\nfn g(\"é".toList unnamed ⟨64, none⟩).diagnostics.map
          (Diagnostic.shift (Text.byteSize "fn f() \x7b\n\x7d // a".toList + 1)
            ("fn f() \x7b\n\x7d // a".toList.count '\n' + 1)) := by
  have clean : (parse "fn f() \x7b\n\x7d // a".toList unnamed ⟨64, none⟩).diagnostics = [] := by
    decide +kernel
  exact ⟨clean, parse_joined clean _ _ _⟩

end MoSyntax
