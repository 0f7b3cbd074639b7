import MoSyntax.Parse
import MoSyntax.Proofs.Lexing.Layout
import MoSyntax.Proofs.Reading.Decl

/-!
The reading of a whole source text. The parser sees the tokens that are written, without comments
and no more than the limit allows, and it does not stop before the last of them.
-/
namespace MoSyntax

def grammarTokens (source : Text) : List Token :=
  (Lexed.written source).filter (!·.isComment)

def readTokens (source : Text) (limit : Option Nat) : List Token :=
  match limit with
  | none => grammarTokens source
  | some limit => (grammarTokens source).take limit

def sourceCursor (source : Text) (limit : Option Nat) : Cursor :=
  (limitTokens limit (Cursor.ofTokens (Lexed.ofText source).tokens)).1

theorem ofTokens_lexed (source : Text) :
    Cursor.ofTokens (Lexed.ofText source).tokens =
      { passed := [], ahead := grammarTokens source
        eof := .endOfFile (Text.byteSize source)
          ((LineTable.ofText source).position (Text.byteSize source)) } := by
  simp [Cursor.ofTokens, Cursor.bodyOf, Cursor.endOf, Lexed.ofText_tokens, grammarTokens,
    Token.endOfFile, Token.isComment, Token.isEndOfFile]

theorem sourceCursor_eq (source : Text) (limit : Option Nat) :
    sourceCursor source limit =
      { passed := [], ahead := readTokens source limit
        eof := .endOfFile (Text.byteSize source)
          ((LineTable.ofText source).position (Text.byteSize source)) } := by
  rw [sourceCursor, ofTokens_lexed]
  cases limit with
  | none => rfl
  | some limit =>
    by_cases within : (grammarTokens source).length ≤ limit
    · simp [limitTokens, Cursor.truncate, Cursor.size, readTokens, within,
        List.take_of_length_le within]
    · simp [limitTokens, Cursor.truncate, Cursor.size, readTokens, within, Cursor.placed,
        Cursor.tokens, Cursor.index]

theorem sourceCursor_intact (source : Text) (limit : Option Nat) :
    (sourceCursor source limit).Intact := by
  rw [sourceCursor_eq]
  exact ⟨rfl, rfl⟩

theorem readTokens_of_not_cut {source : Text} {limit : Option Nat}
    (uncut : (limitTokens limit (Cursor.ofTokens (Lexed.ofText source).tokens)).2 = []) :
    readTokens source limit = grammarTokens source := by
  cases limit with
  | none => rfl
  | some limit =>
    refine List.take_of_length_le (Nat.not_lt.1 fun beyond => ?_)
    rw [ofTokens_lexed] at uncut
    simp [limitTokens, Cursor.truncate, Cursor.size, Nat.not_le.2 beyond, Cursor.tokens,
      List.getElem?_eq_getElem beyond] at uncut

theorem readTokens_ordered (source : Text) (limit : Option Nat) :
    Ordered (readTokens source limit) := by
  have ordered : Ordered (grammarTokens source) :=
    (Lexed.written_ordered source).sublist List.filter_sublist
  cases limit with
  | none => exact ordered
  | some limit => exact ordered.sublist (List.take_sublist _ _)

theorem stop_le_of_mem_readTokens {source : Text} {limit : Option Nat} {token : Token}
    (member : token ∈ readTokens source limit) : token.span.stop ≤ Text.byteSize source := by
  have inside : token ∈ grammarTokens source := by
    cases limit with
    | none => exact member
    | some limit => exact List.mem_of_mem_take member
  exact Lexed.stop_le_of_mem_written (List.mem_filter.1 inside).1

namespace Bag

theorem insertSorted_ne_nil (diagnostic : Diagnostic) (sorted : List Diagnostic) :
    insertSorted diagnostic sorted ≠ [] := by
  cases sorted with
  | nil => simp [insertSorted]
  | cons first rest =>
    rw [insertSorted]
    split <;> simp

theorem sorted_eq_nil {bag : Bag} (none : bag.sorted = []) : bag.items = [] := by
  cases items : bag.items with
  | nil => rfl
  | cons first rest =>
    rw [sorted, items] at none
    exact absurd none (insertSorted_ne_nil _ _)

theorem length_reportAll (bag : Bag) (diagnostics : List Diagnostic) :
    (bag.reportAll diagnostics).items.length = bag.items.length + diagnostics.length := by
  induction diagnostics generalizing bag with
  | nil => rfl
  | cons first rest ih =>
    rw [reportAll, List.foldl_cons, ← reportAll, ih]
    simp [report]
    omega

theorem reported_eq_nil {source : Text} {diagnostics : List Diagnostic}
    (none : ((ofSource source).reportAll diagnostics).sorted = []) : diagnostics = [] := by
  have length := length_reportAll (ofSource source) diagnostics
  rw [sorted_eq_nil none] at length
  exact List.length_eq_zero_iff.1 (by simp at length; omega)

end Bag

namespace Parser

theorem skip_total (count : Nat) : Total (skip count) := fun _ => rfl

theorem here_total : Total here := fun _ => rfl

theorem nextDeclaration_total (decl : Parser Decl) : Total (nextDeclaration decl) := by
  refine Total.bind (Total.bind here_total fun cursor => skip_total _) fun _ => ?_
  refine Total.bind here_total fun start => ?_
  split
  · exact fun _ => rfl
  · exact Total.bind (Total.recover _ _) fun _ _ => rfl

theorem nextDeclaration_ends {decl : Parser Decl} {start : Cursor}
    (ended : (nextDeclaration decl start).value = some none) :
    (nextDeclaration decl start).cursor.ahead = [] := by
  have silent : (skipLineBreaks start).value = some () := rfl
  rw [nextDeclaration, bind_of_some silent, bind_of_some rfl] at ended ⊢
  dsimp only [here] at ended ⊢
  split at ended
  · rename_i atEnd
    rw [if_pos atEnd]
    exact List.isEmpty_iff.1 atEnd
  · rename_i goesOn
    exfalso
    obtain ⟨found, some⟩ := Option.isSome_iff_exists.1
      (Total.recover decl (resynchronize (skipLineBreaks start).cursor)
        (skipLineBreaks start).cursor)
    rw [bind_of_some some] at ended
    exact absurd ended (by simp [Reply.after, pure, succeed])

theorem declarations_reads (limit : Nat) {start : Cursor} (intact : start.Intact) :
    ∃ found, (declarations limit start).value = some found ∧
      BodyReading Breaks (DeclReading limit) start.ahead found (declarations limit start).reports ∧
      (declarations limit start).missteps = [] ∧
      (declarations limit start).cursor.ahead = [] ∧
      (declarations limit start).cursor.eof = start.eof := by
  obtain ⟨missteps, used, passes, holds⟩ := declarations_sound limit start intact
  obtain ⟨total, ended⟩ := Total.many (·.ahead = []) (nextDeclaration_total _)
    (declaration_rounds limit) (fun _ => nextDeclaration_ends) intact
  obtain ⟨values, found⟩ := Option.isSome_iff_exists.1 total
  have opened : declarations limit start = _ := bind_of_some found _
  have value : (declarations limit start).value = some values.reduceOption := by
    rw [opened]
    rfl
  have stop : (declarations limit start).cursor.ahead = [] := by
    rw [opened]
    exact ended
  have whole := passes.ahead
  rw [stop, List.append_nil] at whole
  rw [value] at holds
  exact ⟨_, value, whole ▸ holds, missteps, stop, passes.eof⟩

end Parser

theorem parse_declarations (source name : Text) (limits : Limits) :
    (parse source name limits).program.declarations =
      (Parser.declarations limits.depth (sourceCursor source limits.tokens)).value.getD [] := rfl

theorem parse_diagnostics (source name : Text) (limits : Limits) :
    (parse source name limits).diagnostics =
      ((Bag.ofSource source).reportAll ((Lexed.ofText source).reports ++
        (limitTokens limits.tokens (Cursor.ofTokens (Lexed.ofText source).tokens)).2 ++
        (Parser.declarations limits.depth (sourceCursor source limits.tokens)).reports)).sorted := rfl

theorem parse_reads (source name : Text) (limits : Limits) :
    ∃ reports, BodyReading Breaks (DeclReading limits.depth) (readTokens source limits.tokens)
        (parse source name limits).program.declarations reports ∧
      ((parse source name limits).diagnostics = [] →
        reports = [] ∧ readTokens source limits.tokens = grammarTokens source) := by
  obtain ⟨found, value, reads, _⟩ :=
    Parser.declarations_reads limits.depth (sourceCursor_intact source limits.tokens)
  refine ⟨(Parser.declarations limits.depth (sourceCursor source limits.tokens)).reports, ?_, ?_⟩
  · rw [parse_declarations, value]
    simpa [sourceCursor_eq] using reads
  · intro clean
    rw [parse_diagnostics] at clean
    have silent := Bag.reported_eq_nil clean
    simp only [List.append_eq_nil_iff] at silent
    exact ⟨silent.2, readTokens_of_not_cut silent.1.2⟩

theorem parse_span (source name : Text) (limits : Limits) :
    (parse source name limits).program.span = ⟨0, Text.byteSize source⟩ := by
  obtain ⟨_, _, _, _, ended, eof⟩ :=
    Parser.declarations_reads limits.depth (sourceCursor_intact source limits.tokens)
  have last : (Parser.declarations limits.depth (sourceCursor source limits.tokens)).cursor.current =
      (sourceCursor source limits.tokens).eof := by
    simp [Cursor.current, Cursor.peek, ended, eof]
  show (⟨0, (Parser.declarations limits.depth
    (sourceCursor source limits.tokens)).cursor.current.span.stop⟩ : Span) = _
  rw [last, sourceCursor_eq]
  rfl

end MoSyntax
