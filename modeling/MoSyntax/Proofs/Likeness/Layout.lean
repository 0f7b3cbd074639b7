import MoSyntax.Proofs.Likeness.Bare
import MoSyntax.Proofs.Likeness.Decl
import MoSyntax.Proofs.Printing.Lexing

/-!
The layout of a source does not matter. Where two sources have the same tokens, apart from comments
and from the number of line breaks in a row, and the operators that are close to a sign of assignment
are so in both, the same tree is read and the same is reported, apart from all places.
-/
namespace MoSyntax

def visible (source : Text) : List Token := (Lexed.ofText source).tokens.filter (!·.isComment)

/-- Each run of line breaks becomes one. -/
def collapse : List Token → List Token
  | [] => []
  | token :: rest =>
    if token.kind = .lineBreak ∧ (rest.head?.map Token.kind) = some .lineBreak then collapse rest
    else token :: collapse rest

/-- The same token but for its place. Of a line break the text does not count. -/
def Token.Same (first second : Token) : Prop :=
  first.kind = second.kind ∧ (first.kind ≠ .lineBreak → first.lexeme = second.lexeme)

instance (first second : Token) : Decidable (first.Same second) :=
  inferInstanceAs (Decidable (_ ∧ _))

def TokenKind.isOperator : TokenKind → Bool
  | operator _ => true
  | _ => false

/-- For each token, whether it is an operator that a sign of assignment directly follows without a
gap. -/
def joints : List Token → List Bool
  | [] => []
  | token :: rest => (token.kind.isOperator && Comparison.joins token rest) :: joints rest

/-- Two sources that differ in their layout only. -/
structure SameButLayout (first second : Text) : Prop where
  tokens : List.Forall₂ Token.Same (collapse (visible first)) (collapse (visible second))
  close : joints (collapse (visible first)) = joints (collapse (visible second))

def Diagnostic.bare (diagnostic : Diagnostic) : Diagnostic :=
  { diagnostic.relocate fun _ => 0 with position := ⟨0, 0⟩ }

namespace Bag

def ofParse (source : Text) (limits : Limits) : Bag :=
  (ofSource source).reportAll ((Lexed.ofText source).reports ++
    (limitTokens limits.tokens (Cursor.ofTokens (Lexed.ofText source).tokens)).2 ++
    (Parser.declarations limits.depth (sourceCursor source limits.tokens)).reports)

def beyondLexing (bag : Bag) : List Diagnostic :=
  bag.items.filter fun diagnostic => diagnostic.fault.category != .lexical

end Bag

theorem parse_diagnostics_sorted (source name : Text) (limits : Limits) :
    (parse source name limits).diagnostics = (Bag.ofParse source limits).sorted := rfl

theorem collapse_eq_nil {tokens : List Token} (none : collapse tokens = []) : tokens = [] := by
  induction tokens with
  | nil => rfl
  | cons token rest ih =>
    rw [collapse] at none
    split at none
    · rename_i run
      rw [ih none] at run
      simp at run
    · simp at none

theorem head?_collapse (tokens : List Token) :
    (collapse tokens).head?.map Token.kind = tokens.head?.map Token.kind := by
  induction tokens with
  | nil => rfl
  | cons token rest ih =>
    rw [collapse]
    split
    · rename_i run
      rw [ih, run.2, List.head?_cons, Option.map_some, run.1]
    · rfl

theorem joins_eq_false {token : Token} {rest : List Token}
    (breaks : rest.head?.map Token.kind = some .lineBreak) : Comparison.joins token rest = false := by
  obtain ⟨next, head, kind⟩ := Option.map_eq_some_iff.1 breaks
  simp [Comparison.joins, head, kind]

theorem joins_collapse (token : Token) (rest : List Token) :
    Comparison.joins token (collapse rest) = Comparison.joins token rest := by
  cases rest with
  | nil => rfl
  | cons first rest =>
    rw [collapse]
    split
    · rename_i run
      rw [joins_eq_false (by rw [head?_collapse, run.2]), joins_eq_false (by simp [run.1])]
    · rfl

/-- What is kept of a list has only line breaks before it, and those of its own run. -/
theorem exists_of_collapse {tokens tail : List Token} {first : Token}
    (kept : collapse tokens = first :: tail) :
    ∃ run rest, tokens = run ++ first :: rest ∧ collapse rest = tail ∧
      (∀ token ∈ run, token.kind = .lineBreak) ∧ (run ≠ [] → first.kind = .lineBreak) := by
  induction tokens with
  | nil => simp [collapse] at kept
  | cons token tokens ih =>
    rw [collapse] at kept
    split at kept
    · rename_i breaks
      obtain ⟨run, rest, rfl, behind, all, same⟩ := ih kept
      refine ⟨token :: run, rest, rfl, behind, List.forall_mem_cons.2 ⟨breaks.1, all⟩, fun _ => ?_⟩
      cases run with
      | nil => simpa using breaks.2
      | cons next run => exact same (List.cons_ne_nil _ _)
    · obtain ⟨rfl, rfl⟩ := List.cons.inj kept
      exact ⟨[], tokens, rfl, rfl, by simp, by simp⟩

theorem collapse_append (tokens : List Token) {last : Token} (plain : last.kind ≠ .lineBreak) :
    collapse (tokens ++ [last]) = collapse tokens ++ [last] := by
  induction tokens with
  | nil => simp [collapse]
  | cons token rest ih =>
    rw [List.cons_append, collapse, collapse, ih]
    cases rest with
    | nil => simp [plain]
    | cons next rest =>
      by_cases run : token.kind = .lineBreak ∧ next.kind = .lineBreak
      · simp [run]
      · simp [run]

namespace Comparison

/-- The comparison that does not see places. -/
def placeless : Comparison := ⟨fun _ => 0, fun _ => 0, []⟩

variable {depth : Nat} {run rest others : List Token} {first : Token}

theorem Aligned.run_left (breaks : ∀ token ∈ run, token.kind = .lineBreak)
    (same : run ≠ [] → first.kind = .lineBreak)
    (aligned : placeless.Aligned depth (first :: rest) others) :
    placeless.Aligned depth (run ++ first :: rest) others := by
  induction run with
  | nil => exact aligned
  | cons token run ih =>
    obtain ⟨feed, all⟩ := List.forall_mem_cons.1 breaks
    have inner := ih all fun _ => same (List.cons_ne_nil _ _)
    cases run with
    | nil => exact .left feed (same (List.cons_ne_nil _ _)) rfl inner
    | cons next run => exact .left feed (all next List.mem_cons_self) rfl inner

theorem Aligned.run_right (breaks : ∀ token ∈ run, token.kind = .lineBreak)
    (same : run ≠ [] → first.kind = .lineBreak)
    (aligned : placeless.Aligned depth others (first :: rest)) :
    placeless.Aligned depth others (run ++ first :: rest) := by
  induction run with
  | nil => exact aligned
  | cons token run ih =>
    obtain ⟨feed, all⟩ := List.forall_mem_cons.1 breaks
    have inner := ih all fun _ => same (List.cons_ne_nil _ _)
    cases run with
    | nil => exact .right feed (same (List.cons_ne_nil _ _)) rfl inner
    | cons next run => exact .right feed (all next List.mem_cons_self) rfl inner

theorem placeless_aligned
    (tokens : List.Forall₂ Token.Same (collapse rest) (collapse others))
    (joined : joints (collapse rest) = joints (collapse others)) :
    placeless.Aligned depth rest others := by
  generalize left : collapse rest = kept at tokens joined
  generalize right : collapse others = kept' at tokens joined
  induction tokens generalizing rest others with
  | nil =>
    rw [collapse_eq_nil left, collapse_eq_nil right]
    exact .ended rfl
  | cons alike tokens ih =>
    obtain ⟨run, rest, rfl, behind, breaks, same⟩ := exists_of_collapse left
    obtain ⟨run', others, rfl, behind', breaks', same'⟩ := exists_of_collapse right
    obtain ⟨here, further⟩ := List.cons.inj joined
    refine .run_left breaks same (.run_right breaks' same' ?_)
    refine .token ⟨alike.1, alike.2, rfl⟩ (fun sign operator => ?_) (absurd rfl)
      (ih behind behind' further)
    rw [← behind, ← behind', joins_collapse, joins_collapse, ← alike.1, operator] at here
    simpa [TokenKind.isOperator] using here

end Comparison

/-! The end of the file stands behind the other tokens. -/

theorem visible_eq (source : Text) :
    visible source = grammarTokens source ++ [.endOfFile (Text.byteSize source)
      ((LineTable.ofText source).position (Text.byteSize source))] := by
  simp [visible, Lexed.ofText_tokens, grammarTokens, Token.isComment, Token.endOfFile]

theorem joints_append (tokens : List Token) {last : Token} (ended : last.kind = .endOfFile) :
    joints (tokens ++ [last]) = joints tokens ++ [false] := by
  induction tokens with
  | nil => simp [joints, ended, TokenKind.isOperator]
  | cons token rest ih =>
    have same : Comparison.joins token (rest ++ [last]) = Comparison.joins token rest := by
      cases rest with
      | nil => simp [Comparison.joins, ended]
      | cons next rest => rfl
    rw [List.cons_append, joints, joints, ih, same, List.cons_append]

theorem SameButLayout.grammar {first second : Text} (alike : SameButLayout first second) :
    List.Forall₂ Token.Same (collapse (grammarTokens first)) (collapse (grammarTokens second)) ∧
      joints (collapse (grammarTokens first)) = joints (collapse (grammarTokens second)) := by
  obtain ⟨tokens, joined⟩ := alike
  rw [visible_eq, visible_eq, collapse_append _ (by simp [Token.endOfFile]),
    collapse_append _ (by simp [Token.endOfFile])] at tokens joined
  rw [joints_append _ rfl, joints_append _ rfl] at joined
  refine ⟨?_, List.append_cancel_right joined⟩
  have length := tokens.length_eq
  simp only [List.length_append, List.length_singleton, Nat.add_right_cancel_iff] at length
  have front := List.forall₂_take_append _ _ _ tokens
  rwa [← length, List.take_left] at front

theorem SameButLayout.cursors {first second : Text} (alike : SameButLayout first second) :
    Comparison.placeless.Cursors False 0 (sourceCursor first none) (sourceCursor second none) := by
  obtain ⟨tokens, joined⟩ := alike.grammar
  refine ⟨sourceCursor_intact _ _, sourceCursor_intact _ _, ?_, fun _ => ?_, False.elim⟩
  · rw [sourceCursor_eq, sourceCursor_eq]
    exact Comparison.placeless_aligned tokens joined
  · rw [sourceCursor_eq, sourceCursor_eq]
    exact ⟨rfl, fun _ => rfl, rfl⟩

theorem Comparison.grammatical_of_reports {c : Comparison} {reports reports' : List Diagnostic}
    (same : List.Forall₂ c.Reports reports reports') :
    (∀ report ∈ reports, report.fault.category ≠ .lexical) ∧
      ∀ report ∈ reports', report.fault.category ≠ .lexical := by
  induction same with
  | nil => simp
  | cons head _ ih =>
    have fault := congrArg Diagnostic.fault head.same
    refine ⟨List.forall_mem_cons.2 ⟨head.grammatical, ih.1⟩, List.forall_mem_cons.2 ⟨?_, ih.2⟩⟩
    exact fun lexical => head.grammatical ((congrArg Fault.category fault).trans lexical)

/-! What the lexer reports is told from the rest by its category. -/

theorem PlacedPiece.lexical_of_mem {placed : PlacedPiece} {report : Diagnostic}
    (member : report ∈ placed.reports) : report.fault.category = .lexical := by
  cases flaw_of_mem_reports member <;> rfl

theorem Lexed.lexical_of_mem {source : Text} {report : Diagnostic}
    (member : report ∈ (ofText source).reports) : report.fault.category = .lexical := by
  obtain ⟨placed, _, told⟩ := List.mem_flatMap.1 member
  exact PlacedPiece.lexical_of_mem told

namespace Bag

theorem place_fault (bag : Bag) (diagnostic : Diagnostic) :
    (bag.place diagnostic).fault = diagnostic.fault := by
  unfold place
  split <;> rfl

theorem place_bare (bag : Bag) (diagnostic : Diagnostic) :
    (bag.place diagnostic).bare = diagnostic.bare := by
  unfold place
  split <;> rfl

theorem beyondLexing_ofParse (source : Text) (depth : Nat)
    (grammatical : ∀ report ∈ (Parser.declarations depth (sourceCursor source none)).reports,
      report.fault.category ≠ .lexical) :
    (ofParse source ⟨depth, none⟩).beyondLexing =
      (Parser.declarations depth (sourceCursor source none)).reports.map (ofSource source).place := by
  have uncut : (limitTokens none (Cursor.ofTokens (Lexed.ofText source).tokens)).2 = [] := rfl
  have items : (ofSource source).items = [] := rfl
  rw [beyondLexing, ofParse, items_reportAll, items, uncut, List.nil_append, List.append_nil,
    List.map_append, List.filter_append, List.filter_eq_nil_iff.2, List.filter_eq_self.2]
  · rfl
  · intro report member
    obtain ⟨report, told, rfl⟩ := List.mem_map.1 member
    simpa [place_fault] using grammatical report told
  · intro report member
    obtain ⟨report, told, rfl⟩ := List.mem_map.1 member
    simpa [place_fault] using Lexed.lexical_of_mem told

end Bag

/-- Sources that differ in their layout only have the same tree and the same reports, apart from
all places. -/
theorem parse_layout {first second : Text} (alike : SameButLayout first second)
    (name other : Text) (depth : Nat) :
    (parse first name ⟨depth, none⟩).program.bare = (parse second other ⟨depth, none⟩).program.bare ∧
      (Bag.ofParse first ⟨depth, none⟩).beyondLexing.map Diagnostic.bare =
        (Bag.ofParse second ⟨depth, none⟩).beyondLexing.map Diagnostic.bare := by
  obtain ⟨declared, reports⟩ := alike.cursors.declarations rfl depth
  obtain ⟨grammatical, grammatical'⟩ := Comparison.grammatical_of_reports reports
  refine ⟨Program.bare_eq (fun _ => 0) ?_, ?_⟩
  · rw [parse_declarations, parse_declarations]
    exact Comparison.map_eq (fun _ _ alike => alike) declared
  · have bare (source : Text) : Diagnostic.bare ∘ (Bag.ofSource source).place = Diagnostic.bare :=
      funext (Bag.place_bare _)
    rw [Bag.beyondLexing_ofParse _ _ grammatical, Bag.beyondLexing_ofParse _ _ grammatical',
      List.map_map, List.map_map, bare, bare]
    refine Comparison.map_eq (fun report report' same => ?_) reports
    exact congrArg (fun told : Diagnostic => { told with position := ⟨0, 0⟩ }) same.same

/-- The compound assignment is reported in both sources, because its signs are apart in both. -/
theorem parse_layout_spaced :
    SameButLayout "fn f() \x7b\n\n  x + = 1 // apart\n\x7d".toList
        "fn f()\x7b\nx  +  =1\r\n\n\x7d".toList ∧
      (parse "fn f() \x7b\n\n  x + = 1 // apart\n\x7d".toList unnamed ⟨64, none⟩).program.bare =
        (parse "fn f()\x7b\nx  +  =1\r\n\n\x7d".toList unnamed ⟨64, none⟩).program.bare ∧
      (Bag.ofParse "fn f() \x7b\n\n  x + = 1 // apart\n\x7d".toList ⟨64, none⟩).beyondLexing.map
          Diagnostic.bare =
        (Bag.ofParse "fn f()\x7b\nx  +  =1\r\n\n\x7d".toList ⟨64, none⟩).beyondLexing.map
          Diagnostic.bare := by
  have alike : SameButLayout "fn f() \x7b\n\n  x + = 1 // apart\n\x7d".toList
      "fn f()\x7b\nx  +  =1\r\n\n\x7d".toList := ⟨by decide +kernel, by decide +kernel⟩
  exact ⟨alike, parse_layout alike _ _ _⟩

end MoSyntax
