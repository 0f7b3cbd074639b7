import MoSyntax.Proofs.Printing.Simple

/-!
Reading again the blocks that were printed, and all statements. Between its braces a block has one
statement on each line.
-/
namespace MoSyntax

theorem map_reduceOption {α β : Type} {view : α → β} {found : List (Option α)} (targets : List β)
    (same : found.map (Option.map view) = targets.map some) :
    found.reduceOption.map view = targets := by
  induction found generalizing targets with
  | nil =>
    rw [List.map_eq_nil_iff.1 same.symm]
    rfl
  | cons first found ih =>
    cases targets with
    | nil => simp at same
    | cons target targets =>
      obtain ⟨here, behind⟩ := List.cons.inj same
      obtain ⟨value, rfl, alike⟩ := Option.map_eq_some_iff.1 here
      have next : (some value :: found).reduceOption = value :: found.reduceOption := rfl
      rw [next, List.map_cons, alike, ih targets behind]

namespace Parser

/-- The parser reads again all statements up to a nesting. -/
def ReadsStmts (bound : Nat) (parser : Parser Stmt) : Prop :=
  ∀ tree : Stmt, tree.wellFormed → tree.nesting ≤ bound → ∀ rest, EndsLine rest →
    Gives (tree.kinds [.lineBreak] ++ rest) (·.bare = tree.bare) rest parser

namespace Gives

variable {α β ι : Type} {rest : List TokenKind}

theorem lines {step : Parser (Option α)} (write : ι → List TokenKind) (view : α → β)
    (target : ι → β) (items : List ι) (begins : ∀ item ∈ items, Begins TokenKind.startsStmt (write item))
    (gives : ∀ item ∈ items, ∀ behind, EndsLine behind →
      Gives ((.lineBreak :: write item) ++ behind) (fun found => ∃ value, found = some value ∧
        view value = target item) behind step)
    (ends : ∀ breaks : List TokenKind, (∀ kind ∈ breaks, kind = .lineBreak) →
      Gives (breaks ++ .punctuation .rightBrace :: rest) (· = none) (.punctuation .rightBrace :: rest)
        step) :
    Gives ([.lineBreak] ++
        (([.lineBreak] : List TokenKind).intercalate (items.map write) ++ [.punctuation .rightBrace]) ++ rest)
      (fun found => found.map view = items.map target) (.punctuation .rightBrace :: rest)
      (many step) := by
  cases items with
  | nil => exact (Rounds.done (ends [.lineBreak] (by simp))).many
  | cons first others =>
    have written : [.lineBreak] ++ (([.lineBreak] : List TokenKind).intercalate
        ((first :: others).map write) ++ [.punctuation .rightBrace]) ++ rest =
          (first :: others).flatMap (fun item => .lineBreak :: write item) ++
            .punctuation .rightBrace :: rest := by
      rw [List.map_cons, intercalate_cons, List.flatMap_cons, List.flatMap_map]
      simp
    rw [written]
    exact (Rounds.of_flatMap _ view target EndsLine (first :: others) (.closed rest)
      (fun item member behind => EndsLine.next (begins item member) behind) (by simp) gives
      (ends [] (by simp))).many

variable {type : Parser TypeExpr} {expr : Parser Expr} {stmt : Parser Stmt} {bound : Nat}

theorem nextStatement (stmts : ReadsStmts bound stmt) {tree : Stmt} (formed : tree.wellFormed)
    (within : tree.nesting ≤ bound) (ends : EndsLine rest) :
    Gives ((.lineBreak :: tree.kinds [.lineBreak]) ++ rest) (fun found => ∃ value,
      found = some value ∧ value.map Stmt.bare = some tree.bare) rest (Parser.nextStatement stmt) := by
  have begins := (Stmt.begins [.lineBreak] formed).append rest
  apply bind (skipLineBreaks [.lineBreak] (by simp) (ne_of_class begins.head _ rfl))
  intro _ _
  apply here_bind
  intro cursor (holds : cursor.Holds (tree.kinds [.lineBreak] ++ rest))
  obtain ⟨first, more, same, starts⟩ := begins
  rw [same] at holds
  have here : cursor.current.kind = first := holds.current
  have other := ne_of_class starts (.punctuation .rightBrace) rfl
  rw [if_neg (by simp [holds.atEnd, here, other, TokenKind.startsDeclaration_of_startsStmt starts])]
  apply bind (recover _ (stmts tree formed within rest ends))
  rintro _ ⟨value, rfl, same⟩
  exact pure ⟨_, rfl, congrArg some same⟩

theorem nextStatement_ends (breaks : List TokenKind) (all : ∀ kind ∈ breaks, kind = .lineBreak) :
    Gives (breaks ++ .punctuation .rightBrace :: rest) (· = none)
      (.punctuation .rightBrace :: rest) (Parser.nextStatement stmt) := by
  apply bind (skipLineBreaks breaks all (by simp))
  intro _ _
  apply here_bind
  intro cursor holds
  have here : cursor.current.kind = .punctuation .rightBrace := holds.current
  rw [if_pos (by simp [here])]
  exact pure rfl

theorem closeBlock (opening : Span) :
    Gives (.punctuation .rightBrace :: rest) (fun _ => True) rest (Parser.closeBlock opening) := by
  apply here_bind
  intro cursor holds
  have here : cursor.current.kind = .punctuation .rightBrace := holds.current
  rw [if_pos (by rw [here]; rfl)]
  exact advance_bind (pure trivial)

theorem block (stmts : ReadsStmts bound stmt) {body : Block} (formed : body.wellFormed)
    (within : body.nesting ≤ bound) :
    Gives (body.kinds [.lineBreak] ++ rest) (·.bare = body.bare) rest (Parser.block stmt) := by
  obtain ⟨span, statements⟩ := body
  rw [Block.wellFormed, stmtsWellFormed_eq, List.all_eq_true] at formed
  rw [Block.nesting, stmtNestings_eq, deepest_le] at within
  rw [Block.kinds, stmtKinds_eq]
  apply bind (expect _ _)
  intro opening _
  refine bind (lines _ (Option.map Stmt.bare) (fun tree => some tree.bare) statements
    (fun tree member => Stmt.begins _ (formed tree member))
    (fun tree member behind ends => nextStatement stmts (formed tree member)
      (within _ (List.mem_map_of_mem member)) ends)
    nextStatement_ends) ?_
  intro found same
  apply bind (closeBlock opening)
  intro closing _
  apply pure
  rw [Block.bare, Block.bare, stmtsBare_eq, stmtsBare_eq,
    map_reduceOption (statements.map Stmt.bare) (by rw [same, List.map_map]; rfl)]

theorem forLoop (exprs : ReadsExprs 0 bound expr) (stmts : ReadsStmts bound stmt) {condition : Expr}
    {body : Block} (formed : condition.wellFormed) (whole : body.wellFormed)
    (within : condition.nested < bound) (inner : body.nesting ≤ bound) (span : Span) :
    Gives ((Stmt.forLoop span condition body).kinds [.lineBreak] ++ rest)
      (·.bare = (Stmt.forLoop span condition body).bare) rest (Parser.forLoop expr stmt) := by
  obtain ⟨more, opens⟩ := body.begins [.lineBreak]
  rw [Stmt.kinds, List.cons_append, List.append_assoc]
  apply bind (expect _ _)
  intro opening _
  apply bind (exprs condition formed (Nat.zero_le _) within _ (by rw [opens]; rfl))
  intro value same
  refine skipLineBreaks_bind (by simp [opens]) (bind (block stmts whole inner) ?_)
  intro read alike
  exact pure (by rw [Stmt.bare, Stmt.bare, same, alike])

def elseKinds (otherwise : Option Block) : List TokenKind :=
  (otherwise.map fun body => .keyword .elseWord :: body.kinds [.lineBreak]).getD []

theorem elseBlock (stmts : ReadsStmts bound stmt) {otherwise : Option Block}
    (formed : otherwise.all Block.wellFormed)
    (within : (otherwise.map Block.nesting).getD 0 ≤ bound) (ends : EndsLine rest) :
    Gives (elseKinds otherwise ++ rest)
      (·.map Block.bare = otherwise.map Block.bare) rest (Parser.elseBlock stmt) := by
  apply here_bind
  intro cursor holds
  cases otherwise with
  | none =>
    have holds : cursor.Holds rest := holds
    have other : (cursor.peek (lineBreaksAhead cursor.ahead)).kind ≠ .keyword .elseWord := by
      rw [lineBreaksAhead, holds.takeWhile (· == .lineBreak), holds.peek]
      rcases ends with ⟨more, rfl⟩ | ⟨kind, more, rfl, starts⟩
      · simp
      · have visible := ne_of_class starts .lineBreak rfl
        have different := ne_of_class starts (.keyword .elseWord) rfl
        simpa [visible] using different
    rw [if_neg (by simpa using other)]
    exact pure rfl
  | some body =>
    obtain ⟨more, opens⟩ := body.begins [.lineBreak]
    have breaks : lineBreaksAhead cursor.ahead = 0 := by
      rw [lineBreaksAhead, holds.takeWhile (· == .lineBreak)]
      rfl
    have here : (cursor.peek 0).kind = .keyword .elseWord := holds.current
    rw [breaks, if_pos (by rw [here]; rfl)]
    apply bind (skip [.keyword .elseWord] _)
    intro _ _
    refine skipLineBreaks_bind (by simp [opens]) (bind (block stmts formed within) ?_)
    intro read same
    exact pure (congrArg some same)

theorem ifElse (exprs : ReadsExprs 0 bound expr) (stmts : ReadsStmts bound stmt) {condition : Expr}
    {consequence : Block} {otherwise : Option Block} (formed : condition.wellFormed)
    (whole : consequence.wellFormed) (others : otherwise.all Block.wellFormed)
    (within : condition.nested < bound) (inner : consequence.nesting ≤ bound)
    (shallow : (otherwise.map Block.nesting).getD 0 ≤ bound) (ends : EndsLine rest) (span : Span) :
    Gives ((Stmt.ifElse span condition consequence otherwise).kinds [.lineBreak] ++ rest)
      (·.bare = (Stmt.ifElse span condition consequence otherwise).bare) rest
      (Parser.ifElse expr stmt) := by
  obtain ⟨more, opens⟩ := consequence.begins [.lineBreak]
  have written : (Stmt.ifElse span condition consequence otherwise).kinds [.lineBreak] ++ rest =
      .keyword .ifWord :: (condition.kinds ++
        (consequence.kinds [.lineBreak] ++ (elseKinds otherwise ++ rest))) := by
    cases otherwise <;> simp [Stmt.kinds, elseKinds]
  have erased (span : Span) (condition : Expr) (consequence : Block) (otherwise : Option Block) :
      (Stmt.ifElse span condition consequence otherwise).bare =
        .ifElse (.empty 0) condition.bare consequence.bare (otherwise.map Block.bare) := by
    cases otherwise <;> rfl
  rw [written]
  apply bind (expect _ _)
  intro opening _
  apply bind (exprs condition formed (Nat.zero_le _) within _ (by rw [opens]; rfl))
  intro value same
  refine skipLineBreaks_bind (by simp [opens]) (bind (block stmts whole inner) ?_)
  intro first alike
  apply bind (elseBlock stmts others shallow ends)
  intro second equal
  exact pure (by rw [erased, erased, same, alike, equal])

theorem ret (exprs : ReadsExprs 0 bound expr) {value : Option Expr}
    (formed : value.all Expr.wellFormed) (within : (value.map Expr.nesting).getD 0 ≤ bound)
    (ends : EndsLine rest) (span : Span) :
    Gives ((Stmt.ret span value).kinds [.lineBreak] ++ rest) (·.bare = (Stmt.ret span value).bare)
      rest (Parser.ret expr) := by
  apply bind (expect _ _)
  intro opening _
  apply here_bind
  intro cursor holds
  cases value with
  | none =>
    have holds : cursor.Holds rest := holds
    have ended : (cursor.atEnd || cursor.current.kind == .lineBreak ||
        cursor.current.kind == .punctuation .rightBrace) = true := by
      rw [holds.current]
      rcases ends.upcoming_cases with same | same <;> simp [same]
    rw [if_pos ended]
    exact pure rfl
  | some value =>
    have holds : cursor.Holds (value.kinds ++ rest) := holds
    obtain ⟨first, more, same, starts⟩ := (value.begins formed).append rest
    have goesOn : ¬ (cursor.atEnd || cursor.current.kind == .lineBreak ||
        cursor.current.kind == .punctuation .rightBrace) := by
      rw [holds.atEnd, holds.current, same]
      have visible := ne_of_class starts .lineBreak rfl
      have inner := ne_of_class starts (.punctuation .rightBrace) rfl
      simp [visible, inner]
    rw [if_neg goesOn]
    apply bind (exprs value formed (Nat.zero_le _) within rest (ends.mayFollow 0))
    intro found alike
    exact pure (by rw [Stmt.bare, Stmt.bare, Option.map_some, Option.map_some, alike])

theorem defer (stmts : ReadsStmts bound stmt) {inner : Stmt} (formed : inner.wellFormed)
    (within : inner.nesting ≤ bound) (ends : EndsLine rest) (span : Span) :
    Gives ((Stmt.defer span inner).kinds [.lineBreak] ++ rest)
      (·.bare = (Stmt.defer span inner).bare) rest (Parser.defer stmt) := by
  apply bind (expect _ _)
  intro opening _
  apply bind (stmts inner formed within rest ends)
  intro found same
  exact pure (by rw [Stmt.bare, Stmt.bare, same])

theorem stmtLevel_of_simple {kinds after : List TokenKind} {shape : Stmt → Prop}
    (begins : Begins TokenKind.startsExpr kinds)
    (gives : Gives kinds shape after (Parser.simpleStatement type expr)) :
    Gives kinds shape after (Parser.stmtLevel type expr stmt) := by
  apply current_bind
  intro found kind
  have starts : found.kind.startsExpr := by
    rw [kind]
    exact begins.head
  split
  case h_6 => exact gives
  all_goals
    rename_i same
    rw [same] at starts
    exact absurd starts (by decide)

theorem stmtLevel (types : ReadsTypes bound type) (encloses : Sound Encloses type)
    (exprs : ReadsExprs 0 bound expr) (stmts : ReadsStmts bound stmt) :
    ReadsStmts (bound + 1) (Parser.stmtLevel type expr stmt) := by
  intro tree formed within rest ends
  cases simple : tree.isSimple with
  | true =>
    refine stmtLevel_of_simple ((Stmt.begins_of_simple formed simple).append rest)
      (simpleStatement types encloses exprs formed within simple ends)
  | false =>
    apply current_bind
    intro found kind
    cases tree with
    | forLoop span condition body =>
      have kind : found.kind = .keyword .forWord := kind
      simp only [Stmt.wellFormed, Bool.and_eq_true] at formed
      simp only [Stmt.nesting, Expr.nesting] at within
      rw [kind]
      exact forLoop exprs stmts formed.1 formed.2 (by omega) (by omega) span
    | ifElse span condition consequence otherwise =>
      have kind : found.kind = .keyword .ifWord := by cases otherwise <;> exact kind
      rw [kind]
      cases otherwise with
      | none =>
        simp only [Stmt.wellFormed, Bool.and_eq_true] at formed
        simp only [Stmt.nesting, Expr.nesting] at within
        exact ifElse exprs stmts formed.1 formed.2 rfl (by omega) (by omega) (Nat.zero_le _) ends span
      | some otherwise =>
        simp only [Stmt.wellFormed, Bool.and_eq_true] at formed
        simp only [Stmt.nesting, Expr.nesting] at within
        obtain ⟨⟨first, second⟩, third⟩ := formed
        have third : (some otherwise).all Block.wellFormed := third
        refine ifElse exprs stmts first second third (by omega) (by omega) ?_ ends span
        rw [Option.map_some, Option.getD_some]
        omega
    | ret span value =>
      have kind : found.kind = .keyword .retWord := kind
      rw [kind]
      simp only [Stmt.nesting] at within
      exact ret exprs formed (by omega) ends span
    | defer span inner =>
      have kind : found.kind = .keyword .deferWord := kind
      rw [kind]
      rw [Stmt.wellFormed] at formed
      simp only [Stmt.nesting] at within
      exact defer stmts formed (by omega) ends span
    | block body =>
      obtain ⟨more, opens⟩ := body.begins [.lineBreak]
      have kind : found.kind = .punctuation .leftBrace := by
        rw [kind, Stmt.kinds, opens]
        rfl
      rw [kind]
      simp only [Stmt.nesting] at within
      apply bind (block stmts formed (by omega))
      intro read same
      exact pure (by rw [Stmt.bare, Stmt.bare, same])
    | skipped span => simp [Stmt.wellFormed] at formed
    | _ => simp [Stmt.isSimple] at simple

end Gives

theorem statement_reads (limit budget : Nat) (within : budget ≤ limit) :
    ReadsStmts budget (statement limit budget) := by
  induction budget with
  | zero =>
    intro tree _ shallow
    exact absurd tree.nesting_pos (Nat.not_lt.2 shallow)
  | succ budget ih =>
    intro tree formed shallow rest ends
    exact Gives.inside _ (Gives.stmtLevel (typeExpr_reads limit budget)
      (typeExpr_encloses limit budget (by omega)) (expression_reads limit budget) (ih (by omega))
      tree formed shallow rest ends)

end Parser

end MoSyntax
