import MoSyntax.Proofs.Printing.Trial

/-!
Reading again the statements that begin with no keyword. What is no declaration is declined as one,
and an expression is declined as an assignment: behind the operand that it begins with comes the end
of the statement or a binary operator, and behind that operator there is no `=`.
-/
namespace MoSyntax

open Skip (Balanced)

/-- The operand that an expression begins with, and what is left behind it: nothing, or an operator
and what begins an expression. -/
structure Lead (first : Expr) (more : List TokenKind) (tree : Expr) : Prop where
  kinds : tree.kinds = first.kinds ++ more
  formed : first.wellFormed
  tight : 4 ≤ first.level
  within : first.nested ≤ tree.nested
  more : more = [] ∨ ∃ (operator : BinaryOperator) (others : List TokenKind),
    more = .operator operator.sign :: others ∧ Begins TokenKind.startsExpr others

theorem Lead.whole {tree : Expr} (formed : tree.wellFormed) (tight : 4 ≤ tree.level) :
    Lead tree [] tree where
  kinds := by simp
  formed := formed
  tight := tight
  within := Nat.le_refl _
  more := .inl rfl

theorem Expr.lead : (tree : Expr) → tree.wellFormed → ∃ first more, Lead first more tree
  | .binary _ tier left operator right, formed => by
    simp only [wellFormed, Bool.and_eq_true] at formed
    obtain ⟨⟨_, before⟩, behind⟩ := formed
    obtain ⟨first, more, lead⟩ := Expr.lead left before
    refine ⟨first, more ++ .operator operator.value.sign :: right.kinds, ?_, lead.formed, lead.tight,
      ?_, ?_⟩
    · rw [kinds, lead.kinds, List.append_assoc]
    · have := lead.within
      rw [nested]
      omega
    · rcases lead.more with rfl | ⟨sign, others, rfl, begins⟩
      · exact .inr ⟨_, _, rfl, right.begins behind⟩
      · exact .inr ⟨sign, _, rfl, begins.append _⟩
  | .unary _ _ _, formed => ⟨_, [], .whole formed (Nat.le_refl 4)⟩
  | .chain _ _ _, formed => ⟨_, [], .whole formed (Nat.le_succ 4)⟩
  | .number _ _, formed | .string _ _, formed | .bool _ _, formed | .named _, formed
  | .index _ _ _, formed | .call _ _ _, formed | .array _ _ _, formed | .grouped _ _, formed
  | .skipped _, formed => ⟨_, [], .whole formed (Nat.le_add_right 4 2)⟩

namespace Parser.Gives

variable {type : Parser TypeExpr} {expr : Parser Expr} {bound : Nat} {kinds rest : List TokenKind}

theorem declaration_declines (types : Sound Encloses type) (some : kinds ≠ [])
    (balanced : Balanced kinds) (plain : .operator .declare ∉ kinds)
    (ends : Skip.endsStatement (upcoming rest)) :
    Gives (kinds ++ rest) (· = none) (kinds ++ rest) (Parser.declaration type expr) := by
  obtain ⟨first, others, rfl⟩ := List.exists_cons_of_ne_nil some
  apply here_bind
  intro cursor holds
  have here : cursor.current.kind = first := holds.current
  have next : (cursor.peek 1).kind = upcoming (others ++ rest) := by
    rw [holds.peek]
    cases others with
    | nil => cases rest <;> rfl
    | cons second others => rfl
  have other : (cursor.peek 1).kind ≠ .operator .declare := by
    rw [next]
    intro same
    cases others with
    | nil =>
      rw [List.nil_append] at same
      rw [same] at ends
      exact absurd ends (by decide)
    | cons second others => exact plain (by simp [show second = _ from same])
  cases word : cursor.current.kind with
  | identifier name =>
    rw [if_neg (by simp [TokenKind.isIdentifier]), if_neg (by simpa using other)]
    obtain rfl : first = .identifier name := here.symm.trans word
    have behind : Balanced others := fun depth => balanced depth
    refine bind (attempt_of_fails .typedDeclaration (typedHead_fails types behind
      (fun member => plain (List.mem_cons_of_mem _ member)) ends)) ?_
    rintro _ rfl
    exact pure rfl
  | _ =>
    rw [if_pos (by simp [TokenKind.isIdentifier])]
    exact pure rfl

theorem declare_inferred (exprs : ReadsExprs 0 bound expr) {value : Expr} (formed : value.wellFormed)
    (within : value.nested < bound) (follows : (upcoming rest).mayFollow 0) (span : Span)
    (name : Ident) :
    Gives ((Stmt.declare span name none value).kinds [.lineBreak] ++ rest)
      (fun found => ∃ tree, found = some tree ∧
        tree.bare = (Stmt.declare span name none value).bare) rest
      (Parser.declaration type expr) := by
  apply here_bind
  intro cursor holds
  have here : cursor.current.kind = .identifier name.name := holds.current
  have next : (cursor.peek 1).kind = .operator .declare := holds.peek 1
  rw [if_neg (by simp [here, TokenKind.isIdentifier]), if_pos (by rw [next]; rfl)]
  apply bind (ident name _)
  intro declared same
  refine advance_bind (bind (exprs value formed (Nat.zero_le _) within rest follows) ?_)
  intro found alike
  exact pure ⟨_, rfl, by rw [Stmt.bare, Stmt.bare, same, alike]⟩

theorem typedHead (types : ReadsTypes bound type) {declared : TypeExpr}
    (formed : declared.wellFormed) (within : declared.nesting ≤ bound) (name : Ident) :
    Gives (name.kinds ++ (declared.kinds ++ .operator .declare :: rest))
      (fun found => found.1.bare = name.bare ∧ found.2.bare = declared.bare) rest
      (Parser.typedHead type) := by
  apply bind (ident name _)
  intro found same
  apply bind (types declared formed within _ (by simp))
  intro value alike
  exact bind (expect _ _) fun _ _ => pure ⟨same, alike⟩

theorem declare_typed (types : ReadsTypes bound type) (exprs : ReadsExprs 0 bound expr)
    {declared : TypeExpr} {value : Expr} (typed : declared.wellFormed) (formed : value.wellFormed)
    (shallow : declared.nesting ≤ bound) (within : value.nested < bound)
    (follows : (upcoming rest).mayFollow 0) (span : Span) (name : Ident) :
    Gives ((Stmt.declare span name (some declared) value).kinds [.lineBreak] ++ rest)
      (fun found => ∃ tree, found = some tree ∧
        tree.bare = (Stmt.declare span name (some declared) value).bare) rest
      (Parser.declaration type expr) := by
  have written : (Stmt.declare span name (some declared) value).kinds [.lineBreak] ++ rest =
      name.kinds ++ (declared.kinds ++ .operator .declare :: (value.kinds ++ rest)) := by
    simp [Stmt.kinds]
  rw [written]
  apply here_bind
  intro cursor holds
  have here : cursor.current.kind = .identifier name.name := holds.current
  obtain ⟨first, more, same, starts⟩ := TypeExpr.begins typed
  have next : (cursor.peek 1).kind = first := by
    rw [holds.peek, same]
    rfl
  have other := ne_of_class starts (.operator .declare) rfl
  rw [if_neg (by simp [here, TokenKind.isIdentifier]), if_neg (by simpa [next] using other)]
  apply bind (attempt .typedDeclaration (typedHead types typed shallow name))
  rintro _ ⟨⟨found, read⟩, rfl, same, alike⟩
  apply bind (exprs value formed (Nat.zero_le _) within rest follows)
  intro last equal
  refine pure ⟨_, rfl, ?_⟩
  rw [Stmt.bare, Stmt.bare, same, equal, Option.map_some, Option.map_some, alike]

variable {target : Parser Expr}

theorem assignment_assign (targets : ReadsExprs 4 (bound + 1) target) (exprs : ReadsExprs 0 bound expr)
    {place value : Expr} (tight : 4 ≤ place.level) (formed : place.wellFormed)
    (whole : value.wellFormed) (within : place.nested ≤ bound) (inner : value.nested < bound)
    (follows : (upcoming rest).mayFollow 0) (span : Span) :
    Gives ((Stmt.assign span place value).kinds [.lineBreak] ++ rest)
      (fun found => ∃ tree, found = some tree ∧ tree.bare = (Stmt.assign span place value).bare) rest
      (Parser.assignment target expr) := by
  rw [Stmt.kinds, List.append_assoc, List.cons_append]
  apply bind (targets place formed tight (by omega) _ rfl)
  intro found same
  apply here_bind
  intro cursor _
  apply bind (accept _)
  rintro _ rfl
  apply bind (exprs value whole (Nat.zero_le _) inner rest follows)
  intro last alike
  exact pure ⟨_, rfl, by rw [Stmt.bare, Stmt.bare, same, alike]⟩

theorem ofCompoundSign?_sign {operator : BinaryOperator} (compounds : operator.compounds) :
    BinaryOperator.ofCompoundSign? operator.sign = some operator := by
  cases operator <;> first | rfl | exact absurd compounds (by decide)

theorem assignment_compound (targets : ReadsExprs 4 (bound + 1) target) (exprs : ReadsExprs 0 bound expr)
    {place value : Expr} {operator : Located BinaryOperator} (compounds : operator.value.compounds)
    (tight : 4 ≤ place.level) (formed : place.wellFormed) (whole : value.wellFormed)
    (within : place.nested ≤ bound) (inner : value.nested < bound)
    (follows : (upcoming rest).mayFollow 0) (span : Span) :
    Gives ((Stmt.compoundAssign span place operator value).kinds [.lineBreak] ++ rest)
      (fun found => ∃ tree, found = some tree ∧
        tree.bare = (Stmt.compoundAssign span place operator value).bare) rest
      (Parser.assignment target expr) := by
  rw [Stmt.kinds, List.append_assoc, List.cons_append, List.cons_append]
  have means := ofCompoundSign?_sign compounds
  have plain : operator.value.sign ≠ .assign := by cases operator.value <;> simp [BinaryOperator.sign]
  have mayStand : (TokenKind.operator operator.value.sign).mayFollow 4 := by
    cases operator.value <;> rfl
  refine bind (targets place formed tight (by omega) _ mayStand) ?_
  intro found same
  apply here_bind
  intro cursor holds
  apply bind (accept_of_ne (by simpa using plain))
  rintro _ rfl
  have sign : cursor.current.kind = .operator operator.value.sign := holds.current
  have equals : (cursor.peek 1).kind = .operator .assign := holds.peek 1
  have found' : compoundOperator? cursor = some (operator.value.sign, operator.value) := by
    rw [compoundOperator?, sign]
    simp [equals, means]
  have close : cursor.current.span.stop = (cursor.peek 1).span.start := by
    have glued := holds.glued
    have map := holds.kinds
    match ahead : cursor.ahead with
    | [] => simp [ahead] at map
    | [_] => simp [ahead] at map
    | first :: second :: others =>
      rw [ahead] at glued
      have one : cursor.current = first := by simp [Cursor.current, Cursor.peek, ahead]
      have two : cursor.peek 1 = second := by simp [Cursor.peek, ahead]
      rw [one] at sign ⊢
      rw [two] at equals ⊢
      exact glued.1 (by rw [sign, equals]; simp [TokenKind.compound, means])
  rw [if_neg Bool.false_ne_true, found']
  dsimp only
  rw [if_pos (by simpa using close)]
  apply bind (skip [.operator operator.value.sign, .operator .assign] _)
  intro _ _
  apply bind (exprs value whole (Nat.zero_le _) inner rest follows)
  intro last alike
  exact pure ⟨_, rfl, by rw [Stmt.bare, Stmt.bare, same, alike]; rfl⟩

/-- An expression is read as far as its first operand, and then it is no assignment. -/
theorem assignment_declines (targets : ReadsExprs 4 (bound + 1) target) {value : Expr}
    (formed : value.wellFormed) (within : value.nested < bound)
    (ends : EndsLine rest) :
    ∃ left, Gives (value.kinds ++ rest) (· = none) left (Parser.assignment target expr) := by
  obtain ⟨first, more, lead⟩ := value.lead formed
  have inner := lead.within
  refine ⟨more ++ rest, ?_⟩
  rw [lead.kinds, List.append_assoc]
  have follows : (upcoming (more ++ rest)).mayFollow 4 := by
    rcases lead.more with rfl | ⟨operator, others, rfl, _⟩
    · exact ends.mayFollow 4
    · cases operator <;> rfl
  have plain : upcoming (more ++ rest) ≠ .operator .assign := by
    rcases lead.more with rfl | ⟨operator, others, rfl, _⟩
    · rcases ends.upcoming_cases with same | same <;> simp [same]
    · cases operator <;> simp [BinaryOperator.sign]
  apply bind (targets first lead.formed lead.tight (by omega) _ follows)
  intro found _
  apply here_bind
  intro cursor holds
  apply bind (accept_of_ne plain)
  rintro _ rfl
  have none : compoundOperator? cursor = none := by
    have here := holds.current
    rcases lead.more with rfl | ⟨operator, others, rfl, begins⟩
    · rw [compoundOperator?, here]
      rcases ends.upcoming_cases with same | same <;> simp [same]
    · have next : (cursor.peek 1).kind = upcoming (others ++ rest) := by
        rw [holds.peek]
        obtain ⟨second, others, rfl, _⟩ := begins
        rfl
      have other := ne_of_class (begins.append rest).head (.operator .assign) rfl
      rw [compoundOperator?, here]
      simp [next, other]
  rw [none]
  exact pure rfl

section Choice

variable {before after : List TokenKind} {shape : Stmt → Prop}

theorem simple_of_declared (declared : Gives before
      (fun found => ∃ tree, found = some tree ∧ shape tree) after (Parser.declaration type expr)) :
    Gives before shape after (simpleStatement type expr) := by
  apply bind declared
  rintro _ ⟨tree, rfl, shaped⟩
  exact pure shaped

theorem simple_of_assigned
    (declines : Gives before (· = none) before (Parser.declaration type expr))
    (assigned : Gives before (fun found => ∃ tree, found = some tree ∧ shape tree) after
      (Parser.assignment (Parser.unary type expr) expr)) :
    Gives before shape after (simpleStatement type expr) := by
  apply bind declines
  rintro _ rfl
  exact unlessDeclined assigned

end Choice

variable {tree : Stmt}

theorem not_declare_mem (value : Expr) : .operator .declare ∉ value.kinds :=
  fun member => absurd (value.inExpr_of_mem _ member) (by decide)

theorem simpleStatement (types : ReadsTypes bound type) (encloses : Sound Encloses type)
    (exprs : ReadsExprs 0 bound expr) (formed : tree.wellFormed) (within : tree.nesting ≤ bound + 1)
    (simple : tree.isSimple) (ends : EndsLine rest) :
    Gives (tree.kinds [.lineBreak] ++ rest) (·.bare = tree.bare) rest
      (Parser.simpleStatement type expr) := by
  have targets := unary types exprs
  cases tree with
  | declare span name declared value =>
    simp only [Stmt.wellFormed, Bool.and_eq_true] at formed
    obtain ⟨typed, whole⟩ := formed
    simp only [Stmt.nesting, Expr.nesting] at within
    refine simple_of_declared ?_
    cases declared with
    | none => exact declare_inferred exprs whole (by omega) (ends.mayFollow 0) span name
    | some declared =>
      simp only [Option.map_some, Option.getD_some] at within
      exact declare_typed types exprs typed whole (by omega) (by omega) (ends.mayFollow 0) span name
  | assign span place value =>
    simp only [Stmt.wellFormed, Bool.and_eq_true, decide_eq_true_eq] at formed
    obtain ⟨⟨tight, whole⟩, right⟩ := formed
    simp only [Stmt.nesting, Expr.nesting] at within
    refine simple_of_assigned (declaration_declines encloses ?_ ?_ ?_ ends.endsStatement)
      (assignment_assign targets exprs tight whole right (by omega) (by omega) (ends.mayFollow 0) span)
    · simp [Stmt.kinds]
    · exact place.balanced.append (Balanced.cons rfl rfl value.balanced)
    · simp [Stmt.kinds, not_declare_mem]
  | compoundAssign span place operator value =>
    simp only [Stmt.wellFormed, Bool.and_eq_true, decide_eq_true_eq] at formed
    obtain ⟨⟨⟨compounds, tight⟩, whole⟩, right⟩ := formed
    simp only [Stmt.nesting, Expr.nesting] at within
    refine simple_of_assigned (declaration_declines encloses ?_ ?_ ?_ ends.endsStatement)
      (assignment_compound targets exprs compounds tight whole right (by omega) (by omega)
        (ends.mayFollow 0) span)
    · simp [Stmt.kinds]
    · exact place.balanced.append (Balanced.cons rfl rfl (Balanced.cons rfl rfl value.balanced))
    · have other : operator.value.sign ≠ .declare := by
        cases operator.value <;> simp [BinaryOperator.sign]
      simp [Stmt.kinds, not_declare_mem, other.symm]
  | expression value =>
    rw [Stmt.wellFormed] at formed
    simp only [Stmt.nesting, Expr.nesting] at within
    refine bind (declaration_declines encloses (value.begins formed).ne_nil value.balanced
      (not_declare_mem value) ends.endsStatement) ?_
    rintro _ rfl
    obtain ⟨left, declines⟩ := assignment_declines targets formed (by omega) ends
    refine unlessDeclined_of_declined declines (current_bind fun _ _ => note_bind ?_)
    apply bind (exprs value formed (Nat.zero_le _) (by omega) rest (ends.mayFollow 0))
    intro found same
    exact pure (by rw [Stmt.bare, Stmt.bare, same])
  | _ => simp [Stmt.isSimple] at simple

end Parser.Gives

end MoSyntax
