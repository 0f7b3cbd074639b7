import MoSyntax.Proofs.Likeness.TypeExpr

/-! Expressions, read from two texts. All of an expression stands inside of brackets. -/
namespace MoSyntax.Comparison

open MoSyntax.Parser

variable {c : Comparison}

namespace Exprs

variable {span span' : Span}

theorem number (spans : c.Spans span span') (value : NumberLiteral) :
    c.Exprs (.number span value) (.number span' value) :=
  ⟨by rw [Expr.relocate, Expr.relocate, spans.eq], spans⟩

theorem string (spans : c.Spans span span') (value : Text) :
    c.Exprs (.string span value) (.string span' value) :=
  ⟨by rw [Expr.relocate, Expr.relocate, spans.eq], spans⟩

theorem bool (spans : c.Spans span span') (value : Bool) :
    c.Exprs (.bool span value) (.bool span' value) :=
  ⟨by rw [Expr.relocate, Expr.relocate, spans.eq], spans⟩

theorem skipped (spans : c.Spans span span') : c.Exprs (.skipped span) (.skipped span') :=
  ⟨by rw [Expr.relocate, Expr.relocate, spans.eq], spans⟩

theorem named {name name' : Name} (alike : c.Names name name') :
    c.Exprs (.named name) (.named name') :=
  ⟨by rw [Expr.relocate, Expr.relocate, alike.tree], alike.span⟩

theorem index {target target' : Name} {position position' : Expr} (spans : c.Spans span span')
    (targets : c.Names target target') (positions : c.Exprs position position') :
    c.Exprs (.index span target position) (.index span' target' position') :=
  ⟨by rw [Expr.relocate, Expr.relocate, spans.eq, targets.tree, positions.tree], spans⟩

theorem exprsRelocate {exprs exprs' : List Expr} (alike : List.Forall₂ c.Exprs exprs exprs') :
    exprsRelocate c.left exprs = exprsRelocate c.right exprs' := by
  rw [exprsRelocate_eq, exprsRelocate_eq, map_eq (fun _ _ alike => alike.tree) alike]

theorem call {callee callee' : Name} {arguments arguments' : List Expr}
    (spans : c.Spans span span') (callees : c.Names callee callee')
    (alike : List.Forall₂ c.Exprs arguments arguments') :
    c.Exprs (.call span callee arguments) (.call span' callee' arguments') :=
  ⟨by rw [Expr.relocate, Expr.relocate, spans.eq, callees.tree, exprsRelocate alike], spans⟩

theorem array {elements elements' : List Expr} {type type' : Option TypeExpr}
    (spans : c.Spans span span') (alike : List.Forall₂ c.Exprs elements elements')
    (types : Option.Rel c.Types type type') :
    c.Exprs (.array span elements type) (.array span' elements' type') :=
  ⟨by rw [Expr.relocate, Expr.relocate, spans.eq, exprsRelocate alike,
    option_map_eq (fun _ _ alike => alike.tree) types], spans⟩

theorem grouped {inner inner' : Expr} (spans : c.Spans span span') (alike : c.Exprs inner inner') :
    c.Exprs (.grouped span inner) (.grouped span' inner') :=
  ⟨by rw [Expr.relocate, Expr.relocate, spans.eq, alike.tree], spans⟩

theorem chain {receiver receiver' : Expr} {suffixes suffixes' : List Suffix}
    (spans : c.Spans span span') (receivers : c.Exprs receiver receiver')
    (alike : List.Forall₂ c.Suffixes suffixes suffixes') :
    c.Exprs (.chain span receiver suffixes) (.chain span' receiver' suffixes') :=
  ⟨by rw [Expr.relocate, Expr.relocate, spans.eq, receivers.tree, suffixesRelocate_eq,
    suffixesRelocate_eq, map_eq (fun _ _ alike => alike.tree) alike], spans⟩

theorem unary {operator operator' : Located UnaryOperator} {operand operand' : Expr}
    (spans : c.Spans span span') (operators : c.Marked operator operator')
    (alike : c.Exprs operand operand') :
    c.Exprs (.unary span operator operand) (.unary span' operator' operand') :=
  ⟨by rw [Expr.relocate, Expr.relocate, spans.eq, operators.eq, alike.tree], spans⟩

theorem binary {left left' right right' : Expr} {operator operator' : Located BinaryOperator}
    (tier : Precedence) (lefts : c.Exprs left left') (operators : c.Marked operator operator')
    (rights : c.Exprs right right') :
    c.Exprs (join tier left (operator, right)) (join tier left' (operator', right')) := by
  have spans := lefts.span.through rights.span
  refine ⟨?_, spans⟩
  rw [join, join, Expr.relocate, Expr.relocate, spans.eq, lefts.tree, operators.eq, rights.tree]

end Exprs

namespace Suffixes

variable {span span' : Span} {name name' : Ident}

theorem field (spans : c.Spans span span') (names : c.Idents name name') :
    c.Suffixes (.field span name) (.field span' name') :=
  ⟨by rw [Suffix.relocate, Suffix.relocate, spans.eq, names.eq], spans⟩

theorem call {arguments arguments' : List Expr} (spans : c.Spans span span')
    (names : c.Idents name name') (alike : List.Forall₂ c.Exprs arguments arguments') :
    c.Suffixes (.call span name arguments) (.call span' name' arguments') :=
  ⟨by rw [Suffix.relocate, Suffix.relocate, spans.eq, names.eq, Exprs.exprsRelocate alike], spans⟩

end Suffixes

theorem Tokens.constant? {first second : Token} (alike : c.Tokens first second) :
    Option.Rel c.Exprs (constant? first) (constant? second) := by
  rw [Parser.constant?, Parser.constant?, ← alike.kind]
  split
  · exact .some (.number alike.span _)
  · exact .some (.string alike.span _)
  · exact .some (.bool alike.span _)
  · exact .some (.bool alike.span _)
  · exact .none

/-- A token that is no bracket, and that does not end anything. -/
structure Neutral (kind : TokenKind) : Prop where
  ahead : kind ≠ .endOfFile
  plain : kind ≠ .lineBreak
  level : ∀ depth, Skip.openAfter? depth kind = some depth

theorem neutral_of_constant? {token : Token} {value : Expr} (found : constant? token = some value) :
    Neutral token.kind := by
  unfold constant? at found
  split at found
  · rename_i kind
    exact kind ▸ ⟨by simp, by simp, fun _ => rfl⟩
  · rename_i kind
    exact kind ▸ ⟨by simp, by simp, fun _ => rfl⟩
  · rename_i kind
    exact kind ▸ ⟨by simp, by simp, fun _ => rfl⟩
  · rename_i kind
    exact kind ▸ ⟨by simp, by simp, fun _ => rfl⟩
  · simp at found

theorem neutral_operator (sign : Operator) : Neutral (.operator sign) :=
  ⟨by simp, by simp, fun _ => rfl⟩

namespace Likes

variable {near : Prop} {depth : Nat} {type : Parser TypeExpr} {expr : Parser Expr}
  {typeReading : Reading TypeExpr} {exprReading : Reading Expr}

section

variable (sound : Sound exprReading expr)
  (exprs : ∀ depth, (c.tail = [] ∨ 0 < depth) → c.Likes near False depth depth c.Exprs expr expr)

include exprs

theorem grouped {start other : Cursor} (alike : c.Tokens start.current other.current)
    (opens : start.current.kind = .punctuation .leftParen) :
    c.LikesAt near False depth depth c.Exprs start other (grouped expr) (grouped expr) := by
  have inside : c.tail = [] ∨ 0 < depth + 1 := .inr (Nat.succ_pos depth)
  refine LikesAt.current_bind ?_
  refine LikesAt.advance_bind (by simp [opens]) (by simp [opens]) (fun _ => by rw [opens]; rfl)
    fun _ _ => ?_
  refine (skipLineBreaks inside _ _).bind fun _ _ _ _ _ => ?_
  refine (exprs _ inside _ _).bind fun _ _ _ _ inner => ?_
  refine (skipLineBreaks inside _ _).bind fun _ _ _ _ _ => ?_
  exact (expect (.of_enclosed inside) (by simp) (by simp) (fun _ => rfl) _ _ _).bind
    fun _ _ _ _ closing => LikesAt.pure (.grouped (alike.span.through closing) inner)

include sound

theorem expressionList {closing : Punctuation} (closes : closing.closes) (depth : Nat) :
    c.Likes near False (depth + 1) depth
      (fun list list' => List.Forall₂ c.Exprs list.1 list'.1 ∧ c.Spans list.2 list'.2)
      (expressionList expr closing) (expressionList expr closing) :=
  listUntil closes (exprs _ (.inr (Nat.succ_pos depth))) (nextItem_sound sound).advances
    (nextItem_sound sound).advances _

theorem nameOrCall (enclosed : c.tail = [] ∨ 0 < depth) :
    c.Likes near False depth depth c.Exprs (nameOrCall expr) (nameOrCall expr) := by
  have inside : c.tail = [] ∨ 0 < depth + 1 := .inr (Nat.succ_pos depth)
  intro start other
  refine (name (.of_enclosed enclosed) _ _ _).bind fun _ _ _ _ target => ?_
  refine LikesAt.accept_bind (by simp) (by simp) (fun _ => rfl) (fun _ _ => ?_) ?_
  · refine (skipLineBreaks inside _ _).bind fun _ _ _ _ _ => ?_
    refine (exprs _ inside _ _).bind fun _ _ _ _ position => ?_
    refine (skipLineBreaks inside _ _).bind fun _ _ _ _ _ => ?_
    exact (expect (.of_enclosed inside) (by simp) (by simp) (fun _ => rfl) _ _ _).bind
      fun _ _ _ _ closing =>
        LikesAt.pure (.index (target.span.through closing) target position)
  · refine LikesAt.accept_bind (by simp) (by simp) (fun _ => rfl) (fun _ _ => ?_) ?_
    · refine (expressionList sound exprs rfl depth _ _).bind ?_
      rintro ⟨_, _⟩ ⟨_, _⟩ _ _ ⟨arguments, closing⟩
      exact LikesAt.pure (.call (target.span.through closing) target arguments)
    · exact LikesAt.pure (.named target)

theorem nextSuffix (enclosed : c.tail = [] ∨ 0 < depth) :
    c.Likes near False depth depth (Option.Rel c.Suffixes) (nextSuffix expr) (nextSuffix expr) := by
  intro start other like
  have dot := (like.current_of_guarded enclosed).span
  refine LikesAt.current_bind ?_ like
  refine LikesAt.accept_bind (by simp) (by simp) (fun _ => rfl) (fun _ _ => ?_) (LikesAt.pure .none)
  refine (ident (.of_enclosed enclosed) _ _ _).bind fun _ _ _ _ member => ?_
  refine LikesAt.accept_bind (by simp) (by simp) (fun _ => rfl) (fun _ _ => ?_) ?_
  · refine (expressionList sound exprs rfl depth _ _).bind ?_
    rintro ⟨_, _⟩ ⟨_, _⟩ _ _ ⟨arguments, closing⟩
    exact LikesAt.pure (.some (.call (dot.through closing) member arguments))
  · exact LikesAt.pure (.some (.field (dot.through member.span) member))

end

section

variable (sound : Sound exprReading expr)
  (types : ∀ depth, (c.tail = [] ∨ 0 < depth) → c.Likes near False depth depth c.Types type type)
  (exprs : ∀ depth, (c.tail = [] ∨ 0 < depth) → c.Likes near False depth depth c.Exprs expr expr)
  (enclosed : c.tail = [] ∨ 0 < depth)

include types enclosed in
theorem elementType : c.Likes near False depth depth (Option.Rel c.Types) (elementType type)
    (elementType type) := by
  intro start other like
  refine LikesAt.current_bind ?_ like
  rw [← (like.current_of_guarded enclosed).kind]
  split
  · exact LikesAt.attempt (types depth enclosed _ _)
  · exact LikesAt.pure .none

include sound types exprs enclosed

theorem arrayLiteral : c.Likes near False depth depth c.Exprs (arrayLiteral type expr)
    (arrayLiteral type expr) := by
  intro start other
  refine (expect (.of_enclosed enclosed) (by simp) (by simp) (fun _ => rfl) _ _ _).bind
    fun _ _ _ _ opening => ?_
  refine (expressionList sound exprs rfl depth _ _).bind ?_
  rintro ⟨_, _⟩ ⟨_, _⟩ _ _ ⟨elements, closing⟩
  refine (elementType types enclosed _ _).bind fun _ _ _ _ element => ?_
  refine LikesAt.pure (.array (opening.through ?_) elements element)
  cases element with
  | none => exact closing
  | some alike => exact alike.span

theorem primary : c.Likes near False depth depth c.Exprs (primary type expr)
    (primary type expr) := by
  intro start other like
  have alike := like.current_of_guarded enclosed
  refine LikesAt.current_bind ?_ like
  have constants := alike.constant?
  cases found : constant? start.current with
  | some value =>
    rw [found] at constants
    obtain ⟨value', found', values⟩ := rel_some constants
    have neutral := neutral_of_constant? found
    rw [found']
    exact LikesAt.advance_bind neutral.ahead neutral.plain (fun _ => neutral.level depth)
      fun _ _ => LikesAt.pure values
  | none =>
    rw [found] at constants
    rw [rel_none constants, ← alike.kind]
    dsimp only
    split
    · rename_i opens
      exact grouped exprs alike opens
    · exact arrayLiteral sound types exprs enclosed _ _
    · exact nameOrCall sound exprs enclosed _ _
    · exact LikesAt.reject (alike.unexpected _)

theorem chain : c.Likes near False depth depth c.Exprs (chain type expr) (chain type expr) := by
  intro start other
  refine (primary sound types exprs enclosed _ _).bind fun _ _ _ _ receiver => ?_
  refine (many (nextSuffix sound exprs enclosed) (nextSuffix_sound sound).advances
    (nextSuffix_sound sound).advances _ _).bind fun suffixes suffixes' _ _ alike => ?_
  have last := getLast? alike
  generalize suffixes.getLast? = final at last ⊢
  generalize suffixes'.getLast? = final' at last ⊢
  cases last with
  | none => exact LikesAt.pure receiver
  | some last => exact LikesAt.pure (.chain (receiver.span.through last.span) receiver alike)

theorem unary : c.Likes near False depth depth c.Exprs (unary type expr) (unary type expr) := by
  intro start other like
  have alike := like.current_of_guarded enclosed
  refine LikesAt.current_bind ?_ like
  rw [← alike.kind]
  split
  · exact chain sound types exprs enclosed _ _
  · rename_i operator found
    obtain ⟨sign, kind, _⟩ := prefixOperator?_eq_some found
    have neutral : Neutral start.current.kind := kind ▸ neutral_operator sign
    refine LikesAt.advance_bind neutral.ahead neutral.plain (fun _ => neutral.level depth)
      fun _ _ => ?_
    exact (chain sound types exprs enclosed _ _).bind fun _ _ _ _ operand =>
      LikesAt.pure (.unary (alike.span.through operand.span) (Marked.of_spans alike.span operator)
        operand)

end

section

variable {operand : Parser Expr} {reading : Reading Expr} (sound : Sound reading operand)
  (operands : c.Likes near False depth depth c.Exprs operand operand)
  (enclosed : c.tail = [] ∨ 0 < depth)

include operands enclosed

theorem nextOperand (tier : Precedence) :
    c.Likes near False depth depth
      (Option.Rel fun next next' => c.Marked next.1 next'.1 ∧ c.Exprs next.2 next'.2)
      (nextOperand tier operand) (nextOperand tier operand) := by
  intro start other like
  have alike := like.current_of_guarded enclosed
  refine LikesAt.current_bind ?_ like
  rw [← alike.kind]
  split
  · exact LikesAt.pure .none
  · rename_i operator found
    obtain ⟨sign, kind, _⟩ := tierOperator?_eq_some found
    have neutral : Neutral start.current.kind := kind ▸ neutral_operator sign
    refine LikesAt.advance_bind neutral.ahead neutral.plain (fun _ => neutral.level depth)
      fun _ _ => ?_
    refine (skipLineBreaks enclosed _ _).bind fun _ _ _ _ _ => ?_
    exact (operands _ _).bind fun _ _ _ _ right =>
      LikesAt.pure (.some ⟨Marked.of_spans alike.span operator, right⟩)

include sound

theorem binaryTier (tier : Precedence) :
    c.Likes near False depth depth c.Exprs (binaryTier tier operand) (binaryTier tier operand) := by
  intro start other
  refine (operands _ _).bind fun first first' _ _ head => ?_
  refine (many (nextOperand operands enclosed tier) (nextOperand_sound sound).advances
    (nextOperand_sound sound).advances _ _).bind fun rest rest' _ _ others => ?_
  refine LikesAt.pure ?_
  induction others generalizing first first' with
  | nil => exact head
  | cons next _ ih => exact ih _ _ (.binary tier head next.1 next.2)

end

theorem exprLevel (typed : Sound typeReading type) (sound : Sound exprReading expr)
    (types : ∀ depth, (c.tail = [] ∨ 0 < depth) → c.Likes near False depth depth c.Types type type)
    (exprs : ∀ depth, (c.tail = [] ∨ 0 < depth) → c.Likes near False depth depth c.Exprs expr expr)
    (enclosed : c.tail = [] ∨ 0 < depth) :
    c.Likes near False depth depth c.Exprs (exprLevel type expr) (exprLevel type expr) := by
  have single := unary_sound typed sound
  have factor := binaryTier_sound .factor single
  have term := binaryTier_sound .term factor
  have comparison := binaryTier_sound .comparison term
  exact binaryTier comparison (binaryTier term (binaryTier factor (binaryTier single
    (unary sound types exprs enclosed) enclosed .factor) enclosed .term) enclosed .comparison)
    enclosed .equality

theorem expression (limit : Nat) {budget : Nat} (within : budget ≤ limit) (depth : Nat)
    (enclosed : c.tail = [] ∨ 0 < depth) :
    c.Likes near False depth depth c.Exprs (expression limit budget) (expression limit budget) := by
  induction budget generalizing depth with
  | zero => exact tooDeep (.of_enclosed enclosed) (fun _ _ => .skipped) limit Skip.stopsExpression
  | succ budget ih =>
    have less := Nat.le_of_lt within
    exact fun _ _ => LikesAt.inside (exprLevel (typeExpr_sound limit budget less)
      (expression_sound limit budget less)
      (fun _ enclosed => typeExpr (.of_enclosed enclosed) limit budget) (ih less) enclosed _ _)

end Likes

end MoSyntax.Comparison
