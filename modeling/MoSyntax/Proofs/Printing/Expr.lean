import MoSyntax.Parser.Expr
import MoSyntax.Proofs.Printing.Phrase
import MoSyntax.Proofs.Yield.Expr

/-!
Reading again the expressions that were printed. An expression that binds at least as tightly as a
level is read by the parser of that level, and that parser goes no further, if what follows may
follow the level. A tier is read along its spine: the first operand, and then one operator and its
right operand after the other.
-/
namespace MoSyntax

namespace Parser

/-- The parser reads again all types up to a nesting. -/
def ReadsTypes (bound : Nat) (parser : Parser TypeExpr) : Prop :=
  ∀ tree : TypeExpr, tree.wellFormed → tree.nesting ≤ bound →
    ∀ rest, upcoming rest ≠ .punctuation .colon →
      Gives (tree.kinds ++ rest) (·.bare = tree.bare) rest parser

/-- The parser reads again all expressions from a level on, if less is nested in them than the
bound says. -/
def ReadsExprs (level bound : Nat) (parser : Parser Expr) : Prop :=
  ∀ tree : Expr, tree.wellFormed → level ≤ tree.level → tree.nested < bound →
    ∀ rest, (upcoming rest).mayFollow level →
      Gives (tree.kinds ++ rest) (·.bare = tree.bare) rest parser

theorem typeExpr_reads (limit budget : Nat) : ReadsTypes budget (typeExpr limit budget) :=
  fun _ formed within _ other => Gives.typeExpr limit formed within other

end Parser

theorem mayFollow_of_endsItem {closing : Punctuation} (closes : closing.closes)
    {rest : List TokenKind} (ends : Parser.Gives.EndsItem closing rest) :
    (upcoming rest).mayFollow 0 := by
  rcases ends with same | same
  · rw [same]
    rfl
  · rw [same]
    cases closing <;> first | rfl | simp [Punctuation.closes] at closes

namespace Parser.Gives

variable {type : Parser TypeExpr} {expr : Parser Expr} {bound : Nat} {rest : List TokenKind}

theorem expressionList (exprs : ReadsExprs 0 bound expr) {closing : Punctuation}
    (closes : closing.closes) {items : List Expr} (formed : exprsWellFormed items)
    (within : deepest (exprNestings items) ≤ bound) :
    Gives (listed (exprKinds items) ++ .punctuation closing :: rest)
      (fun found => exprsBare found.1 = exprsBare items) rest
      (Parser.expressionList expr closing) := by
  rw [exprsWellFormed_eq, List.all_eq_true] at formed
  rw [exprNestings_eq, deepest_le] at within
  rw [exprKinds_eq, exprsBare_eq]
  have shallow : ∀ item ∈ items, item.nested < bound :=
    fun item member => within _ (List.mem_map_of_mem member)
  refine (listUntil Expr.kinds Expr.bare Expr.bare items ?_ _ ?_ ?_ ?_).imp
    fun found same => by rw [exprsBare_eq, same]
  · rintro rfl
    simp [Punctuation.closes] at closes
  · cases closing <;> first | rfl | simp [Punctuation.closes] at closes
  · exact fun item member => item.begins (formed item member)
  · intro item member behind ends
    exact exprs item (formed item member) (Nat.zero_le _) (shallow item member) behind
      (mayFollow_of_endsItem closes ends)

theorem grouped (exprs : ReadsExprs 0 bound expr) {inner : Expr} (formed : inner.wellFormed)
    (within : inner.nested < bound) (span : Span) :
    Gives ((Expr.grouped span inner).kinds ++ rest) (·.bare = (Expr.grouped span inner).bare) rest
      (Parser.grouped expr) := by
  rw [Expr.kinds, List.cons_append, List.append_assoc]
  apply current_bind
  intro opening _
  apply advance_bind
  apply skipLineBreaks_bind (Expr.upcoming_ne_lineBreak formed _)
  apply bind (exprs inner formed (Nat.zero_le _) within _ rfl)
  intro value same
  refine skipLineBreaks_bind (by simp) (bind (expect _ _) fun closing _ => ?_)
  exact pure (by rw [Expr.bare, Expr.bare, same])

/-- A name alone must not be followed by a bracket that opens. -/
theorem nameOrCall_named {target : Name} (formed : target.wellFormed)
    (follows : (upcoming rest).mayFollow 6) :
    Gives (target.kinds ++ rest) (·.bare = (Expr.named target).bare) rest
      (Parser.nameOrCall expr) := by
  have colon := ne_of_class follows (.punctuation .colon) rfl
  have bracket := ne_of_class follows (.punctuation .leftBracket) rfl
  have paren := ne_of_class follows (.punctuation .leftParen) rfl
  apply bind (name formed _ colon)
  intro found same
  apply bind (accept_of_ne bracket)
  rintro _ rfl
  apply bind (accept_of_ne paren)
  rintro _ rfl
  exact pure (by rw [Expr.bare, Expr.bare, same])

theorem nameOrCall_index (exprs : ReadsExprs 0 bound expr) {target : Name} {position : Expr}
    (formed : target.wellFormed) (inner : position.wellFormed) (within : position.nested < bound)
    (span : Span) :
    Gives ((Expr.index span target position).kinds ++ rest)
      (·.bare = (Expr.index span target position).bare) rest (Parser.nameOrCall expr) := by
  rw [Expr.kinds, List.append_assoc, List.cons_append, List.append_assoc]
  apply bind (name formed _ (by simp))
  intro found same
  apply bind (accept _)
  rintro _ rfl
  apply skipLineBreaks_bind (Expr.upcoming_ne_lineBreak inner _)
  apply bind (exprs position inner (Nat.zero_le _) within _ rfl)
  intro value alike
  refine skipLineBreaks_bind (by simp) (bind (expect _ _) fun closing _ => ?_)
  exact pure (by rw [Expr.bare, Expr.bare, same, alike])

theorem nameOrCall_call (exprs : ReadsExprs 0 bound expr) {callee : Name} {arguments : List Expr}
    (formed : callee.wellFormed) (inner : exprsWellFormed arguments)
    (within : deepest (exprNestings arguments) ≤ bound) (span : Span) :
    Gives ((Expr.call span callee arguments).kinds ++ rest)
      (·.bare = (Expr.call span callee arguments).bare) rest (Parser.nameOrCall expr) := by
  rw [Expr.kinds, List.append_assoc, List.cons_append, List.append_assoc]
  apply bind (name formed _ (by simp))
  intro found same
  apply bind (accept_of_ne (by simp))
  rintro _ rfl
  apply bind (accept _)
  rintro _ rfl
  apply bind (expressionList exprs rfl inner within)
  rintro ⟨values, closing⟩ alike
  exact pure (by rw [Expr.bare, Expr.bare, same, alike])

theorem elementType (types : ReadsTypes bound type) {element : Option TypeExpr}
    (formed : element.all fun element => element.wellFormed && !element.isPointer)
    (within : (element.map TypeExpr.nesting).getD 0 ≤ bound)
    (follows : (upcoming rest).mayFollow 6) :
    Gives ((element.map TypeExpr.kinds).getD [] ++ rest)
      (·.map TypeExpr.bare = element.map TypeExpr.bare) rest (Parser.elementType type) := by
  apply current_bind
  intro found kind
  cases element with
  | none =>
    have kind : found.kind = upcoming rest := kind
    rw [← kind] at follows
    have other : found.kind.isIdentifier = false := by
      cases same : found.kind <;> first | rfl | simp [same, TokenKind.mayFollow] at follows
    have bracket := ne_of_class follows (.punctuation .leftBracket) rfl
    rw [if_neg (by simp [other, bracket])]
    exact pure rfl
  | some element =>
    simp only [Option.all_some, Bool.and_eq_true, Bool.not_eq_true'] at formed
    obtain ⟨first, more, same, starts⟩ := TypeExpr.begins_of_not_pointer formed.1 formed.2
    have kind : found.kind = first := by simpa [same] using kind
    have tried : (found.kind.isIdentifier || found.kind == .punctuation .leftBracket) = true := by
      rw [kind]
      cases first <;>
        simp_all [TokenKind.startsElement, TokenKind.isIdentifier]
    rw [if_pos tried]
    have colon := ne_of_class follows (.punctuation .colon) rfl
    have reads := types element formed.1 within rest colon
    refine (attempt .elementType reads).imp ?_
    rintro _ ⟨value, rfl, alike⟩
    exact congrArg some alike

theorem arrayLiteral (types : ReadsTypes bound type) (exprs : ReadsExprs 0 bound expr)
    {elements : List Expr} {element : Option TypeExpr} (inner : exprsWellFormed elements)
    (formed : element.all fun element => element.wellFormed && !element.isPointer)
    (within : deepest (exprNestings elements) ≤ bound)
    (shallow : (element.map TypeExpr.nesting).getD 0 ≤ bound)
    (follows : (upcoming rest).mayFollow 6) (span : Span) :
    Gives ((Expr.array span elements element).kinds ++ rest)
      (·.bare = (Expr.array span elements element).bare) rest (Parser.arrayLiteral type expr) := by
  rw [Expr.kinds, List.cons_append, List.append_assoc, List.cons_append]
  apply bind (expect _ _)
  intro opening _
  apply bind (expressionList exprs rfl inner within)
  rintro ⟨values, closing⟩ same
  apply bind (elementType types formed shallow follows)
  intro found alike
  exact pure (by rw [Expr.bare, Expr.bare, same, alike])

theorem primary (types : ReadsTypes bound type) (exprs : ReadsExprs 0 bound expr) :
    ReadsExprs 6 (bound + 1) (Parser.primary type expr) := by
  intro tree formed tight within rest follows
  apply current_bind
  intro found kind
  cases tree with
  | number span value =>
    have kind : found.kind = .number value := kind
    rw [show constant? found = some (.number found.span value) by rw [constant?, kind]]
    exact advance_bind (pure rfl)
  | string span value =>
    have kind : found.kind = .string value := kind
    rw [show constant? found = some (.string found.span value) by rw [constant?, kind]]
    exact advance_bind (pure rfl)
  | bool span value =>
    have kind : found.kind = .keyword (if value then .trueWord else .falseWord) := kind
    rw [show constant? found = some (.bool found.span value) by cases value <;> rw [constant?, kind] <;> rfl]
    exact advance_bind (pure rfl)
  | named target =>
    rw [Expr.wellFormed] at formed
    obtain ⟨word, more, same⟩ := Name.kinds_eq_cons formed
    have kind : found.kind = .identifier word := by rw [kind, Expr.kinds, same]; rfl
    rw [show constant? found = none by rw [constant?, kind], kind]
    exact nameOrCall_named formed follows
  | index span target position =>
    rw [Expr.wellFormed, Bool.and_eq_true] at formed
    obtain ⟨word, more, same⟩ := Name.kinds_eq_cons formed.1
    have kind : found.kind = .identifier word := by rw [kind, Expr.kinds, same]; rfl
    rw [show constant? found = none by rw [constant?, kind], kind]
    rw [Expr.nested] at within
    exact nameOrCall_index exprs formed.1 formed.2 (by omega) span
  | call span callee arguments =>
    rw [Expr.wellFormed, Bool.and_eq_true] at formed
    obtain ⟨word, more, same⟩ := Name.kinds_eq_cons formed.1
    have kind : found.kind = .identifier word := by rw [kind, Expr.kinds, same]; rfl
    rw [show constant? found = none by rw [constant?, kind], kind]
    rw [Expr.nested] at within
    exact nameOrCall_call exprs formed.1 formed.2 (by omega) span
  | array span elements element =>
    rw [Expr.wellFormed, Bool.and_eq_true] at formed
    have kind : found.kind = .punctuation .leftBracket := kind
    rw [show constant? found = none by rw [constant?, kind], kind]
    rw [Expr.nested] at within
    exact arrayLiteral types exprs formed.1 formed.2 (by omega) (by omega) follows span
  | grouped span inner =>
    rw [Expr.wellFormed] at formed
    have kind : found.kind = .punctuation .leftParen := kind
    rw [show constant? found = none by rw [constant?, kind], kind]
    rw [Expr.nested] at within
    exact grouped exprs formed (by omega) span
  | chain span receiver suffixes => simp [Expr.level] at tight
  | unary span operator operand => simp [Expr.level] at tight
  | binary span tier left operator right =>
    cases tier <;> simp [Expr.level, Precedence.level] at tight
  | skipped span => simp [Expr.wellFormed] at formed

theorem nextSuffix (exprs : ReadsExprs 0 bound expr) {suffix : Suffix} (formed : suffix.wellFormed)
    (within : suffix.nesting ≤ bound) (other : upcoming rest ≠ .punctuation .leftParen) :
    Gives (suffix.kinds ++ rest)
      (fun found => ∃ value, found = some value ∧ value.bare = suffix.bare) rest
      (Parser.nextSuffix expr) := by
  apply current_bind
  intro dot _
  cases suffix with
  | field span member =>
    rw [Suffix.kinds, List.cons_append]
    apply bind (accept _)
    rintro _ rfl
    apply bind (ident member _)
    intro found same
    apply bind (accept_of_ne other)
    rintro _ rfl
    exact pure ⟨_, rfl, by rw [Suffix.bare, Suffix.bare, same]⟩
  | call span member arguments =>
    rw [Suffix.kinds, List.cons_append, List.append_assoc, List.cons_append, List.append_assoc]
    apply bind (accept _)
    rintro _ rfl
    apply bind (ident member _)
    intro found same
    apply bind (accept _)
    rintro _ rfl
    apply bind (expressionList exprs rfl formed within)
    rintro ⟨values, closing⟩ alike
    exact pure ⟨_, rfl, by rw [Suffix.bare, Suffix.bare, same, alike]⟩

theorem nextSuffix_ends (other : upcoming rest ≠ .punctuation .dot) :
    Gives rest (· = none) rest (Parser.nextSuffix expr) := by
  apply current_bind
  intro dot _
  apply bind (accept_of_ne other)
  rintro _ rfl
  exact pure rfl

theorem suffixes (exprs : ReadsExprs 0 bound expr) (suffixes : List Suffix)
    (formed : suffixesWellFormed suffixes) (within : deepest (suffixNestings suffixes) ≤ bound)
    (follows : (upcoming rest).mayFollow 5) :
    Gives ((suffixKinds suffixes).flatten ++ rest)
      (fun found => suffixesBare found = suffixesBare suffixes) rest
      (many (Parser.nextSuffix expr)) := by
  rw [suffixesWellFormed_eq, List.all_eq_true] at formed
  rw [suffixNestings_eq, deepest_le] at within
  rw [suffixKinds_eq, ← List.flatMap_def, suffixesBare_eq]
  have rounds := Rounds.of_flatMap Suffix.kinds Suffix.bare Suffix.bare
    (upcoming · ≠ .punctuation .leftParen) suffixes (ne_of_class follows _ rfl)
    (fun suffix _ behind => by cases suffix <;> simp [Suffix.kinds])
    (fun suffix _ => by cases suffix <;> simp [Suffix.kinds])
    (fun suffix member behind other =>
      nextSuffix exprs (formed suffix member) (within _ (List.mem_map_of_mem member)) other)
    (nextSuffix_ends (ne_of_class follows _ rfl))
  exact rounds.many.imp fun found same => by rw [suffixesBare_eq, same]

theorem chain (types : ReadsTypes bound type) (exprs : ReadsExprs 0 bound expr) :
    ReadsExprs 5 (bound + 1) (Parser.chain type expr) := by
  intro tree formed tight within rest follows
  by_cases plain : 6 ≤ tree.level
  · refine bind (primary types exprs tree formed plain within rest
      (TokenKind.mayFollow_of_le (by omega) follows)) ?_
    intro receiver same
    apply bind (suffixes exprs [] rfl (Nat.zero_le _) follows)
    intro found none
    rw [suffixesBare_eq] at none
    obtain rfl := List.map_eq_nil_iff.1 none
    exact pure same
  · cases tree with
    | chain span receiver dots =>
      simp only [Expr.wellFormed, Bool.and_eq_true, beq_iff_eq, Bool.not_eq_true',
        List.isEmpty_eq_false_iff] at formed
      obtain ⟨⟨⟨primary', some⟩, inner⟩, others⟩ := formed
      rw [Expr.nested] at within
      rw [Expr.kinds, List.append_assoc]
      have dotted : (upcoming ((suffixKinds dots).flatten ++ rest)).mayFollow 6 := by
        obtain ⟨first, more, rfl⟩ := List.exists_cons_of_ne_nil some
        cases first <;> rfl
      apply bind (primary types exprs receiver inner (by omega) (by omega) _ dotted)
      intro value same
      apply bind (suffixes exprs dots others (by omega) follows)
      intro found alike
      cases last : found.getLast? with
      | none =>
        obtain rfl := List.getLast?_eq_none_iff.1 last
        rw [suffixesBare_eq, suffixesBare_eq] at alike
        exact absurd (List.map_eq_nil_iff.1 alike.symm) some
      | some suffix => exact pure (by rw [Expr.bare, Expr.bare, same, alike])
    | unary span operator operand => simp [Expr.level] at tight
    | binary span tier left operator right =>
      cases tier <;> simp [Expr.level, Precedence.level] at tight
    | _ => simp [Expr.level] at plain

theorem unary (types : ReadsTypes bound type) (exprs : ReadsExprs 0 bound expr) :
    ReadsExprs 4 (bound + 1) (Parser.unary type expr) := by
  intro tree formed tight within rest follows
  by_cases plain : 5 ≤ tree.level
  · have begins := (tree.begins_of_tight formed plain).append rest
    apply current_bind
    intro found kind
    have plain' : prefixOperator? found.kind = none := by
      have starts := kind ▸ begins.head
      cases same : found.kind <;>
        first | rfl | simp [same, TokenKind.startsOperand] at starts
    rw [plain']
    exact chain types exprs tree formed plain within rest
      (TokenKind.mayFollow_of_le (by omega) follows)
  · cases tree with
    | unary span operator operand =>
      simp only [Expr.wellFormed, Bool.and_eq_true, decide_eq_true_eq] at formed
      rw [Expr.nested] at within
      apply current_bind
      rintro found (kind : found.kind = .operator operator.value.sign)
      have means : prefixOperator? found.kind = some operator.value := by
        rw [kind]
        cases operator.value <;> rfl
      rw [means]
      refine advance_bind (bind (chain types exprs operand formed.2 formed.1 within rest
        (TokenKind.mayFollow_of_le (by omega) follows)) ?_)
      intro value same
      exact pure (by rw [Expr.bare, Expr.bare, same]; rfl)
    | binary span tier left operator right =>
      cases tier <;> simp [Expr.level, Precedence.level] at tight
    | _ => simp [Expr.level] at plain

end Parser.Gives

/-- An expression along its operators of one tier: an operand, and then operators with their right
operands, all of them tighter than the tier. -/
structure Spine (tier : Precedence) (first : Expr) (more : List (Located BinaryOperator × Expr))
    (tree : Expr) : Prop where
  kinds : tree.kinds =
    first.kinds ++ more.flatMap fun next => .operator next.1.value.sign :: next.2.kinds
  bare : (more.foldl (Parser.join tier) first).bare = tree.bare
  first : first.wellFormed ∧ tier.level + 1 ≤ first.level ∧ first.nested ≤ tree.nested
  more : ∀ next ∈ more, next.1.value.precedence = tier ∧ next.2.wellFormed ∧
    tier.level + 1 ≤ next.2.level ∧ next.2.nested ≤ tree.nested

namespace Spine

variable {tier : Precedence}

theorem single {tree : Expr} (formed : tree.wellFormed) (tighter : tier.level + 1 ≤ tree.level) :
    Spine tier tree [] tree where
  kinds := by simp
  bare := rfl
  first := ⟨formed, tighter, Nat.le_refl _⟩
  more := by simp

theorem extend {first left right : Expr} {more : List (Located BinaryOperator × Expr)}
    (spine : Spine tier first more left) {operator : Located BinaryOperator}
    (same : operator.value.precedence = tier) (formed : right.wellFormed)
    (tighter : tier.level + 1 ≤ right.level) (span : Span) :
    Spine tier first (more ++ [(operator, right)]) (.binary span tier left operator right) where
  kinds := by simp [Expr.kinds, spine.kinds]
  bare := by
    rw [List.foldl_append, List.foldl_cons, List.foldl_nil, Parser.join, Expr.bare, Expr.bare, spine.bare]
  first := by
    obtain ⟨whole, tight, within⟩ := spine.first
    exact ⟨whole, tight, by rw [Expr.nested]; omega⟩
  more := by
    simp only [List.forall_mem_append, List.forall_mem_cons]
    refine ⟨?_, ⟨same, formed, tighter, by rw [Expr.nested]; omega⟩, by simp⟩
    intro next member
    obtain ⟨kind, whole, tight, within⟩ := spine.more next member
    exact ⟨kind, whole, tight, by rw [Expr.nested]; omega⟩

end Spine

theorem Precedence.level_lt (tier : Precedence) : tier.level < 4 := by
  cases tier <;> simp [level]

theorem Precedence.level_inj {tier other : Precedence} (same : tier.level = other.level) :
    tier = other := by
  cases tier <;> cases other <;> first | rfl | simp [level] at same

theorem Expr.spine (tier : Precedence) : (tree : Expr) → tree.wellFormed → tier.level ≤ tree.level →
    ∃ first more, Spine tier first more tree
  | .binary span inner left operator right, formed, loose => by
    have whole := formed
    simp only [wellFormed, Bool.and_eq_true, beq_iff_eq, decide_eq_true_eq] at whole
    obtain ⟨⟨⟨⟨same, leftLoose⟩, tighter⟩, before⟩, behind⟩ := whole
    by_cases same' : inner = tier
    · subst same'
      obtain ⟨first, more, spine⟩ := Expr.spine inner left before leftLoose
      exact ⟨first, _, spine.extend same behind tighter span⟩
    · refine ⟨_, [], .single formed ?_⟩
      have other : tier.level ≠ inner.level := fun same => same' (Precedence.level_inj same).symm
      rw [level] at loose ⊢
      omega
  | .unary _ _ _, formed, _ => ⟨_, [], .single formed tier.level_lt⟩
  | .chain _ _ _, formed, _ => ⟨_, [], .single formed (Nat.le_succ_of_le tier.level_lt)⟩
  | .number _ _, formed, _ | .string _ _, formed, _ | .bool _ _, formed, _ | .named _, formed, _
  | .index _ _ _, formed, _ | .call _ _ _, formed, _ | .array _ _ _, formed, _
  | .grouped _ _, formed, _ | .skipped _, formed, _ =>
    ⟨_, [], .single formed (Nat.le_succ_of_le (Nat.le_succ_of_le tier.level_lt))⟩

theorem bare_foldl_join {tier : Precedence} {first other : Expr} (same : first.bare = other.bare)
    {found more : List (Located BinaryOperator × Expr)}
    (alike : found.map (fun next => (next.1.bare, next.2.bare)) =
      more.map fun next => (next.1.bare, next.2.bare)) :
    (found.foldl (Parser.join tier) first).bare = (more.foldl (Parser.join tier) other).bare := by
  induction found generalizing first other more with
  | nil =>
    obtain rfl := List.map_eq_nil_iff.1 alike.symm
    exact same
  | cons next found ih =>
    cases more with
    | nil => simp at alike
    | cons step more =>
      obtain ⟨here, behind⟩ := List.cons.inj alike
      obtain ⟨operator, right⟩ := Prod.mk.inj here
      rw [List.foldl_cons, List.foldl_cons]
      refine ih ?_ behind
      rw [Parser.join, Parser.join, Expr.bare, Expr.bare, same, operator, right]

namespace Parser.Gives

variable {tier : Precedence} {operand : Parser Expr} {bound : Nat} {rest : List TokenKind}

theorem tierOperator?_sign (operator : BinaryOperator) :
    tierOperator? operator.precedence (.operator operator.sign) = some operator := by
  cases operator <;> rfl

theorem tierOperator?_of_mayFollow {kind : TokenKind} (follows : kind.mayFollow tier.level) :
    tierOperator? tier kind = none := by
  unfold tierOperator?
  split
  · rename_i sign
    rw [Option.filter_eq_none_iff]
    intro operator means
    simp only [TokenKind.mayFollow, means, Option.all_some, decide_eq_true_eq] at follows
    simp only [beq_iff_eq]
    rintro rfl
    omega
  · rfl

theorem nextOperand (reads : ReadsExprs (tier.level + 1) bound operand)
    {operator : Located BinaryOperator} {right : Expr} (same : operator.value.precedence = tier)
    (formed : right.wellFormed) (tighter : tier.level + 1 ≤ right.level)
    (within : right.nested < bound) (follows : (upcoming rest).mayFollow (tier.level + 1)) :
    Gives ((.operator operator.value.sign :: right.kinds) ++ rest)
      (fun found => ∃ value, found = some value ∧
        (value.1.bare, value.2.bare) = (operator.bare, right.bare)) rest
      (Parser.nextOperand tier operand) := by
  apply current_bind
  rintro found (kind : found.kind = .operator operator.value.sign)
  subst same
  rw [kind, tierOperator?_sign]
  refine advance_bind (skipLineBreaks_bind (Expr.upcoming_ne_lineBreak formed rest) ?_)
  apply bind (reads right formed tighter within rest follows)
  intro value alike
  exact pure ⟨_, rfl, by rw [alike]; rfl⟩

theorem nextOperand_ends (follows : (upcoming rest).mayFollow tier.level) :
    Gives rest (· = none) rest (Parser.nextOperand tier operand) := by
  apply current_bind
  intro found kind
  rw [kind, tierOperator?_of_mayFollow follows]
  exact pure rfl

theorem binaryTier (tier : Precedence) {operand : Parser Expr} (reads : ReadsExprs (tier.level + 1) bound operand) :
    ReadsExprs tier.level bound (Parser.binaryTier tier operand) := by
  intro tree formed loose within rest follows
  obtain ⟨first, more, spine⟩ := tree.spine tier formed loose
  obtain ⟨whole, tighter, inner⟩ := spine.first
  let parts (next : Located BinaryOperator × Expr) := (next.1.bare, next.2.bare)
  let Next (kinds : List TokenKind) : Prop := (upcoming kinds).mayFollow (tier.level + 1)
  have last : Next rest := TokenKind.mayFollow_of_le (Nat.le_succ _) follows
  have operators : ∀ next ∈ more, ∀ behind,
      Next ((.operator next.1.value.sign :: next.2.kinds) ++ behind) := by
    intro next member behind
    have same := (spine.more next member).1
    have means : BinaryOperator.ofSign? next.1.value.sign = some next.1.value := by
      cases next.1.value <;> rfl
    simp [Next, TokenKind.mayFollow, means, same]
  have rounds := Rounds.of_flatMap (fun next => .operator next.1.value.sign :: next.2.kinds)
    parts parts Next more last operators (by simp)
    (fun next member behind ends => by
      obtain ⟨same, formed, tighter, inner⟩ := spine.more next member
      exact nextOperand reads same formed tighter (by omega) ends)
    (nextOperand_ends follows)
  have begins : Next (more.flatMap (fun next => .operator next.1.value.sign :: next.2.kinds) ++ rest) := by
    cases more with
    | nil => exact last
    | cons next more =>
      rw [List.flatMap_cons, List.append_assoc]
      exact operators next List.mem_cons_self _
  rw [spine.kinds, List.append_assoc]
  apply bind (reads first whole tighter (by omega) _ begins)
  intro value same
  apply bind rounds.many
  intro found alike
  exact pure ((bare_foldl_join same alike).trans spine.bare)

end Parser.Gives

namespace Parser

variable {type : Parser TypeExpr} {expr : Parser Expr} {bound : Nat}

theorem exprLevel_reads (types : ReadsTypes bound type) (exprs : ReadsExprs 0 bound expr) :
    ReadsExprs 0 (bound + 1) (exprLevel type expr) :=
  Gives.binaryTier .equality (Gives.binaryTier .comparison (Gives.binaryTier .term
    (Gives.binaryTier .factor (Gives.unary types exprs))))

/-- The budget has to be above what is nested in the expression. -/
theorem expression_reads (limit budget : Nat) : ReadsExprs 0 budget (expression limit budget) := by
  induction budget with
  | zero => exact fun _ _ _ within => absurd within (Nat.not_lt_zero _)
  | succ budget ih =>
    intro tree formed loose within rest follows
    exact Gives.inside _
      (exprLevel_reads (typeExpr_reads limit budget) ih tree formed loose within rest follows)

end Parser

end MoSyntax
