import MoSyntax.Proofs.Grammar.Exact
import MoSyntax.Proofs.Printing.Expr
import MoSyntax.Proofs.Reading.Source

/-!
Operands with infix operators between them. Each tier reads its operands by the next tighter one and
joins them from the left; the tree is the one that splits, again and again, at the rightmost operator
of the loosest tier.
-/
namespace MoSyntax

/-- What follows a first operand: each time an operator and one more operand. -/
abbrev Operations : Type := List (Located BinaryOperator × Expr)

def lastOperand (first : Expr) (operations : Operations) : Expr :=
  (operations.getLast?.map Prod.snd).getD first

/-- The tree of some operands: a single one is its own tree, and otherwise the rightmost operator
of the loosest tier has the trees of its two sides below it. -/
inductive Splits : Expr → Operations → Expr → Prop
  | single {operand} : Splits operand [] operand
  | node {first before operator middle after left right}
      (loosest : ∀ other ∈ before, operator.value.precedence.level ≤ other.1.value.precedence.level)
      (rightmost : ∀ other ∈ after, operator.value.precedence.level < other.1.value.precedence.level)
      (lefts : Splits first before left) (rights : Splits middle after right) :
      Splits first (before ++ (operator, middle) :: after)
        (.binary (first.span.through (lastOperand middle after).span) operator.value.precedence left
          operator right)

@[simp] theorem lastOperand_nil (first : Expr) : lastOperand first [] = first := rfl

@[simp] theorem lastOperand_append (first middle : Expr) (before after : Operations)
    (operator : Located BinaryOperator) :
    lastOperand first (before ++ (operator, middle) :: after) = lastOperand middle after := by
  cases after with
  | nil => simp [lastOperand]
  | cons next after => simp [lastOperand, List.getLast?_append, List.getLast?_cons]

namespace Splits

theorem span {first : Expr} {operations : Operations} {tree : Expr}
    (splits : Splits first operations tree) :
    tree.span = first.span.through (lastOperand first operations).span := by
  cases splits with
  | single => rfl
  | node => rw [lastOperand_append]; rfl

theorem place_unique {before after more rest : Operations}
    {one other : Located BinaryOperator × Expr}
    (same : before ++ one :: after = more ++ other :: rest)
    (tight : ∀ next ∈ after, one.1.value.precedence.level < next.1.value.precedence.level)
    (loose : ∀ next ∈ before, one.1.value.precedence.level ≤ next.1.value.precedence.level)
    (tight' : ∀ next ∈ rest, other.1.value.precedence.level < next.1.value.precedence.level)
    (loose' : ∀ next ∈ more, other.1.value.precedence.level ≤ next.1.value.precedence.level) :
    before = more ∧ one = other ∧ after = rest := by
  rcases List.append_eq_append_iff.1 same with ⟨between, rfl, behind⟩ | ⟨between, rfl, behind⟩
  · cases between with
    | nil =>
      obtain ⟨same, others⟩ := List.cons.inj behind
      exact ⟨by simp, same, others⟩
    | cons next between =>
      obtain ⟨rfl, rfl⟩ := List.cons.inj behind
      exact absurd (tight other (by simp)) (Nat.not_lt.2 (loose' one (by simp)))
  · cases between with
    | nil =>
      obtain ⟨same, others⟩ := List.cons.inj behind
      exact ⟨by simp, same.symm, others.symm⟩
    | cons next between =>
      obtain ⟨rfl, rfl⟩ := List.cons.inj behind
      exact absurd (tight' one (by simp)) (Nat.not_lt.2 (loose other (by simp)))

theorem unique {first : Expr} {operations : Operations} {tree other : Expr}
    (splits : Splits first operations tree) (again : Splits first operations other) :
    tree = other := by
  induction splits generalizing other with
  | single =>
    generalize none : ([] : Operations) = operations at again
    cases again with
    | single => rfl
    | node => simp at none
  | @node first before operator middle after left right loosest rightmost _ _ lefts rights =>
    generalize same : before ++ (operator, middle) :: after = operations at again
    cases again with
    | single => simp at same
    | node loosest' rightmost' lefts' rights' =>
      obtain ⟨rfl, here, rfl⟩ := place_unique same rightmost loosest rightmost' loosest'
      obtain ⟨rfl, rfl⟩ := Prod.mk.inj here
      rw [lefts lefts', rights rights']

theorem join {first : Expr} {before : Operations} {left : Expr} {tier : Precedence}
    {operator : BinaryOperator} {middle : Expr} {after : Operations} {right : Expr} (place : Span)
    (lefts : Splits first before left) (same : operator.precedence = tier)
    (loosest : ∀ other ∈ before, tier.level ≤ other.1.value.precedence.level)
    (rightmost : ∀ other ∈ after, tier.level < other.1.value.precedence.level)
    (rights : Splits middle after right) :
    Splits first (before ++ (⟨place, operator⟩, middle) :: after)
      (Parser.join tier left (⟨place, operator⟩, right)) := by
  subst same
  have whole : Splits first (before ++ (⟨place, operator⟩, middle) :: after) _ :=
    .node loosest rightmost lefts rights
  rwa [Parser.join, lefts.span, rights.span]

end Splits

namespace Parser

/-- Operands as they stand, each read exactly, with operators of a level or a tighter one between
them and perhaps line breaks behind an operator. No such operator follows the last operand. -/
inductive Row (operand : Parser Expr) (level : Nat) :
    Cursor → List Token → Expr → Operations → Cursor → Prop
  | last {start used value stop} (passes : start.Passes used stop)
      (reads : (operand start).Exact value stop)
      (ends : ∀ sign operator, stop.current.kind = .operator sign →
        BinaryOperator.ofSign? sign = some operator → operator.precedence.level < level) :
      Row operand level start used value [] stop
  | next {start used value middle token sign operator breaks behind more right others stop}
      (passes : start.Passes used middle) (reads : (operand start).Exact value middle)
      (between : middle.Passes (token :: breaks) behind) (kind : token.kind = .operator sign)
      (means : BinaryOperator.ofSign? sign = some operator)
      (tight : level ≤ operator.precedence.level) (lines : Breaks breaks)
      (rest : Row operand level behind more right others stop) :
      Row operand level start (used ++ (token :: (breaks ++ more))) value
        ((⟨token.span, operator⟩, right) :: others) stop

namespace Row

variable {operand : Parser Expr} {level : Nat} {start stop : Cursor} {used : List Token}
  {first : Expr} {operations : Operations}

theorem passes (row : Row operand level start used first operations stop) :
    start.Passes used stop := by
  induction row with
  | last passes => exact passes
  | next passes _ between _ _ _ _ _ ih => simpa using passes.trans (between.trans ih)

theorem levels (row : Row operand level start used first operations stop) :
    ∀ next ∈ operations, level ≤ next.1.value.precedence.level := by
  induction row with
  | last => simp
  | next _ _ _ _ _ tight _ _ ih => exact List.forall_mem_cons.2 ⟨tight, ih⟩

theorem ne_lineBreak (solid : ∀ start, start.current.kind = .lineBreak → (operand start).value = none)
    (row : Row operand level start used first operations stop) :
    start.current.kind ≠ .lineBreak := by
  intro breaks
  have lost := solid start breaks
  cases row with
  | last _ reads => exact absurd (reads.value.symm.trans lost) (by simp)
  | next _ reads => exact absurd (reads.value.symm.trans lost) (by simp)

/-- What follows the operands of a tighter level: an operator of the level itself, or nothing. -/
inductive Rest (operand : Parser Expr) (tier : Precedence) : Cursor → Operations → Cursor → Prop
  | done {stop : Cursor} (ends : tierOperator? tier stop.current.kind = none) :
    Rest operand tier stop [] stop
  | next {middle behind stop : Cursor} {token sign operator breaks more right others}
      (between : middle.Passes (token :: breaks) behind) (kind : token.kind = .operator sign)
      (means : BinaryOperator.ofSign? sign = some operator) (same : operator.precedence = tier)
      (lines : Breaks breaks) (row : Row operand tier.level behind more right others stop) :
      Rest operand tier middle ((⟨token.span, operator⟩, right) :: others) stop

/-- The first operands up to an operator of the loosest tier make up a row of their own. -/
theorem segment {tier : Precedence}
    (row : Row operand tier.level start used first operations stop) :
    ∃ front middle before rest, operations = before ++ rest ∧
      Row operand (tier.level + 1) start front first before middle ∧
      Rest operand tier middle rest stop := by
  induction row with
  | last passes reads ends =>
    refine ⟨_, _, [], [], rfl, .last passes reads ?_, .done ?_⟩
    · exact fun sign operator kind means => Nat.lt_succ_of_lt (ends sign operator kind means)
    · refine Option.eq_none_iff_forall_ne_some.2 fun operator found => ?_
      obtain ⟨sign, kind, means, same⟩ := tierOperator?_eq_some found
      have less := ends sign operator kind means
      rw [same] at less
      exact Nat.lt_irrefl _ less
  | next passes reads between kind means tight lines rest ih =>
    rename_i operator _ _ _ _ _ _
    by_cases same : operator.precedence = tier
    · refine ⟨_, _, [], _, rfl, .last passes reads ?_, .next between kind means same lines rest⟩
      intro sign other here means'
      rw [between.current, kind] at here
      obtain rfl := TokenKind.operator.inj here
      obtain rfl := Option.some.inj (means.symm.trans means')
      exact same ▸ Nat.lt_succ_self _
    · obtain ⟨front, middle, before, others, rfl, row, last⟩ := ih
      have tighter : tier.level + 1 ≤ operator.precedence.level := by
        refine Nat.lt_of_le_of_ne tight fun equal => same ?_
        exact (Precedence.level_inj equal).symm
      exact ⟨_, middle, _, others, rfl, .next passes reads between kind means tighter lines row, last⟩

end Row

/-- The parser reads rows of a level as the trees that they split into. -/
def Climbs (operand : Parser Expr) (level : Nat) (parser : Parser Expr) : Prop :=
  ∀ start used first operations stop, Row operand level start used first operations stop →
    ∃ tree, (parser start).Exact tree stop ∧ Splits first operations tree

variable {operand parser : Parser Expr} {tier : Precedence}

theorem exact_nextOperand_ends {start : Cursor}
    (ends : tierOperator? tier start.current.kind = none) :
    (nextOperand tier parser start).Exact none start := by
  refine exact_bind (exact_pure start.current start) ?_
  rw [ends]
  exact exact_pure none start

theorem exact_nextOperand {start behind stop : Cursor} {token : Token} {breaks : List Token}
    {sign : Operator} {operator : BinaryOperator} {right : Expr}
    (between : start.Passes (token :: breaks) behind) (kind : token.kind = .operator sign)
    (means : BinaryOperator.ofSign? sign = some operator) (same : operator.precedence = tier)
    (lines : Breaks breaks) (solid : behind.current.kind ≠ .lineBreak)
    (reads : (parser behind).Exact right stop) :
    (nextOperand tier parser start).Exact (some (⟨token.span, operator⟩, right)) stop := by
  obtain ⟨first, others⟩ := between.uncons
  have found : tierOperator? tier start.current.kind = some operator := by
    rw [between.current, kind]
    exact Option.filter_eq_some_iff.2 ⟨means, by simp [same]⟩
  refine exact_bind (exact_pure start.current start) ?_
  rw [found, between.current]
  exact exact_bind (exact_advance first) (exact_bind (exact_skipLineBreaks others lines solid)
    (exact_bind reads (exact_pure _ _)))

/-- What has been joined so far splits at its rightmost operator, and so it does with one operand
more; the induction is on the operators that are left. -/
theorem Row.Rest.climbs
    (solid : ∀ start, start.current.kind = .lineBreak → (operand start).value = none)
    (tighter : Climbs operand (tier.level + 1) parser) {middle stop : Cursor} {rest : Operations}
    (left : Row.Rest operand tier middle rest stop) {first : Expr} {before : Operations}
    {tree : Expr} (splits : Splits first before tree)
    (loosest : ∀ other ∈ before, tier.level ≤ other.1.value.precedence.level) :
    ∃ nexts, Steps (nextOperand tier parser) middle nexts stop ∧
      Splits first (before ++ rest) (nexts.foldl (join tier) tree) := by
  induction count : rest.length using Nat.strongRecOn
    generalizing middle rest before tree with
  | _ count ih =>
  subst count
  cases left with
  | done ends => exact ⟨[], .done (exact_nextOperand_ends ends), by simpa using splits⟩
  | next between kind means same lines row =>
    rename_i token _ operator _ _ right _
    have solid := row.ne_lineBreak solid
    obtain ⟨front, next, segment, rest, rfl, row, left⟩ := row.segment
    obtain ⟨value, reads, rights⟩ := tighter _ _ _ _ _ row
    have step := exact_nextOperand between kind means same lines solid reads
    have joined := splits.join token.span same loosest row.levels rights
    have looser : ∀ other ∈ before ++ (⟨token.span, operator⟩, right) :: segment,
        tier.level ≤ other.1.value.precedence.level := by
      refine List.forall_mem_append.2 ⟨loosest, List.forall_mem_cons.2 ⟨same ▸ Nat.le_refl _, ?_⟩⟩
      exact fun other member => Nat.le_of_succ_le (row.levels other member)
    have shorter : rest.length < ((⟨token.span, operator⟩, right) :: (segment ++ rest)).length :=
      Nat.lt_succ_of_le (List.length_append.symm ▸ Nat.le_add_left _ _)
    obtain ⟨nexts, steps, whole⟩ := ih rest.length shorter left joined looser rfl
    refine ⟨_ :: nexts, .more (between.trans row.passes) (by simp) step steps, ?_⟩
    simpa using whole

theorem binaryTier_climbs (tier : Precedence)
    (solid : ∀ start, start.current.kind = .lineBreak → (operand start).value = none)
    (tighter : Climbs operand (tier.level + 1) parser) :
    Climbs operand tier.level (binaryTier tier parser) := by
  intro start used first operations stop row
  obtain ⟨front, middle, before, rest, rfl, row, left⟩ := row.segment
  obtain ⟨tree, reads, splits⟩ := tighter _ _ _ _ _ row
  obtain ⟨nexts, steps, whole⟩ := left.climbs solid tighter splits fun other member =>
    Nat.le_of_succ_le (row.levels other member)
  exact ⟨_, exact_bind reads (exact_bind steps.many (exact_pure _ _)), whole⟩

theorem operand_climbs (operand : Parser Expr) :
    Climbs operand (Precedence.factor.level + 1) operand := by
  intro start used first operations stop row
  cases row with
  | last _ reads => exact ⟨first, reads, .single⟩
  | next _ _ _ _ _ tight => exact absurd tight (Nat.not_le.2 (Precedence.level_lt _))

theorem unary_lineBreak (type : Parser TypeExpr) (expr : Parser Expr) {start : Cursor}
    (breaks : start.current.kind = .lineBreak) : (unary type expr start).value = none := by
  have plain : unary type expr start = chain type expr start := by
    refine Eq.trans (bind_of_silent rfl) ?_
    rw [breaks]
    rfl
  have lost : (primary type expr start).value = none := by
    refine (congrArg Reply.value (bind_of_silent rfl)).trans ?_
    rw [constant?, breaks]
    rfl
  rw [plain, chain, bind_of_none lost]

theorem exprLevel_climbs (type : Parser TypeExpr) (expr : Parser Expr) :
    Climbs (unary type expr) 0 (exprLevel type expr) := by
  have solid (start : Cursor) (breaks : start.current.kind = .lineBreak) :=
    unary_lineBreak type expr breaks
  exact binaryTier_climbs .equality solid <| binaryTier_climbs .comparison solid <|
    binaryTier_climbs .term solid <| binaryTier_climbs .factor solid <| operand_climbs _

/-- Operands with any infix operators between them, up to a token that is none, are read exactly, as
the tree that splits at the rightmost operator of the loosest tier. -/
theorem expression_climbs {limit budget : Nat} {start stop : Cursor} {used : List Token}
    {first : Expr} {operations : Operations}
    (row : Row (unary (typeExpr limit budget) (expression limit budget)) 0 start used first
      operations stop) :
    ∃ tree, (expression limit (budget + 1) start).Exact tree stop ∧ start.Passes used stop ∧
      Splits first operations tree ∧ ∀ other, Splits first operations other → other = tree := by
  obtain ⟨tree, reads, splits⟩ := exprLevel_climbs _ _ _ _ _ _ _ row
  exact ⟨tree, exact_inside _ reads, row.passes, splits, fun other again => again.unique splits⟩

/-- The looser operator is split at first, and the line break behind the other one is passed. -/
theorem expression_climbs_break :
    ∃ used operations stop,
      Row (unary (typeExpr 1 0) (expression 1 0)) 0 (sourceCursor "1 - 2 *\n3".toList none) used
        (.number ⟨0, 1⟩ ⟨.decimal, false, ['1']⟩) operations stop ∧
      operations.map (fun next => next.1.value) = [.subtract, .multiply] ∧
      ∃ tree, (expression 1 1 (sourceCursor "1 - 2 *\n3".toList none)).Exact tree stop ∧
        (sourceCursor "1 - 2 *\n3".toList none).Passes used stop ∧
        Splits (.number ⟨0, 1⟩ ⟨.decimal, false, ['1']⟩) operations tree ∧
        ∀ other, Splits (.number ⟨0, 1⟩ ⟨.decimal, false, ['1']⟩) operations other →
          other = tree := by
  have last : Row (unary (typeExpr 1 0) (expression 1 0)) 0
      ((sourceCursor "1 - 2 *\n3".toList none).advanceBy 5)
      [⟨.number ⟨.decimal, false, ['3']⟩, ['3'], ⟨8, 9⟩, ⟨2, 1⟩⟩]
      (.number ⟨8, 9⟩ ⟨.decimal, false, ['3']⟩) []
      ((sourceCursor "1 - 2 *\n3".toList none).advanceBy 6) :=
    .last ⟨rfl, rfl, rfl, rfl⟩ ⟨rfl, rfl, rfl⟩ fun _ _ kind => nomatch kind
  have star : ((sourceCursor "1 - 2 *\n3".toList none).advanceBy 3).Passes
      [⟨.operator .star, ['*'], ⟨6, 7⟩, ⟨1, 7⟩⟩, ⟨.lineBreak, ['\n'], ⟨7, 8⟩, ⟨1, 8⟩⟩]
      ((sourceCursor "1 - 2 *\n3".toList none).advanceBy 5) := ⟨rfl, rfl, rfl, rfl⟩
  have second : ((sourceCursor "1 - 2 *\n3".toList none).advanceBy 2).Passes
      [⟨.number ⟨.decimal, false, ['2']⟩, ['2'], ⟨4, 5⟩, ⟨1, 5⟩⟩]
      ((sourceCursor "1 - 2 *\n3".toList none).advanceBy 3) := ⟨rfl, rfl, rfl, rfl⟩
  have minus : ((sourceCursor "1 - 2 *\n3".toList none).advanceBy 1).Passes
      [⟨.operator .minus, ['-'], ⟨2, 3⟩, ⟨1, 3⟩⟩]
      ((sourceCursor "1 - 2 *\n3".toList none).advanceBy 2) := ⟨rfl, rfl, rfl, rfl⟩
  have first : (sourceCursor "1 - 2 *\n3".toList none).Passes
      [⟨.number ⟨.decimal, false, ['1']⟩, ['1'], ⟨0, 1⟩, ⟨1, 1⟩⟩]
      ((sourceCursor "1 - 2 *\n3".toList none).advanceBy 1) := ⟨rfl, rfl, rfl, rfl⟩
  have two : (unary (typeExpr 1 0) (expression 1 0)
      ((sourceCursor "1 - 2 *\n3".toList none).advanceBy 2)).Exact
      (.number ⟨4, 5⟩ ⟨.decimal, false, ['2']⟩)
      ((sourceCursor "1 - 2 *\n3".toList none).advanceBy 3) := ⟨rfl, rfl, rfl⟩
  have one : (unary (typeExpr 1 0) (expression 1 0) (sourceCursor "1 - 2 *\n3".toList none)).Exact
      (.number ⟨0, 1⟩ ⟨.decimal, false, ['1']⟩)
      ((sourceCursor "1 - 2 *\n3".toList none).advanceBy 1) := ⟨rfl, rfl, rfl⟩
  have product := Row.next second two star rfl rfl (Nat.zero_le _) (by simp [Breaks]) last
  have row := Row.next first one minus rfl rfl (Nat.zero_le _) (by simp [Breaks]) product
  exact ⟨_, _, _, row, rfl, expression_climbs row⟩

end Parser

end MoSyntax
