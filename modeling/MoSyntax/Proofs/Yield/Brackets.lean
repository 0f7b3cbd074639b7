import MoSyntax.Proofs.Printing.Trial
import MoSyntax.Proofs.Yield.Program

/-!
The brackets of a clean source. A tree is written with balanced brackets, and what its yield leaves
out are no brackets; so a source without diagnostics closes each bracket that it opens, in order.
-/
namespace MoSyntax

namespace Skip

theorem Balanced.braced {parts : List (List TokenKind)} (all : ∀ part ∈ parts, Balanced part) :
    Balanced (braced [] parts) := by
  rw [MoSyntax.braced, List.nil_append, intercalate_nil]
  exact bracketed rfl rfl (flatten all) nil

end Skip

open Skip (Balanced)

mutual

theorem Stmt.balanced : (statement : Stmt) → Balanced (statement.kinds [])
  | .forLoop _ condition body =>
    Balanced.cons rfl rfl (condition.balanced.append (Block.balanced body))
  | .ifElse _ condition consequence none =>
    Balanced.cons rfl rfl (condition.balanced.append (Block.balanced consequence))
  | .ifElse _ condition consequence (some otherwise) =>
    Balanced.cons rfl rfl (condition.balanced.append
      ((Block.balanced consequence).append (Balanced.cons rfl rfl (Block.balanced otherwise))))
  | .ret _ none => Balanced.cons rfl rfl Balanced.nil
  | .ret _ (some value) => Balanced.cons rfl rfl value.balanced
  | .defer _ statement => Balanced.cons rfl rfl (Stmt.balanced statement)
  | .block body => Block.balanced body
  | .declare _ _ none value =>
    Balanced.cons rfl rfl (Balanced.cons rfl rfl value.balanced)
  | .declare _ _ (some type) value =>
    Balanced.cons rfl rfl (type.balanced.append (Balanced.cons rfl rfl value.balanced))
  | .assign _ target value => target.balanced.append (Balanced.cons rfl rfl value.balanced)
  | .compoundAssign _ target _ value =>
    target.balanced.append (Balanced.cons rfl rfl (Balanced.cons rfl rfl value.balanced))
  | .expression value => value.balanced
  | .skipped _ => Balanced.nil

theorem Block.balanced : (body : Block) → Balanced (body.kinds [])
  | .braces _ statements => Balanced.braced (stmtKinds_balanced statements)

theorem stmtKinds_balanced : (statements : List Stmt) →
    ∀ part ∈ stmtKinds [] statements, Balanced part
  | [] => by simp [stmtKinds]
  | statement :: statements => by
    rw [stmtKinds]
    exact List.forall_mem_cons.2 ⟨Stmt.balanced statement, stmtKinds_balanced statements⟩

end

theorem TypedName.balanced (typed : TypedName) : Balanced typed.kinds :=
  Balanced.cons rfl rfl typed.type.balanced

theorem typedKinds_balanced (typed : List TypedName) :
    ∀ part ∈ typed.map TypedName.kinds, Balanced part := by
  intro part member
  obtain ⟨field, _, rfl⟩ := List.mem_map.1 member
  exact field.balanced

theorem Decl.balanced (declaration : Decl) : Balanced (declaration.kinds []) := by
  cases declaration with
  | importing span path localName =>
    refine Balanced.cons rfl rfl (Balanced.append (Name.balanced (.path path)) ?_)
    cases localName with
    | none => exact Balanced.nil
    | some name => exact Balanced.cons rfl rfl Balanced.nil
  | record span name fields =>
    exact Balanced.cons rfl rfl (Balanced.cons rfl rfl (Balanced.braced (typedKinds_balanced fields)))
  | function span name parameters result body =>
    refine Balanced.cons rfl rfl (Balanced.cons rfl rfl (Balanced.bracketed rfl rfl
      (Balanced.listed (typedKinds_balanced parameters)) ?_))
    cases result with
    | none => exact body.balanced
    | some result => exact result.balanced.append body.balanced

theorem Program.balanced (program : Program) : Balanced program.yield := by
  rw [yield, kinds, intercalate_nil]
  refine Balanced.flatten fun part member => ?_
  obtain ⟨declaration, _, rfl⟩ := List.mem_map.1 member
  exact declaration.balanced

/-! What a yield leaves out opens and closes nothing. -/

namespace Skip

theorem openAfter_of_plain {kind : TokenKind} (opens : kind.opens = false)
    (closes : kind.closes = false) (depth : Nat) : openAfter depth kind = depth := by
  simp [openAfter, openAfter?, opens, closes]

theorem foldl_withoutFieldCommas (region : Region) (kinds : List TokenKind) (depth : Nat) :
    (withoutFieldCommas region kinds).foldl openAfter depth = kinds.foldl openAfter depth := by
  induction kinds generalizing region depth with
  | nil => rfl
  | cons kind kinds ih =>
    rw [withoutFieldCommas]
    split
    · rename_i comma
      rw [ih, List.foldl_cons, comma.2, openAfter_of_plain rfl rfl]
    · rw [List.foldl_cons, List.foldl_cons, ih]

theorem foldl_kindsOf (tokens : List Token) (depth : Nat) :
    (kindsOf tokens).foldl openAfter depth = (tokens.map Token.kind).foldl openAfter depth := by
  induction tokens generalizing depth with
  | nil => rfl
  | cons token tokens ih =>
    by_cases breaks : token.kind = .lineBreak
    · have erased : kindsOf (token :: tokens) = kindsOf tokens := by simp [kindsOf, breaks]
      rw [erased, ih, List.map_cons, List.foldl_cons, breaks, openAfter_of_plain rfl rfl]
    · rw [kindsOf_cons breaks, List.foldl_cons, List.map_cons, List.foldl_cons, ih]

/-- The number of open brackets behind some tokens, if none is closed that is not open. -/
def levelAfter? (depth : Nat) (kinds : List TokenKind) : Option Nat :=
  kinds.foldlM openAfter? depth

/-- If a bracket is closed that is not open, one more open bracket makes no difference behind it. -/
theorem levelAfter?_or (kinds : List TokenKind) (depth : Nat) :
    levelAfter? depth kinds = some (kinds.foldl openAfter depth) ∨
      kinds.foldl openAfter (depth + 1) = kinds.foldl openAfter depth := by
  induction kinds generalizing depth with
  | nil => exact .inl rfl
  | cons kind kinds ih =>
    rw [List.foldl_cons, List.foldl_cons, levelAfter?, List.foldlM_cons]
    cases opens : kind.opens with
    | true =>
      have step (depth : Nat) : openAfter? depth kind = some (depth + 1) := by
        simp [openAfter?, opens]
      simpa [openAfter, step, levelAfter?] using ih (depth + 1)
    | false =>
      cases closes : kind.closes with
      | false =>
        have step (depth : Nat) : openAfter? depth kind = some depth := by
          simp [openAfter?, opens, closes]
        simpa [openAfter, step, levelAfter?] using ih depth
      | true =>
        have step (depth : Nat) : openAfter? (depth + 1) kind = some depth := by
          simp [openAfter?, opens, closes]
        -- `openAfter` stays at zero where `openAfter?` fails, and so the one more is lost.
        cases depth with
        | succ depth => simpa [openAfter, step, levelAfter?] using ih depth
        | zero =>
          have none : openAfter? 0 kind = none := by simp [openAfter?, opens, closes]
          exact .inr (by simp [openAfter, step, none])

theorem Balanced.levelAfter? {kinds : List TokenKind} (balanced : Balanced kinds) (depth : Nat) :
    levelAfter? depth kinds = some depth := by
  rcases levelAfter?_or kinds depth with level | same
  · rw [level, balanced]
  · rw [balanced, balanced] at same
    omega

end Skip

theorem grammarTokens_balanced {source name : Text} {limits : Limits}
    (clean : (parse source name limits).diagnostics = []) :
    Balanced ((grammarTokens source).map Token.kind) := by
  intro depth
  have yields := parse_yield source name limits clean
  rw [significantKinds_eq] at yields
  rw [← Skip.foldl_kindsOf, ← Skip.foldl_withoutFieldCommas .outside, ← yields]
  exact (parse source name limits).program.balanced depth

end MoSyntax
