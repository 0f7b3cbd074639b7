import MoSyntax.Proofs.Printing.Expr
import MoSyntax.Proofs.Reading.Stmt
import MoSyntax.Proofs.Yield.Alphabet

/-!
Why the trial of a declaration fails on another statement. A type closes the brackets that it opens
before the statement ends, also where its inner parts are too deep and get skipped; so the `:=` that
has to follow the type would belong to the statement, which has none.
-/
namespace MoSyntax

namespace Skip

/-- Nothing that ends a statement stands outside of brackets. -/
def Enclosed : Nat → List TokenKind → Prop
  | _, [] => True
  | depth, kind :: kinds =>
    (depth = 0 → endsStatement kind = false) ∧ Enclosed (openAfter depth kind) kinds

/-- Brackets are closed as they were opened. -/
def Balanced (kinds : List TokenKind) : Prop :=
  ∀ depth, kinds.foldl openAfter depth = depth

theorem Enclosed.append {depth : Nat} {front back : List TokenKind} :
    Enclosed depth (front ++ back) ↔
      Enclosed depth front ∧ Enclosed (front.foldl openAfter depth) back := by
  induction front generalizing depth with
  | nil => simp [Enclosed]
  | cons kind front ih => rw [List.cons_append, Enclosed, Enclosed, ih, List.foldl_cons, and_assoc]

theorem Enclosed.of_plain {depth : Nat} {kinds : List TokenKind}
    (plain : ∀ kind ∈ kinds, endsStatement kind = false) : Enclosed depth kinds := by
  induction kinds generalizing depth with
  | nil => trivial
  | cons kind kinds ih =>
    obtain ⟨first, others⟩ := List.forall_mem_cons.1 plain
    exact ⟨fun _ => first, ih others⟩

theorem Enclosed.of_lengthTo (stops : TokenKind → Bool) (depth : Nat) (tokens : List Token) :
    Enclosed depth ((tokens.take (lengthTo (endsSubtree stops) depth tokens)).map Token.kind) := by
  induction tokens generalizing depth with
  | nil => simp [Enclosed]
  | cons token tokens ih =>
    rw [lengthTo]
    split
    · trivial
    · rename_i goesOn
      refine ⟨fun zero => ?_, ih _⟩
      rw [Bool.eq_false_iff]
      intro ends
      refine goesOn ⟨zero, ?_⟩
      simp only [endsStatement, Bool.or_eq_true, beq_iff_eq] at ends
      rcases ends with same | same <;>
        simp [endsSubtree, same, TokenKind.closes, Punctuation.closes]

namespace Balanced

variable {front back kinds : List TokenKind}

theorem nil : Balanced [] := fun _ => rfl

theorem append (first : Balanced front) (second : Balanced back) : Balanced (front ++ back) := by
  intro depth
  rw [List.foldl_append, first, second]

theorem cons {kind : TokenKind} (opens : kind.opens = false) (closes : kind.closes = false)
    (balanced : Balanced kinds) : Balanced (kind :: kinds) := by
  intro depth
  have same : openAfter depth kind = depth := by simp [openAfter, openAfter?, opens, closes]
  rw [List.foldl_cons, same, balanced]

theorem bracketed {opening closing : Punctuation} (opens : opening.opens)
    (closes : closing.closes) (inner : Balanced kinds) (behind : Balanced back) :
    Balanced (.punctuation opening :: (kinds ++ .punctuation closing :: back)) := by
  intro depth
  have up : openAfter depth (.punctuation opening) = depth + 1 := by
    simp [openAfter, openAfter?, TokenKind.opens, opens]
  have other : closing.opens = false := by
    cases closing <;> first | rfl | simp [Punctuation.closes] at closes
  have down : openAfter (depth + 1) (.punctuation closing) = depth := by
    simp [openAfter, openAfter?, TokenKind.opens, TokenKind.closes, other, closes]
  rw [List.foldl_cons, up, List.foldl_append, inner, List.foldl_cons, down, behind]

theorem of_plain (plain : ∀ kind ∈ kinds, kind.opens = false ∧ kind.closes = false) :
    Balanced kinds := by
  induction kinds with
  | nil => exact nil
  | cons kind kinds ih =>
    obtain ⟨first, others⟩ := List.forall_mem_cons.1 plain
    exact cons first.1 first.2 (ih others)

theorem flatten {parts : List (List TokenKind)} (all : ∀ part ∈ parts, Balanced part) :
    Balanced parts.flatten := by
  induction parts with
  | nil => exact nil
  | cons part parts ih =>
    obtain ⟨first, others⟩ := List.forall_mem_cons.1 all
    exact first.append (ih others)

theorem listed {parts : List (List TokenKind)} (all : ∀ part ∈ parts, Balanced part) :
    Balanced (listed parts) := by
  cases parts with
  | nil => exact nil
  | cons part parts =>
    obtain ⟨first, others⟩ := List.forall_mem_cons.1 all
    rw [MoSyntax.listed, intercalate_cons, List.flatMap_def]
    refine first.append (flatten ?_)
    intro other member
    obtain ⟨part, among, rfl⟩ := List.mem_map.1 member
    exact cons rfl rfl (others part among)

end Balanced

end Skip

open Skip (Balanced Enclosed)

theorem Name.balanced (name : Name) : Balanced name.kinds := by
  refine Balanced.of_plain ?_
  cases name with
  | ident name => simp [kinds, Ident.kinds, TokenKind.opens, TokenKind.closes]
  | path modules =>
    intro kind member
    rcases mem_intercalate member with member | ⟨part, among, member⟩
    · rw [List.mem_singleton.1 member]
      exact ⟨rfl, rfl⟩
    · obtain ⟨name, _, rfl⟩ := List.mem_map.1 among
      rw [List.mem_singleton.1 member]
      exact ⟨rfl, rfl⟩

theorem TypeExpr.balanced (type : TypeExpr) : Balanced type.kinds := by
  induction type with
  | named name => exact name.balanced
  | pointer span target ih => exact Balanced.cons rfl rfl ih
  | array span length element ih =>
    refine Balanced.bracketed rfl rfl ?_ ih
    cases length with
    | none => exact Balanced.nil
    | some length => exact Balanced.cons rfl rfl Balanced.nil
  | skipped span => exact Balanced.nil

mutual

theorem Expr.balanced : (expr : Expr) → Balanced expr.kinds
  | .number _ _ | .string _ _ | .bool _ _ => Balanced.cons rfl rfl Balanced.nil
  | .named name => name.balanced
  | .index _ target position => target.balanced.append
      (Balanced.bracketed rfl rfl (Expr.balanced position) Balanced.nil)
  | .call _ callee arguments => callee.balanced.append
      (Balanced.bracketed rfl rfl (Balanced.listed (exprKinds_balanced arguments)) Balanced.nil)
  | .array _ elements element => by
    refine Balanced.bracketed rfl rfl (Balanced.listed (exprKinds_balanced elements)) ?_
    cases element with
    | none => exact Balanced.nil
    | some element => exact element.balanced
  | .grouped _ inner => Balanced.bracketed rfl rfl (Expr.balanced inner) Balanced.nil
  | .chain _ receiver suffixes =>
    (Expr.balanced receiver).append (Balanced.flatten (suffixKinds_balanced suffixes))
  | .unary _ operator operand => Balanced.cons rfl rfl (Expr.balanced operand)
  | .binary _ _ left operator right =>
    (Expr.balanced left).append (Balanced.cons rfl rfl (Expr.balanced right))
  | .skipped _ => Balanced.nil

theorem Suffix.balanced : (suffix : Suffix) → Balanced suffix.kinds
  | .field _ _ => Balanced.cons rfl rfl (Balanced.cons rfl rfl Balanced.nil)
  | .call _ _ arguments => Balanced.cons rfl rfl (Balanced.cons rfl rfl
      (Balanced.bracketed rfl rfl (Balanced.listed (exprKinds_balanced arguments)) Balanced.nil))

theorem exprKinds_balanced : (exprs : List Expr) → ∀ part ∈ exprKinds exprs, Balanced part
  | [] => by simp [exprKinds]
  | expr :: exprs => by
    rw [exprKinds]
    exact List.forall_mem_cons.2 ⟨Expr.balanced expr, exprKinds_balanced exprs⟩

theorem suffixKinds_balanced : (suffixes : List Suffix) →
    ∀ part ∈ suffixKinds suffixes, Balanced part
  | [] => by simp [suffixKinds]
  | suffix :: suffixes => by
    rw [suffixKinds]
    exact List.forall_mem_cons.2 ⟨Suffix.balanced suffix, suffixKinds_balanced suffixes⟩

end

/-- Only what is enclosed is read, whatever it is read as. -/
def Encloses {α : Type} : Reading α := fun used _ _ => Enclosed 0 (used.map Token.kind)

theorem segments_not_ends {used : List Token} {names : List Ident} {reports : List Diagnostic}
    (segments : Repeated SegmentReading Nothing used names reports) :
    ∀ kind ∈ used.map Token.kind, Skip.endsStatement kind = false := by
  induction segments with
  | done ends => simp [show _ = [] from ends]
  | more first others ih =>
    obtain ⟨mark, word⟩ := first
    rw [List.map_append]
    exact List.forall_mem_append.2 ⟨by simp [mark, word.1, Skip.endsStatement], ih⟩

theorem NameReading.not_ends {used : List Token} {name : Name} (reads : NameReading used name) :
    ∀ kind ∈ used.map Token.kind, Skip.endsStatement kind = false := by
  cases reads with
  | ident names => simp [names.1, Skip.endsStatement]
  | path names segments some =>
    rw [List.map_cons]
    exact List.forall_mem_cons.2 ⟨by simp [names.1, Skip.endsStatement], segments_not_ends segments⟩

theorem TypeLevel.encloses {used : List Token} {type : TypeExpr} {reports : List Diagnostic}
    (reads : TypeLevel Encloses used type reports) : Encloses used type reports := by
  cases reads with
  | named name => exact Enclosed.of_plain name.not_ends
  | pointer mark inner =>
    obtain ⟨star, rfl, same, _⟩ := mark
    rw [Encloses, List.map_append, List.map_singleton, same]
    exact ⟨fun _ => rfl, inner⟩
  | array first count second inner =>
    obtain ⟨left, rfl, opens, _⟩ := first
    obtain ⟨right, rfl, closes, _⟩ := second
    cases count with
    | none =>
      simp only [Encloses, List.map_append, List.map_cons, List.map_nil, opens, closes]
      exact ⟨fun _ => rfl, fun _ => rfl, inner⟩
    | some number decimal whole =>
      simp only [Encloses, List.map_append, List.map_cons, List.map_nil, opens, closes, number]
      exact ⟨fun _ => rfl, fun _ => rfl, fun _ => rfl, inner⟩

namespace Parser

theorem typeExpr_encloses (limit budget : Nat) (within : budget ≤ limit) :
    Sound Encloses (typeExpr limit budget) := by
  induction budget with
  | zero =>
    intro start
    refine (tooDeep_at limit _ _ start).imp ?_
    rintro _ _ _ ⟨rfl, _⟩
    exact Enclosed.of_lengthTo _ _ _
  | succ budget ih =>
    intro start
    refine SoundAt.inside (by omega) ((typeLevel_sound (ih (by omega)) start).imp ?_)
    exact fun _ _ _ => TypeLevel.encloses

/-- Where the brackets of a statement are closed and its end comes next, no head of a declaration
has been read, because it would have to go on. -/
theorem typedHead_fails {type : Parser TypeExpr} (types : Sound Encloses type)
    {word : Text} {kinds rest : List TokenKind} (balanced : Balanced kinds)
    (plain : .operator .declare ∉ kinds) (ends : Skip.endsStatement (upcoming rest)) :
    Fails (.identifier word :: kinds ++ rest) (typedHead type) := by
  intro start holds
  obtain ⟨_, used, passes, reads⟩ := typedHead_sound types start holds.intact
  cases found : (typedHead type start).value with
  | none => rfl
  | some head =>
    exfalso
    simp only [found] at reads
    obtain ⟨names, typed, sign, rfl, declare, _⟩ := reads
    have whole := holds.kinds
    simp only [passes.ahead, List.map_append, List.map_cons, List.cons_append,
      List.append_assoc, List.cons.injEq, List.nil_append, declare] at whole
    obtain ⟨_, whole⟩ := whole
    rcases List.append_eq_append_iff.1 whole with ⟨more, same, behind⟩ | ⟨more, same, behind⟩
    · cases more with
      | nil =>
        rw [List.nil_append] at behind
        rw [← behind] at ends
        exact absurd ends (by simp [Skip.endsStatement])
      | cons kind more =>
        obtain ⟨rfl, _⟩ := List.cons.inj behind
        exact plain (same ▸ by simp)
    · cases more with
      | nil =>
        rw [List.nil_append] at behind
        rw [behind] at ends
        exact absurd ends (by simp [Skip.endsStatement])
      | cons kind more =>
        rw [behind] at ends
        rw [Encloses, same, Enclosed.append, balanced] at typed
        have inside := typed.2.1 rfl
        exact absurd ends (by simpa using inside)

end Parser

end MoSyntax
