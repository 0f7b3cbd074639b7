import MoSyntax.Proofs.Lexing.Restored
import MoSyntax.Proofs.Likeness.Decl
import MoSyntax.Proofs.Yield.Brackets

/-!
Tokens that are the same but moved. They are aligned, and where others follow them this takes that
they close all brackets and that a line break comes next.
-/
namespace MoSyntax.Comparison

/-- The comparison of tokens with those that they are moved to, which others may follow. -/
def moved (move : Nat → Nat) (tail : List Token) : Comparison := ⟨move, id, tail⟩

variable {move : Nat → Nat} {tail : List Token} {first second : Token} {rest others : List Token}

theorem moved_tokens (same : second.mark = (first.relocate move).mark) :
    (moved move tail).Tokens first second := by
  obtain ⟨kind, text⟩ := Prod.mk.inj same
  obtain ⟨lexeme, span⟩ := Prod.mk.inj text
  exact ⟨kind.symm, fun _ => lexeme.symm, span.symm⟩

theorem joins_of_breaks (breaks : ∀ next ∈ tail.head?, next.kind = .lineBreak) (token : Token) :
    joins token tail = false := by
  cases tail with
  | nil => rfl
  | cons next tail =>
    have kind := breaks next rfl
    simp [joins, kind]

theorem joins_moved (injective : Function.Injective move)
    (breaks : ∀ next ∈ tail.head?, next.kind = .lineBreak)
    (head : second.mark = (first.relocate move).mark)
    (same : others.map Token.mark = (rest.map (Token.relocate move)).map Token.mark) :
    joins first rest = joins second (others ++ tail) := by
  cases rest with
  | nil =>
    obtain rfl := List.map_eq_nil_iff.1 same
    exact (joins_of_breaks breaks second).symm
  | cons next rest =>
    obtain ⟨next', others, rfl, behind, _⟩ := List.map_eq_cons_iff.1 same
    have alike : (moved move tail).Tokens next next' := moved_tokens behind
    have here : second.span = first.span.relocate move := congrArg (·.2.2) head
    have there : next'.span = next.span.relocate move := congrArg (·.2.2) behind
    simp [joins, alike.kind, here, there, Span.relocate, injective.beq_eq]

theorem moved_aligned (injective : Function.Injective move)
    (breaks : ∀ next ∈ tail.head?, next.kind = .lineBreak) {depth : Nat}
    (level : tail ≠ [] → Skip.levelAfter? depth (rest.map Token.kind) = some 0)
    (same : others.map Token.mark = (rest.map (Token.relocate move)).map Token.mark) :
    (moved move tail).Aligned depth rest (others ++ tail) := by
  induction rest generalizing others depth with
  | nil =>
    obtain rfl := List.map_eq_nil_iff.1 same
    cases tail with
    | nil => exact .ended rfl
    | cons token more =>
      obtain rfl : depth = 0 := Option.some.inj (level (List.cons_ne_nil _ _))
      exact .past rfl (breaks token rfl)
  | cons first rest ih =>
    obtain ⟨second, others, rfl, head, behind⟩ := List.map_eq_cons_iff.1 same
    obtain ⟨next, step, further⟩ : ∃ next, (tail ≠ [] → Skip.openAfter? depth first.kind = some next) ∧
        (tail ≠ [] → Skip.levelAfter? next (rest.map Token.kind) = some 0) := by
      by_cases whole : tail = []
      · exact ⟨0, absurd whole, absurd whole⟩
      · have levels := level whole
        rw [List.map_cons, Skip.levelAfter?, List.foldlM_cons] at levels
        obtain ⟨next, step, further⟩ := Option.bind_eq_some_iff.1 levels
        exact ⟨next, fun _ => step, fun _ => further⟩
    exact .token (moved_tokens head) (fun _ _ => joins_moved injective breaks head behind) step
      (ih further behind)

/-- Where nothing follows, the brackets do not matter. -/
theorem moved_aligned_whole (injective : Function.Injective move) (depth : Nat)
    (same : others.map Token.mark = (rest.map (Token.relocate move)).map Token.mark) :
    (moved move []).Aligned depth rest others := by
  rw [← List.append_nil others]
  exact moved_aligned injective (by simp) (absurd rfl) same

theorem moved_decls {declarations declarations' : List Decl}
    (alike : List.Forall₂ (moved move tail).Decls declarations declarations') :
    declarations' = declarations.map (Decl.relocate move) := by
  have same := map_eq (fun _ _ alike => alike) alike
  exact (map_of_stays Decl.relocate_id declarations').symm.trans same.symm

theorem moved_stmts {statements statements' : List Stmt}
    (alike : List.Forall₂ (moved move tail).Stmts statements statements') :
    statements' = statements.map (Stmt.relocate move) := by
  have same := map_eq (fun _ _ alike => alike.tree) alike
  exact (map_of_stays Stmt.relocate_id statements').symm.trans same.symm

theorem moved_reports {reports reports' : List Diagnostic}
    (alike : List.Forall₂ (moved move tail).Reports reports reports') :
    reports' = reports.map (Diagnostic.relocate move) := by
  have same := map_eq (fun _ _ alike => alike.same) alike
  exact (map_of_stays Diagnostic.relocate_id reports').symm.trans same.symm

end MoSyntax.Comparison
