import MoSyntax.Proofs.Course.Expr
import MoSyntax.Proofs.Telling.Logic

/-!
What types and expressions report lies before what is found. A placeholder covers at least the token
at which the limit is reported, and a trial that is given up leaves no report.
-/
namespace MoSyntax.Parser

variable {α : Type} {bodies : Prop} {type : Parser TypeExpr} {expr : Parser Expr}

theorem tooDeep_clean (limit : Nat) (stops : TokenKind → Bool) (placeholder : Span → α) :
    Places bodies Clean (tooDeep limit stops placeholder) := by
  intro start _ inOrder
  have told : Told start start (Report.tooDeep limit start.current.span) :=
    .here inOrder rfl rfl rfl
  have passes := start.advanceBy_take (Skip.lengthTo (Skip.endsSubtree stops) 0 start.ahead)
  rw [tooDeep_eq]
  refine ⟨⟨_, passes⟩, ?_, ?_, List.pairwise_singleton _ _, ?_⟩
  · exact List.forall_mem_singleton.2 fun unclosed => absurd unclosed (tooDeep_wrong limit _)
  · exact List.forall_mem_singleton.2 (told.further (inOrder.current_le passes))
  · intro value found report member here
    obtain rfl := List.mem_singleton.1 member
    have bound := Skip.lengthTo_le (Skip.endsSubtree stops) 0 start.ahead
    have moved : start.ahead.take (Skip.lengthTo (Skip.endsSubtree stops) 0 start.ahead) ≠ [] := by
      intro none
      have length := List.length_take_of_le bound
      rw [none] at length
      rw [← length] at found
      cases found
    exact absurd here (Nat.ne_of_lt (inOrder.current_lt passes moved))

theorem typeLevel_clean (types : Places bodies Clean type) :
    Places bodies Clean (typeLevel type) := by
  have lengths : Places bodies Clean arrayLength := by
    intro start
    apply PlacesAt.current_bind
    split
    · split
      · exact .skip_bind (.pure _)
      · exact .reject_here (fun unclosed => absurd unclosed (lengthNotDecimal_wrong _)) rfl rfl rfl
    · exact .pure _
  intro start
  apply PlacesAt.current_bind
  split
  · refine (mark_clean (by decide)).clean_bind (fun _ => lengths.clean_bind fun _ => ?_) start
    exact (mark_clean (by decide)).clean_bind fun _ => types.clean_bind fun _ => .pure _
  · exact .current_bind (.skip_bind (types.clean_bind (fun _ => .pure _) _))
  · exact (name_clean (by decide)).clean_bind (fun _ => .pure _) start
  · refine .reject_here (fun unclosed => absurd unclosed (unexpected_wrong (fun rest => ?_) _))
      rfl rfl rfl
    simp [Diagnostic.unclosedMessages, ← String.toList_inj]

theorem typeExpr_clean (limit budget : Nat) : Places bodies Clean (typeExpr limit budget) := by
  induction budget with
  | zero => exact tooDeep_clean limit _ _
  | succ budget ih => exact fun start => .inside (typeLevel_clean ih start)

section
variable (exprs : Places bodies Clean expr)
include exprs

theorem grouped_clean : Places bodies Clean (grouped expr) := by
  refine fun start => .current_bind (.skip_bind (skipLineBreaks_clean.clean_bind (fun _ => ?_) _))
  exact exprs.clean_bind fun _ => skipLineBreaks_clean.clean_bind fun _ =>
    (mark_clean (by decide)).clean_bind fun _ => .pure _

theorem nameOrCall_clean : Places bodies Clean (nameOrCall expr) := by
  refine (name_clean (by decide)).clean_bind fun target => ?_
  refine (accept_clean _).clean_bind fun indexed => ?_
  split
  · exact skipLineBreaks_clean.clean_bind fun _ => exprs.clean_bind fun _ =>
      skipLineBreaks_clean.clean_bind fun _ => (mark_clean (by decide)).clean_bind fun _ =>
        .pure _
  · refine (accept_clean _).clean_bind fun called => ?_
    split
    · exact (listUntil_clean exprs _ (by decide)).clean_bind fun _ => .pure _
    · exact .pure _

theorem nextSuffix_clean : Places bodies Clean (nextSuffix expr) := by
  refine fun start => .current_bind ((accept_clean _).clean_bind (fun dotted => ?_) start)
  split
  · refine (ident_clean (by decide)).clean_bind fun member => ?_
    refine (accept_clean _).clean_bind fun called => ?_
    split
    · exact (listUntil_clean exprs _ (by decide)).clean_bind fun _ => .pure _
    · exact .pure _
  · exact .pure _

variable (types : Places bodies Clean type)
include types

theorem arrayLiteral_clean : Places bodies Clean (arrayLiteral type expr) := by
  have elements : Places bodies Clean (elementType type) := by
    refine fun start => .current_bind ?_
    split
    · exact types.attempt _ start
    · exact .pure _
  exact (mark_clean (by decide)).clean_bind fun _ =>
    (listUntil_clean exprs _ (by decide)).clean_bind fun _ => elements.clean_bind fun _ => .pure _

theorem primary_clean : Places bodies Clean (primary type expr) := by
  intro start
  apply PlacesAt.current_bind
  split
  · exact .skip_bind (.pure _)
  · split
    · exact grouped_clean exprs start
    · exact arrayLiteral_clean exprs types start
    · exact nameOrCall_clean exprs start
    · refine .reject_here (fun unclosed => absurd unclosed (unexpected_wrong (fun rest => ?_) _))
        rfl rfl rfl
      simp [Diagnostic.unclosedMessages, ← String.toList_inj]

theorem unary_clean : Places bodies Clean (unary type expr) := by
  have chains : Places bodies Clean (chain type expr) := by
    refine (primary_clean exprs types).clean_bind fun receiver =>
      (nextSuffix_clean exprs).clean_many.clean_bind fun suffixes => ?_
    split
    · exact .pure _
    · exact .pure _
  intro start
  apply PlacesAt.current_bind
  split
  · exact chains start
  · exact .skip_bind (chains.clean_bind (fun _ => .pure _) _)

theorem exprLevel_clean : Places bodies Clean (exprLevel type expr) := by
  have tier (tier : Precedence) {operand : Parser Expr} (operands : Places bodies Clean operand) :
      Places bodies Clean (binaryTier tier operand) := by
    refine operands.clean_bind fun _ => (Places.clean_many fun start => ?_).clean_bind fun _ =>
      .pure _
    apply PlacesAt.current_bind
    split
    · exact .pure _
    · exact .skip_bind (skipLineBreaks_clean.clean_bind
        (fun _ => operands.clean_bind fun _ => .pure _) _)
  have tiers (all : List Precedence) :
      Places bodies Clean (all.foldr binaryTier (unary type expr)) := by
    induction all with
    | nil => exact unary_clean exprs types
    | cons first all ih => exact tier first ih
  exact tiers Precedence.all

end

theorem expression_clean (limit budget : Nat) :
    Places bodies Clean (expression limit budget) := by
  induction budget with
  | zero => exact tooDeep_clean limit _ _
  | succ budget ih =>
    exact fun start => .inside (exprLevel_clean ih (typeExpr_clean limit budget) start)

end MoSyntax.Parser
