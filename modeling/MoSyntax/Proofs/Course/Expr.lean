import MoSyntax.Proofs.Course.Logic
import MoSyntax.Proofs.Deepening.TypeExpr
import MoSyntax.Proofs.Reading.Expr

/-!
The course through types and expressions. They skip only at the limit on nesting, and no further
than a statement that is skipped from the same place.
-/
namespace MoSyntax

theorem Skip.lengthTo_le_lengthTo {first second : TokenKind → Bool}
    (implies : ∀ kind, second kind → first kind) (depth : Nat) (tokens : List Token) :
    lengthTo first depth tokens ≤ lengthTo second depth tokens := by
  induction tokens generalizing depth with
  | nil => exact Nat.le_refl 0
  | cons token tokens ih =>
    rw [lengthTo, lengthTo]
    by_cases ends : depth = 0 ∧ first token.kind
    · rw [if_pos ends]
      exact Nat.zero_le _
    · rw [if_neg ends, if_neg fun both => ends ⟨both.1, implies _ both.2⟩]
      exact Nat.succ_le_succ (ih _)

theorem Skip.endsStatement_endsSubtree (stops : TokenKind → Bool) (kind : TokenKind)
    (ends : endsStatement kind) : endsSubtree stops kind := by
  simp only [endsStatement, Bool.or_eq_true, beq_iff_eq] at ends
  rcases ends with rfl | rfl
  · simp [endsSubtree]
  · simp [endsSubtree, TokenKind.closes, Punctuation.closes]

/-- A skip goes no further than the one to the end of a statement from the same place. -/
theorem SkipsTo.length_le {body : Cursor → Cursor → Prop} {report : Diagnostic}
    {start stop : Cursor} {skipped : List Token} (skips : SkipsTo body report start stop)
    (passes : start.Passes skipped stop) :
    skipped.length ≤ Skip.lengthTo Skip.endsStatement 0 start.ahead := by
  obtain ⟨halts, implies, cursor⟩ : ∃ halts : TokenKind → Bool,
      (∀ kind, Skip.endsStatement kind → halts kind) ∧
        stop = start.advanceBy (Skip.lengthTo halts 0 start.ahead) := by
    cases skips with
    | @subtree stops _ _ cursor =>
      rw [Parser.skipSubtree_eq] at cursor
      exact ⟨_, Skip.endsStatement_endsSubtree stops, cursor⟩
    | statement _ cursor => exact ⟨_, fun _ ends => ends, cursor⟩
  have length := passes.length
  have bound := Skip.lengthTo_le halts 0 start.ahead
  have reach := Skip.lengthTo_le_lengthTo implies 0 start.ahead
  rw [cursor, Cursor.ahead_advanceBy, List.length_drop] at length
  omega

namespace Parser

variable {body : Cursor → Cursor → Prop} {start : Cursor} {α : Type}

theorem name_runs {message : String} (other : message ∉ Diagnostic.unclosedMessages) :
    Runs body (name message) := by
  refine (ident_runs other).bind fun first => Runs.bind (Runs.many ?_ nextSegment_sound.moves)
    fun rest => ?_
  · intro start
    apply RunsAt.here_bind
    split
    · rename_i next
      obtain ⟨mark, _⟩ : start.current.kind = .punctuation .colon ∧ _ := by simpa using next
      refine RunsAt.advance_bind (by simp [mark]) (by simp [mark, TokenKind.startsDeclaration]) ?_
      exact fun stop => (ident_runs (by decide) stop).bind fun _ _ => .pure _
    · exact .pure _
  · split
    · exact .pure _
    · exact .pure _

theorem tooDeep_wrong (limit : Nat) (span : Span) : ¬ (Report.tooDeep limit span).isUnclosed := by
  show ¬ Diagnostic.unclosedMessages.contains
    (toString "nesting exceeds the limit of " ++ toString limit ++ toString " levels")
  simp [Diagnostic.unclosedMessages, ← String.toList_inj, toString]

theorem tooDeep_runs (limit : Nat) {stops : TokenKind → Bool}
    (construct : stops ∈ [Skip.stopsType, Skip.stopsExpression, Skip.stopsStatement])
    (placeholder : Span → α) : Runs body (tooDeep limit stops placeholder) := by
  intro start intact
  have marks : (Report.tooDeep limit start.current.span).Marks start.current := rfl
  have wrong := tooDeep_wrong limit start.current.span
  obtain ⟨_, _, passes, _⟩ := skipSubtree_at stops start intact
  have skips : SkipsTo body (Report.tooDeep limit start.current.span) start
      (skipSubtree stops start).cursor := .subtree rfl construct rfl
  have course := (Course.tell .start marks).skip List.mem_cons_self marks wrong skips passes
  rw [skipSubtree_eq] at course
  rw [tooDeep_eq]
  refine ⟨⟨_, course⟩, fun lost => ⟨_, List.mem_cons_self, ?_, wrong⟩⟩
  cases length : Skip.lengthTo (Skip.endsSubtree stops) 0 start.ahead with
  | zero => exact marks
  | succ count =>
    rw [length] at lost
    exact absurd lost (by simp)

theorem lengthNotDecimal_wrong (found : Token) : ¬ (Report.lengthNotDecimal found).isUnclosed := by
  show ¬ Diagnostic.unclosedMessages.contains
    ("array length `" ++ String.ofList found.lexeme ++ "` must be a decimal integer")
  simp [Diagnostic.unclosedMessages, ← String.toList_inj]

theorem arrayLength_runs : Runs body arrayLength := by
  intro start
  apply RunsAt.current_bind
  split
  · rename_i literal number
    split
    · exact RunsAt.advance_bind (by simp [number]) (by simp [number, TokenKind.startsDeclaration])
        fun _ => .pure _
    · exact .reject rfl (lengthNotDecimal_wrong _)
  · exact .pure _

theorem unexpected_wrong {expected : String}
    (other : ∀ rest, "expected " ++ expected ++ rest ∉ Diagnostic.unclosedMessages)
    (found : Token) : ¬ (Report.unexpected expected found).isUnclosed := by
  show ¬ Diagnostic.unclosedMessages.contains
    ("expected " ++ expected ++ ", found " ++ found.description)
  rw [String.append_assoc]
  simpa using other (", found " ++ found.description)

variable {type : Parser TypeExpr} {expr : Parser Expr}

theorem typeLevel_runs (types : Runs body type) : Runs body (typeLevel type) := by
  intro start
  apply RunsAt.current_bind
  split
  · refine (mark_runs _ (by decide)).bind
      (fun opening => arrayLength_runs.bind fun length => ?_) start
    exact (mark_runs _ (by decide)).bind fun _ => types.bind fun _ => .pure _
  · rename_i star
    refine RunsAt.current_bind (RunsAt.advance_bind (by simp [star])
      (by simp [star, TokenKind.startsDeclaration]) fun stop => ?_)
    exact (types stop).bind fun _ _ => .pure _
  · exact (name_runs (by decide)).bind (fun _ => .pure _) start
  · refine .reject (unexpected_marks _ _) (unexpected_wrong (fun rest => ?_) _)
    simp [Diagnostic.unclosedMessages, ← String.toList_inj]

theorem typeExpr_runs (limit budget : Nat) : Runs body (typeExpr limit budget) := by
  induction budget with
  | zero => exact tooDeep_runs limit (by simp) _
  | succ budget ih => exact fun start => RunsAt.inside (typeLevel_runs ih start)

section
variable {item : Parser α} {each : Reading α}

theorem nextItem_runs (runs : Runs body item) : Runs body (nextItem item) := by
  refine (acceptMark_runs _).bind fun found => ?_
  split
  · exact skipLineBreaks_runs.bind fun _ => runs.bind fun _ => skipLineBreaks_runs.bind fun _ =>
      .pure _
  · exact .pure _

theorem listUntil_runs (runs : Runs body item) (sound : Sound each item) (closing : Punctuation)
    {message : String} (other : message ∉ Diagnostic.unclosedMessages) :
    Runs body (listUntil item closing message) := by
  have separated : Runs body (commaSeparated item) :=
    runs.bind fun _ => skipLineBreaks_runs.bind fun _ =>
      (Runs.many (nextItem_runs runs) (nextItem_sound sound).moves).bind fun _ => .pure _
  refine Runs.bind (skipLineBreaks_runs.bind fun _ => ?_) fun items =>
    (mark_runs _ other).bind fun _ => .pure _
  intro start
  apply RunsAt.check_bind
  split
  · exact .pure _
  · exact separated start

end

section
variable {reading : Reading Expr}

theorem grouped_runs (runs : Runs body expr)
    (paren : start.current.kind = .punctuation .leftParen) :
    RunsAt body start (grouped expr) := by
  refine RunsAt.current_bind (RunsAt.advance_bind (by simp [paren])
    (by simp [paren, TokenKind.startsDeclaration]) fun stop => skipLineBreaks_runs.bind ?_ stop)
  exact fun _ => runs.bind fun _ => skipLineBreaks_runs.bind fun _ =>
    (mark_runs _ (by decide)).bind fun _ => .pure _

theorem nameOrCall_runs (runs : Runs body expr) (sound : Sound reading expr) :
    Runs body (nameOrCall expr) := by
  refine (name_runs (by decide)).bind fun target => ?_
  refine (acceptMark_runs _).bind fun indexed => ?_
  split
  · refine skipLineBreaks_runs.bind fun _ => runs.bind fun _ => skipLineBreaks_runs.bind fun _ => ?_
    exact (mark_runs _ (by decide)).bind fun _ => .pure _
  · refine (acceptMark_runs _).bind fun called => ?_
    split
    · exact (listUntil_runs runs sound _ (by decide)).bind fun _ => .pure _
    · exact .pure _

theorem arrayLiteral_runs (types : Runs body type) (runs : Runs body expr)
    (sound : Sound reading expr) : Runs body (arrayLiteral type expr) := by
  refine (mark_runs _ (by decide)).bind
    fun opening => (listUntil_runs runs sound _ (by decide)).bind fun elements => ?_
  refine Runs.bind (fun start => RunsAt.current_bind ?_) fun _ => .pure _
  split
  · exact types.attempt _ start
  · exact .pure _

theorem constant?_plain {token : Token} {value : Expr} (found : constant? token = some value) :
    ¬ token.kind.startsDeclaration := by
  unfold constant? at found
  split at found
  · simp_all [TokenKind.startsDeclaration]
  · simp_all [TokenKind.startsDeclaration]
  · simp_all [TokenKind.startsDeclaration, Keyword.startsDeclaration]
  · simp_all [TokenKind.startsDeclaration, Keyword.startsDeclaration]
  · simp at found

theorem primary_runs (types : Runs body type) (runs : Runs body expr)
    (sound : Sound reading expr) : Runs body (primary type expr) := by
  intro start
  apply RunsAt.current_bind
  split
  · rename_i value found
    exact RunsAt.advance_bind (constant?_ne_endOfFile found) (constant?_plain found)
      fun _ => .pure _
  · split
    · rename_i paren
      exact grouped_runs runs paren
    · exact arrayLiteral_runs types runs sound start
    · exact nameOrCall_runs runs sound start
    · refine .reject (unexpected_marks _ _) (unexpected_wrong (fun rest => ?_) _)
      simp [Diagnostic.unclosedMessages, ← String.toList_inj]

theorem nextSuffix_runs (runs : Runs body expr) (sound : Sound reading expr) :
    Runs body (nextSuffix expr) := by
  intro start
  refine RunsAt.current_bind ((acceptMark_runs _).bind (fun dotted => ?_) start)
  split
  · refine (ident_runs (by decide)).bind fun member => ?_
    refine (acceptMark_runs _).bind fun called => ?_
    split
    · exact (listUntil_runs runs sound _ (by decide)).bind fun _ => .pure _
    · exact .pure _
  · exact .pure _

theorem chain_runs (types : Runs body type) (runs : Runs body expr)
    (sound : Sound reading expr) : Runs body (chain type expr) := by
  refine (primary_runs types runs sound).bind fun receiver => ?_
  refine (Runs.many (nextSuffix_runs runs sound) (nextSuffix_sound sound).moves).bind
    fun suffixes => ?_
  split
  · exact .pure _
  · exact .pure _

theorem unary_runs (types : Runs body type) (runs : Runs body expr)
    (sound : Sound reading expr) : Runs body (unary type expr) := by
  intro start
  apply RunsAt.current_bind
  split
  · exact chain_runs types runs sound start
  · rename_i operator found
    obtain ⟨sign, kind, _⟩ := prefixOperator?_eq_some found
    refine RunsAt.advance_bind (by simp [kind]) (by simp [kind, TokenKind.startsDeclaration]) ?_
    exact fun stop => (chain_runs types runs sound stop).bind fun _ _ => .pure _

theorem binaryTier_runs (tier : Precedence) {operand : Parser Expr} (runs : Runs body operand)
    (sound : Sound reading operand) : Runs body (binaryTier tier operand) := by
  refine runs.bind fun first =>
    (Runs.many (fun start => RunsAt.current_bind ?_) (nextOperand_sound sound).moves).bind
      fun _ => .pure _
  split
  · exact .pure _
  · rename_i operator found
    obtain ⟨sign, kind, _⟩ := tierOperator?_eq_some found
    refine RunsAt.advance_bind (by simp [kind]) (by simp [kind, TokenKind.startsDeclaration]) ?_
    exact fun stop => skipLineBreaks_runs.bind (fun _ => runs.bind fun _ => .pure _) stop

theorem exprLevel_runs {types : Reading TypeExpr} (typeRuns : Runs body type)
    (typeSound : Sound types type) (runs : Runs body expr) (sound : Sound reading expr) :
    Runs body (exprLevel type expr) := by
  have unaries := unary_sound typeSound sound
  have factors := binaryTier_sound .factor unaries
  have terms := binaryTier_sound .term factors
  have comparisons := binaryTier_sound .comparison terms
  exact binaryTier_runs .equality (binaryTier_runs .comparison (binaryTier_runs .term
    (binaryTier_runs .factor (unary_runs typeRuns runs sound) unaries) factors) terms) comparisons

end

theorem expression_runs (limit budget : Nat) (within : budget ≤ limit) :
    Runs body (expression limit budget) := by
  induction budget with
  | zero => exact tooDeep_runs limit (by simp) _
  | succ budget ih =>
    have types := typeExpr_sound limit budget (by omega)
    have exprs := expression_sound limit budget (by omega)
    exact fun start => RunsAt.inside
      (exprLevel_runs (typeExpr_runs limit budget) types (ih (by omega)) exprs start)

end Parser

end MoSyntax
