import Mathlib.Order.Bounds.Defs
import MoSyntax.Proofs.Course.Keyword
import MoSyntax.Proofs.Nesting.Cover
import MoSyntax.Proofs.Reading.Source

/-!
Where skipping stops: at the first place outside of brackets where the construct may end. As long as
a subtree goes on, no more brackets are closed than opened, so that the count that stays at zero is
the number of brackets that are left open.
-/
namespace MoSyntax

namespace Skip

variable {stops : TokenKind → Bool}

def opened (tokens : List Token) : Nat := tokens.countP (·.kind.opens)

def closed (tokens : List Token) : Nat := tokens.countP (·.kind.closes)

/-- The count of open brackets that stays at zero where a bracket closes none. -/
def nesting (tokens : List Token) : Nat :=
  tokens.foldl
    (fun count token =>
      if token.kind.opens then count + 1 else if token.kind.closes then count - 1 else count) 0

/-- A subtree may end with the text, and at a closing bracket, a line break or a token that stops
it, if all brackets opened before are closed. -/
def SubtreeEnd (stops : TokenKind → Bool) (tokens : List Token) (count : Nat) : Prop :=
  count = tokens.length ∨ ∃ token, tokens[count]? = some token ∧
    opened (tokens.take count) = closed (tokens.take count) ∧
    (token.kind.closes ∨ token.kind = .lineBreak ∨ stops token.kind)

/-- A statement may end with the text, and at a line break or a closing brace outside of brackets.
-/
def StatementEnd (tokens : List Token) (count : Nat) : Prop :=
  count = tokens.length ∨ ∃ token, tokens[count]? = some token ∧
    nesting (tokens.take count) = 0 ∧
    (token.kind = .lineBreak ∨ token.kind = .punctuation .rightBrace)

theorem openAfter_eq (depth : Nat) (kind : TokenKind) :
    openAfter depth kind =
      if kind.opens then depth + 1 else if kind.closes then depth - 1 else depth := by
  rw [openAfter, openAfter?]
  split
  · rfl
  · split
    · split
      · rename_i zero
        rw [zero]
        rfl
      · rfl
    · rfl

theorem nesting_eq (tokens : List Token) : nesting tokens = openAfterAll 0 tokens := by
  simp only [nesting, openAfterAll, openAfter_eq]

theorem openAfterAll_cons (depth : Nat) (token : Token) (tokens : List Token) :
    openAfterAll depth (token :: tokens) = openAfterAll (openAfter depth token.kind) tokens := rfl

theorem endsSubtree_iff {kind : TokenKind} :
    endsSubtree stops kind ↔ kind.closes ∨ kind = .lineBreak ∨ stops kind := by
  simp [endsSubtree, or_assoc]

theorem endsStatement_iff {kind : TokenKind} :
    endsStatement kind ↔ kind = .lineBreak ∨ kind = .punctuation .rightBrace := by
  simp [endsStatement]

/-- What is not passed any more is the end of the text, or halts outside of brackets. -/
theorem lengthTo_halts (halts : TokenKind → Bool) (depth : Nat) (tokens : List Token) :
    lengthTo halts depth tokens = tokens.length ∨
      ∃ token, tokens[lengthTo halts depth tokens]? = some token ∧
        openAfterAll depth (tokens.take (lengthTo halts depth tokens)) = 0 ∧ halts token.kind := by
  induction tokens generalizing depth with
  | nil => exact .inl rfl
  | cons token tokens ih =>
    rw [lengthTo]
    split
    · rename_i ends
      exact .inr ⟨token, rfl, ends⟩
    · rcases ih (openAfter depth token.kind) with whole | ⟨next, here, ends⟩
      · exact .inl (by rw [whole, List.length_cons])
      · exact .inr ⟨next, here, ends⟩

/-- What is passed does not halt outside of brackets. -/
theorem goesOn_before_lengthTo {halts : TokenKind → Bool} {depth count : Nat} {tokens : List Token}
    {token : Token} (within : count < lengthTo halts depth tokens)
    (here : tokens[count]? = some token) :
    ¬ (openAfterAll depth (tokens.take count) = 0 ∧ halts token.kind) := by
  obtain ⟨bound, rfl⟩ := List.getElem?_eq_some_iff.1 here
  have split : tokens.take count ++ tokens[count] :: tokens.drop (count + 1) = tokens := by
    rw [← List.drop_eq_getElem_cons bound, List.take_append_drop]
  have before : (tokens.take count).length <
      lengthTo halts depth (tokens.take count ++ tokens[count] :: tokens.drop (count + 1)) := by
    rwa [split, List.length_take_of_le (Nat.le_of_lt bound)]
  exact goesOn_of_lt_lengthTo before

theorem lengthTo_isLeast (halts : TokenKind → Bool) (depth : Nat) (tokens : List Token) :
    IsLeast {count | count = tokens.length ∨ ∃ token, tokens[count]? = some token ∧
      openAfterAll depth (tokens.take count) = 0 ∧ halts token.kind}
      (lengthTo halts depth tokens) := by
  refine ⟨lengthTo_halts halts depth tokens, ?_⟩
  rintro count (rfl | ⟨token, here, ends⟩)
  · exact lengthTo_le halts depth tokens
  · exact Nat.le_of_not_lt fun within => goesOn_before_lengthTo within here ends

theorem not_closes_of_opens {kind : TokenKind} (opens : kind.opens) : kind.closes = false := by
  cases kind with
  | punctuation mark => cases mark <;> simp_all [TokenKind.opens, TokenKind.closes,
      Punctuation.opens, Punctuation.closes]
  | _ => rfl

theorem openAfter_exact {depth : Nat} {kind : TokenKind} (deep : kind.closes → depth ≠ 0) :
    openAfter depth kind + (if kind.closes then 1 else 0) =
      depth + if kind.opens then 1 else 0 := by
  rw [openAfter_eq]
  by_cases opens : kind.opens
  · simp [opens, not_closes_of_opens opens]
  · by_cases closes : kind.closes
    · have positive := deep closes
      simp only [opens, closes, ↓reduceIte, Bool.false_eq_true]
      omega
    · simp [opens, closes]

/-- As long as a subtree goes on, the count is exact: no bracket closes that is not open. -/
theorem openAfterAll_exact {depth count : Nat} {tokens : List Token}
    (within : count ≤ lengthTo (endsSubtree stops) depth tokens) :
    openAfterAll depth (tokens.take count) + closed (tokens.take count) =
      depth + opened (tokens.take count) := by
  induction tokens generalizing depth count with
  | nil => simp [openAfterAll, closed, opened]
  | cons token tokens ih =>
    cases count with
    | zero => simp [openAfterAll, closed, opened]
    | succ count =>
      rw [lengthTo] at within
      split at within
      · exact absurd within (Nat.not_succ_le_zero count)
      · rename_i goesOn
        have step := openAfter_exact fun closes zero =>
          goesOn ⟨zero, endsSubtree_iff.2 (.inl closes)⟩
        have further := ih (Nat.le_of_succ_le_succ within)
        rw [closed, opened] at further
        rw [List.take_succ_cons, openAfterAll_cons, closed, opened, List.countP_cons,
          List.countP_cons]
        omega

theorem lengthTo_subtree_isLeast (stops : TokenKind → Bool) (tokens : List Token) :
    IsLeast {count | SubtreeEnd stops tokens count} (lengthTo (endsSubtree stops) 0 tokens) := by
  obtain ⟨ends, least⟩ := lengthTo_isLeast (endsSubtree stops) 0 tokens
  have exact {count : Nat} (within : count ≤ lengthTo (endsSubtree stops) 0 tokens) :=
    openAfterAll_exact within
  -- Up to where the subtree ends, the count is zero just where opened and closed are balanced.
  constructor
  · refine ends.imp_right fun ⟨token, here, flat, halts⟩ => ⟨token, here, ?_, ?_⟩
    · have balance := exact (Nat.le_refl _)
      omega
    · exact endsSubtree_iff.1 halts
  · rintro count (rfl | ⟨token, here, flat, halts⟩)
    · exact lengthTo_le _ 0 tokens
    · refine Nat.le_of_not_lt fun within => goesOn_before_lengthTo within here ⟨?_, ?_⟩
      · have balance := exact (Nat.le_of_lt within)
        omega
      · exact endsSubtree_iff.2 halts

theorem closed_lt_opened {tokens : List Token} {token : Token} {count : Nat}
    (within : count < lengthTo (endsSubtree stops) 0 tokens) (here : tokens[count]? = some token)
    (closes : token.kind.closes) : closed (tokens.take count) < opened (tokens.take count) := by
  have balance := openAfterAll_exact (Nat.le_of_lt within)
  have deep : openAfterAll 0 (tokens.take count) ≠ 0 := fun zero =>
    goesOn_before_lengthTo within here ⟨zero, endsSubtree_iff.2 (.inl closes)⟩
  omega

theorem lengthTo_statement_isLeast (tokens : List Token) :
    IsLeast {count | StatementEnd tokens count} (lengthTo endsStatement 0 tokens) := by
  simpa only [StatementEnd, nesting_eq, ← endsStatement_iff] using
    lengthTo_isLeast endsStatement 0 tokens

end Skip

namespace Parser

/-- The span of what is skipped as a subtree; it is empty where that is nothing. -/
def skippedSpan (start : Cursor) (found : Option Span) : Span :=
  found.getD (.empty start.current.span.start)

/-- So many tokens are skipped as a subtree, and the span goes from the first of them to the last.
A closing bracket among them closes one that was opened on the way. -/
structure SkipsSubtree (stops : TokenKind → Bool) (start : Cursor) (count : Nat)
    (found : Option Span) : Prop where
  reply : skipSubtree stops start = { value := some found, cursor := start.advanceBy count }
  first : IsLeast {count | Skip.SubtreeEnd stops start.ahead count} count
  closes : ∀ place < count, ∀ token, start.ahead[place]? = some token → token.kind.closes →
    Skip.closed (start.ahead.take place) < Skip.opened (start.ahead.take place)
  nothing : found = none ↔ count = 0
  empty : (skippedSpan start found).isEmpty ↔ count = 0
  span : ∀ first ∈ (start.ahead.take count).head?, ∀ last ∈ (start.ahead.take count).getLast?,
    skippedSpan start found = first.span.through last.span

theorem covered_eq {tokens : List Token} {first last : Token} (head : first ∈ tokens.head?)
    (back : last ∈ tokens.getLast?) : covered tokens = first.span.through last.span := by
  rw [covered, Option.mem_def.1 head, Option.mem_def.1 back]

theorem skipSubtree_skips (stops : TokenKind → Bool) {start : Cursor}
    (ordered : Ordered start.ahead) : ∃ count found, SkipsSubtree stops start count found := by
  have reply := skipSubtree_eq stops start
  have first := Skip.lengthTo_subtree_isLeast stops start.ahead
  have bound := Skip.lengthTo_le (Skip.endsSubtree stops) 0 start.ahead
  have closes : ∀ place < Skip.lengthTo (Skip.endsSubtree stops) 0 start.ahead, ∀ token,
      start.ahead[place]? = some token → token.kind.closes → _ :=
    fun _ within _ => Skip.closed_lt_opened within
  cases length : Skip.lengthTo (Skip.endsSubtree stops) 0 start.ahead with
  | zero =>
    rw [length] at reply first closes
    exact ⟨0, none, reply, first, closes, by simp, by simp [skippedSpan, Span.empty, Span.isEmpty],
      by simp⟩
  | succ count =>
    rw [length] at reply first closes bound
    have place := covered_take bound
    have some : start.ahead.take (count + 1) ≠ [] :=
      List.ne_nil_of_length_pos (by rw [List.length_take_of_le bound]; omega)
    have solid :=
      (ordered.sublist (List.take_sublist (count + 1) _)).solid_of_spans (.of_covered some)
    rw [place] at solid
    refine ⟨count + 1, _, reply, first, closes, by simp, ?_, fun _ head _ back => ?_⟩
    · have apart := Nat.ne_of_lt solid
      simpa [skippedSpan, Span.isEmpty] using apart
    · rw [← covered_eq head back, place]
      rfl

/-- From every place among the tokens of a source, a subtree and a statement are skipped up to the
first place where they may end. -/
theorem skipping_stops (source : Text) (limit : Option Nat) (passed : Nat) :
    let start := (sourceCursor source limit).advanceBy passed
    (∀ stops, ∃ count found, SkipsSubtree stops start count found) ∧
      ∃ count, skipStatement start = { value := some (), cursor := start.advanceBy count } ∧
        IsLeast {count | Skip.StatementEnd start.ahead count} count := by
  intro start
  have ahead : start.ahead = (readTokens source limit).drop passed := by
    rw [Cursor.ahead_advanceBy, sourceCursor_eq]
  have ordered : Ordered start.ahead :=
    ahead ▸ (readTokens_ordered source limit).sublist (List.drop_sublist _ _)
  exact ⟨fun stops => skipSubtree_skips stops ordered, _, rfl,
    Skip.lengthTo_statement_isLeast start.ahead⟩

end Parser

end MoSyntax
