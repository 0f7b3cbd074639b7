import MoSyntax.Parser.Depth
import MoSyntax.Proofs.Reading.Phrase

/-!
What is skipped. The count of open brackets in a subtree never goes below zero, because a closing
bracket ends the subtree where none is open; so the subtree ends where the other count says too.
-/
namespace MoSyntax

namespace Skip

variable {stops : TokenKind → Bool}

theorem lengthTo_le (halts : TokenKind → Bool) (depth : Nat) (tokens : List Token) :
    lengthTo halts depth tokens ≤ tokens.length := by
  induction tokens generalizing depth with
  | nil => simp [lengthTo]
  | cons token tokens ih =>
    rw [lengthTo]
    split
    · simp
    · simpa using ih _

theorem openAfter?_eq {depth : Nat} {kind : TokenKind} (deep : kind.closes → depth ≠ 0) :
    openAfter? depth kind = some (openAfter depth kind) := by
  rw [openAfter]
  cases counted : openAfter? depth kind with
  | some count => rfl
  | none =>
    rw [openAfter?] at counted
    split at counted
    · simp at counted
    · split at counted
      · rename_i closes
        simp [deep closes] at counted
      · simp at counted

/-- Behind more brackets the count is higher by as many, as long as none of these is closed. -/
theorem openAfter?_add {depth inner : Nat} {kind : TokenKind} (deep : kind.closes → inner ≠ 0) :
    openAfter? (depth + inner) kind = some (depth + openAfter inner kind) := by
  simp only [openAfter, openAfter?]
  split
  · rfl
  · split
    · rename_i closes
      have positive := deep closes
      simp only [Nat.add_eq_zero_iff, positive, and_false, ↓reduceIte, Option.getD_some,
        Option.some.injEq]
      omega
    · rfl

/-- The exact count and the one that stays at zero agree on a subtree. -/
theorem subtreeLength?_eq (depth : Nat) (tokens : List Token) :
    subtreeLength? stops depth tokens = some (lengthTo (endsSubtree stops) depth tokens) := by
  induction tokens generalizing depth with
  | nil => rfl
  | cons token tokens ih =>
    rw [subtreeLength?, lengthTo]
    split
    · rfl
    · rename_i goesOn
      have deep : token.kind.closes → depth ≠ 0 := by
        intro closes zero
        exact goesOn ⟨zero, by simp [endsSubtree, closes]⟩
      rw [openAfter?_eq deep, Option.bind_eq_bind, Option.bind_some, ih]
      rfl

end Skip

variable {α : Type}

/-- A placeholder covers what was skipped, and the limit is reported where that begins. -/
inductive SkippedReading (limit : Nat) (placeholder : Span → α) : Reading α
  | skipped {first rest} : SkippedReading limit placeholder (first :: rest)
      (placeholder (covered (first :: rest))) [Report.tooDeep limit first.span]

theorem SkippedReading.ne_nil {limit : Nat} {placeholder : Span → α} {used found reports}
    (reads : SkippedReading limit placeholder used found reports) : used ≠ [] := by
  cases reads
  simp

/-- A construct behind a gap, or tokens that could not be read. -/
inductive RecoveredReading (gap : List Token → Prop) (each : Reading α) : Reading (Option α)
  | read {before used value reports} (skipped : gap before) (reads : each used value reports) :
      RecoveredReading gap each (before ++ used) (some value) reports
  | lost {used reports} (some : used ≠ []) (told : reports ≠ []) :
      RecoveredReading gap each used none reports

/-- The constructs that could be read, as many as there are. -/
inductive BodyReading (gap : List Token → Prop) (each : Reading α) : Reading (List α)
  | body {used values reports}
      (rounds : Repeated (RecoveredReading gap each) gap used values reports) :
      BodyReading gap each used values.reduceOption reports

theorem BodyReading.ensures {gap : List Token → Prop} {each : Reading α} {holds : α → Prop}
    (all : Ensures each holds) {used values reports}
    (reads : BodyReading gap each used values reports) : ∀ value ∈ values, holds value := by
  obtain ⟨rounds⟩ := reads
  induction rounds with
  | done => exact List.forall_mem_nil _
  | more first _ ih =>
    cases first with
    | read _ reads => exact List.forall_mem_cons.2 ⟨all _ _ _ reads, ih⟩
    | lost => exact ih

namespace Parser

theorem skipStatement_at (start : Cursor) :
    SoundAt start (fun used _ reports => reports = [] ∧
      used.length = Skip.lengthTo Skip.endsStatement 0 start.ahead) skipStatement := by
  apply SoundAt.here_bind
  have bound := Skip.lengthTo_le Skip.endsStatement 0 start.ahead
  refine (SoundAt.skip _ _ (List.take_append_drop _ _).symm
    (List.length_take_of_le bound)).imp ?_
  rintro _ _ _ ⟨rfl, rfl⟩
  exact ⟨rfl, List.length_take_of_le bound⟩

/-- Recovery from a statement gets on, if what could not be read does not begin with an end. -/
theorem skipStatement_moves {start stop : Cursor} {used rest : List Token} {token : Token}
    (ahead : start.ahead = token :: rest) (inner : Skip.endsStatement token.kind = false)
    (passes : start.Passes used stop) :
    SoundAt stop (fun more _ reports => reports = [] ∧ used ++ more ≠ []) skipStatement := by
  refine (skipStatement_at stop).imp ?_
  rintro more _ _ ⟨rfl, length⟩
  refine ⟨rfl, ?_⟩
  cases used with
  | cons first used => simp
  | nil =>
    rw [passes.of_nil, ahead, Skip.lengthTo, if_neg (by simp [inner])] at length
    exact List.ne_nil_of_length_pos (by rw [List.nil_append]; omega)

theorem covered_take {cursor : Cursor} {count : Nat} (enough : count < cursor.ahead.length) :
    covered (cursor.ahead.take (count + 1)) =
      cursor.current.span.through (cursor.peek count).span := by
  have here : (cursor.ahead.take (count + 1)).head? = some cursor.current := by
    cases ahead : cursor.ahead with
    | nil => simp [ahead] at enough
    | cons token tokens => simp [Cursor.current, Cursor.peek, ahead]
  have last : cursor.ahead[count]? = some (cursor.peek count) := by
    rw [Cursor.peek, List.getD_eq_getElem?_getD, List.getElem?_eq_getElem enough]
    rfl
  have taken : (cursor.ahead.take (count + 1)).getLast? = some (cursor.peek count) := by
    rw [List.getLast?_take, if_neg (Nat.succ_ne_zero _), Nat.add_sub_cancel, last]
    rfl
  rw [covered, here, taken]

theorem skipSubtree_at (stops : TokenKind → Bool) (start : Cursor) :
    SoundAt start (fun used span? reports => reports = [] ∧
      used = start.ahead.take (Skip.lengthTo (Skip.endsSubtree stops) 0 start.ahead) ∧
      match span? with
      | none => used = []
      | some span => used ≠ [] ∧ span = covered used) (skipSubtree stops) := by
  apply SoundAt.here_bind
  have bound := Skip.lengthTo_le (Skip.endsSubtree stops) 0 start.ahead
  rw [Skip.subtreeLength?_eq]
  cases length : Skip.lengthTo (Skip.endsSubtree stops) 0 start.ahead with
  | zero => exact SoundAt.pure ⟨rfl, rfl, rfl⟩
  | succ count =>
    rw [length] at bound
    refine SoundAt.bind (SoundAt.skip _ _ (List.take_append_drop _ _).symm
      (List.length_take_of_le bound)) ?_
    rintro _ _ _ stop _ ⟨rfl, rfl⟩
    refine SoundAt.pure ⟨rfl, List.append_nil _, ?_, ?_⟩
    · rw [List.append_nil]
      exact List.ne_nil_of_length_pos (by rw [List.length_take_of_le bound]; omega)
    · rw [List.append_nil, covered_take (by omega)]

theorem tooDeep_at (limit : Nat) (stops : TokenKind → Bool) (placeholder : Span → α)
    (start : Cursor) :
    SoundAt start (fun used found reports =>
      used = start.ahead.take (Skip.lengthTo (Skip.endsSubtree stops) 0 start.ahead) ∧
        SkippedReading limit placeholder used found reports) (tooDeep limit stops placeholder) := by
  intro intact
  obtain ⟨missteps, used, passes, holds⟩ := skipSubtree_at stops start intact
  obtain ⟨next, unfolded, kept, lost⟩ : ∃ next : Option Span → Parser α,
      tooDeep limit stops placeholder start =
        (andThen (skipSubtree stops) next start).after
          { value := some (), cursor := start
            reports := [Report.tooDeep limit start.current.span] } ∧
      (∀ span, next (some span) = pure (placeholder span)) ∧ next none = fail :=
    ⟨_, rfl, fun _ => rfl, rfl⟩
  rw [unfolded, andThen]
  cases value : (skipSubtree stops start).value with
  | none => exact ⟨by simp [Reply.after, missteps], used, passes, by simp [Reply.after]⟩
  | some span? =>
    cases span? with
    | none =>
      simp only [lost]
      exact ⟨by simp [Reply.after, missteps, fail], used, passes, by simp [Reply.after, fail]⟩
    | some span =>
      simp only [value] at holds
      obtain ⟨silent, taken, some, rfl⟩ := holds
      obtain ⟨first, rest, rfl⟩ := List.exists_cons_of_ne_nil some
      have here : start.current = first := Cursor.current_of_ahead passes.ahead
      simp only [kept]
      refine ⟨by simp [Reply.after, missteps, pure, succeed], _, passes, ?_⟩
      simpa [Reply.after, silent, here, pure, succeed] using And.intro taken SkippedReading.skipped

theorem tooDeep_sound (limit : Nat) (stops : TokenKind → Bool) (placeholder : Span → α) :
    Sound (SkippedReading limit placeholder) (tooDeep limit stops placeholder) :=
  fun start => (tooDeep_at limit stops placeholder start).imp fun _ _ _ holds => holds.2

end Parser

end MoSyntax
