import MoSyntax.Proofs.Deepening.Logic

/-!
Replies of which all is known: the value, the place behind it, and that nothing is reported. What
such a reply needs is that the right tokens lie between the two places.
-/
namespace MoSyntax

namespace Cursor.Passes

variable {start stop : Cursor} {used more : List Token} {token : Token}

theorem current (passes : start.Passes (token :: used) stop) : start.current = token :=
  current_of_ahead passes.ahead

theorem split (passes : start.Passes (used ++ more) stop) :
    start.Passes used (start.advanceBy used.length) ∧
      (start.advanceBy used.length).Passes more stop := by
  obtain ⟨first, ahead⟩ := advanceBy_passes used (more ++ stop.ahead)
    (by rw [passes.ahead, List.append_assoc])
  refine ⟨first, ahead, ?_, passes.eof.trans first.eof.symm, passes.beyond.trans first.beyond.symm⟩
  rw [passes.passed, first.passed, List.reverse_append, List.append_assoc]

theorem uncons (passes : start.Passes (token :: used) stop) :
    start.Passes [token] start.advance ∧ start.advance.Passes used stop :=
  split (show start.Passes ([token] ++ used) stop from passes)

theorem stop_eq (passes : start.Passes used stop) : stop = start.advanceBy used.length := by
  have whole : start.Passes (used ++ []) stop := by rwa [List.append_nil]
  exact whole.split.2.of_nil

end Cursor.Passes

/-- The reply has the value and the place, and reports nothing. -/
structure Reply.Exact {α : Type} (reply : Reply α) (value : α) (stop : Cursor) : Prop where
  value : reply.value = some value
  cursor : reply.cursor = stop
  reports : reply.reports = []

namespace Parser

variable {α β : Type} {start middle stop : Cursor}

theorem exact_pure (value : α) (start : Cursor) :
    ((pure value : Parser α) start).Exact value start := ⟨rfl, rfl, rfl⟩

theorem exact_bind {first : Parser α} {next : α → Parser β} {value : α} {found : β}
    (head : (first start).Exact value middle) (tail : (next value middle).Exact found stop) :
    ((first >>= next) start).Exact found stop := by
  rw [bind_of_some head.value, head.cursor]
  exact ⟨tail.value, tail.cursor, by simp [Reply.after, head.reports, tail.reports]⟩

theorem exact_inside {parser : Parser α} {value : α} (depth : Nat)
    (exact : (parser start).Exact value stop) : (inside depth parser start).Exact value stop := by
  rw [inside]
  split
  · exact ⟨exact.value, exact.cursor, exact.reports⟩
  · exact exact

theorem exact_advance {token : Token} (passes : start.Passes [token] stop) :
    (advance start).Exact () stop :=
  ⟨rfl, passes.stop_eq.symm, rfl⟩

theorem exact_expect {token : Token} {kind : TokenKind} (passes : start.Passes [token] stop)
    (same : token.kind = kind) (message : String) :
    (expect kind message start).Exact token.span stop := by
  rw [expect_found (by simp [passes.current, same]), passes.current]
  exact ⟨rfl, passes.stop_eq.symm, rfl⟩

theorem exact_ident {token : Token} {name : Ident} (passes : start.Passes [token] stop)
    (names : token.Names name) (message : String) : (ident message start).Exact name stop := by
  refine exact_bind (exact_pure start.current start) ?_
  rw [passes.current, names.1]
  refine exact_bind (exact_advance passes) ?_
  rw [← names.2]
  exact exact_pure name stop

theorem exact_skipLineBreaks {used : List Token} (passes : start.Passes used stop)
    (breaks : Breaks used) (ends : stop.current.kind ≠ .lineBreak) :
    (skipLineBreaks start).Exact () stop := by
  have none : stop.ahead.takeWhile (·.kind == .lineBreak) = [] := by
    cases ahead : stop.ahead with
    | nil => rfl
    | cons token rest =>
      rw [Cursor.current_of_ahead ahead] at ends
      exact List.takeWhile_cons_of_neg (by simpa using ends)
  have count : lineBreaksAhead start.ahead = used.length := by
    rw [lineBreaksAhead, passes.ahead, List.takeWhile_append_of_pos (by simpa [Breaks] using breaks),
      none, List.append_nil]
  refine ⟨rfl, ?_, rfl⟩
  show start.advanceBy (lineBreaksAhead start.ahead) = stop
  rw [count, ← passes.stop_eq]

/-- A step taken again and again, up to the place where it has nothing more. -/
inductive Steps (step : Parser (Option α)) : Cursor → List α → Cursor → Prop
  | done {start stop : Cursor} (ends : (step start).Exact none stop) : Steps step start [] stop
  | more {start middle stop : Cursor} {used value values} (passes : start.Passes used middle)
      (moved : used ≠ []) (takes : (step start).Exact (some value) middle)
      (others : Steps step middle values stop) : Steps step start (value :: values) stop

theorem Steps.manyUpTo {step : Parser (Option α)} {values : List α}
    (steps : Steps step start values stop) {count : Nat} (enough : start.ahead.length < count) :
    (Parser.manyUpTo count step start).Exact values stop := by
  induction steps generalizing count with
  | done ends =>
    obtain ⟨count, rfl⟩ : ∃ less, count = less + 1 := ⟨count - 1, by omega⟩
    exact exact_bind ends (exact_pure _ _)
  | more passes moved takes _ ih =>
    obtain ⟨count, rfl⟩ : ∃ less, count = less + 1 := ⟨count - 1, by omega⟩
    have shorter := passes.length
    have passed := List.length_pos_iff.2 moved
    exact exact_bind takes (exact_bind (ih (by omega)) (exact_pure _ _))

theorem Steps.many {step : Parser (Option α)} {values : List α}
    (steps : Steps step start values stop) : (Parser.many step start).Exact values stop :=
  steps.manyUpTo (Nat.lt_succ_self _)

end Parser

end MoSyntax
