import MoSyntax.Proofs.Deepening.Program

/-!
Parsers over a session. A session has the place in the tokens, all the diagnostics so far and the
level of nesting, and a parser that runs in it changes all three. A trial notes the index of the place
and the number of diagnostics; to give it up is to go back to that index and to forget all
diagnostics past that number. What was there when the trial began is there again, and nothing else.
-/
namespace MoSyntax

structure Session where
  cursor : Cursor
  bag : Bag
  depth : Nat

/-- What a trial notes of a session. -/
structure Checkpoint where
  index : Nat
  size : Nat

namespace Session

def checkpoint (session : Session) : Checkpoint := ⟨session.cursor.index, session.bag.size⟩

def rewind (session : Session) (point : Checkpoint) : Session :=
  { session with cursor := session.cursor.reset point.index, bag := session.bag.truncate point.size }

def enter (session : Session) : Session := { session with depth := session.depth + 1 }

def leave (session : Session) : Session := { session with depth := session.depth - 1 }

structure Ready (limit : Nat) (session : Session) : Prop where
  intact : session.cursor.Intact
  within : session.depth ≤ limit

/-- What a routine leaves as it was: the diagnostics that were there, all tokens, the level of nesting
and the tokens behind the place. -/
structure Follows (before after : Session) : Prop where
  lines : after.bag.lines = before.bag.lines
  diagnostics : before.bag.items <+: after.bag.items
  tokens : after.cursor.tokens = before.cursor.tokens
  eof : after.cursor.eof = before.cursor.eof
  onward : before.cursor.index ≤ after.cursor.index
  depth : after.depth = before.depth

end Session

theorem Cursor.placed_index {cursor : Cursor} (intact : cursor.Intact) :
    placed cursor.eof cursor.tokens cursor.index = cursor := by
  obtain ⟨passed, ahead, eof, beyond⟩ := cursor
  obtain rfl : beyond = 0 := intact.beyond
  have length : passed.reverse.length = passed.length := List.length_reverse
  simp [placed, tokens, index, List.take_left' length, List.drop_left' length]

theorem Bag.truncate_size {before after : Bag} (lines : after.lines = before.lines)
    (prefixed : before.items <+: after.items) : after.truncate before.size = before := by
  obtain ⟨more, whole⟩ := prefixed
  rw [truncate, size, ← whole, List.take_left]
  exact congrArg (Bag.mk · before.items) lines

theorem Session.Follows.rewind {before after : Session} (follows : Follows before after)
    (intact : before.cursor.Intact) : after.rewind before.checkpoint = before := by
  have cursor : after.cursor.reset before.cursor.index = before.cursor := by
    rw [Cursor.reset, follows.tokens, follows.eof, Cursor.placed_index intact]
  have bag := Bag.truncate_size follows.lines follows.diagnostics
  obtain ⟨_, _, _⟩ := before
  obtain rfl := follows.depth
  simp only [Session.rewind, Session.checkpoint, cursor, bag]

/-- A computation in a session, which may have no result. -/
abbrev Action (α : Type) : Type := Session → Option α × Session

namespace Action

variable {α β : Type}

def succeed (value : α) : Action α := fun before => (some value, before)

def andThen (first : Action α) (next : α → Action β) : Action β := fun before =>
  let (value, after) := first before
  match value with
  | some found => next found after
  | none => (none, after)

/-- A failed attempt goes back to the checkpoint taken before it. -/
def attempt (action : Action α) : Action (Option α) := fun before =>
  let (value, after) := action before
  match value with
  | some found => (some (some found), after)
  | none => (some none, after.rewind before.checkpoint)

theorem attempt_of_none {action : Action α} {before : Session} (fails : (action before).1 = none) :
    action.attempt before = (some none, (action before).2.rewind before.checkpoint) := by
  simp only [attempt, fails]

/-- What the action declines is given up, and the other one starts at the checkpoint. -/
def unlessDeclined (action : Action (Option α)) (other : Action α) : Action α := fun before =>
  let (value, after) := action before
  match value with
  | some (some found) => (some found, after)
  | some none => other (after.rewind before.checkpoint)
  | none => (none, after)

variable {action other : Action α} {before : Session}

theorem andThen_congr {next further : α → Action β} (same : action before = other before)
    (rest : ∀ value, (other before).1 = some value →
      next value (other before).2 = further value (other before).2) :
    action.andThen next before = other.andThen further before := by
  simp only [andThen, same]
  cases found : (other before).1 with
  | none => rfl
  | some value => exact rest value found

theorem attempt_congr (same : action before = other before) :
    action.attempt before = other.attempt before := by
  simp only [attempt, same]

theorem unlessDeclined_congr {action other : Action (Option α)} {next further : Action α}
    (same : action before = other before)
    (rest : next ((other before).2.rewind before.checkpoint) =
      further ((other before).2.rewind before.checkpoint)) :
    action.unlessDeclined next before = other.unlessDeclined further before := by
  simp only [unlessDeclined, same, rest]

end Action

/-- The parser reads at the place of the session, and what it reports goes into the bag. -/
def Parser.run {α : Type} (parser : Parser α) : Action α := fun session =>
  let reply := parser session.cursor
  (reply.value, { session with cursor := reply.cursor, bag := session.bag.reportAll reply.reports })

/-- One level further in, unless the limit is reached. There the rest is skipped with a report, and
the placeholder stands for it. -/
def Action.nested {α : Type} (inner : Action α) (limit : Nat) (stops : TokenKind → Bool)
    (placeholder : Span → α) : Action α := fun before =>
  if limit ≤ before.depth then (Parser.tooDeep limit stops placeholder).run before
  else
    let (value, after) := inner before.enter
    (value, after.leave)

namespace Bag

theorem reportAll_append (bag : Bag) (first second : List Diagnostic) :
    bag.reportAll (first ++ second) = (bag.reportAll first).reportAll second :=
  List.foldl_append

theorem lines_reportAll (bag : Bag) (diagnostics : List Diagnostic) :
    (bag.reportAll diagnostics).lines = bag.lines := by
  induction diagnostics generalizing bag with
  | nil => rfl
  | cons first rest ih => exact ih (bag.report first)

end Bag

namespace Parser

variable {α β : Type}

theorem run_bind (first : Parser α) (next : α → Parser β) :
    (first >>= next).run = first.run.andThen fun value => (next value).run := by
  funext before
  show (andThen first next).run before = _
  rw [run, andThen, Action.andThen, run]
  cases found : (first before.cursor).value with
  | none => rfl
  | some value => simp [run, Reply.after, Bag.reportAll_append]

theorem run_pure (value : α) : (pure value : Parser α).run = Action.succeed value := rfl

theorem run_follows {reading : Reading α} {parser : Parser α} (sound : Sound reading parser)
    {before : Session} (intact : before.cursor.Intact) :
    before.Follows (parser.run before).2 := by
  obtain ⟨_, used, passes, _⟩ := sound before.cursor intact
  constructor
  case lines => exact Bag.lines_reportAll _ _
  case diagnostics =>
    show _ <+: (before.bag.reportAll _).items
    rw [Bag.items_reportAll]
    exact List.prefix_append _ _
  case tokens =>
    show (parser before.cursor).cursor.tokens = _
    simp [Cursor.tokens, passes.passed, passes.ahead]
  case eof => exact passes.eof
  case onward =>
    show _ ≤ (parser before.cursor).cursor.index
    simp [Cursor.index, passes.passed, passes.beyond]
  case depth => rfl

theorem run_intact {reading : Reading α} {parser : Parser α} (sound : Sound reading parser)
    {before : Session} (intact : before.cursor.Intact) : (parser.run before).2.cursor.Intact := by
  obtain ⟨_, used, passes, _⟩ := sound before.cursor intact
  exact passes.intact intact

theorem run_moves {reading : Reading α} {parser : Parser α} (sound : Sound reading parser)
    (some : ∀ used value reports, reading used value reports → used ≠ []) {before : Session}
    (intact : before.cursor.Intact) (succeeds : (parser.run before).1.isSome) :
    before.cursor.index < (parser.run before).2.cursor.index := by
  obtain ⟨_, used, passes, holds⟩ := sound before.cursor intact
  obtain ⟨value, found⟩ := Option.isSome_iff_exists.1 succeeds
  have found : (parser before.cursor).value = _ := found
  rw [found] at holds
  have length := List.length_pos_iff.2 (some _ _ _ holds)
  show _ < (parser before.cursor).cursor.index
  simp only [Cursor.index, passes.passed, passes.beyond, List.length_append, List.length_reverse]
  omega

theorem run_told {reading : Reading α} {parser : Parser α} (sound : Sound reading parser)
    {before : Session} (intact : before.cursor.Intact) (fails : (parser.run before).1 = none) :
    before.bag.size < (parser.run before).2.bag.size := by
  obtain ⟨_, used, _, holds⟩ := sound before.cursor intact
  have fails : (parser before.cursor).value = _ := fails
  rw [fails] at holds
  have length := List.length_pos_iff.2 holds
  show _ < (before.bag.reportAll _).items.length
  rw [Bag.length_reportAll]
  exact Nat.lt_add_of_pos_right length

theorem run_attempt {reading : Reading α} {parser : Parser α} (sound : Sound reading parser)
    (trial : Trial) {before : Session} (intact : before.cursor.Intact) :
    (attempt trial parser).run before = parser.run.attempt before := by
  have follows := run_follows sound intact
  rw [Action.attempt, run, attempt]
  cases found : (parser before.cursor).value with
  | none =>
    simp only [run, found]
    exact congrArg (some none, ·) (follows.rewind intact).symm
  | some value =>
    obtain ⟨_, used, passes, _⟩ := sound before.cursor intact
    simp only [run, found, Sound.matched_of_intact (passes.intact intact)]
    simp [Reply.after]

theorem run_unlessDeclined {reading : Reading (Option α)} {parser : Parser (Option α)}
    (sound : Sound reading parser) (other : Parser α) {before : Session}
    (intact : before.cursor.Intact) :
    (unlessDeclined parser other).run before = parser.run.unlessDeclined other.run before := by
  have follows := run_follows sound intact
  rw [Action.unlessDeclined, run, unlessDeclined]
  cases found : (parser before.cursor).value with
  | none => simp only [run, found]
  | some value =>
    cases value with
    | some value => simp only [run, found]
    | none =>
      have back := follows.rewind intact
      simp only [run] at back
      simp only [run, found, back]
      simp [Reply.after]

/-- A simple statement that is no declaration is read as an assignment, and if it is none, once more
from the checkpoint as an expression. -/
theorem run_simpleStatement {type : Parser TypeExpr} {expr : Parser Expr}
    {declared assigned : Reading (Option Stmt)} (first : Sound declared (declaration type expr))
    (second : Sound assigned (assignment (unary type expr) expr)) {before : Session}
    (intact : before.cursor.Intact) :
    (simpleStatement type expr).run before =
      (declaration type expr).run.andThen (fun
        | some statement => .succeed statement
        | none => (assignment (unary type expr) expr).run.unlessDeclined
          (expressionStatement expr).run) before := by
  obtain ⟨next, opened, found, declined⟩ : ∃ next, simpleStatement type expr =
        declaration type expr >>= next ∧ (∀ statement, next (some statement) = pure statement) ∧
      next none = unlessDeclined (assignment (unary type expr) expr) (expressionStatement expr) :=
    ⟨_, rfl, fun _ => rfl, rfl⟩
  rw [opened, run_bind]
  refine Action.andThen_congr rfl fun value _ => ?_
  cases value with
  | some statement => rw [found, run_pure]
  | none => rw [declined, run_unlessDeclined second _ (run_intact first intact)]

theorem run_nested (levels body : Nat → Parser α) {limit : Nat} {stops : TokenKind → Bool}
    {placeholder : Span → α} (deep : levels 0 = tooDeep limit stops placeholder)
    (within : ∀ budget, levels (budget + 1) = inside (limit - budget) (body budget))
    (before : Session) :
    (levels (limit - before.depth)).run before =
      Action.nested (fun inner => (body (limit - inner.depth)).run inner) limit stops placeholder
        before := by
  rw [Action.nested]
  split
  · rename_i reached
    rw [Nat.sub_eq_zero_of_le reached, deep]
  · rename_i further
    have budget : limit - before.depth = limit - (before.depth + 1) + 1 := by omega
    rw [budget, within, run, inside]
    split <;> rfl

end Parser

end MoSyntax
