import MoSyntax.Proofs.Course.Order
import MoSyntax.Proofs.Nesting.Program
import MoSyntax.Proofs.Parting.Stmt

/-!
The statements of a block, round by round. Where the first of two texts that part is read without a
report, the second run reads the same statements and then goes on behind the place where they part.
On a line of mild tokens all rounds stay, whatever the line says.
-/
namespace MoSyntax

namespace Parser

variable {α : Type} {step : Parser (Option α)} {start middle stop : Cursor}

/-- From one place some rounds lead to another one, with these values and reports. -/
structure Leads (step : Parser (Option α)) (start : Cursor) (values : List α)
    (reports : List Diagnostic) (stop : Cursor) : Prop where
  passes : ∃ used, start.Passes used stop
  value : (many step start).value = (many step stop).value.map (values ++ ·)
  reports : (many step start).reports = reports ++ (many step stop).reports
  cursor : (many step start).cursor = (many step stop).cursor

namespace Leads

variable {values more : List α} {reports later : List Diagnostic}

theorem refl (start : Cursor) : Leads step start [] [] start :=
  ⟨⟨[], .refl start⟩, by simp, rfl, rfl⟩

theorem trans (first : Leads step start values reports middle)
    (second : Leads step middle more later stop) :
    Leads step start (values ++ more) (reports ++ later) stop where
  passes := by
    obtain ⟨used, passes⟩ := first.passes
    obtain ⟨behind, further⟩ := second.passes
    exact ⟨used ++ behind, passes.trans further⟩
  value := by
    rw [first.value, second.value, Option.map_map]
    exact congrArg (Option.map · _) (funext fun _ => (List.append_assoc _ _ _).symm)
  reports := by rw [first.reports, second.reports, List.append_assoc]
  cursor := first.cursor.trans second.cursor

theorem round (advances : Advances step) (keeps : Keeps step) (intact : start.Intact)
    (passes : ∃ used, start.Passes used (step start).cursor) {value : α}
    (found : (step start).value = some (some value)) :
    Leads step start [value] (step start).reports (step start).cursor := by
  obtain ⟨values, reports⟩ := many_of_some advances keeps intact found
  refine ⟨passes, values, reports, ?_⟩
  have shorter := advances start intact _ found
  rw [← many_eq advances keeps (keeps start intact) shorter]
  have opened : many step start = _ := bind_of_some found _
  rw [opened]
  dsimp only
  cases rest : (manyUpTo start.ahead.length step (step start).cursor).value with
  | none =>
    rw [bind_of_none rest]
    rfl
  | some values =>
    rw [bind_of_some rest]
    rfl

end Leads

theorem many_cursor_of_none (found : (step start).value = some none) :
    (many step start).cursor = (step start).cursor := by
  have opened : many step start = _ := bind_of_some found _
  rw [opened]
  rfl

def endsBlock (cursor : Cursor) : Bool :=
  cursor.atEnd || cursor.current.kind == .punctuation .rightBrace ||
    cursor.current.kind.startsDeclaration

theorem nextStatement_behind (stmt : Parser Stmt) (cursor : Cursor) :
    nextStatement stmt cursor =
      if endsBlock (pastBreaks cursor) then { value := some none, cursor := pastBreaks cursor }
      else
        { recover stmt skipStatement (pastBreaks cursor) with
          value := some (some (stmt (pastBreaks cursor)).value) } := by
  have opened : nextStatement stmt cursor =
      (if endsBlock (pastBreaks cursor) then return none
      else do return some (← recover stmt skipStatement) : Parser (Option (Option Stmt)))
        (pastBreaks cursor) := rfl
  rw [opened]
  split
  · rfl
  · rw [bind_of_some (recover_value _ _ _)]
    simp [Reply.after, pure, succeed]

theorem nextStatement_pastBreaks (stmt : Parser Stmt) (cursor : Cursor) :
    nextStatement stmt (pastBreaks cursor) = nextStatement stmt cursor := by
  rw [nextStatement_behind, nextStatement_behind, pastBreaks_pastBreaks]

section

variable {reading : Reading Stmt} {stmt : Parser Stmt} (sound : Sound reading stmt)
  (some : ∀ used value reports, reading used value reports → used ≠ [])

include sound some

theorem statements_pastBreaks (intact : start.Intact) :
    many (nextStatement stmt) (pastBreaks start) = many (nextStatement stmt) start := by
  have rounds := nextStatement_sound sound some
  exact many_of_eq rounds.advances rounds.keeps ((pastBreaks_passes start).1.intact intact) intact
    (nextStatement_pastBreaks stmt start)

theorem Leads.statement (intact : start.Intact) (goesOn : ¬ endsBlock (Parser.pastBreaks start)) :
    Leads (nextStatement stmt) start [(stmt (Parser.pastBreaks start)).value]
      (nextStatement stmt start).reports (nextStatement stmt start).cursor := by
  have rounds := nextStatement_sound sound some
  obtain ⟨_, used, passes, _⟩ := rounds start intact
  refine .round rounds.advances rounds.keeps intact ⟨used, passes⟩ ?_
  rw [nextStatement_behind, if_neg goesOn]

end

end Parser

namespace Parting

open MoSyntax.Parser

variable {c : Parting} {start other : Cursor} {reading : Reading Stmt} {stmt : Parser Stmt}

/-- If the first text is read up to the place where the texts part, the second run reads the same
statements, and then what follows there. -/
theorem Cursors.leads (sound : Sound reading stmt)
    (some : ∀ used value reports, reading used value reports → used ≠ [])
    (stmts : c.Agrees .any 0 0 stmt) (wild : ¬ c.mild) (like : c.Cursors 0 start other)
    {found : List (Option Stmt)} (given : (many (nextStatement stmt) start).value = .some found)
    (silent : (many (nextStatement stmt) start).reports = [])
    (ends : (many (nextStatement stmt) start).cursor.ahead = c.left) :
    ∃ stop, Leads (nextStatement stmt) other found [] stop ∧
      (Parser.pastBreaks stop).ahead = c.right.dropWhile (·.kind == .lineBreak) := by
  have rounds := nextStatement_sound sound some
  -- Each round that reads something leaves fewer tokens of the first text.
  induction length : start.ahead.length using Nat.strongRecOn generalizing start other found with
  | _ length ih =>
    have opened := nextStatement_behind stmt start
    rcases like.pastBreaks with ⟨_, behind⟩ | past
    · by_cases ended : endsBlock (Parser.pastBreaks start)
      · rw [if_pos ended] at opened
        have stops := many_cursor_of_none (congrArg Reply.value opened)
        obtain ⟨shared, feed, left, _⟩ := behind.ahead.common
        rw [stops, opened] at ends
        have whole := left.symm.trans ends
        have lengths := congrArg List.length whole
        simp only [List.length_append, List.length_cons] at lengths
        omega
      · have ended' : ¬ endsBlock (Parser.pastBreaks other) := by
          rw [endsBlock, ← behind.current, behind.more.2]
          rw [endsBlock, behind.more.1] at ended
          exact ended
        have first := Leads.statement sound some like.intact ended
        have second := Leads.statement sound some like.intact' ended'
        rw [first.reports, List.append_eq_nil_iff] at silent
        have opened' := nextStatement_behind stmt other
        rw [if_neg ended] at opened
        rw [if_neg ended'] at opened'
        cases AgreesAt.recover sound wild skipStatement skipStatement (stmts _ _) behind with
        | lost _ told => exact absurd (by rw [opened] at silent; exact silent.1) told
        | same value same cursors =>
          obtain ⟨level, here, further⟩ := cursors
          obtain rfl := here (by rw [recover_value]; rfl)
          rw [recover_value, recover_value] at value
          rw [first.value] at given
          obtain ⟨rest, left, rfl⟩ := Option.map_eq_some_iff.1 given
          have shorter := rounds.advances start like.intact _ (congrArg Reply.value opened)
          rw [first.cursor] at ends
          rw [opened] at left silent shorter ends
          rw [← Option.some.inj value, opened', ← same, silent.1] at second
          obtain ⟨stop, leads, ahead⟩ := ih _ (length ▸ shorter) further left silent.2 ends rfl
          exact ⟨stop, second.trans leads, ahead⟩
    · have brace := past.current wild
      have ended : endsBlock (Parser.pastBreaks start) := by simp [endsBlock, brace]
      rw [if_pos ended] at opened
      have none := (many_of_none (congrArg Reply.value opened)).1
      obtain rfl := Option.some.inj (none.symm.trans given)
      exact ⟨other, .refl other, past.second⟩

end Parting

end MoSyntax
