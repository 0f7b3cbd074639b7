import MoSyntax.Proofs.Likeness.Decl

/-!
A file that goes on where another one ends. If all of the shorter file is read without a report, the
longer one gives the same declarations first; then it goes on behind the line breaks as if nothing had
been before.
-/
namespace MoSyntax

namespace Parser

variable {α β : Type}

theorem bind_of_eq {first : Parser α} {start other : Cursor} (same : first start = first other)
    (next : α → Parser β) : (first >>= next) start = (first >>= next) other := by
  show andThen first next start = andThen first next other
  rw [andThen, andThen, same]

/-! Rounds that come to an end do so with any number of rounds that is large enough. -/

section
variable {step : Parser (Option α)} {start other : Cursor}

theorem manyUpTo_enough (advances : Advances step) (keeps : Keeps step) {count more : Nat}
    (intact : start.Intact) (enough : start.ahead.length < count)
    (enough' : start.ahead.length < more) : manyUpTo count step start = manyUpTo more step start := by
  induction count generalizing more start with
  | zero => omega
  | succ count ih =>
    obtain ⟨more, rfl⟩ : ∃ less, more = less + 1 := ⟨more - 1, by omega⟩
    rw [manyUpTo, manyUpTo]
    cases found : (step start).value with
    | none => rw [bind_of_none found, bind_of_none found]
    | some value =>
      rw [bind_of_some found, bind_of_some found]
      cases value with
      | none => rfl
      | some value =>
        have shorter := advances start intact _ found
        exact congrArg (Reply.after · _) (bind_congr
          (ih (keeps start intact) (by omega) (by omega)) _)

theorem many_eq (advances : Advances step) (keeps : Keeps step) {count : Nat} (intact : start.Intact)
    (enough : start.ahead.length < count) : manyUpTo count step start = many step start :=
  manyUpTo_enough advances keeps intact enough (Nat.lt_succ_self _)

theorem many_of_eq (advances : Advances step) (keeps : Keeps step) (intact : start.Intact)
    (intact' : other.Intact) (same : step start = step other) : many step start = many step other := by
  have enough : start.ahead.length < max start.ahead.length other.ahead.length + 1 := by omega
  have enough' : other.ahead.length < max start.ahead.length other.ahead.length + 1 := by omega
  rw [← many_eq advances keeps intact enough, ← many_eq advances keeps intact' enough', manyUpTo]
  exact bind_of_eq same _

theorem many_of_some (advances : Advances step) (keeps : Keeps step) (intact : start.Intact)
    {value : α} (found : (step start).value = some (some value)) :
    (many step start).value = (many step (step start).cursor).value.map (value :: ·) ∧
      (many step start).reports =
        (step start).reports ++ (many step (step start).cursor).reports := by
  have shorter := advances start intact _ found
  rw [← many_eq advances keeps (keeps start intact) shorter]
  have opened : many step start = _ := bind_of_some found _
  rw [opened]
  dsimp only
  match rest : (manyUpTo start.ahead.length step (step start).cursor).value with
  | none =>
    rw [bind_of_none rest]
    exact ⟨rfl, rfl⟩
  | some values =>
    rw [bind_of_some rest]
    refine ⟨rfl, ?_⟩
    show _ ++ (_ ++ []) = _
    rw [List.append_nil]

theorem many_of_none (found : (step start).value = some none) :
    (many step start).value = some [] ∧ (many step start).reports = (step start).reports := by
  have opened : many step start = _ := bind_of_some found _
  rw [opened]
  exact ⟨rfl, List.append_nil _⟩

end

def pastBreaks (cursor : Cursor) : Cursor := (skipLineBreaks cursor).cursor

theorem pastBreaks_passes (cursor : Cursor) :
    cursor.Passes (cursor.ahead.takeWhile (·.kind == .lineBreak)) (pastBreaks cursor) ∧
      (pastBreaks cursor).ahead = cursor.ahead.dropWhile (·.kind == .lineBreak) :=
  Cursor.advanceBy_passes _ _ List.takeWhile_append_dropWhile.symm

theorem pastBreaks_pastBreaks (cursor : Cursor) :
    pastBreaks (pastBreaks cursor) = pastBreaks cursor := by
  have opened (cursor : Cursor) : pastBreaks cursor =
      cursor.advanceBy (cursor.ahead.takeWhile (·.kind == .lineBreak)).length := rfl
  have none : (pastBreaks cursor).ahead.takeWhile (·.kind == .lineBreak) = [] := by
    rw [(pastBreaks_passes cursor).2]
    have stops := List.head?_dropWhile_not (fun token : Token => token.kind == .lineBreak) cursor.ahead
    generalize cursor.ahead.dropWhile (·.kind == .lineBreak) = rest at stops ⊢
    cases rest with
    | nil => rfl
    | cons token rest => exact List.takeWhile_cons_of_neg (by simpa using stops)
  rw [opened (pastBreaks cursor), none]
  rfl

theorem nextDeclaration_behind (decl : Parser Decl) (cursor : Cursor) :
    nextDeclaration decl cursor =
      if (pastBreaks cursor).atEnd then { value := some none, cursor := pastBreaks cursor }
      else
        { recover decl (resynchronize (pastBreaks cursor)) (pastBreaks cursor) with
          value := some (some (decl (pastBreaks cursor)).value) } :=
  nextDeclaration_eq decl rfl

theorem nextDeclaration_pastBreaks (decl : Parser Decl) (cursor : Cursor) :
    nextDeclaration decl (pastBreaks cursor) = nextDeclaration decl cursor := by
  rw [nextDeclaration_behind, nextDeclaration_behind, pastBreaks_pastBreaks]

/-- The declarations of a file, and what is left out between them. -/
abbrev rounds (limit : Nat) : Parser (List (Option Decl)) := many (nextDeclaration (fileLevel limit))

theorem rounds_pastBreaks (limit : Nat) {cursor : Cursor} (intact : cursor.Intact) :
    rounds limit (pastBreaks cursor) = rounds limit cursor :=
  many_of_eq (declaration_rounds limit).advances (declaration_rounds limit).keeps
    ((pastBreaks_passes cursor).1.intact intact) intact (nextDeclaration_pastBreaks _ cursor)

end Parser

namespace Comparison

open MoSyntax.Parser

variable {c : Comparison} {near : Prop} {depth : Nat} {start other : Cursor}

/-- Only line breaks are left of the first text, and the others follow. -/
theorem Aligned.dropWhile_breaks {rest others : List Token} (aligned : c.Aligned depth rest others)
    (cut : c.tail ≠ []) (breaks : Breaks rest) :
    others.dropWhile (·.kind == .lineBreak) = c.tail.dropWhile (·.kind == .lineBreak) := by
  induction aligned with
  | ended whole => exact absurd whole cut
  | past more => rw [more]
  | token alike _ _ _ ih =>
    obtain ⟨first, others⟩ := List.forall_mem_cons.1 breaks
    rw [List.dropWhile_cons_of_pos (by simp [← alike.kind, first]), ih others]
  | left _ _ _ _ ih => exact ih (List.forall_mem_cons.1 breaks).2
  | right feed _ _ _ ih => rw [List.dropWhile_cons_of_pos (by simp [feed]), ih breaks]

theorem Cursors.more (like : c.Cursors near depth start other) (more : ¬ start.atEnd) :
    ¬ other.atEnd := by
  obtain ⟨_, left, _⟩ | ⟨_, _, left, _⟩ | ⟨_, _, _, _, _, right, _⟩ := like.ahead.head
  · exact absurd (by rw [Cursor.atEnd, left]; rfl) more
  · exact absurd (by rw [Cursor.atEnd, left]; rfl) more
  · rw [Cursor.atEnd, right]
    exact Bool.false_ne_true

/-- As long as there are tokens of the first text behind the line breaks, a round is the same. -/
theorem LikesAt.nextDeclaration (limit : Nat) (more : ¬ (pastBreaks start).atEnd) :
    c.LikesAt near True depth depth (Option.Rel (Option.Rel c.Decls)) start other
      (nextDeclaration (Parser.fileLevel limit)) (nextDeclaration (Parser.fileLevel limit)) := by
  intro like
  rcases like.skipBreaks with behind | ⟨_, _, ended⟩
  · refine Replies.bind (.same (.some rfl) .nil fun _ => behind) fun _ _ _ _ _ => ?_
    have here : ¬ (skipLineBreaks start).cursor.atEnd := more
    have there : ¬ (skipLineBreaks other).cursor.atEnd := behind.more more
    refine LikesAt.here_bind ?_
    rw [if_neg here, if_neg there]
    exact (Likes.recover_fileLevel limit here there).bind fun _ _ _ _ found =>
      LikesAt.pure (.some found)
  · exact absurd (List.isEmpty_iff.2 ended) more

/-- The second run reads what the first one does, and goes on behind it. -/
structure GoesOn (c : Comparison) (limit : Nat) (start other behind : Cursor)
    (found found' : List (Option Decl)) : Prop where
  first : (rounds limit start).value = some found
  alike : List.Forall₂ (Option.Rel c.Decls) found found'
  passes : ∃ used, other.Passes used behind
  ahead : behind.ahead = c.tail.dropWhile (·.kind == .lineBreak)
  value : (rounds limit other).value = (rounds limit behind).value.map (found' ++ ·)
  reports : (rounds limit other).reports = (rounds limit behind).reports

/-- Where only line breaks are left of the first text, the second run is at the other ones. -/
theorem Cursors.goesOn_atEnd (like : c.Cursors near 0 start other) (cut : c.tail ≠ []) (limit : Nat)
    (ended : (pastBreaks start).atEnd) : c.GoesOn limit start other (pastBreaks other) [] [] := by
  have round : (Parser.nextDeclaration (Parser.fileLevel limit) start).value = some none := by
    rw [nextDeclaration_behind, if_pos ended]
  obtain ⟨passes, ahead⟩ := pastBreaks_passes other
  have none := (pastBreaks_passes start).2.symm.trans (List.isEmpty_iff.1 ended)
  have whole := List.takeWhile_append_dropWhile (p := (·.kind == .lineBreak)) (l := start.ahead)
  rw [none, List.append_nil] at whole
  have breaks : Breaks start.ahead := whole ▸ breaks_takeWhile start.ahead
  refine ⟨(many_of_none round).1, .nil, ⟨_, passes⟩,
    ahead.trans (like.ahead.dropWhile_breaks cut breaks), ?_, ?_⟩
  · rw [rounds_pastBreaks limit like.intact']
    simp
  · rw [rounds_pastBreaks limit like.intact']

theorem Cursors.goesOn (like : c.Cursors near 0 start other) (cut : c.tail ≠ []) (limit : Nat)
    (silent : (rounds limit start).reports = []) :
    ∃ behind found found', c.GoesOn limit start other behind found found' := by
  have advances := (declaration_rounds limit).advances
  have keeps := (declaration_rounds limit).keeps
  -- Each round that reads something leaves fewer tokens of the first text.
  induction length : start.ahead.length using Nat.strongRecOn generalizing start other near with
  | _ length ih =>
    by_cases ended : (pastBreaks start).atEnd
    · exact ⟨_, _, _, like.goesOn_atEnd cut limit ended⟩
    · have opened := nextDeclaration_behind (Parser.fileLevel limit) start
      rw [if_neg ended] at opened
      have found : (Parser.nextDeclaration (Parser.fileLevel limit) start).value = _ :=
        congrArg Reply.value opened
      obtain ⟨values, reports⟩ := many_of_some advances keeps like.intact found
      rw [rounds, reports, List.append_eq_nil_iff] at silent
      cases LikesAt.nextDeclaration limit ended like with
      | lost _ _ told => exact absurd silent.1 told
      | same value same cursors =>
        rw [found] at value cursors
        obtain ⟨_, found', alike⟩ := rel_some value
        obtain ⟨head', rfl, head⟩ := rel_some alike
        rw [silent.1] at same
        have quiet := List.forall₂_nil_left_iff.1 same
        obtain ⟨values', reports'⟩ := many_of_some advances keeps like.intact' found'
        obtain ⟨_, used', passes', _⟩ := declaration_rounds limit other like.intact'
        obtain ⟨behind, rest, rest', goesOn⟩ := ih _
          (length ▸ advances start like.intact _ found) (cursors (.inr rfl)) silent.2 rfl
        obtain ⟨used, passes⟩ := goesOn.passes
        refine ⟨behind, _ :: rest, head' :: rest', ?_, .cons head goesOn.alike,
          ⟨used' ++ used, passes'.trans passes⟩, goesOn.ahead, ?_, ?_⟩
        · rw [values, goesOn.first]
          rfl
        · rw [values', goesOn.value, Option.map_map]
          rfl
        · rw [reports', quiet, goesOn.reports, List.nil_append]

end Comparison

end MoSyntax
