import MoSyntax.Proofs.Deepening.Logic
import MoSyntax.Proofs.Reading.Stmt

/-!
Types with different budgets. What is skipped in place of a type at the limit goes on to the end of
the subtree; a type that is read stops there or before. So where a deeper type comes to the end of
the subtree, the one that was skipped does too.
-/
namespace MoSyntax

namespace Skip

variable {stops : TokenKind → Bool}

theorem lengthTo_drop (halts : TokenKind → Bool) (depth : Nat) (tokens : List Token) :
    lengthTo halts 0 (tokens.drop (lengthTo halts depth tokens)) = 0 := by
  induction tokens generalizing depth with
  | nil => rfl
  | cons token tokens ih =>
    rw [lengthTo]
    split
    · rename_i ends
      rw [List.drop_zero, lengthTo, if_pos ⟨rfl, ends.2⟩]
    · exact ih _

def typeLength (tokens : List Token) : Nat := lengthTo (endsSubtree stopsType) 0 tokens

theorem typeLength_drop (tokens : List Token) :
    typeLength (tokens.drop (typeLength tokens)) = 0 :=
  lengthTo_drop _ _ _

theorem typeLength_of_current {cursor : Cursor}
    (ends : endsSubtree stopsType cursor.current.kind) : typeLength cursor.ahead = 0 := by
  cases ahead : cursor.ahead with
  | nil => rfl
  | cons token rest =>
    rw [Cursor.current_of_ahead ahead] at ends
    rw [typeLength, lengthTo, if_pos ⟨rfl, ends⟩]

end Skip

theorem Cursor.Passes.unique {start first second : Cursor} {used : List Token}
    (one : start.Passes used first) (other : start.Passes used second) : first = second := by
  have ahead := List.append_cancel_left (one.ahead.symm.trans other.ahead)
  obtain ⟨_, passed, eof, beyond⟩ := one
  obtain ⟨_, passed', eof', beyond'⟩ := other
  cases first
  cases second
  simp_all

namespace Parser

variable {α β : Type}

theorem skipSubtree_eq (stops : TokenKind → Bool) (start : Cursor) :
    skipSubtree stops start =
      { value := some (match Skip.lengthTo (Skip.endsSubtree stops) 0 start.ahead with
          | 0 => none
          | count + 1 => some (start.current.span.through (start.peek count).span))
        cursor := start.advanceBy (Skip.lengthTo (Skip.endsSubtree stops) 0 start.ahead) } := by
  have found : Skip.subtreeLength? stops 0 start.ahead = some _ :=
    Skip.subtreeLength?_eq 0 start.ahead
  rw [skipSubtree, bind_of_some (rfl : (here start).value = some start), found]
  cases Skip.lengthTo (Skip.endsSubtree stops) 0 start.ahead with
  | zero => rfl
  | succ count => rfl

theorem tooDeep_eq (limit : Nat) (stops : TokenKind → Bool) (placeholder : Span → α)
    (start : Cursor) :
    tooDeep limit stops placeholder start =
      { value := match Skip.lengthTo (Skip.endsSubtree stops) 0 start.ahead with
          | 0 => none
          | count + 1 => some (placeholder (start.current.span.through (start.peek count).span))
        cursor := start.advanceBy (Skip.lengthTo (Skip.endsSubtree stops) 0 start.ahead)
        reports := [Report.tooDeep limit start.current.span] } := by
  obtain ⟨next, opened, kept, lost⟩ : ∃ next : Option Span → Parser α,
      tooDeep limit stops placeholder start = ((skipSubtree stops >>= next) start).after
        { value := some (), cursor := start
          reports := [Report.tooDeep limit start.current.span] } ∧
      (∀ span, next (some span) = pure (placeholder span)) ∧ next none = fail :=
    ⟨_, rfl, fun _ => rfl, rfl⟩
  rw [opened, bind_of_some (by rw [skipSubtree_eq]), skipSubtree_eq]
  cases Skip.lengthTo (Skip.endsSubtree stops) 0 start.ahead with
  | zero =>
    rw [lost]
    rfl
  | succ count =>
    rw [kept]
    rfl

def Quiet (parser : Parser α) : Prop := ∀ start, (parser start).events = []

namespace Quiet

theorem pure (value : α) : Quiet (Pure.pure value) := fun _ => rfl

theorem reject (diagnostic : Diagnostic) : Quiet (reject diagnostic : Parser α) := fun _ => rfl

theorem bind {first : Parser α} {next : α → Parser β} (head : Quiet first)
    (tail : ∀ value, Quiet (next value)) : Quiet (first >>= next) := by
  intro start
  cases found : (first start).value with
  | none => simpa [bind_of_none found] using head start
  | some value => simp [bind_of_some found, Reply.after, head start, tail value _]

theorem current_bind {next : Token → Parser β} (tail : ∀ value, Quiet (next value)) :
    Quiet (current >>= next) :=
  bind (fun _ => rfl) tail

theorem advance_bind {next : Unit → Parser β} (tail : Quiet (next ())) :
    Quiet (advance >>= next) :=
  bind (fun _ => rfl) fun _ => tail

theorem many {step : Parser (Option α)} (quiet : Quiet step) : Quiet (many step) := by
  have upTo (count : Nat) : Quiet (manyUpTo count step) := by
    induction count with
    | zero => exact fun _ => rfl
    | succ count ih =>
      refine bind quiet fun found => ?_
      cases found with
      | none => exact pure _
      | some value => exact bind ih fun _ => pure _
  exact fun start => upTo _ start

end Quiet

theorem expect_quiet (kind : TokenKind) (message : String) : Quiet (expect kind message) := by
  refine Quiet.current_bind fun found => ?_
  split
  · exact Quiet.advance_bind (.pure _)
  · exact .reject _

theorem ident_quiet (message : String) : Quiet (ident message) := by
  refine Quiet.current_bind fun found => ?_
  split
  · exact Quiet.advance_bind (.pure _)
  · exact .reject _

theorem name_quiet (message : String) : Quiet (name message) := by
  refine (ident_quiet message).bind fun first => Quiet.bind (Quiet.many ?_) fun rest => ?_
  · refine Quiet.bind (fun _ => rfl) fun cursor => ?_
    split
    · exact Quiet.advance_bind ((ident_quiet _).bind fun _ => .pure _)
    · exact .pure _
  · split
    · exact .pure _
    · exact .pure _

theorem arrayLength_quiet : Quiet arrayLength := by
  refine Quiet.current_bind fun found => ?_
  split
  · split
    · exact Quiet.advance_bind (.pure _)
    · exact .reject _
  · exact .pure _

theorem typeLevel_quiet {type : Parser TypeExpr} (quiet : Quiet type) : Quiet (typeLevel type) := by
  refine Quiet.current_bind fun found => ?_
  split
  · exact (expect_quiet _ _).bind fun _ => arrayLength_quiet.bind fun _ =>
      (expect_quiet _ _).bind fun _ => quiet.bind fun _ => .pure _
  · exact Quiet.current_bind fun _ => Quiet.advance_bind (quiet.bind fun _ => .pure _)
  · exact (name_quiet _).bind fun _ => .pure _
  · exact .reject _

theorem typeExpr_quiet (limit budget : Nat) : Quiet (typeExpr limit budget) := by
  induction budget with
  | zero =>
    intro start
    show (tooDeep _ _ _ _).events = _
    rw [tooDeep_eq]
  | succ budget ih =>
    intro start
    show (inside _ _ _).events = _
    rw [inside]
    split
    · exact typeLevel_quiet ih start
    · exact typeLevel_quiet ih start

end Parser

/-! Where a type that has been read stops. -/

/-- Behind the tokens the subtree ends where it ends from the first of them on. -/
def Reaches (used rest : List Token) : Prop :=
  Skip.typeLength (used ++ rest) = used.length + Skip.typeLength rest

namespace Reaches

variable {used more rest : List Token}

theorem append (first : Reaches used (more ++ rest)) (second : Reaches more rest) :
    Reaches (used ++ more) rest := by
  rw [Reaches, List.append_assoc, first, second, List.length_append, Nat.add_assoc]

theorem cons {token : Token} (first : Reaches [token] (used ++ rest))
    (second : Reaches used rest) : Reaches (token :: used) rest :=
  append first second

theorem single {token : Token} (goesOn : Skip.endsSubtree Skip.stopsType token.kind = false)
    (opens : token.kind.opens = false) : Reaches [token] rest := by
  have closes : token.kind.closes = false := by
    rw [Skip.endsSubtree, Bool.or_eq_false_iff, Bool.or_eq_false_iff] at goesOn
    exact goesOn.1.1
  have flat : Skip.openAfter 0 token.kind = 0 := by
    simp [Skip.openAfter, Skip.openAfter?, opens, closes]
  rw [Reaches, List.singleton_append, Skip.typeLength, Skip.typeLength, Skip.lengthTo, flat]
  simp [goesOn, Nat.add_comm]

theorem name {name : Name} (reads : NameReading used name) (rest : List Token) :
    Reaches used rest := by
  have ident {token : Token} {name : Ident} (names : token.Names name) (rest : List Token) :
      Reaches [token] rest := by
    apply single
    · simp [names.1, Skip.endsSubtree, Skip.stopsType, TokenKind.closes]
    · simp [names.1, TokenKind.opens]
  cases reads with
  | ident names => exact ident names rest
  | path names segments some =>
    refine cons (ident names _) ?_
    clear some
    generalize ([] : List Diagnostic) = reports at segments
    induction segments with
    | done ends => simp [show _ = [] from ends, Reaches]
    | more first _ ih =>
      obtain ⟨mark, names⟩ := first
      refine append (cons ?_ (ident names _)) ih
      apply single
      · simp [mark, Skip.endsSubtree, Skip.stopsType, TokenKind.closes, Punctuation.closes]
      · simp [mark, TokenKind.opens, Punctuation.opens]

theorem bounds {left digits right : List Token} {opening closing : Span}
    {length : Option (Located NumberLiteral)} (first : Mark (.punctuation .leftBracket) left opening)
    (count : LengthReading digits length) (second : Mark (.punctuation .rightBracket) right closing) :
    Reaches (left ++ (digits ++ right)) rest := by
  obtain ⟨bracket, rfl, kind, _⟩ := first
  obtain ⟨other, rfl, closes, _⟩ := second
  cases count with
  | none =>
    simp [Reaches, Skip.typeLength, Skip.lengthTo, kind, closes, Skip.endsSubtree, Skip.stopsType,
      Skip.openAfter, Skip.openAfter?, TokenKind.opens, TokenKind.closes, Punctuation.opens,
      Punctuation.closes]
    omega
  | some number =>
    simp [Reaches, Skip.typeLength, Skip.lengthTo, kind, number, closes, Skip.endsSubtree,
      Skip.stopsType, Skip.openAfter, Skip.openAfter?, TokenKind.opens, TokenKind.closes,
      Punctuation.opens, Punctuation.closes]
    omega

end Reaches

/-- What was read is not empty, and behind it the subtree ends where it ended before. -/
def ReachesAt {α : Type} (start : Cursor) : Reading α := fun used _ _ =>
  used ≠ [] ∧ ∀ rest, start.ahead = used ++ rest → Reaches used rest

namespace Parser

theorem typeLevel_reaches {type : Parser TypeExpr}
    (sound : ∀ start, SoundAt start (ReachesAt start) type) (start : Cursor) :
    SoundAt start (ReachesAt start) (typeLevel type) := by
  apply SoundAt.current_bind
  split
  · apply SoundAt.bind (expect_sound (by simp) _ start)
    rintro left opening _ _ before ⟨first, rfl⟩
    apply SoundAt.bind (arrayLength_sound _)
    rintro digits length _ _ between ⟨count, rfl⟩
    apply SoundAt.bind (expect_sound (by simp) _ _)
    rintro right closing _ stop behind ⟨second, rfl⟩
    apply SoundAt.bind (sound stop)
    intro used _ _ _ _ reaches
    refine SoundAt.pure ⟨by simp [reaches.1], fun rest ahead => ?_⟩
    have whole := ((before.trans between).trans behind).ahead
    have after : stop.ahead = used ++ rest := by simpa [ahead] using whole.symm
    simpa using (Reaches.bounds first count second).append (reaches.2 rest after)
  · rename_i star
    refine SoundAt.current_bind (SoundAt.advance_bind (by simp [star]) fun stop passes => ?_)
    apply SoundAt.bind (sound stop)
    intro used _ _ _ _ reaches
    refine SoundAt.pure ⟨by simp, fun rest ahead => ?_⟩
    have after : stop.ahead = used ++ rest := by simpa [ahead] using passes.ahead.symm
    refine Reaches.cons (Reaches.single ?_ ?_) ?_
    · simp [star, Skip.endsSubtree, Skip.stopsType, TokenKind.closes]
    · simp [star, TokenKind.opens]
    · simpa using reaches.2 rest after
  · apply SoundAt.bind (name_sound _ start)
    rintro used name _ _ _ ⟨reads, rfl⟩
    refine SoundAt.pure ⟨by simp [reads.ne_nil], fun rest _ => ?_⟩
    simpa using Reaches.name reads rest
  · exact SoundAt.fail_with _

theorem typeExpr_reaches (limit budget : Nat) (within : budget ≤ limit) (start : Cursor) :
    SoundAt start (ReachesAt start) (typeExpr limit budget) := by
  induction budget generalizing start with
  | zero =>
    refine (tooDeep_at limit Skip.stopsType TypeExpr.skipped start).imp ?_
    rintro used _ _ ⟨taken, skipped⟩
    refine ⟨skipped.ne_nil, fun rest ahead => ?_⟩
    have bound := Skip.lengthTo_le (Skip.endsSubtree Skip.stopsType) 0 start.ahead
    have length : used.length = Skip.typeLength start.ahead := by
      rw [taken]
      exact List.length_take_of_le bound
    have left : rest = start.ahead.drop (Skip.typeLength start.ahead) := by
      rw [← length, ahead, List.drop_left]
    rw [Reaches, ← ahead, length, left, Skip.typeLength_drop, Nat.add_zero]
  | succ budget ih =>
    exact SoundAt.inside (by omega) (typeLevel_reaches (ih (by omega)) start)

end Parser

/-- How a type may come to the limit where a second reading may go deeper. -/
structure Reply.Settles {α : Type} (shallow deep : Reply α) : Prop where
  first : ∃ report rest, shallow.reports = report :: rest ∧ report.isLimit
  events : deep.events = shallow.events
  missteps : deep.missteps = shallow.missteps
  succeeds : deep.value.isSome → shallow.value.isSome
  /-- Where the second one comes to the end of the subtree, the first one has come there too. -/
  reaches : deep.value.isSome → Skip.typeLength deep.cursor.ahead = 0 → shallow.cursor = deep.cursor

namespace Parser

variable {α β : Type}

theorem Silent.arrayLength : Silent Parser.arrayLength :=
  arrayLength_sound.silent fun _ _ _ holds => holds.2

/-- Readings of types that agree, or else the first one comes to the limit at once. -/
def Settles (shallow deep : Parser α) : Prop :=
  ∀ start, start.Intact → deep start = shallow start ∨ (shallow start).Settles (deep start)

namespace Settles

theorem refl (parser : Parser α) : Settles parser parser := fun _ _ => .inl rfl

theorem tries {shallow deep : Parser α} (settles : Settles shallow deep) (keeps : Keeps shallow) :
    Tries shallow deep := by
  refine ⟨keeps, fun start intact => ?_⟩
  rcases settles start intact with same | settles
  · exact .inl same
  · refine .inr ⟨settles.first, fun none => ⟨?_, settles.events, settles.missteps⟩⟩
    cases found : (deep start).value with
    | none => rfl
    | some value => simpa [none] using settles.succeeds (by simp [found])

theorem behind {first : Parser α} {shallow deep : α → Parser β} (silent : Silent first)
    (tail : ∀ value, Settles (shallow value) (deep value)) :
    Settles (first >>= shallow) (first >>= deep) := by
  intro start intact
  cases found : (first start).value with
  | none =>
    rw [bind_of_none found, bind_of_none found]
    exact .inl rfl
  | some value =>
    rw [bind_of_some found, bind_of_some found]
    rcases tail value _ (silent.keeps start intact) with same | settles
    · exact .inl (by rw [same])
    · refine .inr ⟨?_, ?_, ?_, settles.succeeds, settles.reaches⟩
      · simpa [Reply.after, silent.reports start intact value found] using settles.first
      · simp [Reply.after, settles.events]
      · simp [Reply.after, settles.missteps]

theorem map {shallow deep : Parser α} (settles : Settles shallow deep) (make : α → β) :
    Settles (shallow >>= fun value => pure (make value))
      (deep >>= fun value => pure (make value)) := by
  have mapped (parser : Parser α) (start : Cursor) :
      (parser >>= fun value => (pure (make value) : Parser β)) start =
        { parser start with value := (parser start).value.map make } := by
    cases found : (parser start).value with
    | none => rw [bind_of_none found]; rfl
    | some value => rw [bind_of_some found]; simp [Reply.after, pure, succeed]
  intro start intact
  rw [mapped, mapped]
  rcases settles start intact with same | settles
  · exact .inl (by rw [same])
  · refine .inr ⟨settles.first, settles.events, settles.missteps, ?_, ?_⟩
    · simpa using settles.succeeds
    · simpa using settles.reaches

end Settles

theorem typeLevel_settles {shallow deep : Parser TypeExpr} (settles : Settles shallow deep) :
    Settles (typeLevel shallow) (typeLevel deep) := by
  refine Settles.behind .current fun found => ?_
  split
  · exact Settles.behind (.expect (by simp) _) fun opening => Settles.behind .arrayLength fun length =>
      Settles.behind (.expect (by simp) _) fun closing => settles.map _
  · exact Settles.behind .current fun star => Settles.behind .advance fun _ => settles.map _
  · exact .refl _
  · exact .refl _

theorem inside_eq (parser : Parser α) {depth : Nat} (entered : depth ≠ 0) :
    inside depth parser = parser := by
  funext start
  simp [inside, entered]

/-- What is skipped at the limit stops where a type that can be read comes to the end. -/
theorem tooDeep_settles (limit : Nat) {other more : Nat} (further : more ≤ other) :
    Settles (tooDeep limit Skip.stopsType TypeExpr.skipped) (typeExpr other more) := by
  intro start intact
  have sound := typeExpr_sound other more further start intact
  obtain ⟨_, used, passes, reads⟩ := typeExpr_reaches other more further start intact
  have length (found : (typeExpr other more start).value.isSome) : used ≠ [] ∧
      Skip.typeLength start.ahead =
        used.length + Skip.typeLength (typeExpr other more start).cursor.ahead := by
    obtain ⟨value, found⟩ := Option.isSome_iff_exists.1 found
    rw [found] at reads
    have reaches := reads.2 _ passes.ahead
    rw [Reaches, ← passes.ahead] at reaches
    exact ⟨reads.1, reaches⟩
  rw [tooDeep_eq]
  refine .inr ⟨⟨_, _, rfl, rfl⟩, typeExpr_quiet other more start, sound.missteps, ?_, ?_⟩
  · intro found
    obtain ⟨some, whole⟩ := length found
    have positive := List.length_pos_iff.2 some
    cases counted : Skip.lengthTo (Skip.endsSubtree Skip.stopsType) 0 start.ahead with
    | zero =>
      rw [Skip.typeLength, counted] at whole
      omega
    | succ count => rfl
  · intro found ended
    obtain ⟨_, whole⟩ := length found
    rw [ended, Nat.add_zero, Skip.typeLength] at whole
    obtain ⟨advanced, _⟩ := Cursor.advanceBy_passes used _ passes.ahead
    show start.advanceBy _ = _
    rw [whole]
    exact advanced.unique passes

theorem typeExpr_settles {limit other budget more : Nat} (le : budget ≤ more)
    (within : budget ≤ limit) (further : more ≤ other) :
    Settles (typeExpr limit budget) (typeExpr other more) := by
  induction budget generalizing more with
  | zero => exact tooDeep_settles limit further
  | succ budget ih =>
    obtain ⟨more, rfl⟩ : ∃ count, more = count + 1 := ⟨more - 1, by omega⟩
    have settles := typeLevel_settles (ih (by omega : budget ≤ more) (by omega) (by omega))
    have shallow : typeExpr limit (budget + 1) = typeLevel (typeExpr limit budget) :=
      inside_eq (typeLevel (typeExpr limit budget)) (by omega)
    have deep : typeExpr other (more + 1) = typeLevel (typeExpr other more) :=
      inside_eq (typeLevel (typeExpr other more)) (by omega)
    rw [shallow, deep]
    exact settles

theorem expect_then (kind : TokenKind) (message : String) (made : β) (start : Cursor) :
    ((expect kind message >>= fun _ => pure made) start).value =
        (if start.current.kind == kind then some made else none) ∧
      ((expect kind message >>= fun _ => pure made) start).events = [] ∧
      ((expect kind message >>= fun _ => pure made) start).missteps = [] := by
  by_cases here : start.current.kind == kind
  · have found := expect_found here message
    rw [if_pos here, bind_of_some (congrArg Reply.value found), found]
    exact ⟨rfl, rfl, rfl⟩
  · have lost := expect_other here message
    rw [if_neg here, bind_of_none (congrArg Reply.value lost), lost]
    exact ⟨rfl, rfl, rfl⟩

/-- A type with a token behind it that ends what may stand for a type. -/
theorem Settles.ended {shallow deep : Parser α} (settles : Settles shallow deep)
    (keeps : Keeps shallow) {kind : TokenKind} (ends : Skip.endsSubtree Skip.stopsType kind)
    (some : kind ≠ .endOfFile) (message : String) (make : α → β) :
    Tries (shallow >>= fun value => expect kind message >>= fun _ => pure (make value))
      (deep >>= fun value => expect kind message >>= fun _ => pure (make value)) := by
  have unlogged (parser : Parser α) (start : Cursor) :
      ((parser >>= fun value => expect kind message >>= fun _ => pure (make value)) start).events =
          (parser start).events ∧
        ((parser >>= fun value => expect kind message >>= fun _ => pure (make value)) start).missteps =
          (parser start).missteps := by
    cases found : (parser start).value with
    | none =>
      rw [bind_of_none found]
      exact ⟨rfl, rfl⟩
    | some value =>
      obtain ⟨_, events, missteps⟩ := expect_then kind message (make value) (parser start).cursor
      rw [bind_of_some found]
      exact ⟨by simp [Reply.after, events], by simp [Reply.after, missteps]⟩
  refine ⟨keeps.bind fun _ => (Silent.expect some message).keeps.bind fun _ => .pure _,
    fun start intact => ?_⟩
  rcases settles start intact with same | settles
  · exact .inl (bind_congr same _)
  · refine .inr ⟨?_, fun lost => ⟨?_, ?_, ?_⟩⟩
    · obtain ⟨report, rest, told, limit⟩ := settles.first
      obtain ⟨more, same⟩ := reports_bind shallow
        (fun value => expect kind message >>= fun _ => pure (make value)) start
      exact ⟨report, rest ++ more, by rw [← same, told]; rfl, limit⟩
    · cases found : (deep start).value with
      | none => rw [bind_of_none found]
      | some value =>
        have deeper : (deep start).value.isSome := by simp [found]
        obtain ⟨other, shallower⟩ := Option.isSome_iff_exists.1 (settles.succeeds deeper)
        have reached := (expect_then kind message (make other) (shallow start).cursor).1
        rw [bind_of_some shallower] at lost
        rw [bind_of_some found]
        show ((expect kind message >>= fun _ => pure (make value)) (deep start).cursor).value = none
        rw [(expect_then kind message (make value) _).1]
        split
        · rename_i here
          have ended := Skip.typeLength_of_current (by rwa [beq_iff_eq.1 here])
          rw [settles.reaches deeper ended] at lost reached
          rw [if_pos here] at reached
          exact absurd (reached.symm.trans lost) (by simp)
        · rfl
    · rw [(unlogged _ _).1, (unlogged _ _).1, settles.events]
    · rw [(unlogged _ _).2, (unlogged _ _).2, settles.missteps]

/-- The trial of a declaration with a type: `:=` ends what may stand for the type. -/
theorem typedHead_tries {shallow deep : Parser TypeExpr} (settles : Settles shallow deep)
    (keeps : Keeps shallow) : Tries (typedHead shallow) (typedHead deep) :=
  Tries.behind (.ident _) fun declared =>
    settles.ended keeps rfl (by simp) _ (Prod.mk declared)

end Parser

end MoSyntax
