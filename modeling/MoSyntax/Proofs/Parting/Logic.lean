import MoSyntax.Proofs.Likeness.Rounds

/-!
Two texts that have the same tokens up to a line break outside of all brackets, and part behind it.
The parser reads the same from both, or the first run goes past the line break. In the first text a
closing brace comes next, so that run has something to report. No run goes past the line break if
the common tokens are mild.
-/
namespace MoSyntax

/-- A bracket, or a word with a block behind it. -/
def TokenKind.spreads (kind : TokenKind) : Bool :=
  kind.opens || kind.closes || kind == .keyword .forWord || kind == .keyword .ifWord

/-- A token that asks for nothing on another line, and no binary operator at the end of its line. -/
structure Token.Mild (token : Token) (rest : List Token) : Prop where
  alone : token.kind.spreads = false
  operand : ∀ sign operator, token.kind = .operator sign →
    BinaryOperator.ofSign? sign = some operator → ∀ next ∈ rest.head?, next.kind ≠ .lineBreak

/-- How two texts go on behind the line break where they part. -/
structure Parting where
  left : List Token
  right : List Token
  /-- Whether the common tokens are mild. -/
  mild : Prop
  closes : mild ∨ ∃ brace rest, left = brace :: rest ∧ brace.kind = .punctuation .rightBrace
  plain : mild ∨ ∀ token ∈ (right.dropWhile (·.kind == .lineBreak)).head?,
    token.kind ≠ .keyword .elseWord

namespace Parting

variable (c : Parting)

/-- The same tokens, behind so many open brackets, up to the line break where the texts part. -/
inductive Alike : Nat → List Token → List Token → Prop
  | feed {token} (breaks : token.kind = .lineBreak) :
      Alike 0 (token :: c.left) (token :: c.right)
  | token {depth next token rest others}
      (level : Skip.openAfter? depth token.kind = some next)
      (mild : c.mild → token.Mild rest) (behind : Alike next rest others) :
      Alike depth (token :: rest) (token :: others)

namespace Alike

variable {c} {depth next : Nat} {token token' : Token} {rest others : List Token}

theorem head (alike : c.Alike depth rest others) :
    ∃ token rest' others', rest = token :: rest' ∧ others = token :: others' := by
  cases alike <;> exact ⟨_, _, _, rfl, rfl⟩

theorem advance (alike : c.Alike depth (token :: rest) (token' :: others))
    (visible : token.kind ≠ .lineBreak) (level : Skip.openAfter? depth token.kind = some next) :
    c.Alike next rest others ∧ (c.mild → token.Mild rest) := by
  cases alike with
  | feed breaks => exact absurd breaks visible
  | token counted mild behind =>
    obtain rfl := Option.some.inj (counted.symm.trans level)
    exact ⟨behind, mild⟩

theorem common (alike : c.Alike depth rest others) :
    ∃ shared feed, rest = shared ++ feed :: c.left ∧ others = shared ++ feed :: c.right ∧
      feed.kind = .lineBreak := by
  induction alike with
  | feed breaks => exact ⟨[], _, rfl, rfl, breaks⟩
  | token _ _ _ ih =>
    obtain ⟨shared, feed, rfl, rfl, breaks⟩ := ih
    exact ⟨_ :: shared, feed, rfl, rfl, breaks⟩

/-- Behind the line breaks the texts still agree, unless they part among these line breaks. -/
theorem dropBreaks (alike : c.Alike depth rest others) :
    (rest.takeWhile (·.kind == .lineBreak)).length =
        (others.takeWhile (·.kind == .lineBreak)).length ∧
        c.Alike depth (rest.dropWhile (·.kind == .lineBreak))
          (others.dropWhile (·.kind == .lineBreak)) ∨
      depth = 0 ∧ (∀ token ∈ rest.head?, token.kind = .lineBreak) ∧
        rest.dropWhile (·.kind == .lineBreak) = c.left.dropWhile (·.kind == .lineBreak) ∧
        others.dropWhile (·.kind == .lineBreak) = c.right.dropWhile (·.kind == .lineBreak) := by
  induction alike with
  | feed breaks => exact .inr ⟨rfl, by simp [breaks], by simp [breaks], by simp [breaks]⟩
  | @token depth _ token rest others level mild behind ih =>
    by_cases breaks : token.kind = .lineBreak
    · have same : Skip.openAfter? depth token.kind = some depth := by rw [breaks]; rfl
      obtain rfl := Option.some.inj (same.symm.trans level)
      rcases ih with ⟨count, further⟩ | ⟨outside, _, first, second⟩
      · exact .inl ⟨by simp [breaks, count], by simpa [breaks] using further⟩
      · exact .inr ⟨outside, by simp [breaks], by simpa [breaks] using first,
          by simpa [breaks] using second⟩
    · exact .inl ⟨by simp [breaks], by simpa [breaks] using .token level mild behind⟩

/-- A search that halts at closing brackets and line breaks outside of brackets ends before the
texts part. -/
theorem lengthTo {halts : TokenKind → Bool} (breaks : halts .lineBreak)
    (closers : ∀ kind : TokenKind, kind.closes → halts kind) {total inner : Nat}
    (alike : c.Alike total rest others) (level : total = depth + inner) :
    Skip.lengthTo halts inner rest = Skip.lengthTo halts inner others ∧
      rest.take (Skip.lengthTo halts inner rest) = others.take (Skip.lengthTo halts inner rest) ∧
      c.Alike depth (rest.drop (Skip.lengthTo halts inner rest))
        (others.drop (Skip.lengthTo halts inner rest)) := by
  induction alike generalizing inner with
  | @feed token feed =>
    obtain ⟨rfl, rfl⟩ : depth = 0 ∧ inner = 0 := by omega
    have halted (rest : List Token) : Skip.lengthTo halts 0 (token :: rest) = 0 := by
      rw [Skip.lengthTo, if_pos ⟨rfl, feed ▸ breaks⟩]
    rw [halted, halted]
    exact ⟨rfl, rfl, .feed feed⟩
  | @token total next token rest others counted mild behind ih =>
    subst level
    by_cases halted : inner = 0 ∧ halts token.kind
    · obtain ⟨rfl, found⟩ := halted
      rw [Skip.lengthTo, Skip.lengthTo, if_pos ⟨rfl, found⟩, if_pos ⟨rfl, found⟩]
      exact ⟨rfl, rfl, .token counted mild behind⟩
    · have deep : token.kind.closes → inner ≠ 0 := fun closing zero =>
        halted ⟨zero, closers _ closing⟩
      have further := ih (Option.some.inj (counted.symm.trans (Skip.openAfter?_add deep)))
      rw [Skip.lengthTo, Skip.lengthTo, if_neg halted, if_neg halted]
      exact ⟨congrArg (· + 1) further.1, congrArg (token :: ·) further.2.1, further.2.2⟩

end Alike

/-- Two places from which the texts go on alike. -/
structure Cursors (depth : Nat) (start other : Cursor) : Prop where
  intact : start.Intact
  intact' : other.Intact
  ahead : c.Alike depth start.ahead other.ahead

/-- The texts part among the line breaks that come next. -/
structure Past (depth : Nat) (start other : Cursor) : Prop where
  outside : depth = 0
  breaks : start.current.kind = .lineBreak
  first : (Parser.pastBreaks start).ahead = c.left.dropWhile (·.kind == .lineBreak)
  second : (Parser.pastBreaks other).ahead = c.right.dropWhile (·.kind == .lineBreak)

/-- What a run may do that goes past the place where the texts part: it has to report something,
and it may have to fail. -/
inductive Loss where
  | never
  | failing
  | any

def Loss.Admits {α : Type} : Loss → Option α → Prop
  | never, _ => False
  | failing, value => value = none
  | any, _ => True

/-- Both runs read the same, or the first one goes past the place where the texts part. -/
inductive Replies {α : Type} (loss : Loss) (depth : Nat) (first second : Reply α) : Prop
  | same (value : first.value = second.value) (reports : first.reports = second.reports)
      (cursors : ∃ level, (first.value.isSome → level = depth) ∧
        c.Cursors level first.cursor second.cursor)
  | lost (wild : ¬ c.mild) (told : first.reports ≠ []) (admits : loss.Admits first.value)

def AgreesAt {α : Type} (loss : Loss) (depth next : Nat) (start other : Cursor)
    (first second : Parser α) : Prop :=
  c.Cursors depth start other → c.Replies loss next (first start) (second other)

def Agrees {α : Type} (loss : Loss) (depth next : Nat) (parser : Parser α) : Prop :=
  ∀ start other, c.AgreesAt loss depth next start other parser parser

variable {c} {loss : Loss} {depth next last : Nat} {start other : Cursor}

namespace Cursors

theorem current (like : c.Cursors depth start other) : start.current = other.current := by
  obtain ⟨token, rest, others, left, right⟩ := like.ahead.head
  rw [Cursor.current_of_ahead left, Cursor.current_of_ahead right]

theorem more (like : c.Cursors depth start other) :
    start.atEnd = false ∧ other.atEnd = false := by
  obtain ⟨token, rest, others, left, right⟩ := like.ahead.head
  rw [Cursor.atEnd, Cursor.atEnd, left, right]
  exact ⟨rfl, rfl⟩

theorem advance (like : c.Cursors depth start other) (next : Nat)
    (visible : start.current.kind ≠ .lineBreak)
    (level : Skip.openAfter? depth start.current.kind = some next) :
    c.Cursors next (start.advanceBy 1) (other.advanceBy 1) ∧
      (c.mild → start.current.Mild (start.advanceBy 1).ahead) := by
  obtain ⟨token, rest, others, left, right⟩ := like.ahead.head
  obtain ⟨passes, behind⟩ := Cursor.advanceBy_passes [token] rest left
  obtain ⟨passes', behind'⟩ := Cursor.advanceBy_passes [token] others right
  rw [List.length_singleton] at behind behind'
  have alike := like.ahead
  rw [left, right] at alike
  rw [Cursor.current_of_ahead left] at visible level ⊢
  obtain ⟨further, mild⟩ := alike.advance visible level
  refine ⟨⟨passes.intact like.intact, passes'.intact like.intact', ?_⟩, ?_⟩
  · rw [behind, behind']
    exact further
  · rwa [behind]

theorem peek (like : c.Cursors depth start other) (next : Nat)
    (visible : start.current.kind ≠ .lineBreak)
    (level : Skip.openAfter? depth start.current.kind = some next) :
    start.peek 1 = other.peek 1 := by
  obtain ⟨token, rest, others, left, right⟩ := like.ahead.head
  have further := (like.advance next visible level).1.current
  have step := (Cursor.advanceBy_passes [token] rest left).1.peek 0
  have step' := (Cursor.advanceBy_passes [token] others right).1.peek 0
  exact step.trans (further.trans step'.symm)

theorem wild (like : c.Cursors depth start other) (spreads : start.current.kind.spreads) :
    ¬ c.mild := by
  intro calm
  obtain ⟨token, rest, others, left, right⟩ := like.ahead.head
  have alike := like.ahead
  rw [left, right] at alike
  rw [Cursor.current_of_ahead left] at spreads
  cases alike with
  | feed breaks => simp [breaks, TokenKind.spreads, TokenKind.opens, TokenKind.closes] at spreads
  | token _ mild => simp [(mild calm).alone] at spreads

theorem pastBreaks (like : c.Cursors depth start other) :
    Parser.lineBreaksAhead start.ahead = Parser.lineBreaksAhead other.ahead ∧
        c.Cursors depth (Parser.pastBreaks start) (Parser.pastBreaks other) ∨
      c.Past depth start other := by
  obtain ⟨passes, behind⟩ := Parser.pastBreaks_passes start
  obtain ⟨passes', behind'⟩ := Parser.pastBreaks_passes other
  rcases like.ahead.dropBreaks with ⟨count, further⟩ | ⟨outside, breaks, first, second⟩
  · refine .inl ⟨count, passes.intact like.intact, passes'.intact like.intact', ?_⟩
    rwa [behind, behind']
  · refine .inr ⟨outside, ?_, behind.trans first, behind'.trans second⟩
    obtain ⟨token, rest, others, left, _⟩ := like.ahead.head
    rw [Cursor.current_of_ahead left]
    exact breaks token (by rw [left]; rfl)

end Cursors

namespace Past

theorem current (past : c.Past depth start other) (wild : ¬ c.mild) :
    (Parser.pastBreaks start).current.kind = .punctuation .rightBrace := by
  obtain ⟨brace, rest, left, kind⟩ := c.closes.resolve_left wild
  have ahead := past.first
  rw [left, List.dropWhile_cons_of_neg (by simp [kind])] at ahead
  rw [Cursor.current_of_ahead ahead, kind]

end Past

namespace Replies

variable {α β : Type} {first second : Parser α} {goesOn goesOn' : α → Parser β}

theorem any {first second : Reply α} (replies : c.Replies loss depth first second) :
    c.Replies .any depth first second := by
  cases replies with
  | same value reports cursors => exact .same value reports cursors
  | lost wild told => exact .lost wild told trivial

theorem bind (head : c.Replies loss next (first start) (second other))
    (tail : ∀ value, (first start).value = some value → (second other).value = some value →
      c.AgreesAt loss next last (first start).cursor (second other).cursor (goesOn value)
        (goesOn' value)) :
    c.Replies loss last ((first >>= goesOn) start) ((second >>= goesOn') other) := by
  cases head with
  | lost wild told admits =>
    refine .lost wild (fun none => told ?_) ?_
    · exact List.prefix_nil.1 (none ▸ Parser.reports_bind first goesOn start)
    · cases loss with
      | never => exact admits
      | failing =>
        have failed : (first start).value = none := admits
        rw [Parser.bind_of_none failed]
        rfl
      | any => trivial
  | same value reports cursors =>
    obtain ⟨level, here, like⟩ := cursors
    cases found : (first start).value with
    | none =>
      rw [Parser.bind_of_none found, Parser.bind_of_none (value.symm.trans found)]
      exact .same rfl reports ⟨level, by simp, like⟩
    | some answer =>
      obtain rfl := here (by rw [found]; rfl)
      rw [Parser.bind_of_some found, Parser.bind_of_some (value.symm.trans found)]
      cases tail answer found (value.symm.trans found) like with
      | lost wild told admits => exact .lost wild (by simp [Reply.after, told]) admits
      | same value more cursors =>
        exact .same value (congrArg₂ (· ++ ·) reports more) cursors

end Replies

namespace AgreesAt

variable {α β : Type} {first second : Parser α}

theorem any (agrees : c.AgreesAt loss depth next start other first second) :
    c.AgreesAt .any depth next start other first second :=
  fun like => (agrees like).any

theorem pure (value : α) :
    c.AgreesAt loss depth depth start other (Pure.pure value) (Pure.pure value) :=
  fun like => .same rfl rfl ⟨depth, fun _ => rfl, like⟩

theorem reject (report : Diagnostic) :
    c.AgreesAt loss depth next start other (Parser.reject report : Parser α)
      (Parser.reject report) :=
  fun like => .same rfl rfl ⟨depth, fun none => absurd none (by simp [Parser.reject]), like⟩

theorem fail : c.AgreesAt loss depth next start other (Parser.fail : Parser α) Parser.fail :=
  fun like => .same rfl rfl ⟨depth, fun none => absurd none (by simp [Parser.fail]), like⟩

theorem bind_at {goesOn goesOn' : α → Parser β}
    (head : c.AgreesAt loss depth next start other first second)
    (tail : ∀ value, (first start).value = some value → (second other).value = some value →
      c.AgreesAt loss next last (first start).cursor (second other).cursor (goesOn value)
        (goesOn' value)) :
    c.AgreesAt loss depth last start other (first >>= goesOn) (second >>= goesOn') :=
  fun like => (head like).bind tail

theorem bind {goesOn goesOn' : α → Parser β}
    (head : c.AgreesAt loss depth next start other first second)
    (tail : ∀ value stop stop',
      c.AgreesAt loss next last stop stop' (goesOn value) (goesOn' value)) :
    c.AgreesAt loss depth last start other (first >>= goesOn) (second >>= goesOn') :=
  bind_at head fun value _ _ => tail value _ _

theorem here_bind {goesOn goesOn' : Cursor → Parser β}
    (tail : c.AgreesAt loss depth last start other (goesOn start) (goesOn' other)) :
    c.AgreesAt loss depth last start other (Parser.here >>= goesOn) (Parser.here >>= goesOn') :=
  fun like => tail like

theorem current_bind {goesOn : Token → Parser β}
    (tail : c.AgreesAt loss depth last start other (goesOn start.current)
      (goesOn start.current)) :
    c.AgreesAt loss depth last start other (Parser.current >>= goesOn)
      (Parser.current >>= goesOn) := by
  intro like
  have same := tail like
  rw [like.current] at same
  have opened (cursor : Cursor) :
      (Parser.current >>= goesOn) cursor = goesOn cursor.current cursor := rfl
  rw [opened, opened, like.current]
  exact same

theorem report_bind (report : Diagnostic) {goesOn goesOn' : Unit → Parser β}
    (tail : c.AgreesAt loss depth last start other (goesOn ()) (goesOn' ())) :
    c.AgreesAt loss depth last start other (Parser.report report >>= goesOn)
      (Parser.report report >>= goesOn') := by
  intro like
  cases tail like with
  | lost wild told admits => exact .lost wild (List.cons_ne_nil _ _) admits
  | same value reports cursors => exact .same value (congrArg (report :: ·) reports) cursors

theorem report_lost (wild : ¬ c.mild) (report : Diagnostic) (goesOn : Unit → Parser β)
    (second : Parser β) :
    c.AgreesAt .any depth last start other (Parser.report report >>= goesOn) second :=
  fun _ => .lost wild (List.cons_ne_nil _ _) trivial

theorem note_bind {event event' : Event} {goesOn goesOn' : Unit → Parser β}
    (tail : c.AgreesAt loss depth last start other (goesOn ()) (goesOn' ())) :
    c.AgreesAt loss depth last start other (Parser.note event >>= goesOn)
      (Parser.note event' >>= goesOn') := by
  intro like
  cases tail like with
  | lost wild told admits => exact .lost wild told admits
  | same value reports cursors => exact .same value reports cursors

theorem advance_bind_at (next : Nat) {goesOn goesOn' : Unit → Parser β}
    (visible : start.current.kind ≠ .lineBreak)
    (level : Skip.openAfter? depth start.current.kind = some next)
    (tail : (c.mild → start.current.Mild (start.advanceBy 1).ahead) →
      c.AgreesAt loss next last (start.advanceBy 1) (other.advanceBy 1) (goesOn ()) (goesOn' ())) :
    c.AgreesAt loss depth last start other (Parser.advance >>= goesOn)
      (Parser.advance >>= goesOn') := by
  intro like
  obtain ⟨further, mild⟩ := like.advance next visible level
  exact tail mild further

theorem advance_bind (next : Nat) {goesOn goesOn' : Unit → Parser β}
    (visible : start.current.kind ≠ .lineBreak)
    (level : Skip.openAfter? depth start.current.kind = some next)
    (tail : ∀ stop stop', c.AgreesAt loss next last stop stop' (goesOn ()) (goesOn' ())) :
    c.AgreesAt loss depth last start other (Parser.advance >>= goesOn)
      (Parser.advance >>= goesOn') :=
  advance_bind_at next visible level fun _ => tail _ _

theorem inside {level : Nat} (agrees : c.AgreesAt loss depth next start other first second) :
    c.AgreesAt loss depth next start other (Parser.inside level first)
      (Parser.inside level second) := by
  intro like
  cases agrees like with
  | lost wild told admits =>
    rw [Parser.inside]
    split <;> exact .lost wild told admits
  | same value reports cursors =>
    rw [Parser.inside, Parser.inside]
    split <;> exact .same value reports cursors

theorem attempt (trial : Trial) (agrees : c.AgreesAt .never depth depth start other first second) :
    c.AgreesAt loss depth depth start other (Parser.attempt trial first)
      (Parser.attempt trial second) := by
  intro like
  cases agrees like with
  | lost _ _ never => exact never.elim
  | same value reports cursors =>
    obtain ⟨level, here, further⟩ := cursors
    cases found : (first start).value with
    | none =>
      rw [Parser.attempt, Parser.attempt, found, value.symm.trans found]
      exact .same rfl rfl ⟨depth, fun _ => rfl, like⟩
    | some answer =>
      obtain rfl := here (by rw [found]; rfl)
      rw [Parser.attempt, Parser.attempt, found, value.symm.trans found]
      simp only [Parser.Sound.matched_of_intact further.intact,
        Parser.Sound.matched_of_intact further.intact']
      exact .same rfl (by simpa [Reply.after] using reports) ⟨level, fun _ => rfl, further⟩

theorem unlessDeclined {first second : Parser (Option α)} {otherwise otherwise' : Parser α}
    (agrees : c.AgreesAt .failing depth depth start other first second)
    (third : c.AgreesAt .failing depth depth start other otherwise otherwise') :
    c.AgreesAt .failing depth depth start other (Parser.unlessDeclined first otherwise)
      (Parser.unlessDeclined second otherwise') := by
  intro like
  cases agrees like with
  | lost wild told failed =>
    have failed : (first start).value = none := failed
    rw [Parser.unlessDeclined, failed]
    exact .lost wild told rfl
  | same value reports cursors =>
    obtain ⟨level, here, further⟩ := cursors
    cases found : (first start).value with
    | none =>
      rw [Parser.unlessDeclined, Parser.unlessDeclined, found, value.symm.trans found]
      exact .same rfl reports ⟨level, by simp, further⟩
    | some answer =>
      obtain rfl := here (by rw [found]; rfl)
      rw [Parser.unlessDeclined, Parser.unlessDeclined, found, value.symm.trans found]
      cases answer with
      | some answer => exact .same rfl reports ⟨level, fun _ => rfl, further⟩
      | none =>
        cases third like with
        | lost wild told failed => exact .lost wild told failed
        | same value reports cursors => exact .same value reports cursors

theorem recover {reading : Reading α} (sound : Parser.Sound reading first) (wild : ¬ c.mild)
    (recovery recovery' : Parser Unit)
    (agrees : c.AgreesAt .any depth depth start other first second) :
    c.AgreesAt .any depth depth start other (Parser.recover first recovery)
      (Parser.recover second recovery') := by
  intro like
  cases agrees like with
  | lost _ told =>
    refine .lost wild (fun none => told ?_) trivial
    exact List.prefix_nil.1 (none ▸ Parser.reports_recover first recovery start)
  | same value reports cursors =>
    obtain ⟨level, here, further⟩ := cursors
    cases found : (first start).value with
    | some answer =>
      obtain rfl := here (by rw [found]; rfl)
      rw [Parser.recover, Parser.recover, found, value.symm.trans found]
      exact .same rfl reports ⟨level, fun _ => rfl, further⟩
    | none =>
      obtain ⟨_, _, _, told⟩ := sound start like.intact
      simp only [found] at told
      refine .lost wild (fun none => told ?_) trivial
      exact List.prefix_nil.1 (none ▸ Parser.reports_recover first recovery start)

end AgreesAt

namespace Agrees

variable {α : Type} {step : Parser (Option α)}

theorem manyUpTo (agrees : c.Agrees loss depth depth step) (advances : Parser.Advances step)
    (count more : Nat) (enough : start.ahead.length < count) (enough' : other.ahead.length < more) :
    c.AgreesAt loss depth depth start other (Parser.manyUpTo count step)
      (Parser.manyUpTo more step) := by
  induction count generalizing more start other with
  | zero => omega
  | succ count ih =>
    obtain ⟨more, rfl⟩ : ∃ less, more = less + 1 := ⟨more - 1, by omega⟩
    intro like
    rw [Parser.manyUpTo, Parser.manyUpTo]
    refine (agrees start other like).bind fun value found found' => ?_
    cases value with
    | none => exact AgreesAt.pure _
    | some value =>
      have shorter := advances start like.intact _ found
      have shorter' := advances other like.intact' _ found'
      exact AgreesAt.bind (ih more (by omega) (by omega)) fun _ _ _ => AgreesAt.pure _

theorem many (agrees : c.Agrees loss depth depth step) (advances : Parser.Advances step) :
    c.Agrees loss depth depth (Parser.many step) :=
  fun _ _ => manyUpTo agrees advances _ _ (Nat.lt_succ_self _) (Nat.lt_succ_self _)

end Agrees

end Parting

end MoSyntax
