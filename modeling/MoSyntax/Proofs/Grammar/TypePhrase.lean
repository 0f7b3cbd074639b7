import MoSyntax.Proofs.Deepening.TypeExpr
import MoSyntax.Proofs.Grammar.Exact

/-!
The types of the grammar, which knows no limit on nesting. They are what the parser of types reads
where it does not come to its limit; so the trial of a declaration with a type succeeds just where
a name, a type of the grammar and `:=` come next.
-/
namespace MoSyntax

/-- A type as the grammar has it: a name, or a star or brackets before a type. -/
inductive TypePhrase : List Token → TypeExpr → Prop
  | named {used name} (reads : NameReading used name) : TypePhrase used (.named name)
  | pointer {star opening used target} (mark : Mark (.operator .star) star opening)
      (reads : TypePhrase used target) :
      TypePhrase (star ++ used) (.pointer (opening.through target.span) target)
  | array {left opening digits length right closing used element}
      (first : Mark (.punctuation .leftBracket) left opening) (count : LengthReading digits length)
      (second : Mark (.punctuation .rightBracket) right closing)
      (reads : TypePhrase used element) :
      TypePhrase (left ++ (digits ++ (right ++ used)))
        (.array (opening.through element.span) length element)

open Diagnostic (ReachesLimit)

variable {limit budget : Nat} {start stop : Cursor} {used : List Token} {type : TypeExpr}

theorem TypeReading.phrase {reports : List Diagnostic}
    (reads : TypeReading limit budget used type reports) (unlimited : ¬ ReachesLimit reports) :
    TypePhrase used type := by
  induction budget generalizing used type with
  | zero =>
    cases reads
    exact absurd ⟨_, List.mem_cons_self, rfl⟩ unlimited
  | succ budget ih =>
    cases reads with
    | named reads => exact .named reads
    | pointer mark reads => exact .pointer mark (ih reads)
    | array first count second reads => exact .array first count second (ih reads)

namespace Parser

theorem exact_nextSegment_ends (ends : start.current.kind ≠ .punctuation .colon) :
    (nextSegment start).Exact none start := by
  refine exact_bind (exact_pure start start) ?_
  rw [if_neg (by simp [ends])]
  exact exact_pure none start

theorem exact_nextSegment {colon token : Token} {name : Ident}
    (passes : start.Passes [colon, token] stop) (mark : colon.kind = .punctuation .colon)
    (names : token.Names name) : (nextSegment start).Exact (some name) stop := by
  obtain ⟨first, second⟩ := passes.uncons
  have next : start.peek 1 = token := (first.peek 0).trans second.current
  refine exact_bind (exact_pure start start) ?_
  rw [if_pos (by simp [passes.current, mark, next, names.1, TokenKind.isIdentifier])]
  exact exact_bind (exact_advance first)
    (exact_bind (exact_ident second names _) (exact_pure _ _))

theorem segments_steps {names : List Ident} {reports : List Diagnostic}
    (segments : Repeated SegmentReading Nothing used names reports)
    (passes : start.Passes used stop) (ends : stop.current.kind ≠ .punctuation .colon) :
    Steps nextSegment start names stop := by
  induction segments generalizing start with
  | done none =>
    obtain rfl := (show start.Passes [] stop from none ▸ passes).of_nil
    exact .done (exact_nextSegment_ends ends)
  | more first _ ih =>
    obtain ⟨mark, names⟩ := first
    obtain ⟨first, others⟩ := passes.split
    exact .more first (by simp) (exact_nextSegment first mark names) (ih others)

theorem exact_name {name : Name} (reads : NameReading used name) (passes : start.Passes used stop)
    (ends : stop.current.kind ≠ .punctuation .colon) (message : String) :
    (Parser.name message start).Exact name stop := by
  cases reads with
  | ident names =>
    exact exact_bind (exact_ident passes names message)
      (exact_bind (Steps.many (.done (exact_nextSegment_ends ends))) (exact_pure _ _))
  | path names segments some =>
    obtain ⟨first, others⟩ := passes.uncons
    obtain ⟨second, rest, rfl⟩ := List.exists_cons_of_ne_nil some
    exact exact_bind (exact_ident first names message)
      (exact_bind (segments_steps segments others ends).many (exact_pure _ _))

theorem exact_arrayLength {length : Option (Located NumberLiteral)}
    (count : LengthReading used length) (passes : start.Passes used stop)
    (ends : stop.current.kind = .punctuation .rightBracket) :
    (arrayLength start).Exact length stop := by
  refine exact_bind (exact_pure start.current start) ?_
  cases count with
  | none =>
    obtain rfl := passes.of_nil
    rw [ends]
    exact exact_pure none stop
  | some number decimal whole =>
    rw [passes.current, number]
    dsimp only
    rw [if_pos (by simp [decimal, whole])]
    exact exact_bind (exact_advance passes) (exact_pure _ _)

/-- With enough levels a type of the grammar is read as what it is. A colon behind it could make a
longer name of its last one. -/
theorem exact_typeExpr (phrase : TypePhrase used type) :
    ∃ depth, ∀ limit budget, depth ≤ budget → ∀ start stop : Cursor, start.Passes used stop →
      stop.current.kind ≠ .punctuation .colon → (typeExpr limit budget start).Exact type stop := by
  induction phrase with
  | named reads =>
    refine ⟨1, fun limit budget le start stop passes ends => ?_⟩
    obtain ⟨budget, rfl⟩ : ∃ less, budget = less + 1 := ⟨budget - 1, by omega⟩
    refine exact_inside _ (exact_bind (exact_pure start.current start) ?_)
    obtain ⟨word, same⟩ : ∃ word, start.current.kind = .identifier word := by
      cases reads with
      | ident names => exact ⟨_, passes.current ▸ names.1⟩
      | path names => exact ⟨_, passes.current ▸ names.1⟩
    rw [same]
    exact exact_bind (exact_name reads passes ends _) (exact_pure _ _)
  | pointer mark _ ih =>
    obtain ⟨star, rfl, kind, rfl⟩ := mark
    obtain ⟨depth, reads⟩ := ih
    refine ⟨depth + 1, fun limit budget le start stop passes ends => ?_⟩
    obtain ⟨budget, rfl⟩ : ∃ less, budget = less + 1 := ⟨budget - 1, by omega⟩
    obtain ⟨first, others⟩ := passes.split
    refine exact_inside _ (exact_bind (exact_pure start.current start) ?_)
    rw [first.current, kind]
    refine exact_bind (exact_pure start.current start) (exact_bind (exact_advance first) ?_)
    rw [first.current]
    exact exact_bind (reads limit budget (by omega) _ _ others ends) (exact_pure _ _)
  | array first count second _ ih =>
    obtain ⟨left, rfl, opens, rfl⟩ := first
    obtain ⟨right, rfl, closes, rfl⟩ := second
    obtain ⟨depth, reads⟩ := ih
    refine ⟨depth + 1, fun limit budget le start stop passes ends => ?_⟩
    obtain ⟨budget, rfl⟩ : ∃ less, budget = less + 1 := ⟨budget - 1, by omega⟩
    obtain ⟨first, behind⟩ := passes.split
    obtain ⟨digits, behind⟩ := behind.split
    obtain ⟨second, others⟩ := behind.split
    refine exact_inside _ (exact_bind (exact_pure start.current start) ?_)
    rw [first.current, opens]
    refine exact_bind (exact_expect first opens _) (exact_bind (exact_arrayLength count digits ?_) ?_)
    · rw [second.current, closes]
    · exact exact_bind (exact_expect second closes _)
        (exact_bind (reads limit budget (by omega) _ _ others ends) (exact_pure _ _))

end Parser

/-- A name and `:=` come next, and the place is behind them. -/
def Cursor.Infers (start : Cursor) (name : Ident) (stop : Cursor) : Prop :=
  ∃ token sign : Token, token.Names name ∧ sign.kind = .operator .declare ∧
    start.Passes [token, sign] stop

/-- A name, a type of the grammar and `:=` come next, and the place is behind them. -/
def Cursor.Declares (start : Cursor) (name : Ident) (type : TypeExpr) (stop : Cursor) : Prop :=
  ∃ (token : Token) (used : List Token) (sign : Token), token.Names name ∧ TypePhrase used type ∧
    sign.kind = .operator .declare ∧ start.Passes (token :: (used ++ [sign])) stop

namespace Parser

variable {name : Ident}

theorem exact_typedHead (declares : start.Declares name type stop) :
    ∃ depth, ∀ limit budget, depth ≤ budget →
      (typedHead (typeExpr limit budget) start).Exact (name, type) stop := by
  obtain ⟨token, used, sign, names, phrase, declare, passes⟩ := declares
  obtain ⟨depth, reads⟩ := exact_typeExpr phrase
  obtain ⟨first, behind⟩ := passes.uncons
  obtain ⟨middle, last⟩ := behind.split
  refine ⟨depth, fun limit budget le => exact_bind (exact_ident first names _) ?_⟩
  refine exact_bind (reads limit budget le _ _ middle ?_) ?_
  · rw [last.current, declare]
    simp
  · exact exact_bind (exact_expect last declare _) (exact_pure _ _)

def typedTrial (limit budget : Nat) : Parser (Option (Ident × TypeExpr)) :=
  attempt .typedDeclaration (typedHead (typeExpr limit budget))

theorem attempt_found {α : Type} {parser : Parser α} {value : α} (trial : Trial)
    (found : (parser start).value = some value) (kept : (parser start).cursor.Intact) :
    (attempt trial parser start).value = some (some value) ∧
      (attempt trial parser start).cursor = (parser start).cursor ∧
      (attempt trial parser start).reports = (parser start).reports := by
  rw [attempt, found]
  simp only [Sound.matched_of_intact kept]
  exact ⟨rfl, rfl, List.append_nil _⟩

theorem typedTrial_found (within : budget ≤ limit) (intact : start.Intact)
    (unlimited : ¬ ReachesLimit (typedTrial limit budget start).reports)
    (declares : start.Declares name type stop) :
    (typedTrial limit budget start).Exact (some (name, type)) stop := by
  have sound := typeExpr_sound limit budget within
  obtain ⟨depth, exact⟩ := exact_typedHead declares
  have deep := exact (limit + depth) (budget + depth) (by omega)
  have tries := typedHead_tries
    (typeExpr_settles (by omega : budget ≤ budget + depth) within (by omega : _ ≤ limit + depth))
    sound.keeps
  have kept := tries.keeps start intact
  have same : typedHead (typeExpr (limit + depth) (budget + depth)) start =
      typedHead (typeExpr limit budget) start := by
    refine (tries.tries start intact).resolve_right fun overruns => ?_
    cases found : (typedHead (typeExpr limit budget) start).value with
    | none => exact absurd (deep.value.symm.trans (overruns.fails found).1) (by simp)
    | some head =>
      rw [typedTrial, (attempt_found _ found kept).2.2] at unlimited
      exact unlimited overruns.reaches
  rw [same] at deep
  obtain ⟨value, cursor, reports⟩ := attempt_found .typedDeclaration deep.value kept
  exact ⟨value, cursor.trans deep.cursor, reports.trans deep.reports⟩

theorem typedTrial_other (within : budget ≤ limit) (intact : start.Intact)
    (unlimited : ¬ ReachesLimit (typedTrial limit budget start).reports)
    (other : ∀ name type stop, ¬ start.Declares name type stop) :
    (typedTrial limit budget start).Exact none start := by
  obtain ⟨_, used, passes, reads⟩ :=
    typedHead_sound (typeExpr_sound limit budget within) start intact
  cases found : (typedHead (typeExpr limit budget) start).value with
  | none =>
    rw [typedTrial, attempt, found]
    exact ⟨rfl, rfl, rfl⟩
  | some head =>
    exfalso
    rw [typedTrial, (attempt_found _ found (passes.intact intact)).2.2] at unlimited
    rw [found] at reads
    obtain ⟨names, typed, sign, rfl, declare, _⟩ := reads
    exact other _ _ _ ⟨_, _, sign, names, typed.phrase unlimited, declare, passes⟩

end Parser

end MoSyntax
