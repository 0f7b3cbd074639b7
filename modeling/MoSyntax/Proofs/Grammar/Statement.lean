import MoSyntax.Proofs.Deepening.Stmt
import MoSyntax.Proofs.Grammar.TypePhrase
import MoSyntax.Proofs.Reading.Source

/-!
Which form a statement has that no word announces. The longest form that fits is taken: a
declaration with `:=`, one with a type, an assignment, and an expression where none of them fits.
The parts that are read on trial leave nothing behind, and from the value on the reply is that of
the value.
-/
namespace MoSyntax

/-- Whether the first token of a statement says what statement it is. -/
def TokenKind.announces : TokenKind → Bool
  | keyword word => word == .forWord || word == .ifWord || word == .retWord || word == .deferWord
  | punctuation mark => mark == .leftBrace
  | _ => false

/-- An operator that may be compounded comes next, and then `=`, close to it or not. -/
structure Cursor.Compounds (cursor : Cursor) (sign : Operator) (operator : BinaryOperator) :
    Prop where
  kind : cursor.current.kind = .operator sign
  means : BinaryOperator.ofSign? sign = some operator
  tiered : operator.precedence = .term ∨ operator.precedence = .factor
  equals : (cursor.peek 1).kind = .operator .assign

theorem Cursor.Compounds.ne_assign {cursor : Cursor} {sign : Operator} {operator : BinaryOperator}
    (compounds : cursor.Compounds sign operator) : cursor.current.kind ≠ .operator .assign := by
  intro equals
  obtain rfl : sign = .assign := by simpa [equals] using compounds.kind.symm
  exact absurd compounds.means (by simp [BinaryOperator.ofSign?])

/-- The reply is that of its last part with something made of the value, behind what was told. -/
structure Reply.Finishes {α β : Type} (reply : Reply β) (told : List Diagnostic) (make : α → β)
    (part : Reply α) : Prop where
  value : reply.value = part.value.map make
  cursor : reply.cursor = part.cursor
  reports : reply.reports = told ++ part.reports

namespace Reply.Finishes

variable {α β : Type} {reply : Reply α} {told : List Diagnostic}

theorem same (reply : Reply α) : reply.Finishes [] id reply := ⟨by simp, rfl, rfl⟩

theorem trans {γ : Type} {whole : Reply γ} {make : α → γ} {part : Reply β} {other : β → α}
    (first : whole.Finishes [] make reply) (second : reply.Finishes told other part) :
    whole.Finishes told (make ∘ other) part where
  value := by rw [first.value, second.value, Option.map_map]
  cursor := first.cursor.trans second.cursor
  reports := by rw [first.reports, second.reports, List.nil_append]

end Reply.Finishes

namespace Parser

open Diagnostic (ReachesLimit)

variable {α β γ : Type} {start middle stop : Cursor} {told : List Diagnostic}

theorem finishes_map (parser : Parser α) (make : α → β) (start : Cursor) :
    ((parser >>= fun value => pure (make value)) start).Finishes [] make (parser start) := by
  cases found : (parser start).value with
  | none =>
    rw [bind_of_none found]
    exact ⟨by simp [found], rfl, rfl⟩
  | some value =>
    rw [bind_of_some found]
    exact ⟨by simp [Reply.after, found, pure, succeed], rfl, by simp [Reply.after, pure, succeed]⟩

theorem finishes_bind {first : Parser α} {next : α → Parser β} {value : α} {make : γ → β}
    {part : Reply γ} (found : (first start).value = some value)
    (tail : (next value (first start).cursor).Finishes told make part) :
    ((first >>= next) start).Finishes ((first start).reports ++ told) make part := by
  rw [bind_of_some found]
  exact ⟨tail.value, tail.cursor, by simp [Reply.after, tail.reports]⟩

theorem finishes_exact {first : Parser α} {next : α → Parser β} {value : α} {make : γ → β}
    {part : Reply γ} (head : (first start).Exact value middle)
    (tail : (next value middle).Finishes told make part) :
    ((first >>= next) start).Finishes told make part := by
  have whole := finishes_bind head.value (head.cursor ▸ tail)
  rwa [head.reports, List.nil_append] at whole

section Declarations

variable {type : Parser TypeExpr} {expr : Parser Expr} {name : Ident}

theorem declaration_infers (infers : start.Infers name stop) :
    (declaration type expr start).Finishes []
      (fun value => some (.declare (name.span.through value.span) name none value))
      (expr stop) := by
  obtain ⟨token, sign, names, declare, passes⟩ := infers
  obtain ⟨first, second⟩ := passes.uncons
  have next : start.peek 1 = sign := (first.peek 0).trans second.current
  refine finishes_exact (exact_pure start start) ?_
  rw [if_neg (by simp [passes.current, names.1, TokenKind.isIdentifier]),
    if_pos (by simp [next, declare])]
  exact finishes_exact (exact_ident first names _)
    (finishes_exact (exact_advance second) (finishes_map expr _ stop))

theorem ne_declare_of_phrase {used : List Token} {declared : TypeExpr} {sign : Token}
    (phrase : TypePhrase used declared) (passes : start.Passes (used ++ [sign]) stop) :
    start.current.kind ≠ .operator .declare := by
  cases phrase with
  | named reads =>
    cases reads with
    | ident names => simp [passes.current, names.1]
    | path names => simp [passes.current, names.1]
  | pointer mark =>
    obtain ⟨star, rfl, kind, _⟩ := mark
    simp [passes.current, kind]
  | array first =>
    obtain ⟨left, rfl, kind, _⟩ := first
    simp [passes.current, kind]

theorem declaration_declares {declared : TypeExpr} (declares : start.Declares name declared stop)
    (trial : (attempt .typedDeclaration (typedHead type) start).Exact (some (name, declared)) stop) :
    (declaration type expr start).Finishes []
      (fun value => some (.declare (name.span.through value.span) name (some declared) value))
      (expr stop) := by
  obtain ⟨token, used, sign, names, phrase, _, passes⟩ := declares
  obtain ⟨first, behind⟩ := passes.uncons
  have next : (start.peek 1).kind ≠ .operator .declare := by
    rw [show start.peek 1 = _ from first.peek 0]
    exact ne_declare_of_phrase phrase behind
  refine finishes_exact (exact_pure start start) ?_
  rw [if_neg (by simp [passes.current, names.1, TokenKind.isIdentifier]), if_neg (by simp [next])]
  exact finishes_exact trial (finishes_map expr _ stop)

theorem declaration_declined (intact : start.Intact) (other : ∀ name stop, ¬ start.Infers name stop)
    (trial : (attempt .typedDeclaration (typedHead type) start).Exact none start) :
    (declaration type expr start).Exact none start := by
  refine exact_bind (exact_pure start start) ?_
  split
  · exact exact_pure none start
  · rename_i word
    split
    · rename_i sign
      exfalso
      simp only [Bool.not_eq_true', Bool.not_eq_false] at word
      simp only [beq_iff_eq] at sign
      obtain ⟨behind, current⟩ := Cursor.ahead_of_current intact
        (fun none => by simp [none, TokenKind.isIdentifier] at word)
      obtain ⟨rest, ahead⟩ := Cursor.ahead_of_peek intact [_] current
        (fun none => by simp [sign] at none)
      obtain ⟨name, kind⟩ : ∃ name, start.current.kind = .identifier name := by
        cases kind : start.current.kind <;> simp_all [TokenKind.isIdentifier]
      exact other ⟨start.current.span, name⟩ _ ⟨_, _, ⟨kind, rfl⟩, sign,
        (Cursor.advanceBy_passes [_, _] rest ahead).1⟩
    · exact exact_bind trial (exact_pure none start)

end Declarations

section Assignments

variable {expr : Parser Expr} {left : Expr}

theorem assigned_assigns (equals : start.current.kind = .operator .assign) :
    (assigned expr left start).Finishes []
      (fun value => some (.assign (left.span.through value.span) left value))
      (expr start.advance) := by
  refine finishes_exact (exact_pure left start) (finishes_exact (exact_pure start start) ?_)
  have found := accept_found (show start.current.kind == .operator .assign by simp [equals])
  refine finishes_exact (⟨by rw [found], by rw [found], by rw [found]⟩ :
    (accept (.operator .assign) start).Exact true start.advance) ?_
  exact finishes_map expr _ _

theorem assigned_other (other : start.current.kind ≠ .operator .assign) :
    (assigned expr left start).Finishes [] id (compounded start expr left start) := by
  refine finishes_exact (exact_pure left start) (finishes_exact (exact_pure start start) ?_)
  have found := accept_other (show ¬ start.current.kind == .operator .assign by simp [other])
  refine finishes_exact (⟨by rw [found], by rw [found], by rw [found]⟩ :
    (accept (.operator .assign) start).Exact false start) ?_
  exact .same _

theorem compoundOperator?_iff {cursor : Cursor} {sign : Operator} {operator : BinaryOperator} :
    compoundOperator? cursor = some (sign, operator) ↔ cursor.Compounds sign operator := by
  constructor
  · intro found
    obtain ⟨kind, equals, means⟩ := compoundOperator?_eq_some found
    obtain ⟨means, tiered⟩ := Option.filter_eq_some_iff.1 means
    exact ⟨kind, means, by simpa [BinaryOperator.compounds] using tiered, equals⟩
  · rintro ⟨kind, means, tiered, equals⟩
    have compounds : BinaryOperator.ofCompoundSign? sign = some operator :=
      Option.filter_eq_some_iff.2 ⟨means, by simpa [BinaryOperator.compounds] using tiered⟩
    rw [compoundOperator?, kind]
    simp [equals, compounds]

theorem assigned_compounds {sign : Operator} {operator : BinaryOperator}
    (compounds : start.Compounds sign operator)
    (close : start.current.span.stop = (start.peek 1).span.start) :
    (assigned expr left start).Finishes []
      (fun value => some (.compoundAssign (left.span.through value.span) left
        ⟨start.current.span, operator⟩ value)) (expr (start.advanceBy 2)) := by
  refine (assigned_other compounds.ne_assign).trans ?_
  rw [compounded, compoundOperator?_iff.2 compounds]
  dsimp only
  rw [if_pos (by simp [close])]
  exact finishes_exact ⟨rfl, rfl, rfl⟩ (finishes_map expr _ _)

theorem assigned_spaced {sign : Operator} {operator : BinaryOperator}
    (compounds : start.Compounds sign operator)
    (apart : start.current.span.stop ≠ (start.peek 1).span.start) :
    (assigned expr left start).Finishes [] (fun value : Stmt => some value)
      (reject (Report.spacedCompound sign (start.current.span.through (start.peek 1).span))
        start) := by
  refine (assigned_other compounds.ne_assign).trans ?_
  rw [compounded, compoundOperator?_iff.2 compounds]
  dsimp only
  rw [if_neg (by simp [apart])]
  exact ⟨rfl, rfl, rfl⟩

theorem assigned_declines (other : start.current.kind ≠ .operator .assign)
    (alone : ∀ sign operator, ¬ start.Compounds sign operator) :
    (assigned expr left start).value = some none := by
  have none : compoundOperator? start = none := by
    refine Option.eq_none_iff_forall_ne_some.2 ?_
    rintro ⟨sign, operator⟩ found
    exact alone sign operator (compoundOperator?_iff.1 found)
  rw [(assigned_other other).value, compounded, none]
  rfl

end Assignments

section Forms

variable {type : Parser TypeExpr} {expr : Parser Expr} {stmt : Parser Stmt}

theorem simple_of_declared {make : γ → Stmt} {part : Reply γ}
    (declared : (declaration type expr start).Finishes told (fun value => some (make value)) part) :
    (simpleStatement type expr start).Finishes told make part := by
  cases found : part.value with
  | none =>
    have lost : (declaration type expr start).value = none := by rw [declared.value, found]; rfl
    rw [simpleStatement, bind_of_none lost]
    exact ⟨by simp [found], declared.cursor, declared.reports⟩
  | some value =>
    have kept : (declaration type expr start).value = some (some (make value)) := by
      rw [declared.value, found]
      rfl
    rw [simpleStatement, bind_of_some kept]
    refine ⟨by simp [found, Reply.after, pure, succeed], declared.cursor, ?_⟩
    simpa [Reply.after, pure, succeed] using declared.reports

theorem simple_of_declined (declined : (declaration type expr start).Exact none start) :
    (simpleStatement type expr start).Finishes [] id
      (unlessDeclined (assignment (unary type expr) expr) (expressionStatement expr) start) :=
  finishes_exact declined (.same _)

variable {target : Parser Expr} {left : Expr} {other : Parser Stmt}

theorem unlessDeclined_of_assigned {make : γ → Stmt} {part : Reply γ}
    (found : (target start).value = some left)
    (assigns : (assigned expr left (target start).cursor).Finishes told (fun value => some (make value))
      part) :
    (unlessDeclined (assignment target expr) other start).Finishes
      ((target start).reports ++ told) make part := by
  have whole := finishes_bind found assigns
  rw [← assignment_eq] at whole
  have value := whole.value
  rw [unlessDeclined]
  cases last : part.value with
  | none =>
    rw [last] at value
    simp only [value, Option.map_none]
    exact ⟨by simp [last], whole.cursor, whole.reports⟩
  | some found =>
    rw [last] at value
    simp only [value, Option.map_some]
    exact ⟨by simp [last], whole.cursor, whole.reports⟩

theorem simple_of_assigned {make : γ → Stmt} {part : Reply γ}
    (declined : (declaration type expr start).Exact none start)
    (found : (unary type expr start).value = some left)
    (assigns : (assigned expr left (unary type expr start).cursor).Finishes []
      (fun value => some (make value)) part) :
    (simpleStatement type expr start).Finishes (unary type expr start).reports make part := by
  have whole := (simple_of_declined declined).trans (unlessDeclined_of_assigned found assigns)
  rwa [List.append_nil] at whole

theorem unlessDeclined_of_declined (found : (target start).value = some left)
    (declines : (assigned expr left (target start).cursor).value = some none) :
    (unlessDeclined (assignment target expr) (expressionStatement expr) start).Finishes []
      Stmt.expression (expr start) := by
  have whole : (assignment target expr start).value = some none := by
    rw [assignment_eq, bind_of_some found]
    exact declines
  simp only [unlessDeclined, whole]
  have plain : (expressionStatement expr start).Finishes [] Stmt.expression (expr start) :=
    finishes_exact (exact_pure start.current start)
      (finishes_exact ⟨rfl, rfl, rfl⟩ (finishes_map expr _ start))
  exact ⟨plain.value, plain.cursor, plain.reports⟩

theorem stmtLevel_simple (plain : start.current.kind.announces = false) :
    stmtLevel type expr stmt start = simpleStatement type expr start := by
  refine Eq.trans (bind_of_silent rfl) (congrFun ?_ start)
  split
  case h_6 => rfl
  all_goals
    rename_i same
    rw [same] at plain
    exact absurd plain (by decide)

end Forms

/-- A statement that no word announces is a declaration where a name and `:=` come next, with a
type of the grammar between them or not; else it is an assignment where `=` or a compound operator
follows what may be the target; and else it is an expression. The limit on nesting is not reached
while the type is tried. -/
theorem statement_chooses {limit budget : Nat} (within : budget < limit) {start : Cursor}
    (intact : start.Intact) (plain : start.current.kind.announces = false)
    (unlimited : ¬ ReachesLimit (typedTrial limit budget start).reports) :
    let expr : Parser Expr := expression limit budget
    let target := unary (typeExpr limit budget) expr start
    let next := target.cursor
    let reply := statement limit (budget + 1) start
    (∀ name stop, start.Infers name stop →
      reply.Finishes [] (fun value => .declare (name.span.through value.span) name none value)
        (expr stop)) ∧
    (∀ name type stop, start.Declares name type stop →
      reply.Finishes []
        (fun value => .declare (name.span.through value.span) name (some type) value)
        (expr stop)) ∧
    ((∀ name stop, ¬ start.Infers name stop) →
      (∀ name type stop, ¬ start.Declares name type stop) →
      ∀ left, target.value = some left →
        (next.current.kind = .operator .assign →
          reply.Finishes target.reports
            (fun value => .assign (left.span.through value.span) left value)
            (expr next.advance)) ∧
        (∀ sign operator, next.Compounds sign operator →
          (next.current.span.stop = (next.peek 1).span.start →
            reply.Finishes target.reports
              (fun value => .compoundAssign (left.span.through value.span) left
                ⟨next.current.span, operator⟩ value)
              (expr (next.advanceBy 2))) ∧
          (next.current.span.stop ≠ (next.peek 1).span.start →
            reply.value = none ∧ reply.cursor = next ∧ reply.reports = target.reports ++
              [Report.spacedCompound sign (next.current.span.through (next.peek 1).span)])) ∧
        (next.current.kind ≠ .operator .assign → (∀ sign operator, ¬ next.Compounds sign operator) →
          reply.Finishes [] Stmt.expression (expr start))) := by
  intro expr target next reply
  have inner : budget ≤ limit := Nat.le_of_lt within
  have opened : reply = simpleStatement (typeExpr limit budget) expr start := by
    have level : reply = stmtLevel (typeExpr limit budget) expr (statement limit budget) start :=
      congrFun (inside_eq (stmtLevel _ _ _) (by omega)) start
    exact level.trans (stmtLevel_simple plain)
  rw [opened]
  refine ⟨fun name stop infers => ?inferred, fun name type stop declares => ?typed, ?other⟩
  case inferred => exact simple_of_declared (declaration_infers infers)
  case typed =>
    exact simple_of_declared
      (declaration_declares declares (typedTrial_found inner intact unlimited declares))
  case other =>
    intro untyped unfit left found
    have declined : (declaration (typeExpr limit budget) expr start).Exact none start :=
      declaration_declined intact untyped (typedTrial_other inner intact unlimited unfit)
    refine ⟨fun equals => ?assign, fun sign operator compounds => ⟨fun close => ?close,
      fun apart => ?apart⟩, fun unequal alone => ?plain⟩
    case assign => exact simple_of_assigned declined found (assigned_assigns equals)
    case close => exact simple_of_assigned declined found (assigned_compounds compounds close)
    case apart =>
      have rejected := simple_of_assigned declined found (assigned_spaced compounds apart)
      exact ⟨rejected.value, rejected.cursor, rejected.reports⟩
    case plain =>
      exact (simple_of_declined declined).trans
        (unlessDeclined_of_declined found (assigned_declines unequal alone))

/-- `x *T` alone would be a product, and the trial takes two levels. -/
theorem statement_chooses_pointer :
    2 < 3 ∧ (sourceCursor "x *T := 1".toList none).Intact ∧
      (sourceCursor "x *T := 1".toList none).current.kind.announces = false ∧
      ¬ ReachesLimit (typedTrial 3 2 (sourceCursor "x *T := 1".toList none)).reports ∧
      (statement 3 3 (sourceCursor "x *T := 1".toList none)).Finishes []
        (fun value => .declare ⟨0, value.span.stop⟩ ⟨⟨0, 1⟩, ['x']⟩
          (some (.pointer ⟨2, 4⟩ (.named (.ident ⟨⟨3, 4⟩, ['T']⟩)))) value)
        (expression 3 2 ((sourceCursor "x *T := 1".toList none).advanceBy 4)) := by
  have intact := sourceCursor_intact "x *T := 1".toList none
  have plain : (sourceCursor "x *T := 1".toList none).current.kind.announces = false := by
    decide +kernel
  have silent : (typedTrial 3 2 (sourceCursor "x *T := 1".toList none)).reports = [] := by
    decide +kernel
  have unlimited : ¬ ReachesLimit (typedTrial 3 2 (sourceCursor "x *T := 1".toList none)).reports := by
    rw [silent]
    simp [ReachesLimit]
  have ahead : (sourceCursor "x *T := 1".toList none).ahead =
      [⟨.identifier ['x'], ['x'], ⟨0, 1⟩, ⟨1, 1⟩⟩, ⟨.operator .star, ['*'], ⟨2, 3⟩, ⟨1, 3⟩⟩,
        ⟨.identifier ['T'], ['T'], ⟨3, 4⟩, ⟨1, 4⟩⟩,
        ⟨.operator .declare, [':', '='], ⟨5, 7⟩, ⟨1, 6⟩⟩] ++
      [⟨.number ⟨.decimal, false, ['1']⟩, ['1'], ⟨8, 9⟩, ⟨1, 9⟩⟩] := by decide +kernel
  have star : Mark (.operator .star) [⟨.operator .star, ['*'], ⟨2, 3⟩, ⟨1, 3⟩⟩] ⟨2, 3⟩ :=
    ⟨_, rfl, rfl, rfl⟩
  have named : TypePhrase [⟨.identifier ['T'], ['T'], ⟨3, 4⟩, ⟨1, 4⟩⟩]
      (.named (.ident ⟨⟨3, 4⟩, ['T']⟩)) := .named (.ident ⟨rfl, rfl⟩)
  refine ⟨by decide, intact, plain, unlimited, ?_⟩
  exact (statement_chooses (by decide) intact plain unlimited).2.1 ⟨⟨0, 1⟩, ['x']⟩ _ _
    ⟨_, _, _, ⟨rfl, rfl⟩, .pointer star named, rfl, (Cursor.advanceBy_passes _ _ ahead).1⟩

end Parser

end MoSyntax
