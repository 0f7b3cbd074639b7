import Mathlib.Data.List.Forall2
import MoSyntax.Proofs.Likeness.Relocated
import MoSyntax.Proofs.Reading.Skip

/-!
Tokens that are alike. Two lists of tokens are aligned if they have the same tokens in different
places of a text, and instead of one line break there may be several. The second list may go on
where the first one ends, if that is outside of all brackets and a line break comes next.
-/
namespace MoSyntax

/-- Where the tokens of two texts are found in a third one, and what follows there those of the
first text; nothing follows if both have come to their end. -/
structure Comparison where
  left : Nat → Nat
  right : Nat → Nat
  tail : List Token

namespace Comparison

variable (c : Comparison)

def Spans (first second : Span) : Prop := first.relocate c.left = second.relocate c.right

/-- The same token in two texts. The text of a line break is not seen by the grammar. -/
structure Tokens (first second : Token) : Prop where
  kind : first.kind = second.kind
  lexeme : first.kind ≠ .lineBreak → first.lexeme = second.lexeme
  span : c.Spans first.span second.span

/-- Whether the sign of an assignment follows a token without a gap. -/
def joins (token : Token) (rest : List Token) : Bool :=
  rest.head?.any fun next => next.kind == .operator .assign && token.span.stop == next.span.start

/-- Two lists with the same tokens, behind so many open brackets. -/
inductive Aligned : Nat → List Token → List Token → Prop
  | ended {depth} (whole : c.tail = []) : Aligned depth [] []
  | past {token rest} (more : c.tail = token :: rest) (breaks : token.kind = .lineBreak) :
      Aligned 0 [] (token :: rest)
  | token {depth next first second rest others} (alike : c.Tokens first second)
      (close : ∀ sign, first.kind = .operator sign → joins first rest = joins second others)
      (level : c.tail ≠ [] → Skip.openAfter? depth first.kind = some next)
      (aligned : Aligned next rest others) : Aligned depth (first :: rest) (second :: others)
  | left {depth extra first rest others} (breaks : extra.kind = .lineBreak)
      (next : first.kind = .lineBreak) (same : extra.span.relocate c.left = first.span.relocate c.left)
      (aligned : Aligned depth (first :: rest) others) :
      Aligned depth (extra :: first :: rest) others
  | right {depth extra second rest others} (breaks : extra.kind = .lineBreak)
      (next : second.kind = .lineBreak)
      (same : extra.span.relocate c.right = second.span.relocate c.right)
      (aligned : Aligned depth rest (second :: others)) :
      Aligned depth rest (extra :: second :: others)

namespace Aligned

variable {c} {depth : Nat} {rest others : List Token}

theorem anywhere (aligned : c.Aligned depth rest others) (whole : c.tail = []) (other : Nat) :
    c.Aligned other rest others := by
  induction aligned generalizing other with
  | ended => exact .ended whole
  | past more => simp [whole] at more
  | token alike close _ _ ih => exact .token alike close (absurd whole) (ih other)
  | left breaks next same _ ih => exact .left breaks next same (ih other)
  | right breaks next same _ ih => exact .right breaks next same (ih other)

/-- The first tokens are alike, unless one list or both have come to their end. -/
theorem head (aligned : c.Aligned depth rest others) :
    (c.tail = [] ∧ rest = [] ∧ others = []) ∨
      (c.tail ≠ [] ∧ depth = 0 ∧ rest = [] ∧
        ∃ token, others.head? = some token ∧ token.kind = .lineBreak) ∨
      ∃ first rest' second others', rest = first :: rest' ∧ others = second :: others' ∧
        c.Tokens first second := by
  induction aligned with
  | ended whole => exact .inl ⟨whole, rfl, rfl⟩
  | past more breaks => exact .inr (.inl ⟨by simp [more], rfl, rfl, _, rfl, breaks⟩)
  | token alike => exact .inr (.inr ⟨_, _, _, _, rfl, rfl, alike⟩)
  | left breaks next same aligned ih =>
    obtain ⟨_, none, _⟩ | ⟨_, _, none, _⟩ | ⟨_, _, second, others', here, there, alike⟩ := ih
    · simp at none
    · simp at none
    · obtain ⟨rfl, rfl⟩ := List.cons.inj here
      refine .inr (.inr ⟨_, _, second, others', rfl, there, ?_⟩)
      exact ⟨breaks.trans (next ▸ alike.kind), fun other => absurd breaks other,
        same.trans alike.span⟩
  | right breaks next same aligned ih =>
    obtain ⟨_, _, none⟩ | ⟨cut, zero, none, _⟩ | ⟨first, rest', _, _, here, there, alike⟩ := ih
    · simp at none
    · exact .inr (.inl ⟨cut, zero, none, _, rfl, breaks⟩)
    · obtain ⟨rfl, rfl⟩ := List.cons.inj there
      refine .inr (.inr ⟨first, rest', _, _, here, rfl, ?_⟩)
      have feed : first.kind = .lineBreak := alike.kind.trans next
      exact ⟨feed.trans breaks.symm, fun other => absurd feed other, alike.span.trans same.symm⟩

theorem behind {first second : Token} {next : Nat}
    (aligned : c.Aligned depth (first :: rest) (second :: others))
    (plain : first.kind ≠ .lineBreak)
    (level : c.tail ≠ [] → Skip.openAfter? depth first.kind = some next) :
    c.Aligned next rest others ∧
      ∀ sign, first.kind = .operator sign → joins first rest = joins second others := by
  cases aligned with
  | token alike close inner aligned =>
    refine ⟨?_, close⟩
    by_cases whole : c.tail = []
    · exact aligned.anywhere whole next
    · obtain rfl := Option.some.inj ((inner whole).symm.trans (level whole))
      exact aligned
  | left breaks => exact absurd breaks plain
  | right breaks feed same aligned =>
    obtain ⟨_, none, _⟩ | ⟨_, _, none, _⟩ | ⟨_, _, _, _, here, there, alike⟩ := aligned.head
    · simp at none
    · simp at none
    · obtain ⟨rfl, rfl⟩ := List.cons.inj here
      obtain ⟨rfl, rfl⟩ := List.cons.inj there
      exact absurd (alike.kind.trans feed) plain

end Aligned

end Comparison

namespace Skip

variable {σ : Type}

/-- The number of tokens that a scan passes before it halts. -/
def scan (step : σ → TokenKind → Option σ) : σ → List Token → Nat
  | _, [] => 0
  | state, token :: tokens =>
    match step state token.kind with
    | none => 0
    | some next => scan step next tokens + 1

/-- One step of a scan that goes on while the tokens are of a class. -/
def stepWhile (holds : TokenKind → Bool) (state : Unit) (kind : TokenKind) : Option Unit :=
  if holds kind then some state else none

/-- One step of a scan to the first token outside of brackets that halts. -/
def stepTo (halts : TokenKind → Bool) (depth : Nat) (kind : TokenKind) : Option Nat :=
  if depth = 0 ∧ halts kind then none else some (openAfter depth kind)

theorem length_takeWhile (holds : TokenKind → Bool) (tokens : List Token) :
    (tokens.takeWhile fun token => holds token.kind).length = scan (stepWhile holds) () tokens := by
  induction tokens with
  | nil => rfl
  | cons token tokens ih =>
    rw [List.takeWhile_cons, scan, stepWhile]
    split
    · rw [List.length_cons, ih]
    · rfl

theorem lengthTo_eq (halts : TokenKind → Bool) (depth : Nat) (tokens : List Token) :
    lengthTo halts depth tokens = scan (stepTo halts) depth tokens := by
  induction tokens generalizing depth with
  | nil => rfl
  | cons token tokens ih =>
    rw [lengthTo, scan, stepTo]
    split
    · rfl
    · rw [ih]

theorem scan_le (step : σ → TokenKind → Option σ) (state : σ) (tokens : List Token) :
    scan step state tokens ≤ tokens.length := by
  induction tokens generalizing state with
  | nil => simp [scan]
  | cons token tokens ih =>
    rw [scan]
    split
    · simp
    · simpa using ih _

/-- A scan that does not tell one line break from several, and that keeps count of the brackets
when it starts behind so many. -/
structure Steady (c : Comparison) (depth : Nat) (step : σ → TokenKind → Option σ) (level : σ → Nat) :
    Prop where
  breaks : ∀ state, step state .lineBreak = none ∨ step state .lineBreak = some state
  halts : c.tail ≠ [] → ∀ state kind, step state kind = none → level state = 0
  counts : c.tail ≠ [] → ∀ state kind next, step state kind = some next →
    openAfter? (depth + level state) kind = some (depth + level next)

theorem steady_stepWhile {c : Comparison} {holds : TokenKind → Bool}
    (neutral : c.tail ≠ [] → ∀ kind, holds kind → kind.opens = false ∧ kind.closes = false)
    (depth : Nat) : Steady c depth (stepWhile holds) fun _ => 0 where
  breaks state := by
    rw [stepWhile]
    split
    · exact .inr rfl
    · exact .inl rfl
  halts _ _ _ _ := rfl
  counts cut _ kind next goesOn := by
    rw [stepWhile] at goesOn
    split at goesOn
    · rename_i held
      obtain ⟨opens, closes⟩ := neutral cut kind held
      simp [openAfter?, opens, closes]
    · simp at goesOn

theorem neutral_lineBreak (kind : TokenKind) (breaks : kind == .lineBreak) :
    kind.opens = false ∧ kind.closes = false := by
  obtain rfl : kind = .lineBreak := by simpa using breaks
  exact ⟨rfl, rfl⟩

theorem steady_stepTo {c : Comparison} {halts : TokenKind → Bool}
    (closers : c.tail ≠ [] → ∀ kind : TokenKind, kind.closes → halts kind) (depth : Nat) :
    Steady c depth (stepTo halts) id where
  breaks depth := by
    rw [stepTo]
    split
    · exact .inl rfl
    · exact .inr rfl
  halts _ depth kind halted := by
    rw [stepTo] at halted
    split at halted
    · rename_i outside
      exact outside.1
    · simp at halted
  counts cut inner kind next goesOn := by
    rw [stepTo] at goesOn
    split at goesOn
    · simp at goesOn
    · rename_i inside
      have deep : kind.closes → inner ≠ 0 := fun closes zero =>
        inside ⟨zero, closers cut kind closes⟩
      obtain rfl := Option.some.inj goesOn
      exact openAfter?_add deep

end Skip

namespace Comparison

open Skip (scan Steady)

variable {c : Comparison} {σ : Type} {step : σ → TokenKind → Option σ} {level : σ → Nat}
  {depth : Nat}

/-- What is passed of two lists: what is left is aligned and the tokens passed last are alike, or
nothing is left of the first list, outside of all brackets. -/
inductive Passed (c : Comparison) (depth : Nat) (rest others : List Token) (count more : Nat) : Prop
  | both (aligned : c.Aligned depth (rest.drop count) (others.drop more))
      (last : Option.Rel c.Tokens (rest.take count).getLast? (others.take more).getLast?)
  | past (cut : c.tail ≠ []) (outside : depth = 0) (ended : rest.drop count = [])

namespace Passed

variable {rest others : List Token} {count more : Nat} {first second : Token}

theorem cons (alike : c.Tokens first second) (passed : Passed c depth rest others count more) :
    Passed c depth (first :: rest) (second :: others) (count + 1) (more + 1) := by
  cases passed with
  | past cut outside ended => exact .past cut outside ended
  | both aligned last =>
    refine .both aligned ?_
    rw [List.take_succ_cons, List.take_succ_cons, List.getLast?_cons, List.getLast?_cons]
    generalize (rest.take count).getLast? = before at last ⊢
    generalize (others.take more).getLast? = behind at last ⊢
    cases last with
    | none => exact .some alike
    | some alike => exact .some alike

theorem cons_left (passed : Passed c depth (first :: rest) others (count + 1) more) (extra : Token) :
    Passed c depth (extra :: first :: rest) others (count + 2) more := by
  cases passed with
  | past cut outside ended => exact .past cut outside ended
  | both aligned last =>
    refine .both aligned ?_
    rwa [List.take_succ_cons, List.take_succ_cons, List.getLast?_cons_cons, ← List.take_succ_cons]

theorem cons_right (passed : Passed c depth rest (second :: others) count (more + 1))
    (extra : Token) : Passed c depth rest (extra :: second :: others) count (more + 2) := by
  cases passed with
  | past cut outside ended => exact .past cut outside ended
  | both aligned last =>
    refine .both aligned ?_
    rwa [List.take_succ_cons, List.take_succ_cons, List.getLast?_cons_cons, ← List.take_succ_cons]

end Passed

theorem scan_of_halt {state : σ} {token : Token} {tokens : List Token}
    (halts : step state token.kind = none) : scan step state (token :: tokens) = 0 := by
  rw [scan, halts]

theorem scan_of_step {state next : σ} {token : Token} {tokens : List Token}
    (goesOn : step state token.kind = some next) :
    scan step state (token :: tokens) = scan step next tokens + 1 := by
  rw [scan, goesOn]

/-- The same scan passes the same tokens of aligned lists, unless it runs over the end of one. -/
theorem Aligned.scan (steady : Steady c depth step level) {open_ : Nat} {rest others : List Token}
    (aligned : c.Aligned open_ rest others) (state : σ)
    (start : c.tail ≠ [] → open_ = depth + level state) :
    Passed c depth rest others (scan step state rest) (scan step state others) := by
  induction aligned generalizing state with
  | ended whole => exact .both (.ended whole) .none
  | past more breaks =>
    have cut : c.tail ≠ [] := by simp [more]
    exact .past cut (by have zero := start cut; omega) rfl
  | @token _ _ first second rest others alike close counted aligned ih =>
    cases taken : step state first.kind with
    | none =>
      rw [scan_of_halt taken, scan_of_halt (alike.kind ▸ taken)]
      refine .both ?_ .none
      by_cases whole : c.tail = []
      · exact (Aligned.token alike close counted aligned).anywhere whole depth
      · have zero := steady.halts whole _ _ taken
        have same := start whole
        rw [zero, Nat.add_zero] at same
        exact same ▸ .token alike close counted aligned
    | some next =>
      rw [scan_of_step taken, scan_of_step (alike.kind ▸ taken)]
      refine (ih next fun cut => ?_).cons alike
      have same := steady.counts cut _ _ _ taken
      rw [← start cut, counted cut] at same
      exact Option.some.inj same
  -- Of two line breaks in a row a scan passes both or none, so one more makes no difference.
  | @left _ extra first rest others breaks next same aligned ih =>
    have passed := ih state start
    rcases steady.breaks state with halts | goesOn
    · rw [scan_of_halt (next ▸ halts)] at passed
      rw [scan_of_halt (breaks ▸ halts)]
      cases passed with
      | both aligned last => exact .both (.left breaks next same aligned) last
      | past _ _ ended => simp at ended
    · rw [scan_of_step (next ▸ goesOn)] at passed
      rw [scan_of_step (breaks ▸ goesOn), scan_of_step (next ▸ goesOn)]
      exact passed.cons_left extra
  | @right _ extra second rest others breaks next same aligned ih =>
    have passed := ih state start
    rcases steady.breaks state with halts | goesOn
    · rw [scan_of_halt (next ▸ halts)] at passed
      rw [scan_of_halt (breaks ▸ halts)]
      cases passed with
      | both aligned last => exact .both (.right breaks next same aligned) last
      | past cut outside ended => exact .past cut outside ended
    · rw [scan_of_step (next ▸ goesOn)] at passed
      rw [scan_of_step (breaks ▸ goesOn), scan_of_step (next ▸ goesOn)]
      exact passed.cons_right extra

end Comparison

end MoSyntax
