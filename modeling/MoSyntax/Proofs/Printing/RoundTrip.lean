import MoSyntax.Proofs.Printing.Decl
import MoSyntax.Proofs.Reading.Source

/-!
A well-formed program that is printed is parsed to itself, up to spans. The tokens of the printed
text are those of the program, and the parser reads them as it, if the limit on nesting allows.
-/
namespace MoSyntax

theorem printed_lexed {program : Program} (formed : program.WellFormed) :
    (grammarTokens program.printed).map Token.kind = program.printedKinds ∧
      Glued (grammarTokens program.printed) ∧ (Lexed.ofText program.printed).reports = [] := by
  obtain ⟨kinds, glued, silent, _⟩ :=
    tokensFrom_spell (.ofText program.printed) 0 program.printedKinds formed.legible
  have visible : grammarTokens program.printed =
      tokensFrom (.ofText program.printed) 0 program.printed := by
    refine List.filter_eq_self.2 fun token member => ?_
    have legible := formed.legible token.kind
      (kinds ▸ List.mem_map_of_mem (f := Token.kind) member)
    rw [Token.isComment, Bool.not_eq_true', beq_eq_false_iff_ne]
    intro comment
    rw [comment] at legible
    exact absurd legible (by decide)
  have reports : (Lexed.ofText program.printed).reports = reportsFrom 0 program.printed := by
    simp [Lexed.ofText, Lexed.ofTextFrom, Text.dropBytes?, reportsFrom]
  rw [visible, reports]
  exact ⟨kinds, glued, silent⟩

theorem printed_holds {program : Program} (formed : program.WellFormed) :
    (sourceCursor program.printed none).Holds program.printedKinds := by
  obtain ⟨kinds, glued, _⟩ := printed_lexed formed
  refine ⟨sourceCursor_intact _ _, ?_, ?_⟩
  · rw [sourceCursor_eq]
    exact glued
  · rw [sourceCursor_eq]
    exact kinds

/-- Printing and then parsing gives the program back. -/
theorem parse_printed (program : Program) (formed : program.WellFormed) (name : Text) (depth : Nat)
    (enough : program.nesting ≤ depth) :
    (parse program.printed name { depth }).diagnostics = [] ∧
      (parse program.printed name { depth }).program.bare = program.bare := by
  have within : ∀ tree ∈ program.declarations, tree.nesting ≤ depth :=
    fun tree member => deepest_le.1 enough _ (List.mem_map_of_mem member)
  obtain ⟨silent, found, answer, same, _⟩ :=
    Parser.Gives.declarations formed.shape within _ (printed_holds formed)
  obtain ⟨_, _, flawless⟩ := printed_lexed formed
  refine ⟨?_, ?_⟩
  · rw [parse_diagnostics, flawless, silent]
    rfl
  · rw [Program.bare, Program.bare, parse_declarations, answer, Option.getD_some, same]

/-- A function with statements that begin alike: `x * y` and `x * T := y`, `x [ 1 ]` and
`x [ 1 ] T := [ y ] T`, the path `x : y`, and `x += y`. -/
def alikeProgram : Program :=
  let place : Span := .empty 0
  let name (word : String) : Ident := ⟨place, word.toList⟩
  let operand (word : String) : Expr := .named (.ident (name word))
  let type : TypeExpr := .named (.ident (name "T"))
  let one : NumberLiteral := ⟨.decimal, false, ['1']⟩
  ⟨place, [.function place (name "f") [] none (.braces place
    [.expression (.binary place .factor (operand "x") ⟨place, .multiply⟩ (operand "y")),
      .declare place (name "x") (some (.pointer place type)) (operand "y"),
      .expression (.index place (.ident (name "x")) (.number place one)),
      .declare place (name "x") (some (.array place (some ⟨place, one⟩) type))
        (.array place [operand "y"] (some type)),
      .expression (.named (.path ⟨[name "x", name "y"]⟩)),
      .compoundAssign place (operand "x") ⟨place, .add⟩ (operand "y")])]⟩

theorem parse_printed_alike :
    (alikeProgram.WellFormed ∧ alikeProgram.nesting ≤ 3) ∧
      (parse alikeProgram.printed unnamed { depth := 3 }).diagnostics = [] ∧
      (parse alikeProgram.printed unnamed { depth := 3 }).program.bare = alikeProgram.bare :=
  have formed : alikeProgram.WellFormed := ⟨by decide, by decide⟩
  have within : alikeProgram.nesting ≤ 3 := by decide
  ⟨⟨formed, within⟩, parse_printed alikeProgram formed unnamed 3 within⟩

end MoSyntax
