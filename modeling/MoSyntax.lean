import MoSyntax.CommandLine.Arguments
import MoSyntax.CommandLine.Response
import MoSyntax.Diagnostic.Bag
import MoSyntax.Diagnostic.Basic
import MoSyntax.Diagnostic.Code
import MoSyntax.Diagnostic.Layout
import MoSyntax.Event
import MoSyntax.Lines
import MoSyntax.Main
import MoSyntax.Parse
import MoSyntax.Parser.Basic
import MoSyntax.Parser.Decl
import MoSyntax.Parser.Depth
import MoSyntax.Parser.Expr
import MoSyntax.Parser.Report
import MoSyntax.Parser.Skip
import MoSyntax.Parser.Stmt
import MoSyntax.Parser.Symbol
import MoSyntax.Parser.TypeExpr
import MoSyntax.Proofs.Completion
import MoSyntax.Proofs.Course.Decl
import MoSyntax.Proofs.Course.Expr
import MoSyntax.Proofs.Course.Keyword
import MoSyntax.Proofs.Course.Logic
import MoSyntax.Proofs.Course.Order
import MoSyntax.Proofs.Course.Stmt
import MoSyntax.Proofs.Deepening.Expr
import MoSyntax.Proofs.Deepening.Logic
import MoSyntax.Proofs.Deepening.Program
import MoSyntax.Proofs.Deepening.Stmt
import MoSyntax.Proofs.Deepening.TypeExpr
import MoSyntax.Proofs.Depth.Bound
import MoSyntax.Proofs.Depth.Confined
import MoSyntax.Proofs.Depth.Counter
import MoSyntax.Proofs.Depth.Entered
import MoSyntax.Proofs.Depth.Levels
import MoSyntax.Proofs.Grammar.Climbing
import MoSyntax.Proofs.Grammar.Exact
import MoSyntax.Proofs.Grammar.Statement
import MoSyntax.Proofs.Grammar.TypePhrase
import MoSyntax.Proofs.Lexing.Account
import MoSyntax.Proofs.Lexing.Bytes
import MoSyntax.Proofs.Lexing.Escapes
import MoSyntax.Proofs.Lexing.Gap
import MoSyntax.Proofs.Lexing.Joined
import MoSyntax.Proofs.Lexing.Layout
import MoSyntax.Proofs.Lexing.LineEnds
import MoSyntax.Proofs.Lexing.Lines
import MoSyntax.Proofs.Lexing.Lookahead
import MoSyntax.Proofs.Lexing.Neighbours
import MoSyntax.Proofs.Lexing.NumberForm
import MoSyntax.Proofs.Lexing.Numbers
import MoSyntax.Proofs.Lexing.Places
import MoSyntax.Proofs.Lexing.Positions
import MoSyntax.Proofs.Lexing.Quoted
import MoSyntax.Proofs.Lexing.Restart
import MoSyntax.Proofs.Lexing.Restored
import MoSyntax.Proofs.Lexing.Spaced
import MoSyntax.Proofs.Lexing.Units
import MoSyntax.Proofs.Likeness.Bare
import MoSyntax.Proofs.Likeness.Decl
import MoSyntax.Proofs.Likeness.Expr
import MoSyntax.Proofs.Likeness.Joined
import MoSyntax.Proofs.Likeness.Layout
import MoSyntax.Proofs.Likeness.Logic
import MoSyntax.Proofs.Likeness.Moved
import MoSyntax.Proofs.Likeness.Phrase
import MoSyntax.Proofs.Likeness.Relocated
import MoSyntax.Proofs.Likeness.Restored
import MoSyntax.Proofs.Likeness.Rounds
import MoSyntax.Proofs.Likeness.Stmt
import MoSyntax.Proofs.Likeness.Tokens
import MoSyntax.Proofs.Likeness.Trees
import MoSyntax.Proofs.Likeness.TypeExpr
import MoSyntax.Proofs.Navigation.Cursor
import MoSyntax.Proofs.Navigation.Indexed
import MoSyntax.Proofs.Nesting.Cover
import MoSyntax.Proofs.Nesting.Expr
import MoSyntax.Proofs.Nesting.Leaves
import MoSyntax.Proofs.Nesting.Program
import MoSyntax.Proofs.Outline
import MoSyntax.Proofs.Parting.Body
import MoSyntax.Proofs.Parting.Expr
import MoSyntax.Proofs.Parting.Function
import MoSyntax.Proofs.Parting.Line
import MoSyntax.Proofs.Parting.Logic
import MoSyntax.Proofs.Parting.Phrase
import MoSyntax.Proofs.Parting.Program
import MoSyntax.Proofs.Parting.Rounds
import MoSyntax.Proofs.Parting.Stmt
import MoSyntax.Proofs.Printing.Decl
import MoSyntax.Proofs.Printing.Expr
import MoSyntax.Proofs.Printing.Gives
import MoSyntax.Proofs.Printing.Heads
import MoSyntax.Proofs.Printing.Lexing
import MoSyntax.Proofs.Printing.Phrase
import MoSyntax.Proofs.Printing.RoundTrip
import MoSyntax.Proofs.Printing.Shape
import MoSyntax.Proofs.Printing.Simple
import MoSyntax.Proofs.Printing.Spelling
import MoSyntax.Proofs.Printing.Stmt
import MoSyntax.Proofs.Printing.Trial
import MoSyntax.Proofs.Reading.Decl
import MoSyntax.Proofs.Reading.Expr
import MoSyntax.Proofs.Reading.Logic
import MoSyntax.Proofs.Reading.Phrase
import MoSyntax.Proofs.Reading.Skip
import MoSyntax.Proofs.Reading.Source
import MoSyntax.Proofs.Reading.Stmt
import MoSyntax.Proofs.Reading.TypeExpr
import MoSyntax.Proofs.Session.Basic
import MoSyntax.Proofs.Session.Gathered
import MoSyntax.Proofs.Session.Routine
import MoSyntax.Proofs.Shape.Node
import MoSyntax.Proofs.Shape.Program
import MoSyntax.Proofs.Skipping
import MoSyntax.Proofs.Tally.Expr
import MoSyntax.Proofs.Tally.Logic
import MoSyntax.Proofs.Tally.Program
import MoSyntax.Proofs.Tally.Stmt
import MoSyntax.Proofs.Telling.Decl
import MoSyntax.Proofs.Telling.Expr
import MoSyntax.Proofs.Telling.Lexeme
import MoSyntax.Proofs.Telling.Logic
import MoSyntax.Proofs.Telling.Program
import MoSyntax.Proofs.Telling.Stmt
import MoSyntax.Proofs.Truncation
import MoSyntax.Proofs.Yield.Alphabet
import MoSyntax.Proofs.Yield.Brackets
import MoSyntax.Proofs.Yield.Expr
import MoSyntax.Proofs.Yield.Kinds
import MoSyntax.Proofs.Yield.Program
import MoSyntax.Span
import MoSyntax.Text
import MoSyntax.Text.Escaped
import MoSyntax.Text.Graphic
import MoSyntax.Token.Basic
import MoSyntax.Token.Cursor
import MoSyntax.Token.Keyword
import MoSyntax.Token.Lexed
import MoSyntax.Token.Lexeme
import MoSyntax.Token.Listing
import MoSyntax.Token.Number
import MoSyntax.Token.Operator
import MoSyntax.Token.Partition
import MoSyntax.Token.Quoted
import MoSyntax.Token.Restored
import MoSyntax.Tree.Basic
import MoSyntax.Tree.Node
import MoSyntax.Tree.Operator
