import MoSyntax.CommandLine.Arguments
import MoSyntax.Diagnostic.Layout
import MoSyntax.Token.Listing
import MoSyntax.Tree.Node

/-!
What the program answers to a command line. A request asks for the explanation of an error code or
for a check of a source file; the answer to a check depends on what was read from the file.
-/
namespace MoSyntax.CommandLine

inductive Request where
  | usage
  | explain (code : Text)
  | check (path : Text) (given : Arguments)
deriving DecidableEq, Repr

/-- An explanation that is asked for goes before everything else. -/
def Request.ofWords (words : List Text) : Request :=
  match Arguments.ofWords? words with
  | none => .usage
  | some given =>
    match given.explain, given.input with
    | some code, _ => .explain code
    | none, some path => .check path given
    | none, none => .usage

/-- Why a file could not be read. -/
inductive ReadFailure where
  | notFound
  | notDirectory
  | isDirectory
  | notUtf8
  | other (reason : String)
deriving DecidableEq, Repr

def ReadFailure.message : ReadFailure → String
  | notFound => "No such file or directory (os error 2)"
  | notDirectory => "Not a directory (os error 20)"
  | isDirectory => "Is a directory (os error 21)"
  | notUtf8 => "stream did not contain valid UTF-8"
  | other reason => reason

structure Response where
  status : Nat
  /-- The lines of the standard output. -/
  output : List String := []
  /-- The log, for the standard error output. -/
  log : List String := []
  /-- The diagnostics, which follow the log. -/
  diagnostics : List String := []
  /-- The last line of the standard error output. -/
  closing : Option String := none
deriving DecidableEq, Repr

namespace Response

def usage : Response := { status := 2 }

/-- The message is shown in quotes. -/
def failure (message : String) : Response :=
  { status := 1, closing := some ("Error: " ++ String.ofList (Text.quoted message.toList)) }

def explain (code : Text) : Response :=
  match ErrorCode.lookup? code with
  | some entry => { status := 0, output := [entry.code ++ ": " ++ entry.message, "",
      entry.explanation] }
  | none => failure ("unknown error code '" ++ String.ofList code ++ "'")

def unreadable (path : Text) (reason : ReadFailure) : Response :=
  failure ("Failed to read file '" ++ String.ofList path ++ "': " ++ reason.message)

/-- The more often verbosity was asked for, the more of the log is shown. -/
def shows (verbosity : Nat) (event : Event) : Bool :=
  match verbosity with
  | 0 => false
  | 1 => !event.isDetail
  | _ => true

def check (given : Arguments) (path source : Text) : Response :=
  let lexed := Lexed.ofText source
  let outcome := parse source path given.limits
  let listed := if given.tokens then lexed.tokens.map Token.listing else []
  let tree := if given.sexp then [String.ofList outcome.program.sexp] else []
  let early := if given.tokens then
    [Event.lexed lexed.tokens.length lexed.base lexed.reports.length] else []
  let count := outcome.diagnostics.length
  let table := LineTable.ofText source
  { status := if outcome.hasErrors then 1 else 0
    output := listed ++ tree
    log := ((early ++ outcome.log).filter (shows given.verbosity)).map Event.line
    diagnostics := outcome.diagnostics.flatMap (Diagnostic.layout path table)
    closing :=
      if outcome.hasErrors then
        some (s!"{count} error(s) found in '" ++ String.ofList path ++ "'")
      else none }

def ofSource (given : Arguments) (path : Text) : Except ReadFailure Text → Response
  | .ok source => check given path source
  | .error reason => unreadable path reason

end Response

end MoSyntax.CommandLine
