import MoSyntax.Parse

/-!
The words of a command line. Options may stand before and behind the one input file; all but `-v`
may be given once. Words behind `--` are never options.
-/
namespace MoSyntax.CommandLine

inductive Argument where
  | input (path : Text)
  | explain (code : Text)
  | tokens
  | sexp
  | depth (limit : Nat)
  | tokenLimit (limit : Nat)
  | verbose (count : Nat)
deriving DecidableEq, Repr

/-- A limit, as an option takes it. -/
def limit? (text : Text) : Option Nat := NumberLiteral.wordValue? .decimal text

def flag? (title : Text) : Option Argument :=
  if title = "tokens".toList then some .tokens
  else if title = "sexp".toList then some .sexp
  else if title = "verbose".toList then some (.verbose 1)
  else none

/-- How a long option reads its value. -/
def valued? (title : Text) : Option (Text → Option Argument) :=
  if title = "explain".toList then some fun value => some (.explain value)
  else if title = "max-depth".toList then some fun value => (limit? value).map .depth
  else if title = "max-tokens".toList then some fun value => (limit? value).map .tokenLimit
  else none

/-- A word that begins an option; a single dash is none. -/
def isOption : Text → Bool
  | '-' :: _ :: _ => true
  | _ => false

/-- Short options in one word. -/
def short? (letters : Text) : Option Argument :=
  if letters.all (· == 'v') then some (.verbose letters.length) else none

def input? (path : Text) : Option Argument := if path.isEmpty then none else some (.input path)

/-- The arguments that words stand for, if each of them is one. -/
def readArguments : List Text → Option (List Argument)
  | [] => some []
  | ('-' :: '-' :: []) :: words => words.mapM input?
  | ('-' :: '-' :: word) :: words =>
    let title := word.takeWhile (· != '=')
    match word.dropWhile (· != '=') with
    | _ :: value => do
      let argument ← (← valued? title) value
      return argument :: (← readArguments words)
    | [] =>
      match flag? title with
      | some flag => do return flag :: (← readArguments words)
      | none =>
        match words with
        | [] => none
        | value :: words => do
          let read ← valued? title
          if isOption value then none
          else
            let argument ← read value
            return argument :: (← readArguments words)
  | ('-' :: letter :: letters) :: words => do
    let argument ← short? (letter :: letters)
    return argument :: (← readArguments words)
  | word :: words => do
    let argument ← input? word
    return argument :: (← readArguments words)

structure Arguments where
  input : Option Text := none
  explain : Option Text := none
  tokens : Bool := false
  sexp : Bool := false
  depth : Option Nat := none
  tokenLimit : Option Nat := none
  verbosity : Nat := 0
deriving DecidableEq, Repr

namespace Arguments

/-- Adds an argument, unless it has been given before. -/
def add? (given : Arguments) : Argument → Option Arguments
  | .input path => if given.input.isSome then none else some { given with input := some path }
  | .explain code =>
    if given.explain.isSome then none else some { given with explain := some code }
  | .tokens => if given.tokens then none else some { given with tokens := true }
  | .sexp => if given.sexp then none else some { given with sexp := true }
  | .depth limit => if given.depth.isSome then none else some { given with depth := some limit }
  | .tokenLimit limit =>
    if given.tokenLimit.isSome then none else some { given with tokenLimit := some limit }
  | .verbose count => some { given with verbosity := given.verbosity + count }

def ofWords? (words : List Text) : Option Arguments := do
  (← readArguments words).foldlM add? {}

def limits (given : Arguments) : Limits :=
  { depth := given.depth.getD ({} : Limits).depth, tokens := given.tokenLimit }

end Arguments

end MoSyntax.CommandLine
