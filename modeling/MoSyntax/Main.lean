import MoSyntax.CommandLine.Response

/-! The program `mo-parse`: reads a source file and reports what is wrong with it. -/
namespace MoSyntax.CommandLine

def usageLine : String :=
  "Usage: mo-parse [--explain CODE] [--tokens] [--sexp] [--max-depth N] [--max-tokens N] [-v] INPUT"

def failureOf : IO.Error → ReadFailure
  | .noFileOrDirectory .. => .notFound
  | .inappropriateType _ code _ => if code == 20 then .notDirectory else .isDirectory
  | error => .other (toString error)

def readSource (path : String) : IO (Except ReadFailure Text) := do
  try
    let bytes ← IO.FS.readBinFile path
    match String.fromUTF8? bytes with
    | some source => return .ok source.toList
    | none => return .error .notUtf8
  catch error => return .error (failureOf error)

def respond (words : List Text) : IO Response := do
  match Request.ofWords words with
  | .usage => return { Response.usage with closing := some usageLine }
  | .explain code => return Response.explain code
  | .check path given => return Response.ofSource given path (← readSource (String.ofList path))

def Response.write (response : Response) : IO Unit := do
  for line in response.output do
    IO.println line
  for line in response.log ++ response.diagnostics ++ response.closing.toList do
    IO.eprintln line

end MoSyntax.CommandLine

def main (words : List String) : IO UInt32 := do
  let response ← MoSyntax.CommandLine.respond (words.map String.toList)
  response.write
  return response.status.toUInt32
