import Promises.Shell.Session

namespace Promises.Shell

/-- Why the system does not read a file. -/
def refusal : IO.Error → ReadError
  | .permissionDenied .. => .denied
  | .inappropriateType _ 21 _ => .isFolder
  | .inappropriateType .. => .notFolder
  | .invalidArgument .. => .nameTooLong
  | _ => .notFound

/-- The content of a file, or why it cannot be read. -/
def readFile (path : String) : IO (Except ReadError ByteArray) :=
  try
    return .ok (← IO.FS.readBinFile path)
  catch error =>
    return .error (refusal error)

/-- All of the standard input. -/
partial def readAll (input : IO.FS.Stream) (read : ByteArray) : IO ByteArray := do
  let more ← input.read 65536
  if more.isEmpty then return read else readAll input (read ++ more)

end Promises.Shell

open Promises Shell

def main (args : List String) : IO UInt32 := do
  let options := (Options.ofArgs ⟨none, none⟩ args).toOption
  let paths := (options.bind (·.config)).toList ++ (options.bind (·.script)).toList
  let contents ← paths.mapM fun path => return (path, ← readFile path)
  let reads := options.any (·.script.isNone)
  let stdin ← if reads then readAll (← IO.getStdin) .empty else pure .empty
  let outcome := invoke args (fun path => (contents.lookup path).getD (.error .notFound)) stdin
  IO.print outcome.stdout
  IO.eprint outcome.stderr
  return outcome.exitCode.toUInt32
