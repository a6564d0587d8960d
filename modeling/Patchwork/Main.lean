import Patchwork.Command.Run

/-!
# The command

The command in a real directory, with the process's own standard input and environment.
-/

namespace Patchwork

namespace Command

/-- Errors of the system come with their number or with its negative. -/
def systemNumber (code : UInt32) : UInt32 :=
  if code < 2147483648 then code else 0 - code

def Trouble.ofError : IO.Error → Trouble
  | .noFileOrDirectory _ _ _ => .missing
  | .inappropriateType _ code _ =>
    if systemNumber code = 21 then .isDirectory else .notDirectory
  | e@(.invalidArgument _ code _) =>
    if systemNumber code = 36 then .nameTooLong else .other (toString e)
  | .permissionDenied _ _ _ => .other "Permission denied (os error 13)"
  | e => .other (toString e)

def attempt {A : Type} (action : IO A) : IO (Except Trouble A) := do
  try
    return .ok (← action)
  catch e =>
    return .error (Trouble.ofError e)

def processHost : Host IO where
  input := attempt do (← IO.getStdin).readBinToEnd
  readFile path := attempt (IO.FS.readBinFile path)
  writeFile path text := attempt (IO.FS.writeFile path text)

end Command

end Patchwork

open Patchwork.Command in
def main (words : List String) : IO UInt32 := do
  let depth ← IO.getEnv "QUILT_MAX_DEPTH"
  let patches ← IO.getEnv "QUILT_MAX_PATCHES"
  let environment (name : String) : Option String :=
    if name = "QUILT_MAX_DEPTH" then depth else if name = "QUILT_MAX_PATCHES" then patches else none
  let outcome ← run processHost environment words
  IO.print outcome.output
  IO.eprint outcome.report
  return outcome.code.toUInt32
