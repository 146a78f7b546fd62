import MissionScript.CommandLine

/-!
# The program
-/

open MissionScript

/-- Why a file cannot be read, in the words of the system. -/
def causeOf : IO.Error → String
  | .noFileOrDirectory _ _ _ => "No such file or directory (os error 2)"
  | .permissionDenied _ _ _ => "Permission denied (os error 13)"
  | e => toString e

/-- Reads a file of the file system. -/
def readFile (path : String) : IO (Except String String) := do
  try
    return .ok (← IO.FS.readFile path)
  catch e => return .error (causeOf e)

def main (words : List String) : IO UInt32 := do
  let reply ← CommandLine.respond readFile words
  (← IO.getStdout).putStr reply.stdout
  (← IO.getStderr).putStr reply.stderr
  return UInt32.ofNat reply.code
