import SlimSvg.CommandLine.Run

namespace SlimSvg
namespace CommandLine

/-!
# The host on a real machine
-/

/-- Whether a code is a number of the system, which may come as its negative. -/
def isSystemNumber (code number : UInt32) : Bool :=
  code == number || code == 0 - number

/-- The reason of a failure as the system words it, with the number of the system. -/
def systemReason : IO.Error → String
  | .noFileOrDirectory _ _ _ => "No such file or directory (os error 2)"
  | .permissionDenied _ _ _ => "Permission denied (os error 13)"
  | .inappropriateType _ code _ =>
    if isSystemNumber code 20 then "Not a directory (os error 20)"
    else "Is a directory (os error 21)"
  | e => toString e

/-- Run an action; a failure gets the reason that fits it. -/
def attempt {α : Type} (action : IO α) (reason : IO.Error → String) : ExceptT String IO α := do
  match ← action.toBaseIO with
  | .ok a => return a
  | .error e => throw (reason e)

def machine : Host IO where
  readInput := do
    let input ← IO.getStdin
    attempt input.readBinToEnd fun _ => "failed to read from stdin"
  readFile path := attempt (IO.FS.readBinFile path) systemReason
  writeFile path text := do
    let file ← attempt (IO.FS.Handle.mk path .write) fun _ => "failed to create the output file"
    attempt (file.putStr text) fun _ => "failed to write to the output file"
  print text := do
    let out ← IO.getStdout
    attempt (out.putStr text) fun _ => "failed to write to the stdout"
  report line := IO.eprintln line

end CommandLine
end SlimSvg

def main (args : List String) : IO UInt32 :=
  SlimSvg.CommandLine.run SlimSvg.CommandLine.machine args
