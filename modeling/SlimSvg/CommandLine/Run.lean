import SlimSvg.CommandLine.Options
import SlimSvg.Optimize.Run

namespace SlimSvg
namespace CommandLine

/-!
# The program

What the program does with its arguments is said once for every host, that is,
for every place with files and streams.  A host gives a reason when it fails.
-/

structure Host (m : Type → Type) where
  readInput : ExceptT String m ByteArray
  readFile : (path : String) → ExceptT String m ByteArray
  writeFile : (path text : String) → ExceptT String m Unit
  print : String → ExceptT String m Unit
  /-- Show a line beside the output. -/
  report : String → m Unit

variable {m : Type → Type} [Monad m]

namespace Options

/-- The path of the input, unless it comes from the standard input. -/
def path? (o : Options) : Option String :=
  if o.input == "-" then none else some o.input

def config (o : Options) : Optimize.Config :=
  { enable := o.enable
    disable := o.disable
    maxPasses := o.maxPasses
    write := o.write
    path := o.path? }

end Options

def readInput (host : Host m) (o : Options) : ExceptT String m ByteArray :=
  match o.path? with
  | none => host.readInput
  | some path => host.readFile path

def writeOutput (host : Host m) (o : Options) (text : String) : ExceptT String m Unit :=
  if o.output == "-c" then host.print text else host.writeFile o.output text

/-- The line that shows a warning. -/
def warningLine (w : Warning) : String :=
  "Warning (in " ++ w.subject ++ ":0): " ++ w.message

def optimize (host : Host m) (o : Options) : ExceptT String m Unit := do
  if o.input == "-c" then throw "-c should be set after input"
  let bytes ← readInput host o
  let some text := String.fromUTF8? bytes | throw "input is not a UTF-8 text"
  let (result, warnings) := Optimize.run o.config text
  if !o.quiet then
    for w in warnings do host.report (warningLine w)
  match result with
  | .ok output => writeOutput host o output.data
  | .error failure => throw failure.message

def answer (host : Host m) (args : List String) : ExceptT String m Unit := do
  match Request.ofArguments args with
  | .error e => throw e.message
  | .ok .help => host.print helpText
  | .ok .version => host.print versionText
  | .ok (.optimize options) => optimize host options

/-- Run the program and give its exit code. -/
def run (host : Host m) (args : List String) : m UInt32 := do
  match ← (answer host args).run with
  | .ok _ => return 0
  | .error reason =>
    host.report ("Error: " ++ reason ++ ".")
    return 1

end CommandLine
end SlimSvg
