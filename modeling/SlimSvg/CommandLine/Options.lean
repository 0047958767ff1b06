import SlimSvg.Text.Search
import SlimSvg.Tree.Written

namespace SlimSvg
namespace CommandLine

/-!
# Options

The options of the program, how they are read and how they are explained to the
user.  Options are looked for in a fixed order, which decides what is reported if
several of them are wrong.
-/

/-! ## Taking arguments

Arguments are taken from a list one kind after the other, wherever they stand.
What nobody asks for stays in the list; the free arguments are taken last, from
the front.  Of an option that is given twice the second one is therefore a free
argument.
-/

/-- What is wrong with arguments. -/
inductive ArgumentError where
  | missingValue (key : String)
  | invalidValue (value cause : String)
  | missingArgument
deriving DecidableEq, Repr

def ArgumentError.message : ArgumentError → String
  | missingValue key => "the '" ++ key ++ "' option doesn't have an associated value"
  | invalidValue value cause => "failed to parse '" ++ value ++ "': " ++ cause
  | missingArgument => "free-standing argument is missing"

/-- Work on the arguments that are left. -/
abbrev Taking := StateT (List String) (Except ArgumentError)

namespace Taking

/-- Take a flag; tells whether it was there. -/
def flag (key : String) : Taking Bool := do
  let args ← get
  set (args.erase key)
  return args.contains key

/-- The value behind the sign in `--key=value`, without its quotation marks.  An
empty value does not count. -/
def inlineValue? (text : List Char) : Option String :=
  let value? :=
    match text with
    | '"' :: rest => if rest.getLast? == some '"' then some rest.dropLast else none
    | '\'' :: rest => if rest.getLast? == some '\'' then some rest.dropLast else none
    | _ => some text
  (value?.filter (!·.isEmpty)).map String.ofList

/-- An option with its value, found in a list of arguments. -/
structure Found where
  value : String
  /-- The other arguments. -/
  others : List String

/-- Look for `--key value`; any argument counts as a value. -/
def separate? (key : String) (args : List String) : Except ArgumentError (Option Found) :=
  match args.dropWhile (· != key) with
  | [] => .ok none
  | [_] => .error (.missingValue key)
  | _ :: value :: after => .ok (some ⟨value, args.takeWhile (· != key) ++ after⟩)

/-- Look for `--key=value`. -/
def inline? (key : String) (args : List String) : Except ArgumentError (Option Found) :=
  let start := (key ++ "=").toList
  match args.find? fun arg => start.isPrefixOf arg.toList with
  | none => .ok none
  | some arg =>
    match inlineValue? (arg.toList.drop start.length) with
    | none => .error (.missingValue key)
    | some value => .ok (some ⟨value, args.erase arg⟩)

/-- Take an option with a value.  The form with a value of its own goes first. -/
def value? {α : Type} (key : String) (read : String → Except String α) : Taking (Option α) := do
  let args ← get
  let separate ← separate? key args
  let found ← if separate.isSome then pure separate else inline? key args
  match found with
  | none => return none
  | some ⟨value, others⟩ =>
    match read value with
    | .error cause => throw (.invalidValue value cause)
    | .ok a =>
      set others
      return some a

/-- Take the first argument that is left. -/
def free : Taking String := do
  match ← get with
  | [] => throw .missingArgument
  | arg :: rest =>
    set rest
    return arg

end Taking

/-! ## What can be asked for -/

structure Options where
  maxPasses : Nat
  enable : List String
  disable : List String
  write : WriteOptions
  quiet : Bool
  input : String
  output : String
deriving Repr

/-- What the user asks for. -/
inductive Request where
  | help
  | version
  | optimize (options : Options)
deriving Repr

/-! ## Values -/

/-- A number in decimal digits, with a plus sign or without, below a bound. -/
def readNumber? (bound : Nat) (s : String) : Option Nat :=
  let digits :=
    match s.toList with
    | '+' :: rest => rest
    | cs => cs
  if digits.isEmpty || !digits.all Char.isDigit then none
  else
    let n := digits.foldl (fun n c => 10 * n + (c.toNat - '0'.toNat)) 0
    if n < bound then some n else none

/-- A number of passes is a word of 32 bits and from 1 to 10. -/
def readPasses (s : String) : Except String Nat :=
  match readNumber? (Nat.pow 2 32) s with
  | none => .error "invalid number"
  | some n =>
    if 1 ≤ n ∧ n ≤ 10 then .ok n
    else .error "passes NUM cannot be smaller than 1 or larger than 10"

/-- An indent is a word of 64 bits and at most 8. -/
def readIndent (s : String) : Except String Nat :=
  match readNumber? (Nat.pow 2 64) s with
  | none => .error "invalid INDENT value"
  | some n => if n ≤ 8 then .ok n else .error "INDENT cannot be larger than 8"

def readPlugins (s : String) : Except String (List String) :=
  match Text.commaList s with
  | [] => .error "plugins list cannot be empty"
  | names => .ok names

def readLineEnd (s : String) : Except String LineEnd :=
  match LineEnd.ofName? s with
  | some lineEnd => .ok lineEnd
  | none => .error (LineEnd.unknownMessage s)

/-! ## The whole -/

/-- Take the options and then the names of the files. -/
def takeOptions : Taking Options := do
  let many ← Taking.flag "--multipass"
  let passes ← Taking.value? "--max-passes" readPasses
  let enable ← Taking.value? "--enable" readPlugins
  let disable ← Taking.value? "--disable" readPlugins
  let pretty ← Taking.flag "--pretty"
  let indent ← Taking.value? "--indent" readIndent
  let lineEnd ← Taking.value? "--eol" readLineEnd
  let finalLineEnd ← Taking.flag "--final-newline"
  let quiet ← Taking.flag "--quiet"
  let input ← Taking.free
  let output ← Taking.free
  return {
    maxPasses := passes.getD (if many then 10 else 1)
    enable := enable.getD []
    disable := disable.getD []
    write := {
      pretty := pretty
      indent := indent.getD 4
      lineEnd := lineEnd.getD .lf
      finalLineEnd := finalLineEnd }
    quiet := quiet
    input := input
    output := output }

/-- What some arguments ask for.  Help goes first, whatever else is asked. -/
def Request.ofArguments (args : List String) : Except ArgumentError Request :=
  if args.contains "-h" || args.contains "--help" then .ok .help
  else if args.contains "-V" || args.contains "--version" then .ok .version
  else (takeOptions.run args).map fun (options, _) => .optimize options

def versionText : String := "0.1.0\n"

def helpLines : List String := [
  "svgmin is an SVG optimizer.",
  "",
  "USAGE:",
  "  svgmin [OPTIONS] <in-svg> <out-svg>  # from file to file",
  "  svgmin [OPTIONS] <in-svg> -c         # from file to stdout",
  "  svgmin [OPTIONS] - <out-svg>         # from stdin to file",
  "  svgmin [OPTIONS] - -c                # from stdin to stdout",
  "",
  "OPTIONS:",
  "  -h, --help                        Prints help information",
  "  -V, --version                     Prints version information",
  "  -c                                Prints the output SVG to the stdout",
  "",
  "  --multipass                       Runs plugins until the output stops shrinking.",
  "                                    Same as '--max-passes 10'",
  "  --max-passes NUM                  Sets the maximum number of passes",
  "                                    [values: 1..10 (inclusive)] [default: 1]",
  "  --enable PLUGINS                  Sets a comma-separated list of plugins",
  "                                    to run in addition to the default ones",
  "                                    Examples: 'minifyClassNames'",
  "  --disable PLUGINS                 Sets a comma-separated list of plugins",
  "                                    to skip",
  "                                    Examples: 'cleanupIds, removeComments'",
  "",
  "  --pretty                          Puts each XML node on its own line",
  "  --indent INDENT                   Sets the XML nodes indent. Used only with '--pretty'",
  "                                    [values: 0..8 (inclusive)] [default: 4]",
  "  --eol EOL                         Sets the line ending",
  "                                    [values: lf, crlf] [default: lf]",
  "  --final-newline                   Ends the output with a line ending",
  "  --quiet                           Disables warnings",
  "",
  "ARGS:",
  "  <in-svg>                          Input file",
  "  <out-svg>                         Output file"]

def helpText : String :=
  String.join (helpLines.map (· ++ "\n"))

end CommandLine
end SlimSvg
