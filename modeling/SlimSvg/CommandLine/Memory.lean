import SlimSvg.CommandLine.Run

namespace SlimSvg
namespace CommandLine

/-!
# A host in memory

The program can run without a machine around it, on a directory of named texts.
What it does is then a function of its arguments, its input and the directory.
A directory inside the directory exists if it has a file in it.
-/

structure Memory where
  input : ByteArray
  /-- The files by their paths, which are written without detours. -/
  files : List (String × String)
  printed : String
  /-- The lines beside the output. -/
  reported : List String

namespace Memory

/-- The names along a path.  A point leads to where one is already. -/
def names (path : String) : List String :=
  ((Text.splitAt '/' path.toList).map String.ofList).filter fun name => name != "" && name != "."

/-- Whether a path asks for a directory by its end. -/
def asksDirectory (path : String) : Bool :=
  Text.endsWith path "/" || Text.endsWith path "/."

/-- The path without detours, if it can be that of a file in the directory. -/
def filePath? (path : String) : Option String :=
  if Text.startsWith path "/" || asksDirectory path || (names path).isEmpty then none
  else some ("/".intercalate (names path))

/-- Whether some names lead to a directory. -/
def isDirectory (memory : Memory) (along : List String) : Bool :=
  along.isEmpty || memory.files.any fun (path, _) =>
    along.isPrefixOf (names path) && along.length < (names path).length

/-- Whether a path goes on where a file is. -/
def passesFile (memory : Memory) (path : String) : Bool :=
  let along := names path
  memory.files.any fun (file, _) =>
    let toFile := names file
    toFile.isPrefixOf along && (toFile.length < along.length || asksDirectory path)

/-- Why no text can be read at a path. -/
def missingReason (memory : Memory) (path : String) : String :=
  if path == "/" then "Is a directory (os error 21)"
  else if path.isEmpty || Text.startsWith path "/" then "No such file or directory (os error 2)"
  else if memory.isDirectory (names path) then "Is a directory (os error 21)"
  else if memory.passesFile path then "Not a directory (os error 20)"
  else "No such file or directory (os error 2)"

/-- The path of a file that exists or can be made. -/
def writablePath? (memory : Memory) (path : String) : Option String := do
  let path ← filePath? path
  if memory.isDirectory (names path).dropLast && !memory.isDirectory (names path) then some path
  else none

def host : Host (StateM Memory) where
  readInput := return (← get).input
  readFile path := do
    let memory ← get
    match (filePath? path).bind fun path => memory.files.lookup path with
    | some text => return text.toUTF8
    | none => throw (memory.missingReason path)
  writeFile path text := do
    let memory ← get
    match memory.writablePath? path with
    | some path => set { memory with files := (path, text) :: memory.files.filter (·.1 != path) }
    | none => throw "failed to create the output file"
  print text := modify fun memory => { memory with printed := memory.printed ++ text }
  report line := modify fun memory => { memory with reported := memory.reported ++ [line] }

/-- Run the program in memory: its exit code and what it leaves behind. -/
def run (memory : Memory) (args : List String) : UInt32 × Memory :=
  (CommandLine.run host args).run memory

end Memory

end CommandLine
end SlimSvg
