import SlimSvg.Value.Property

namespace SlimSvg

/-!
# Declaration blocks

A block holds one declaration for each property, in the order in which the
properties first appeared.  Adding a declaration follows the cascade inside of a
block: the later one wins, unless the earlier one alone is important.
-/

/-- The value of a property and whether it is marked as important. -/
structure Declaration where
  value : String
  important : Bool
deriving DecidableEq, Repr

structure Declarations where
  items : List (String × Declaration)
deriving DecidableEq, Repr

namespace Declarations

def empty : Declarations := ⟨[]⟩

def isEmpty (block : Declarations) : Bool :=
  block.items.isEmpty

/-- The declaration of a property. -/
def get? (block : Declarations) (name : String) : Option Declaration :=
  block.items.lookup name

/-- Change the first entry of a property. -/
def updateFirst (name : String) (f : Declaration → Declaration) :
    List (String × Declaration) → List (String × Declaration)
  | [] => []
  | (n, d) :: rest => if n == name then (n, f d) :: rest else (n, d) :: updateFirst name f rest

/-- Whether the block declares a property. -/
def has (block : Declarations) (name : String) : Bool :=
  block.items.any fun (n, _) => n == name

/-- Declare a property after the others, unless it is declared already; then
change its declaration. -/
def declare (block : Declarations) (name : String) (new : Declaration)
    (change : Declaration → Declaration) : Declarations :=
  if block.has name then ⟨updateFirst name change block.items⟩
  else ⟨block.items ++ [(name, new)]⟩

/-- Add a declaration by the cascade of a single block. -/
def cascade (block : Declarations) (name value : String) (important : Bool) : Declarations :=
  let new := Declaration.mk value important
  block.declare name new fun old => if old.important && !important then old else new

/-- Set a declaration, whatever was declared before. -/
def insert (block : Declarations) (name value : String) (important : Bool) : Declarations :=
  let new := Declaration.mk value important
  block.declare name new fun _ => new

/-- Change the declaration of a property that is declared. -/
def modify (block : Declarations) (name : String) (f : Declaration → Declaration) :
    Declarations :=
  ⟨updateFirst name f block.items⟩

/-- Take away the declaration of a property. -/
def remove (block : Declarations) (name : String) : Declarations :=
  ⟨block.items.eraseP fun (n, _) => n == name⟩

/-- Keep the declarations with a property. -/
def retain (block : Declarations) (keep : String → Declaration → Bool) : Declarations :=
  ⟨block.items.filter fun (n, d) => keep n d⟩

/-- Change every declaration, given its name. -/
def mapValues (block : Declarations) (f : String → Declaration → Declaration) : Declarations :=
  ⟨block.items.map fun (n, d) => (n, f n d)⟩

/-- Replace every value by its shortest text. -/
def minifyValues (block : Declarations) : Declarations :=
  block.mapValues fun name d => { d with value := (PropertyValue.ofText name d.value).minified }

/-- A declaration as it stands in a block. -/
def writeItem (name : String) (d : Declaration) : String :=
  name ++ ":" ++ Text.trim d.value ++ if d.important then "!important" else ""

/-- The declarations between semicolons. -/
def writeBlock (block : Declarations) : String :=
  String.intercalate ";" (block.items.map fun (n, d) => writeItem n d)

end Declarations

/-! ## Reading a block -/

namespace DeclarationScan

/-- Whether a character may begin a name. -/
def isNameStart (c : Char) : Bool :=
  c == '_' || c.isAlpha || 0xED < c.toNat

/-- Whether a character may go on a name. -/
def isNameChar (c : Char) : Bool :=
  isNameStart c || c.isDigit || c == '-'

/-- The text without blanks and comments at its front; fails at a comment that
is not ended. -/
def skipBlank? (cs : List Char) : Option (List Char) :=
  match _front : cs.dropWhile Text.isCssSpace with
  | '/' :: '*' :: rest =>
    match _end : Text.cut? ['*', '/'] rest with
    | some (_, after) => skipBlank? after
    | none => none
  | rest => some rest
termination_by cs.length
decreasing_by
  have h₁ := (List.dropWhile_sublist Text.isCssSpace (l := cs)).length_le
  have h₂ := congrArg List.length (Text.eq_append_of_cut? _end)
  simp only [List.length_append] at h₂
  simp only [_front, List.length_cons] at h₁
  omega

/-- A name at the front of a text and what follows it.  A hyphen in front of a
failing name is consumed all the same. -/
def scanName (cs : List Char) : Option (List Char) × List Char :=
  let (hyphen, body) :=
    match cs with
    | '-' :: rest => (['-'], rest)
    | cs => ([], cs)
  match body with
  | [] => (if hyphen.isEmpty then none else some hyphen, [])
  | c :: rest =>
    if isNameStart c then
      (some (hyphen ++ c :: rest.takeWhile isNameChar), rest.dropWhile isNameChar)
    else (none, body)

/-- What follows a quoted string, given the character before the current one. -/
def afterString? (quote : Char) : (previous : Char) → List Char → Option (List Char)
  | _, [] => none
  | previous, c :: rest =>
    if c == quote && previous != '\\' then some rest else afterString? quote c rest

/-- Whether a term stands at the front of a text, and what remains after it; a
term that fails may have consumed a part of the text. -/
def scanTerm : List Char → Bool × List Char
  | [] => (false, [])
  | c :: rest =>
    if c == '#' then
      match scanName rest with
      | (some _, rest) => (true, rest)
      | (none, rest) => (true, rest.dropWhile Color.isHexDigit)
    else if c == '+' || c == '-' || c == '.' || c.isDigit then
      let rest := rest.dropWhile Char.isDigit
      let rest :=
        match rest with
        | '.' :: rest => rest.dropWhile Char.isDigit
        | rest => rest
      match rest with
      | '%' :: rest => (true, rest)
      | rest => (true, (scanName rest).2)
    else if Reference.isQuote c then
      match afterString? c c rest with
      | some rest => (true, rest)
      | none => (false, [])
    else if c == ',' then (true, rest)
    else
      match scanName (c :: rest) with
      | (none, rest) => (false, rest)
      | (some _, '(' :: rest) =>
        match rest.dropWhile (· != ')') with
        | _ :: rest => (true, rest)
        | [] => (false, [])
      | (some _, rest) => (true, rest)

/-- Read terms as long as there are any: what follows the last one, and what
follows everything that was consumed. -/
def scanTerms? : (bound : Nat) → (last cs : List Char) → Option (List Char × List Char)
  | 0, last, cs => some (last, cs)
  | bound + 1, last, cs =>
    match scanTerm cs with
    | (false, rest) => some (last, rest)
    | (true, rest) => do
      let next ← skipBlank? rest
      scanTerms? bound rest next

/-- What follows any number of semicolons with their blanks. -/
def skipSemicolons? : (bound : Nat) → List Char → Option (List Char)
  | bound + 1, ';' :: rest => do
    let rest ← skipBlank? rest
    skipSemicolons? bound rest
  | _, cs => some cs

/-- A declaration as it was read. -/
structure Entry where
  name : String
  value : String
  important : Bool
deriving DecidableEq, Repr

/-- The mark of an important declaration. -/
def scanImportant? : List Char → Option (Bool × List Char)
  | '!' :: rest => do
    let rest ← skipBlank? rest
    match "important".toList.isPrefixOf? rest with
    | some rest => some (true, rest)
    | none => some (false, rest)
  | cs => some (false, cs)

/-- The declaration at the front of a text and what follows it. -/
def scanEntry? (cs : List Char) : Option (Entry × List Char) := do
  let cs ← skipBlank? cs
  let cs :=
    match cs with
    | '*' :: rest => rest
    | cs => cs
  let (some name, rest) := scanName cs | none
  let rest ← skipBlank? rest
  let rest ← [':'].isPrefixOf? rest
  let start ← skipBlank? rest
  let (last, rest) ← scanTerms? start.length start start
  let value := Text.trimChars (start.take (start.length - last.length))
  let rest ← skipBlank? rest
  let (important, rest) ← scanImportant? rest
  let rest ← skipBlank? rest
  let rest ← skipSemicolons? rest.length rest
  let rest ← skipBlank? rest
  if value.isEmpty then none
  else some (⟨String.ofList name, String.ofList value, important⟩, rest)

/-- The declarations of a text up to the first one that cannot be read; every
declaration takes at least one character. -/
def scanEntries : (bound : Nat) → List Char → List Entry
  | 0, _ => []
  | bound + 1, cs =>
    match skipBlank? cs with
    | none | some [] => []
    | some cs =>
      match scanEntry? cs with
      | none => []
      | some (entry, rest) => entry :: scanEntries bound rest

end DeclarationScan

namespace Declarations

/-- Read a block, like the text of a `style` attribute. -/
def read (s : String) : Declarations :=
  (DeclarationScan.scanEntries s.toList.length s.toList).foldl
    (fun block entry => block.cascade entry.name entry.value entry.important) empty

/-- The shortest text of a block. -/
def write (block : Declarations) : String :=
  block.minifyValues.writeBlock

instance : TextForm Declarations where
  read? s := some (read s)
  write := write

end Declarations

end SlimSvg
