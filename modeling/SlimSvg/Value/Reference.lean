import SlimSvg.Value.Cached
import SlimSvg.Value.Scan

namespace SlimSvg

/-!
# References to elements

Two readers look for `url(#id)`.  The strict one reads a whole value that is a
single reference and refuses everything else.  The loose one cuts an arbitrary
text, such as the value of `filter` or a whole declaration block, into the ids
of its local references and the text between them; renaming an id puts the
pieces together again, so the text around the ids cannot change.
-/

namespace Text

/-- Whether a style value refers to a custom property. -/
def hasVariable (s : String) : Bool :=
  contains s "var("

end Text

/-- A value that refers to one element at most. -/
inductive Reference where
  /-- The word `none`. -/
  | none
  /-- The form `url(#id)`. -/
  | function (id : String)
  /-- The form `#id`. -/
  | fragment (id : String)
deriving DecidableEq, Repr

namespace Reference

/-- The id that is referred to. -/
def id? : Reference → Option String
  | none => Option.none
  | function id => some id
  | fragment id => some id

/-- The same form of reference to another element. -/
def withId (newId : String) : Reference → Reference
  | none => none
  | function _ => function newId
  | fragment _ => fragment newId

/-! ## The strict reader -/

def isQuote (c : Char) : Bool :=
  c == '\'' || c == '"'

/-- A function reference at the front of a text, after blanks: its id and what
follows it.  An id holds no quotation mark and is not empty. -/
def scanFunction? (cs : List Char) : Option (List Char × List Char) := do
  let rest ← ['u', 'r', 'l', '('].isPrefixOf? (Value.skipSpaces cs)
  let rest := Value.skipSpaces rest
  let (quote, rest) :=
    match rest with
    | c :: after => if isQuote c then (some c, Value.skipSpaces after) else (Option.none, rest)
    | [] => (Option.none, rest)
  let rest ← ['#'].isPrefixOf? rest
  let inside (c : Char) : Bool :=
    match quote with
    | some q => c != q
    | Option.none => c != ' ' && c != ')'
  let run := rest.takeWhile inside
  let id := if quote.isSome then Text.dropSuffix Text.isWhiteSpace run else run
  if id.isEmpty || id.any isQuote then Option.none
  else
    let rest := Value.skipSpaces (rest.dropWhile inside)
    let rest ←
      match quote with
      | some q => (([q] : List Char).isPrefixOf? rest).map Value.skipSpaces
      | Option.none => some rest
    let rest ← [')'].isPrefixOf? rest
    some (id, rest)

/-- Read a value of the form `url(#id)`. -/
def readFunction? (cs : List Char) : Option Reference := do
  let (id, rest) ← scanFunction? cs
  if (Value.skipSpaces rest).isEmpty then some (function (String.ofList id)) else Option.none

/-- Read a value of the form `#id`. -/
def readFragment? (cs : List Char) : Option Reference := do
  let rest ← ['#'].isPrefixOf? (Value.skipSpaces cs)
  let id := rest.takeWhile (· != ' ')
  if id.isEmpty then Option.none
  else if (Value.skipSpaces (rest.dropWhile (· != ' '))).isEmpty then
    some (fragment (String.ofList id))
  else Option.none

/-- Read a reference.  References to other documents are not read. -/
def read? (s : String) : Option Reference :=
  let cs := Text.trimChars s.toList
  match cs with
  | 'n' :: 'o' :: 'n' :: 'e' :: [] => some none
  | 'u' :: 'r' :: 'l' :: '(' :: _ => readFunction? cs
  | '#' :: _ => readFragment? cs
  | _ => Option.none

def write : Reference → String
  | none => "none"
  | function id => "url(#" ++ id ++ ")"
  | fragment id => "#" ++ id

instance : TextForm Reference where
  read? := read?
  write := write

end Reference

/-! ## The loose reader -/

/-- A piece of a text: the id of a local reference, or text around such ids. -/
inductive ReferenceSpan where
  | plain (text : List Char)
  | id (name : List Char)
deriving DecidableEq, Repr

namespace ReferenceSpan

/-- The characters that may stand between `url(` and the number sign. -/
def isLead (c : Char) : Bool :=
  c == ' ' || c == '"' || c == '\''

/-- The characters that end an id. -/
def endsId (c : Char) : Bool :=
  c == ')' || c == '"' || c == '\'' || Text.isWhiteSpace c

private theorem dropWhile_length_le (p : Char → Bool) (cs : List Char) :
    (cs.dropWhile p).length ≤ cs.length :=
  (List.dropWhile_sublist p).length_le

/-- Cut a text into the ids of its local references and the rest.  An id that is
not ended does not count, and neither does an empty one. -/
def cut : List Char → List ReferenceSpan
  | [] => []
  | 'u' :: 'r' :: 'l' :: '(' :: rest =>
    let lead := rest.takeWhile isLead
    match _cut : rest.dropWhile isLead with
    | '#' :: tail =>
      let name := tail.takeWhile (!endsId ·)
      let after := tail.dropWhile (!endsId ·)
      if after.isEmpty then plain ['u', 'r', 'l', '('] :: cut rest
      else if name.isEmpty then plain ('u' :: 'r' :: 'l' :: '(' :: lead ++ ['#']) :: cut after
      else plain ('u' :: 'r' :: 'l' :: '(' :: lead ++ ['#']) :: id name :: cut after
    | _ => plain ['u', 'r', 'l', '('] :: cut rest
  | c :: cs => plain [c] :: cut cs
termination_by cs => cs.length
decreasing_by
  all_goals simp only [List.length_cons]
  all_goals try omega
  all_goals
    have h₁ := dropWhile_length_le isLead rest
    have h₂ := dropWhile_length_le (!endsId ·) tail
    simp only [_cut, List.length_cons] at h₁
    omega

/-- The text that was cut. -/
def join (spans : List ReferenceSpan) : List Char :=
  spans.flatMap fun
    | plain text => text
    | id name => name

/-- The id in a piece. -/
def name? : ReferenceSpan → Option String
  | plain _ => none
  | id name => some (String.ofList name)

/-- The piece with its id exchanged, if the map knows the id. -/
def rename (map : String → Option String) : ReferenceSpan → ReferenceSpan
  | plain text => plain text
  | id name =>
    match map (String.ofList name) with
    | some new => id new.toList
    | none => id name

end ReferenceSpan

namespace Reference

/-- The ids of all local references of a text, in order. -/
def idsIn (s : String) : List String :=
  (ReferenceSpan.cut s.toList).filterMap ReferenceSpan.name?

/-- The text with the ids of its local references exchanged, or nothing when the
map knows none of them. -/
def renameIn? (map : String → Option String) (s : String) : Option String :=
  if (idsIn s).any fun id => (map id).isSome then
    some (String.ofList
      (ReferenceSpan.join ((ReferenceSpan.cut s.toList).map (ReferenceSpan.rename map))))
  else Option.none

end Reference

end SlimSvg
