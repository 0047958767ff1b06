import SlimSvg.Text.LowerCase
import SlimSvg.Text.Search

namespace SlimSvg
namespace Css

/-!
# Pieces of style sheets

Names, balanced texts and blocks at the front of a text.  A quoted text counts
as one piece wherever it stands, and a backslash takes the meaning from the
character behind it.
-/

/-! ## Style sheets that are refused

A style sheet outside of the supported part of the language is refused as a
whole, because a rule that is not understood could override one that is.
-/

inductive CssError where
  /-- Rules or media queries inside of each other. -/
  | nesting
  | unsupportedAtRule (name : String)
  | invalidSelector (text : String)
  /-- The sheet ends inside of a block. -/
  | endOfSheet
  /-- A closing brace without an opening one. -/
  | unbalanced
  /-- Two elements have the id that a selector names. -/
  | duplicateId (id : String)
  /-- A style element has other content than text. -/
  | invalidContent
deriving DecidableEq, Repr

namespace CssError

def message : CssError → String
  | nesting => "nested CSS rules are not supported"
  | unsupportedAtRule name => "unsupported at-rule '@" ++ name ++ "'"
  | invalidSelector text => "invalid selector '" ++ text ++ "'"
  | endOfSheet => "unexpected end of stylesheet"
  | unbalanced => "unbalanced braces"
  | duplicateId id => "duplicated element id '" ++ id ++ "'"
  | invalidContent => "a style element must contain only text"

end CssError

def isQuote (c : Char) : Bool :=
  c == '\'' || c == '"'

/-- Whether a character may stand in a name. -/
def isNameChar (c : Char) : Bool :=
  c.isAlphanum || c == '-' || c == '_' || 0x80 ≤ c.toNat

/-- Whether a character stands for a combinator. -/
def isCombinator (c : Char) : Bool :=
  c == '>' || c == '+' || c == '~'

/-- The text without blanks at its front. -/
def skipSpaces (cs : List Char) : List Char :=
  cs.dropWhile Text.isCssSpace

/-! ## Names -/

/-- The longest name at the front of a text, as it is written, and what follows
it. -/
def spanName : List Char → List Char × List Char
  | '\\' :: c :: rest =>
    let (name, rest) := spanName rest
    ('\\' :: c :: name, rest)
  | c :: rest =>
    if isNameChar c then
      let (name, rest) := spanName rest
      (c :: name, rest)
    else ([], c :: rest)
  | [] => ([], [])

/-- A written name without its backslashes. -/
def unescape : List Char → List Char
  | '\\' :: c :: rest => c :: unescape rest
  | ['\\'] => []
  | c :: rest => c :: unescape rest
  | [] => []

/-! ## Quoted texts -/

/-- What stands before a closing quotation mark, and what follows the mark. -/
def spanQuoted? (quote : Char) : List Char → Option (List Char × List Char)
  | [] => none
  | '\\' :: c :: rest =>
    (spanQuoted? quote rest).map fun (inner, rest) => ('\\' :: c :: inner, rest)
  | c :: rest =>
    if c == quote then some ([], rest)
    else (spanQuoted? quote rest).map fun (inner, rest) => (c :: inner, rest)

/-! ## Balanced texts -/

/-- The text before a character outside of brackets and quotation marks, and the
text from it on. -/
def spanBalanced? (stop : Char) :
    (depth : Nat) → (quote : Option Char) → List Char → Option (List Char × List Char)
  | _, _, [] => none
  | depth, some q, '\\' :: c :: rest =>
    (spanBalanced? stop depth (some q) rest).map fun (inner, rest) => ('\\' :: c :: inner, rest)
  | depth, some q, c :: rest =>
    (spanBalanced? stop depth (if c == q then none else some q) rest).map
      fun (inner, rest) => (c :: inner, rest)
  | depth, none, c :: rest =>
    let go (depth : Nat) (quote : Option Char) : Option (List Char × List Char) :=
      (spanBalanced? stop depth quote rest).map fun (inner, rest) => (c :: inner, rest)
    if isQuote c then go depth (some c)
    else if c == '(' || c == '[' then go (depth + 1) none
    else if (c == ')' || c == ']') && 0 < depth then go (depth - 1) none
    else if c == stop && depth == 0 then some ([], c :: rest)
    else go depth none

/-- The text before a character outside of brackets and quotation marks, and the
text behind it. -/
def spanBefore? (stop : Char) (cs : List Char) : Option (List Char × List Char) :=
  (spanBalanced? stop 0 none cs).map fun (inner, rest) => (inner, rest.drop 1)

/-- What stands before the brace that closes a block, and what follows it. -/
def spanBlock? : (depth : Nat) → (quote : Option Char) → List Char →
    Option (List Char × List Char)
  | _, _, [] => none
  | depth, some q, '\\' :: c :: rest =>
    (spanBlock? depth (some q) rest).map fun (inner, rest) => ('\\' :: c :: inner, rest)
  | depth, some q, c :: rest =>
    (spanBlock? depth (if c == q then none else some q) rest).map
      fun (inner, rest) => (c :: inner, rest)
  | depth, none, c :: rest =>
    let go (depth : Nat) (quote : Option Char) : Option (List Char × List Char) :=
      (spanBlock? depth quote rest).map fun (inner, rest) => (c :: inner, rest)
    if isQuote c then go depth (some c)
    else if c == '\x7b' then go (depth + 1) none
    else if c == '\x7d' then
      if depth == 0 then some ([], rest) else go (depth - 1) none
    else go depth none

/-- A result that the end of the sheet must not prevent. -/
def orEnd {α : Type} (result : Option α) : Except CssError α :=
  match result with
  | some a => .ok a
  | none => .error .endOfSheet

/-! ## Comments -/

/-- The text without comments, and without the marks that hide a sheet from
readers that do not know it.  Quoted texts are kept. -/
def stripComments (quote : Option Char) (cs : List Char) : List Char :=
  match quote, cs with
  | _, [] => []
  | some q, '\\' :: c :: rest => '\\' :: c :: stripComments (some q) rest
  | some q, c :: rest => c :: stripComments (if c == q then none else some q) rest
  | none, '/' :: '*' :: rest =>
    match _end : Text.cut? ['*', '/'] rest with
    | some (_, after) => stripComments none after
    | none => []
  | none, '<' :: '!' :: '-' :: '-' :: rest => stripComments none rest
  | none, '-' :: '-' :: '>' :: rest => stripComments none rest
  | none, c :: rest => c :: stripComments (if isQuote c then some c else none) rest
termination_by cs.length
decreasing_by
  all_goals simp only [List.length_cons]
  all_goals try omega
  have := congrArg List.length (Text.eq_append_of_cut? _end)
  simp only [List.length_append] at this
  omega

end Css
end SlimSvg
