import SlimSvg.Tree.Branch

namespace SlimSvg
namespace Prologue

/-!
# The start of a document

The XML declaration and the document type declaration are no nodes of the parsed
markup.  They are found again in the text before the root element, as they were
written there.
-/

/-- A text without the mark of its byte order. -/
def dropByteOrderMark : List Char → List Char
  | '\uFEFF' :: rest => rest
  | cs => cs

/-- The XML declaration at the front of a text. -/
def declaration? (text : List Char) : Option NodeContent := do
  let rest ← "<?xml".toList.isPrefixOf? (dropByteOrderMark text)
  let next ← rest.head?
  if Text.isCssSpace next then
    let (value, _) ← Text.cut? ['?', '>'] rest
    some (.instruction "xml" (String.ofList (Text.trimChars value)))
  else none

/-- The text before the sign that ends a document type declaration, given how
many brackets and which quotation mark are open. -/
def untilEnd? : (depth : Int) → (quote : Option Char) → List Char → Option (List Char)
  | _, _, [] => none
  | depth, some q, c :: rest =>
    (untilEnd? depth (if c == q then none else some q) rest).map (c :: ·)
  | depth, none, c :: rest =>
    if c == '>' && depth == 0 then some []
    else
      let depth := if c == '[' then depth + 1 else if c == ']' then depth - 1 else depth
      let quote := if c == '"' || c == '\'' then some c else none
      (untilEnd? depth quote rest).map (c :: ·)

/-- The first document type declaration of a text with its place. -/
def doctype? (text : List Char) : Option (Nat × NodeContent) := do
  let (before, rest) ← Text.cut? "<!DOCTYPE".toList text
  let body ← untilEnd? 0 none rest
  some (before.length, .doctype (String.ofList (Text.trimChars body)))

end Prologue
end SlimSvg
