import SlimSvg.Text.Search

namespace SlimSvg

/-!
# Values that are read on demand

A value keeps the text it came from and is parsed only when somebody asks what
the text means.  Three cells hold what is known so far: the current text, the
result of reading it, and the shortest text.  The pure observers `text`,
`parsed` and `minified` say what a value answers; the operations whose names
begin with `remember` answer and also fill the cells.  Separating the two makes
it a statement of its own that filling a cell early changes no answer.
-/

/-- How values of a type are written in attributes.  `read?` fails on a text
whose value the type cannot hold without loss. -/
class TextForm (α : Type) where
  read? : String → Option α
  write : α → String

/-- A value with its three cells: text, reading and shortest text. -/
structure Cached (α : Type) where
  source : Option String
  reading : Option (Option α)
  shortest : Option String
deriving Repr, Inhabited

namespace Cached

variable {α : Type}

/-- A value known by its text only. -/
def ofText (text : String) : Cached α :=
  ⟨some text, none, none⟩

/-- A value without a text of its own. -/
def ofParsed (value : α) : Cached α :=
  ⟨none, some (some value), none⟩

variable [TextForm α]

/-! ## What a value answers -/

/-- What the text means, unless it cannot be read. -/
def parsed (v : Cached α) : Option α :=
  v.reading.getD (v.source.bind TextForm.read?)

/-- The shortest text for a reading and a text: what is written for the reading,
unless the trimmed text is shorter; an unreadable text is only trimmed. -/
def shortestText (value : Option α) (source : Option String) : String :=
  match value, source with
  | some a, some given =>
    let written := TextForm.write a
    let trimmed := Text.trim given
    if Text.size written ≤ Text.size trimmed then written else trimmed
  | some a, none => TextForm.write a
  | none, some given => Text.trim given
  | none, none => ""

/-- The shortest text of the value. -/
def minified (v : Cached α) : String :=
  v.shortest.getD (shortestText v.parsed v.source)

/-- The text of the value; a value without one is written in its shortest form. -/
def text (v : Cached α) : String :=
  v.source.getD v.minified

/-! ## Filling the cells -/

/-- Answer `parsed` and keep the answer. -/
def rememberParsed (v : Cached α) : Option α × Cached α :=
  (v.parsed, { v with reading := some v.parsed })

/-- Answer `minified` and keep the answer. -/
def rememberMinified (v : Cached α) : String × Cached α :=
  match v.shortest with
  | some text => (text, v)
  | none => (v.minified, { v.rememberParsed.2 with shortest := some v.minified })

/-- Answer `text` and keep the answer. -/
def rememberText (v : Cached α) : String × Cached α :=
  match v.source with
  | some text => (text, v)
  | none => (v.text, { v.rememberMinified.2 with source := some v.text })

/-! ## Edits -/

/-- Make the shortest text the text of the value. -/
def minify (v : Cached α) : Cached α :=
  { v.rememberMinified.2 with source := some v.minified }

/-- Change what the value means.  The texts are dropped, because they no longer
say it; a value that cannot be read stays as it is. -/
def edit (f : α → α) (v : Cached α) : Cached α :=
  match v.parsed with
  | some a => ofParsed (f a)
  | none => v.rememberParsed.2

end Cached

end SlimSvg
