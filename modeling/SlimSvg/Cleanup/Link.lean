import SlimSvg.Tree.Navigation

namespace SlimSvg
namespace Cleanup

/-!
# Links from elements to ids

An element refers to others by `url(#id)` in any typed attribute and by `#id`
in `href`, of the newer or the older form.
-/

namespace Link

/-- The id in a link to an element of the same document. -/
def localId? (text : String) : Option String := do
  let id ← ['#'].isPrefixOf? (Text.trimChars text.toList)
  if id.isEmpty then none else some (String.ofList id)

/-- The ids in a typed attribute. -/
def idsInAttribute (a : Attribute) : List String :=
  let link := if a.name == "href" then (localId? a.value.text).toList else []
  link ++ Reference.idsIn a.value.text

/-- The id in an attribute from another namespace. -/
def idsInForeign (a : ForeignAttribute) : List String :=
  if Element.isXlinkHref a then (localId? a.value).toList else []

/-- The ids that an element refers to. -/
def ids (e : Element) : List String :=
  e.attributes.items.flatMap idsInAttribute ++ e.foreign.flatMap idsInForeign

/-- The ids that the elements of a document refer to. -/
def idsOf (doc : Document) : List String :=
  (doc.elements.filterMap doc.element?).flatMap ids

/-! ## Renaming -/

/-- A link text with the new name of its id, if the id is renamed. -/
def renameLink? (map : String → Option String) (text : String) : Option String := do
  let id ← localId? text
  let newId ← map id
  some ("#" ++ newId)

/-- A typed attribute with the new names.  In a `href` only the link counts. -/
def renameInAttribute (map : String → Option String) (element : String) (a : Attribute) :
    Attribute :=
  let newText :=
    if a.name == "href" then renameLink? map a.value.text
    else Reference.renameIn? map a.value.text
  match newText with
  | some text => { a with value := .ofAttribute element a.name text }
  | none => a

def renameInForeign (map : String → Option String) (a : ForeignAttribute) : ForeignAttribute :=
  if Element.isXlinkHref a then
    match renameLink? map a.value with
    | some text => { a with value := text }
    | none => a
  else a

/-- Exchange the ids that a map knows in the links of an element. -/
def rename (map : String → Option String) (e : Element) : Element :=
  { e with
    attributes := ⟨e.attributes.items.map (renameInAttribute map e.name)⟩
    foreign := e.foreign.map (renameInForeign map) }

end Link

/-! ## Elements that are drawn in other places too

A `use` element draws a copy of another element, and the copy inherits from the
`use` element instead of from the parent of what is copied.  What an element
seems to inherit is therefore not all that it can inherit.
-/

/-- Whether an element can be the target of a `use` element. -/
def isReuseTarget (e : Element) : Bool :=
  e.id?.isSome || e.hasName "symbol"

/-- Whether an element with some ancestors, the outermost one first, can be part
of a copy.  A copy of the root would hold the `use` element itself. -/
def isReusable (doc : Document) (ancestors : List NodeId) : Bool :=
  (ancestors.drop 1).any fun node => (doc.element? node).any isReuseTarget

end Cleanup
end SlimSvg
