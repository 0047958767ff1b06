import SlimSvg.Css.StyleEdits
import SlimSvg.Plugin.Basic
import SlimSvg.Cleanup.Link
import SlimSvg.Cleanup.ShortName

namespace SlimSvg
namespace Cleanup

/-!
# Ids that nothing refers to, and long ids

What becomes of an id depends on nothing but the ids of the elements, the links
between them and the names in style sheets.  That is counted first, a plan is
made from the count, and the plan is carried out in all places at once.

An id that several elements have is left alone, for it is not said which of them
is meant.  A name to which a link leads without an element at its end is never
given to another element, because the link would then lead to it.
-/

/-- What the user wants to become of ids. -/
structure IdPolicy where
  /-- Take away ids that nothing refers to. -/
  remove : Bool
  /-- Exchange the others for short names. -/
  shorten : Bool
  preserve : List String
  preserveStarts : List String
deriving Repr

namespace IdPolicy

def ofParameters (p : Parameters) : IdPolicy where
  remove := p.truth "remove" true
  shorten := p.truth "minify" true
  preserve := p.list "preserve"
  preserveStarts := p.list "preservePrefixes"

/-- Whether the user wants an id to stay. -/
def preserves (policy : IdPolicy) (id : String) : Bool :=
  policy.preserve.contains id || policy.preserveStarts.any fun start => Text.startsWith id start

end IdPolicy

/-- The ids of a document and what refers to them. -/
structure IdCensus where
  /-- The id of every element that has one, in document order. -/
  carried : List String
  /-- The ids in links between elements. -/
  linked : List String
  /-- The ids in declarations of style sheets. -/
  declared : List String
  /-- The ids in selectors. -/
  selected : List String
deriving Repr

namespace IdCensus

def ofDocument (styles : Css.Styles) (doc : Document) : IdCensus where
  carried := (doc.elements.filterMap doc.element?).filterMap (·.id?)
  linked := Link.idsOf doc
  declared := styles.derived.referencedIds
  selected := styles.derived.ids

def references (census : IdCensus) : List String :=
  census.linked ++ census.declared ++ census.selected

def isReferenced (census : IdCensus) (id : String) : Bool :=
  census.linked.contains id || census.declared.contains id || census.selected.contains id

/-- Whether more than one element has an id. -/
def isRepeated (census : IdCensus) (id : String) : Bool :=
  census.carried.count id > 1

def warnings (census : IdCensus) : List Warning :=
  (census.carried.eraseDups.filter census.isRepeated).map fun id =>
    .repeatedId id (census.carried.count id)

/-- Whether an id stays because the user wants it or because it is repeated. -/
def isFixed (census : IdCensus) (policy : IdPolicy) (id : String) : Bool :=
  policy.preserves id || census.isRepeated id

/-- Whether an id that elements have keeps its name for sure. -/
def isKept (census : IdCensus) (policy : IdPolicy) (id : String) : Bool :=
  census.isFixed policy id
    || (census.isReferenced id && !policy.shorten)
    || (!census.isReferenced id && !policy.remove)

/-- The names that must not be given: those of links that lead nowhere, and those
that stay. -/
def takenNames (census : IdCensus) (policy : IdPolicy) : List String :=
  census.references.filter (!census.carried.contains ·)
    ++ census.carried.filter (census.isKept policy)

end IdCensus

/-- What becomes of ids.  Ids that are not mentioned stay. -/
structure IdPlan where
  removed : List String
  renamed : List (String × String)
deriving DecidableEq, Repr

namespace IdPlan

/-- Ids that nothing refers to go; the others get short names in document order. -/
def make (policy : IdPolicy) (census : IdCensus) : IdPlan :=
  let loose := census.carried.filter (!census.isFixed policy ·)
  let short :=
    if policy.shorten then
      ShortName.assign (census.takenNames policy) 0 (loose.filter census.isReferenced)
    else []
  { removed := if policy.remove then loose.filter (!census.isReferenced ·) else []
    renamed := short.filter fun (old, new) => new != old }

def newName? (plan : IdPlan) (id : String) : Option String :=
  plan.renamed.lookup id

/-- The new id of an element, which may be none. -/
def newId? (plan : IdPlan) (id : String) : Option String :=
  if plan.removed.contains id then none else some ((plan.newName? id).getD id)

def editElement (plan : IdPlan) (e : Element) : Element :=
  match e.id? with
  | none => e
  | some id =>
    match plan.newId? id with
    | none => e.removeAttribute "id"
    | some new => if new == id then e else e.setAttribute "id" new

/-- Carry out a plan in the elements, their links and the style sheets. -/
def apply (plan : IdPlan) (styles : Css.Styles) (doc : Document) : Css.Styles × Document :=
  let doc := doc.mapElements plan.editElement
  if plan.renamed.isEmpty then (styles, doc)
  else (styles.renameIds plan.newName?).writeBack (doc.mapElements (Link.rename plan.newName?))

end IdPlan

/-! ## The plugin -/

/-- Whether a document has nothing but definitions, which are for use from
outside. -/
def isSpriteSheet (doc : Document) : Bool :=
  match doc.rootElement? with
  | none => false
  | some root =>
    let children := (doc.children root).filter doc.isElement
    !children.isEmpty && children.all fun node => doc.hasName node "defs"

def cleanIds (policy : IdPolicy) (styles : Css.Styles) : DocumentEdit := fun doc =>
  if isSpriteSheet doc then .ok { document := doc }
  else
    let census := IdCensus.ofDocument styles doc
    let (styles, edited) := (IdPlan.make policy census).apply styles doc
    .ok { document := edited, newStyles := some styles, warnings := census.warnings }

/-- Animations refer to ids in ways that are not followed, and a selector may
test the text of an id. -/
def cleanupIds : Plugin where
  name := "cleanupIds"
  prepare situation p := do
    let styles ← situation.summary.stillStyles?
    if styles.testsAttribute (some "id") then none
    else some (cleanIds (.ofParameters p) styles)

end Cleanup
end SlimSvg
