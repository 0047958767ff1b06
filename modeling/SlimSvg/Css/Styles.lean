import SlimSvg.Css.Matching
import SlimSvg.Css.Sheet

namespace SlimSvg
namespace Css

/-!
# The style sheets of a document

Every style element holds one sheet.  What is asked most often of the sheets,
the rules in the order of their weight and the names that they mention, is kept
beside them, and every change of the sheets computes it again.
-/

/-- A style element with its rules. -/
structure Sheet where
  element : NodeId
  sets : List RuleSet
deriving Repr

/-- The parts of the language that some sheets use. -/
structure Features where
  atRules : Bool
  attributeTests : Bool
  combinators : Bool
  pseudos : Bool
  simpleSelectors : Bool
deriving DecidableEq, Repr

/-- What is derived from sheets. -/
structure Derived where
  /-- The rules by ascending weight; equal weights keep the order of the sheets. -/
  sorted : List Rule
  classes : List String
  ids : List String
  attributeNames : List String
  /-- The ids that declarations refer to. -/
  referencedIds : List String
  features : Features
deriving Repr

namespace Derived

/-- The rules of sheets in the order in which they are written. -/
def rules (sheets : List Sheet) : List Rule :=
  (sheets.flatMap (·.sets)).flatMap (·.rules)

/-- Whether a set stands in a block, has a media query or loads fonts. -/
def usesAtRule (s : RuleSet) : Bool :=
  s.isBlock || s.media.isSome || !s.fontFaces.isEmpty

def ofSheets (sheets : List Sheet) : Derived :=
  let all := rules sheets
  let tests := all.flatMap (·.selector.allTests)
  let attributeNames := tests.filterMap fun
    | .attributeTest t => some t.name
    | _ => none
  { sorted := all.mergeSort fun a b => a.specificity.le b.specificity
    classes := (tests.filterMap fun
      | .className n => some n
      | _ => none).eraseDups
    ids := (tests.filterMap fun
      | .idName n => some n
      | _ => none).eraseDups
    attributeNames := attributeNames.eraseDups
    referencedIds :=
      (all.flatMap fun r =>
        r.declarations.items.flatMap fun (_, d) => Reference.idsIn d.value).eraseDups
    features :=
      { atRules := (sheets.flatMap (·.sets)).any usesAtRule
        attributeTests := !attributeNames.isEmpty
        combinators := all.any (·.selector.hasCombinators)
        pseudos := all.any (·.hasPseudos)
        simpleSelectors := all.any (·.selector.isSimple) } }

end Derived

/-- Sheets in document order with what is derived from them. -/
structure Styles where
  sheets : List Sheet
  derived : Derived
  derived_eq : derived = .ofSheets sheets
deriving Repr

namespace Styles

def ofSheets (sheets : List Sheet) : Styles :=
  ⟨sheets, .ofSheets sheets, rfl⟩

/-! ## Collecting the sheets -/

/-- Whether an element holds a style sheet in a language that is understood. -/
def isStyleElement (e : Element) : Bool :=
  e.hasName "style" &&
    match (e.attributeText? "type").map Text.trim with
    | none | some "" | some "text/css" => true
    | _ => false

/-- The sheet of a style element. -/
def sheetOf (doc : Document) (node : NodeId) (e : Element) : Except CssError Sheet := do
  if (doc.children node).any doc.isElement then throw .invalidContent
  let sets ← readSheet (doc.textContent node) (e.attributeText? "media")
  return ⟨node, sets⟩

/-- The first id of a list that was there before. -/
def firstRepeated? : (seen : List String) → List String → Option String
  | _, [] => none
  | seen, id :: rest => if seen.contains id then some id else firstRepeated? (id :: seen) rest

/-- The sheets of a document.  If ids are selected, they must be unique. -/
def ofDocument (doc : Document) : Except CssError Styles := do
  let elements := doc.elements.filterMap fun n => (doc.element? n).map fun e => (n, e)
  let sheets ← (elements.filter fun (_, e) => isStyleElement e).mapM fun (n, e) => sheetOf doc n e
  let styles := ofSheets sheets
  if !styles.derived.ids.isEmpty then
    if let some id := firstRepeated? [] (elements.filterMap fun (_, e) => e.id?) then
      throw (.duplicateId id)
  return styles

/-! ## Questions -/

def hasStyles (s : Styles) : Bool :=
  !s.sheets.isEmpty

/-- The style elements in document order. -/
def elements (s : Styles) : List NodeId :=
  s.sheets.map (·.element)

/-- The rules that select a node, by ascending weight. -/
def matchingRules (s : Styles) (doc : Document) (node : NodeId) : List Rule :=
  s.derived.sorted.filter fun r => r.selector.selects doc node

/-- Whether an attribute is tested, or any attribute if none is named. -/
def testsAttribute (s : Styles) (name : Option String) : Bool :=
  match name with
  | some n => s.derived.attributeNames.contains n
  | none => s.derived.features.attributeTests

def hasClass (s : Styles) (name : String) : Bool :=
  s.derived.classes.contains name

def hasId (s : Styles) (id : String) : Bool :=
  s.derived.ids.contains id

end Styles

end Css
end SlimSvg
