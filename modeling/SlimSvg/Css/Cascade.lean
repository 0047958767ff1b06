import SlimSvg.Css.Computed
import SlimSvg.Css.Styles

namespace SlimSvg
namespace Css

/-!
# The cascade

The value of a property comes from an attribute, from a rule or from the style
attribute of an element.  The candidates are applied in the order of their
weight, and a later one replaces an earlier one; a property that an important
declaration has set changes only by another important one.
-/

/-- A style on the way, with the names that important declarations have set. -/
structure CascadeState where
  style : ComputedStyle
  important : List String
deriving Repr

namespace CascadeState

/-- Apply a declaration of a rule to the value that it stands for. -/
def apply (value : String → String → ComputedValue) (state : CascadeState)
    (item : String × Declaration) : CascadeState :=
  let (name, d) := item
  if !d.important && state.important.contains name then state
  else
    { style := state.style.set name (value name d.value)
      important := if d.important then name :: state.important else state.important }

end CascadeState

namespace Styles

/-- The value of a declaration in a rule for an element.  In a rule a geometry
property counts only for readers of the second version of SVG. -/
def ruleValue (element : String) (r : Rule) (name text : String) : ComputedValue :=
  if r.isDynamic || Vocabulary.isGeometry element name then .dynamic else .ofText text

/-- Apply the rules that select a node. -/
def applyRules (s : Styles) (doc : Document) (node : NodeId) (start : ComputedStyle) :
    CascadeState :=
  match doc.element? node with
  | none => ⟨start, []⟩
  | some e =>
    (s.matchingRules doc node).foldl
      (fun state r => r.declarations.items.foldl (CascadeState.apply (ruleValue e.name r)) state)
      ⟨start, []⟩

/-- The attributes that are properties too. -/
def attributeStyle (e : Element) : ComputedStyle :=
  e.attributes.items.foldl
    (fun style a =>
      if Vocabulary.isPresentation a.name || Vocabulary.isGeometry e.name a.name then
        style.set a.name (.ofText a.value.text)
      else style)
    .empty

/-- Apply the declarations of a style attribute; all of them weigh more than the
rules, but not more than important rules. -/
def applyInline (state : CascadeState) (inline : Declarations) : ComputedStyle :=
  inline.items.foldl
    (fun style (name, d) =>
      if !d.important && state.important.contains name then style
      else style.set name (.ofText d.value))
    state.style

/-- What is set on an element itself, given its style attribute. -/
def ownStyleWith (s : Styles) (doc : Document) (node : NodeId) (inline : Option Declarations) :
    ComputedStyle :=
  match doc.element? node with
  | none => .empty
  | some e =>
    let state := s.applyRules doc node (attributeStyle e)
    match inline with
    | some block => applyInline state block
    | none => state.style

/-- What is set on an element itself. -/
def ownStyle (s : Styles) (doc : Document) (node : NodeId) : ComputedStyle :=
  let inline := ((doc.element? node).bind (·.attribute? "style")).bind (·.declarations?)
  s.ownStyleWith doc node inline

/-- What rules alone set on an element. -/
def ruleStyle (s : Styles) (doc : Document) (node : NodeId) : ComputedStyle :=
  (s.applyRules doc node .empty).style

/-! ## Inheritance with a memory -/

/-- The styles that were computed before.  They are not forgotten by themselves
when the document changes. -/
abbrev Memo := List (NodeId × ComputedStyle)

/-- The style of the first of some nodes, each of which inherits from the next. -/
def chainStyle (s : Styles) (doc : Document) : List NodeId → Memo → ComputedStyle × Memo
  | [], memo => (.empty, memo)
  | node :: outer, memo =>
    match memo.lookup node with
    | some style => (style, memo)
    | none =>
      let (parent, memo) := chainStyle s doc outer memo
      let style := (s.ownStyle doc node).inheritFrom parent
      (style, (node, style) :: memo)

/-- The style of a node with what it inherits. -/
def computedStyle (s : Styles) (doc : Document) (node : NodeId) (memo : Memo) :
    ComputedStyle × Memo :=
  let (parent, memo) := s.chainStyle doc (doc.elementAncestors node) memo
  ((s.ownStyle doc node).inheritFrom parent, memo)

/-- What children of the last of some ancestors inherit. -/
def parentStyle (s : Styles) (doc : Document) (ancestors : List NodeId) (memo : Memo) :
    ComputedStyle × Memo :=
  match ancestors.getLast? with
  | some parent => s.chainStyle doc (parent :: doc.elementAncestors parent) memo
  | none => (.empty, memo)

end Styles

end Css
end SlimSvg
