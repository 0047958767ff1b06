import SlimSvg.Css.Selector
import SlimSvg.Tree.Navigation

namespace SlimSvg
namespace Css

/-!
# Matching

Whether an element is selected.  The compounds are tried from the last one to
the first; at each step every element that stands in the relation asked for is
tried.  Pseudo-classes and pseudo-elements may come true at some time, so they
count as true.
-/

/-- Whether an element passes a test. -/
def SimpleSelector.accepts (test : SimpleSelector) (e : Element) : Bool :=
  match test with
  | .universal => true
  | .typeName name => e.name == name
  | .className name => e.hasClass name
  | .idName id => e.id? == some id
  | .attributeTest t =>
    match e.anyAttribute? t.name with
    | some text => t.accepts text
    | none => false
  | .pseudoClass _ _ | .pseudoElement _ _ => true

/-- Whether a node is an element that passes the tests of a compound. -/
def Compound.accepts (c : Compound) (doc : Document) (node : NodeId) : Bool :=
  match doc.element? node with
  | some e => c.tests.all (·.accepts e)
  | none => false

/-- The elements that stand in a relation to a node, the nearest one first. -/
def Combinator.related (c : Combinator) (doc : Document) (node : NodeId) : List NodeId :=
  match c with
  | .descendant => doc.elementAncestors node
  | .child => (doc.parentElement? node).toList
  | .adjacent => (doc.previousElement? node).toList
  | .sibling => doc.previousElements node

/-- Whether compounds, the last one first, lead to a node. -/
def leadTo (doc : Document) : List Compound → NodeId → Bool
  | [], _ => true
  | c :: outer, node =>
    c.accepts doc node &&
      (outer.isEmpty ||
        ((c.combinator.getD .descendant).related doc node).any (leadTo doc outer))

/-- Whether a selector selects a node. -/
def Selector.selects (s : Selector) (doc : Document) (node : NodeId) : Bool :=
  if s.isSimple then
    match s.compounds with
    | c :: _ => c.accepts doc node
    | [] => false
  else doc.isElement node && leadTo doc s.compounds.reverse node

end Css
end SlimSvg
