import SlimSvg.Css.StyleEdits
import SlimSvg.Plugin.Basic
import SlimSvg.Cleanup.ShortName

namespace SlimSvg
namespace Cleanup

/-!
# Classes that no sheet mentions, and long classes

A class means nothing without a selector that asks for it.  As with ids, a plan
is made from the names alone and carried out in elements and sheets at once.
-/

/-- What the user wants to become of classes. -/
structure ClassPolicy where
  preserve : List String
  /-- Take away classes that no selector asks for. -/
  removeUnused : Bool
deriving Repr

namespace ClassPolicy

def ofParameters (p : Parameters) : ClassPolicy where
  preserve := p.list "preserve"
  removeUnused := p.truth "removeUnused" true

end ClassPolicy

/-- What becomes of classes. -/
structure ClassPlan where
  /-- The classes that elements keep, under their old names. -/
  kept : List String
  renamed : List (String × String)
deriving DecidableEq, Repr

namespace ClassPlan

/-- Plan for the classes that selectors ask for and those that elements have, the
latter in the order in which they are met.  Classes with both get short names. -/
def make (policy : ClassPolicy) (selected carried : List String) : ClassPlan :=
  let matters (c : String) : Bool := selected.contains c || policy.preserve.contains c
  let long := carried.filter fun c => selected.contains c && !policy.preserve.contains c
  let unused := if policy.removeUnused then [] else carried.filter (!matters ·)
  let taken := (selected ++ policy.preserve).filter (!long.contains ·) ++ unused
  { kept := carried.filter fun c => matters c || !policy.removeUnused
    renamed := ShortName.assign taken 0 long }

def newName? (plan : ClassPlan) (name : String) : Option String :=
  plan.renamed.lookup name

/-- The classes of an element after the plan. -/
def newClasses (plan : ClassPlan) (classes : List String) : List String :=
  (classes.filter plan.kept.contains).map fun c => (plan.newName? c).getD c

def editElement (plan : ClassPlan) (e : Element) : Element :=
  if !e.hasAttribute "class" then e
  else
    match plan.newClasses e.classes with
    | [] => e.removeAttribute "class"
    | classes => e.setAttribute "class" (" ".intercalate classes)

def apply (plan : ClassPlan) (styles : Css.Styles) (doc : Document) : Css.Styles × Document :=
  let doc := doc.mapElements plan.editElement
  if plan.renamed.isEmpty then (styles, doc)
  else (styles.renameClasses plan.newName?).writeBack doc

end ClassPlan

/-! ## The plugin -/

/-- The classes of a document in the order in which they are met. -/
def carriedClasses (doc : Document) : List String :=
  ((doc.elements.filterMap doc.element?).flatMap (·.classes)).eraseDups

/-- A selector may test the text of a class list. -/
def minifyClassNames : Plugin where
  name := "minifyClassNames"
  prepare situation p := do
    let styles ← situation.summary.reliableStyles?
    if styles.testsAttribute (some "class") then none
    else
      some (.withStyles fun doc =>
        let plan := ClassPlan.make (.ofParameters p) styles.derived.classes (carriedClasses doc)
        plan.apply styles doc)

end Cleanup
end SlimSvg
