import SlimSvg.Css.Scan
import SlimSvg.Text.LowerCase
import SlimSvg.Text.Search

namespace SlimSvg
namespace Css

/-!
# Selectors

A selector is a line of compounds, each with the relation in which it stands to
the one before it.  A compound is a list of tests on one element.  Some
pseudo-classes hold selectors again, so the types refer to each other.
-/

/-! ## Specificity -/

/-- The weight of a selector: ids first, then classes and their like, then types. -/
structure Specificity where
  ids : Nat
  classes : Nat
  types : Nat
deriving DecidableEq, Repr

namespace Specificity

def zero : Specificity := ⟨0, 0, 0⟩

def add (a b : Specificity) : Specificity :=
  ⟨a.ids + b.ids, a.classes + b.classes, a.types + b.types⟩

/-- Whether a weight is at most another one. -/
def le (a b : Specificity) : Bool :=
  if a.ids != b.ids then a.ids ≤ b.ids
  else if a.classes != b.classes then a.classes ≤ b.classes
  else a.types ≤ b.types

def max (a b : Specificity) : Specificity :=
  if a.le b then b else a

end Specificity

/-! ## Attribute tests -/

/-- How an attribute is compared. -/
inductive AttributeOperator where
  | present
  | equals
  | includes
  | dashMatch
  | startsWith
  | endsWith
  | contains
deriving DecidableEq, Repr

namespace AttributeOperator

def symbol : AttributeOperator → String
  | present => ""
  | equals => "="
  | includes => "~="
  | dashMatch => "|="
  | startsWith => "^="
  | endsWith => "$="
  | contains => "*="

end AttributeOperator

/-- A test on an attribute. -/
structure AttributeTest where
  name : String
  operator : AttributeOperator
  value : String
  ignoresCase : Bool
deriving DecidableEq, Repr

namespace AttributeTest

/-- Whether the text of an attribute passes the test. -/
def accepts (t : AttributeTest) (text : String) : Bool :=
  let actual := if t.ignoresCase then Text.toLower text else text
  let wanted := if t.ignoresCase then Text.toLower t.value else t.value
  match t.operator with
  | .present => true
  | .equals => actual == wanted
  | .includes => (Text.words actual).contains wanted
  | .dashMatch => actual == wanted || Text.startsWith actual (wanted ++ "-")
  | .startsWith => wanted != "" && Text.startsWith actual wanted
  | .endsWith => wanted != "" && Text.endsWith actual wanted
  | .contains => wanted != "" && Text.contains actual wanted

end AttributeTest

/-! ## The types -/

/-- The relation between an element and the one that the compound before it
describes. -/
inductive Combinator where
  | descendant
  | child
  | adjacent
  | sibling
deriving DecidableEq, Repr

namespace Combinator

def symbol : Combinator → String
  | descendant => " "
  | child => ">"
  | adjacent => "+"
  | sibling => "~"

end Combinator

mutual

/-- A test on one element. -/
inductive SimpleSelector where
  | universal
  | typeName (name : String)
  | className (name : String)
  | idName (name : String)
  | attributeTest (test : AttributeTest)
  | pseudoClass (name : String) (args : PseudoArguments)
  | pseudoElement (name : String) (args : PseudoArguments)
deriving Repr

/-- What stands between the parentheses behind a pseudo-class. -/
inductive PseudoArguments where
  | none
  | selectors (list : List Selector)
  | raw (text : String)
deriving Repr

/-- Tests on one element, and its relation to the one before. -/
structure Compound where
  combinator : Option Combinator
  tests : List SimpleSelector
deriving Repr

/-- A line of compounds.  `isSimple` is known from reading: there is one
compound, and it tests only type, classes and id. -/
structure Selector where
  compounds : List Compound
  isSimple : Bool
deriving Repr

end

namespace SimpleSelector

/-- Whether the test looks only at the type, the classes and the id. -/
def isPlain : SimpleSelector → Bool
  | universal | typeName _ | className _ | idName _ => true
  | _ => false

/-- Whether the test depends on more than the document. -/
def isPseudo : SimpleSelector → Bool
  | pseudoClass _ _ | pseudoElement _ _ => true
  | _ => false

end SimpleSelector

/-- Whether some compounds are a simple selector. -/
def areSimple : List Compound → Bool
  | [c] => c.combinator.isNone && c.tests.all SimpleSelector.isPlain
  | _ => false

/-- The selector of some compounds. -/
def Selector.ofCompounds (compounds : List Compound) : Selector :=
  ⟨compounds, areSimple compounds⟩

/-! ## Weights -/

mutual

/-- The weight of a test.  The weight of selectors inside of a pseudo-class is
that of the heaviest one, except in `:where`, which weighs nothing. -/
def SimpleSelector.specificity : SimpleSelector → Specificity
  | .universal => .zero
  | .typeName _ | .pseudoElement _ _ => ⟨0, 0, 1⟩
  | .idName _ => ⟨1, 0, 0⟩
  | .className _ | .attributeTest _ => ⟨0, 1, 0⟩
  | .pseudoClass name args => if name == "where" then .zero else args.specificity

def PseudoArguments.specificity : PseudoArguments → Specificity
  | .selectors list => heaviest list
  | _ => ⟨0, 1, 0⟩

def Selector.specificity : Selector → Specificity
  | ⟨compounds, _⟩ => compoundsWeight compounds

/-- The weight of the heaviest selector. -/
def heaviest : List Selector → Specificity
  | [] => .zero
  | s :: rest => s.specificity.max (heaviest rest)

def compoundsWeight : List Compound → Specificity
  | [] => .zero
  | ⟨_, tests⟩ :: rest => (testsWeight tests).add (compoundsWeight rest)

def testsWeight : List SimpleSelector → Specificity
  | [] => .zero
  | t :: rest => t.specificity.add (testsWeight rest)

end

/-! ## All tests of a selector -/

mutual

/-- The tests of a selector in order; those inside of a pseudo-class follow it. -/
def Selector.allTests : Selector → List SimpleSelector
  | ⟨compounds, _⟩ => compoundsTests compounds

def compoundsTests : List Compound → List SimpleSelector
  | [] => []
  | ⟨_, tests⟩ :: rest => nestedTests tests ++ compoundsTests rest

/-- Tests with those inside of them. -/
def nestedTests : List SimpleSelector → List SimpleSelector
  | [] => []
  | .pseudoClass name args :: rest =>
    .pseudoClass name args :: args.allTests ++ nestedTests rest
  | t :: rest => t :: nestedTests rest

def PseudoArguments.allTests : PseudoArguments → List SimpleSelector
  | .selectors list => selectorsTests list
  | _ => []

def selectorsTests : List Selector → List SimpleSelector
  | [] => []
  | s :: rest => s.allTests ++ selectorsTests rest

end

/-! ## Renaming -/

mutual

/-- Change the tests of a selector that hold no selectors themselves. -/
def Selector.mapTests (f : SimpleSelector → SimpleSelector) : Selector → Selector
  | ⟨compounds, isSimple⟩ => ⟨mapCompounds f compounds, isSimple⟩

def mapCompounds (f : SimpleSelector → SimpleSelector) : List Compound → List Compound
  | [] => []
  | ⟨combinator, tests⟩ :: rest => ⟨combinator, mapNested f tests⟩ :: mapCompounds f rest

/-- Change tests and the tests inside of them. -/
def mapNested (f : SimpleSelector → SimpleSelector) : List SimpleSelector → List SimpleSelector
  | [] => []
  | .pseudoClass name (.selectors list) :: rest =>
    .pseudoClass name (.selectors (mapSelectors f list)) :: mapNested f rest
  | t :: rest => f t :: mapNested f rest

def mapSelectors (f : SimpleSelector → SimpleSelector) : List Selector → List Selector
  | [] => []
  | s :: rest => s.mapTests f :: mapSelectors f rest

end

namespace Selector

/-! ## Properties of selectors -/

/-- The tests of all compounds, without those inside of pseudo-classes. -/
def topTests (s : Selector) : List SimpleSelector :=
  s.compounds.flatMap (·.tests)

def hasPseudos (s : Selector) : Bool :=
  s.allTests.any (·.isPseudo)

def hasCombinators (s : Selector) : Bool :=
  1 < s.compounds.length || s.compounds.any (·.combinator.isSome)

/-- The classes without which nothing matches. -/
def requiredClasses (s : Selector) : List String :=
  s.topTests.filterMap fun
    | .className name => some name
    | _ => none

/-- The ids without which nothing matches. -/
def requiredIds (s : Selector) : List String :=
  s.topTests.filterMap fun
    | .idName name => some name
    | _ => none

/-- The types without which nothing matches. -/
def requiredTypes (s : Selector) : List String :=
  s.topTests.filterMap fun
    | .typeName name => some name
    | _ => none

end Selector

end Css
end SlimSvg
