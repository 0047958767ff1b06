import SlimSvg.Css.Scan
import SlimSvg.Css.Selector

namespace SlimSvg
namespace Css

/-!
# The text of selectors

Reading and writing.  A pseudo-class that takes selectors is read with the
selectors between its parentheses; their text is shorter, so the depth of
nesting is at most the length of the text.
-/

/-- Pseudo-classes whose arguments are selectors. -/
def takesSelectors (name : String) : Bool :=
  name == "not" || name == "is" || name == "where" || name == "has" || name == "matches"

/-- Pseudo-elements that may be written like pseudo-classes. -/
def isLegacyPseudoElement (name : String) : Bool :=
  name == "before" || name == "after" || name == "first-line" || name == "first-letter"

namespace SelectorText

/-! ## Reading -/

/-- The combinator of a character. -/
def combinatorOf (c : Char) : Combinator :=
  if c == '>' then .child else if c == '+' then .adjacent else .sibling

/-- The operator at the front of a text and what follows it. -/
def operator? : List Char → Option (AttributeOperator × List Char)
  | '=' :: rest => some (.equals, rest)
  | '~' :: '=' :: rest => some (.includes, rest)
  | '|' :: '=' :: rest => some (.dashMatch, rest)
  | '^' :: '=' :: rest => some (.startsWith, rest)
  | '$' :: '=' :: rest => some (.endsWith, rest)
  | '*' :: '=' :: rest => some (.contains, rest)
  | _ => none

/-- The value of an attribute test and what follows it.  Between quotation marks
a backslash stays. -/
def testValue? : List Char → Option (List Char × List Char)
  | [] => none
  | c :: rest =>
    if isQuote c then spanQuoted? c rest
    else
      let (name, rest) := spanName (c :: rest)
      some (unescape name, rest)

/-- Whether the mark behind a value asks to ignore case. -/
def caseFlag? (cs : List Char) : Option Bool :=
  match cs with
  | [] => some false
  | cs =>
    let (flag, rest) := spanName cs
    if (skipSpaces rest).isEmpty then
      match flag with
      | ['i'] | ['I'] => some true
      | ['s'] | ['S'] => some false
      | _ => none
    else none

/-- The test between square brackets. -/
def attributeTest? (cs : List Char) : Option AttributeTest := do
  let (name, rest) := spanName (skipSpaces cs)
  if name.isEmpty then none
  let name := String.ofList (unescape name)
  match skipSpaces rest with
  | [] => some ⟨name, .present, "", false⟩
  | rest =>
    let (operator, rest) ← operator? rest
    let (value, rest) ← testValue? (skipSpaces rest)
    let ignoresCase ← caseFlag? (skipSpaces rest)
    some ⟨name, operator, String.ofList value, ignoresCase⟩

/-- What is said about a text that is no selector. -/
def invalid (text : List Char) : CssError :=
  .invalidSelector (String.ofList (Text.trimChars text))

/-- The name behind a class or id sign. -/
def requireName (text cs : List Char) : Except CssError (String × List Char) :=
  let (name, rest) := spanName cs
  if name.isEmpty then .error (invalid text)
  else .ok (String.ofList (unescape name), rest)

/-- A pseudo-class or pseudo-element behind its colon.  `nested` reads a list of
selectors, relative ones if asked to. -/
def pseudo (nested : (relative : Bool) → List Char → Except CssError (List Selector))
    (text cs : List Char) : Except CssError (SimpleSelector × List Char) := do
  let (doubled, cs) :=
    match cs with
    | ':' :: rest => (true, rest)
    | cs => (false, cs)
  let (name, rest) := spanName cs
  if name.isEmpty then throw (invalid text)
  let name := String.ofList name
  let (args, rest) ←
    match rest with
    | '(' :: rest => do
      let (inner, rest) ← orEnd (spanBefore? ')' rest)
      if !doubled && takesSelectors name then
        let list ← nested (name == "has") inner
        pure (PseudoArguments.selectors list, rest)
      else pure (.raw (String.ofList (Text.trimChars inner)), rest)
    | rest => pure (.none, rest)
  if doubled || isLegacyPseudoElement name then return (.pseudoElement name args, rest)
  else return (.pseudoClass name args, rest)

/-- The compound at the front of a text and what follows it; each test takes at
least one character. -/
def compound (nested : (relative : Bool) → List Char → Except CssError (List Selector))
    (text : List Char) :
    (bound : Nat) → List SimpleSelector → List Char →
      Except CssError (List SimpleSelector × List Char)
  | 0, done, cs => .ok (done.reverse, cs)
  | _, done, [] => .ok (done.reverse, [])
  | bound + 1, done, c :: rest => do
    match c with
    | '*' => compound nested text bound (.universal :: done) rest
    | '.' =>
      let (name, rest) ← requireName text rest
      compound nested text bound (.className name :: done) rest
    | '#' =>
      let (name, rest) ← requireName text rest
      compound nested text bound (.idName name :: done) rest
    | '[' =>
      let (inner, rest) ← orEnd (spanBefore? ']' rest)
      match attributeTest? inner with
      | some test => compound nested text bound (.attributeTest test :: done) rest
      | none => throw (invalid text)
    | ':' =>
      let (test, rest) ← pseudo nested text rest
      compound nested text bound (test :: done) rest
    | c =>
      if isNameChar c || c == '\\' then
        -- A type goes first.
        if !done.isEmpty then throw (invalid text)
        let (name, after) := spanName (c :: rest)
        -- A backslash at the end of the text begins no name.
        if name.isEmpty then throw (invalid text)
        compound nested text bound [.typeName (String.ofList (unescape name))] after
      else if Text.isCssSpace c || isCombinator c then return (done.reverse, c :: rest)
      else throw (invalid text)

/-- The compounds of a text, given the combinator before the first one; each
compound takes at least one character. -/
def compounds (nested : (relative : Bool) → List Char → Except CssError (List Selector))
    (text : List Char) :
    (bound : Nat) → Option Combinator → List Char → Except CssError (List Compound)
  | 0, _, _ => .error (invalid text)
  | bound + 1, combinator, cs => do
    let (tests, rest) ← compound nested text cs.length [] cs
    if tests.isEmpty then throw (invalid text)
    let here : Compound := ⟨combinator, tests⟩
    match skipSpaces rest with
    | [] => return [here]
    | c :: after =>
      if isCombinator c then
        let others ← compounds nested text bound (some (combinatorOf c)) (skipSpaces after)
        return here :: others
      else
        -- A compound ends at a blank or at a combinator.
        let others ← compounds nested text bound (some .descendant) (c :: after)
        return here :: others

/-- One selector. -/
def selector (nested : (relative : Bool) → List Char → Except CssError (List Selector))
    (relative : Bool) (text : List Char) : Except CssError Selector := do
  if text.contains '&' then throw .nesting
  let cs := skipSpaces text
  let (combinator, cs) :=
    match cs with
    | c :: rest =>
      if relative && isCombinator c then (some (combinatorOf c), skipSpaces rest) else (none, cs)
    | [] => (none, [])
  let found ← compounds nested text cs.length.succ combinator cs
  return .ofCompounds found

/-- Selectors between commas; each comma takes one character. -/
def selectors (one : List Char → Except CssError Selector) :
    (bound : Nat) → List Char → Except CssError (List Selector)
  | 0, _ => .ok []
  | bound + 1, cs => do
    match spanBefore? ',' cs with
    | none => return [← one cs]
    | some (part, rest) =>
      let first ← one part
      let others ← selectors one bound rest
      return first :: others

/-- A list of selectors with at most so many levels of nesting. -/
def listWithin : (depth : Nat) → (relative : Bool) → List Char → Except CssError (List Selector)
  | 0, _, _ => .ok []
  | depth + 1, relative, cs =>
    selectors (selector (listWithin depth) relative) cs.length.succ cs

end SelectorText

namespace Selector

/-- Read one selector. -/
def read (text : String) : Except CssError Selector :=
  let cs := text.toList
  SelectorText.selector (SelectorText.listWithin cs.length) false cs

/-- Read selectors between commas. -/
def readList (cs : List Char) : Except CssError (List Selector) :=
  SelectorText.listWithin cs.length.succ false cs

end Selector

/-! ## Writing -/

namespace SelectorText

/-- A character of a name; `isFirst` says whether it begins the name. -/
def nameChar (isFirst : Bool) (c : Char) : List Char :=
  if c.isAlpha || c == '_' || c == '-' || 0x80 ≤ c.toNat || (!isFirst && c.isDigit) then [c]
  else if c.isDigit then '\\' :: Nat.toDigits 16 c.toNat ++ [' ']
  else ['\\', c]

/-- A name with the backslashes that it needs. -/
def name (s : String) : String :=
  match s.toList with
  | [] => ""
  | c :: rest => String.ofList (nameChar true c ++ rest.flatMap (nameChar false))

/-- Whether the value of a test can be written without quotation marks. -/
def isBareValue (s : String) : Bool :=
  match s.toList with
  | [] => false
  | c :: rest => !c.isDigit && c != '-' && (c :: rest).all isNameChar

/-- The value of a test. -/
def value (s : String) : String :=
  if isBareValue s then s
  else
    "\"" ++ String.ofList (s.toList.flatMap fun c => if c == '"' then ['\\', '"'] else [c]) ++ "\""

def test (t : AttributeTest) : String :=
  let comparison :=
    if t.operator == .present then ""
    else t.operator.symbol ++ value t.value ++ if t.ignoresCase then " i" else ""
  "[" ++ name t.name ++ comparison ++ "]"

end SelectorText

mutual

/-- The text of a test. -/
def SimpleSelector.write : SimpleSelector → String
  | .universal => "*"
  | .typeName n => SelectorText.name n
  | .className n => "." ++ SelectorText.name n
  | .idName n => "#" ++ SelectorText.name n
  | .attributeTest t => SelectorText.test t
  | .pseudoClass n args => ":" ++ n ++ args.write
  | .pseudoElement n args =>
    (if isLegacyPseudoElement n then ":" else "::") ++ n ++ args.write

def PseudoArguments.write : PseudoArguments → String
  | .none => ""
  | .raw text => "(" ++ text ++ ")"
  | .selectors list => "(" ++ String.intercalate "," (writeSelectors list) ++ ")"

/-- The text of a selector. -/
def Selector.write : Selector → String
  | ⟨compounds, _⟩ => String.join (writeCompounds compounds)

def writeSelectors : List Selector → List String
  | [] => []
  | s :: rest => s.write :: writeSelectors rest

def writeCompounds : List Compound → List String
  | [] => []
  | ⟨combinator, tests⟩ :: rest =>
    let relation :=
      match combinator with
      | some c => c.symbol
      | none => ""
    (relation ++ String.join (writeTests tests)) :: writeCompounds rest

def writeTests : List SimpleSelector → List String
  | [] => []
  | t :: rest => t.write :: writeTests rest

end

end Css
end SlimSvg
