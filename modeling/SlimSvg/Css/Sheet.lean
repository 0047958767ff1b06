import SlimSvg.Css.SelectorText
import SlimSvg.Value.Declarations

namespace SlimSvg
namespace Css

/-!
# Style sheets

A sheet is a list of rule sets, each for one kind of media.  Reading splits
every list of selectors into rules with one selector, so that a rule has one
weight; writing joins neighbours with equal declarations again.
-/

/-- One selector with its declarations.  The weight of the selector and whether
it has pseudo-classes are known from reading. -/
structure Rule where
  selector : Selector
  specificity : Specificity
  declarations : Declarations
  inMedia : Bool
  hasPseudos : Bool
deriving Repr

namespace Rule

def ofSelector (selector : Selector) (declarations : Declarations) (inMedia : Bool) : Rule :=
  ⟨selector, selector.specificity, declarations, inMedia, selector.hasPseudos⟩

/-- Whether it depends on more than the document if the rule applies. -/
def isDynamic (r : Rule) : Bool :=
  r.inMedia || r.hasPseudos

/-- Change the tests of the selector.  Weight and pseudo-classes stay, because
only names are changed. -/
def mapTests (f : SimpleSelector → SimpleSelector) (r : Rule) : Rule :=
  { r with selector := r.selector.mapTests f }

end Rule

/-- Rules for the same media. -/
structure RuleSet where
  /-- The media query; without one the rules are for all media. -/
  media : Option String
  /-- Whether the set is a block of its own inside of the sheet. -/
  isBlock : Bool
  rules : List Rule
  /-- The `@font-face` blocks as they are written. -/
  fontFaces : List String
deriving Repr

namespace RuleSet

/-- A set without rules that is not a block. -/
def ofMedia (media : Option String) : RuleSet :=
  ⟨media, false, [], []⟩

def isEmpty (s : RuleSet) : Bool :=
  s.rules.isEmpty && s.fontFaces.isEmpty

end RuleSet

/-- The media query of a text; the query for all media is none. -/
def mediaQuery? (text : String) : Option String :=
  let query := Text.trim text
  if query == "" || query == "all" then none else some query

namespace SheetText

/-! ## Reading -/

/-- The rule at the front of a text, once for each selector, and what follows. -/
def rule (inMedia : Bool) (cs : List Char) : Except CssError (List Rule × List Char) := do
  let (start, rest) ← orEnd (spanBefore? '\x7b' cs)
  if start.any fun c => c == ';' || c == '\x7d' then throw (SelectorText.invalid start)
  let (block, rest) ← orEnd (spanBlock? 0 none rest)
  if block.contains '\x7b' then throw .nesting
  let selectors ← Selector.readList start
  let declarations := Declarations.read (String.ofList block)
  return (selectors.map fun s => .ofSelector s declarations inMedia, rest)

/-- The rules of a media block; each takes at least one character. -/
def rules (inMedia : Bool) : (bound : Nat) → List Char → Except CssError (List Rule)
  | 0, _ => .ok []
  | bound + 1, cs =>
    match skipSpaces cs with
    | [] => .ok []
    | '@' :: _ => .error .nesting
    | '\x7d' :: _ => .error .unbalanced
    | cs => do
      let (here, rest) ← rule inMedia cs
      let others ← rules inMedia bound rest
      return here ++ others

/-- A set, if it has anything in it. -/
def unlessEmpty (s : RuleSet) : List RuleSet :=
  if s.isEmpty then [] else [s]

/-- The sets of a sheet behind the set that is being read; each step takes at
least one character. -/
def sets (media : Option String) :
    (bound : Nat) → RuleSet → List Char → Except CssError (List RuleSet)
  | 0, current, _ => .ok (unlessEmpty current)
  | bound + 1, current, cs =>
    match skipSpaces cs with
    | [] => .ok (unlessEmpty current)
    | '@' :: cs => do
      let (name, rest) := spanName cs
      match Text.toAsciiLower (String.ofList name) with
      | "media" =>
        if media.isSome then throw .nesting
        let (query, rest) ← orEnd (spanBefore? '\x7b' rest)
        let (block, rest) ← orEnd (spanBlock? 0 none rest)
        let query := mediaQuery? (String.ofList query)
        let inner ← rules query.isSome block.length.succ block
        -- An empty set is filled further.
        let next := if current.isEmpty then current else .ofMedia media
        let others ← sets media bound next rest
        return unlessEmpty current ++ ⟨query, true, inner, []⟩ :: others
      | "font-face" =>
        let (_, rest) ← orEnd (spanBefore? '\x7b' rest)
        let (block, rest) ← orEnd (spanBlock? 0 none rest)
        let face := "@font-face\x7b" ++ String.ofList (Text.trimChars block) ++ "\x7d"
        sets media bound { current with fontFaces := current.fontFaces ++ [face] } rest
      | "charset" =>
        let (_, rest) ← orEnd (spanBefore? ';' rest)
        sets media bound current rest
      | name => throw (.unsupportedAtRule name)
    | '\x7d' :: _ => .error .unbalanced
    | cs => do
      let (here, rest) ← rule media.isSome cs
      sets media bound { current with rules := current.rules ++ here } rest

end SheetText

/-- Read a style sheet for the media of its element. -/
def readSheet (text : String) (media : Option String) : Except CssError (List RuleSet) :=
  let cs := stripComments none text.toList
  let media := media.bind mediaQuery?
  SheetText.sets media cs.length.succ (.ofMedia media) cs

/-! ## Writing -/

namespace SheetText

/-- Neighbouring rules with equal declarations, as one rule. -/
def writeRules (group : List Rule) : String :=
  match group with
  | [] => ""
  | r :: _ =>
    String.intercalate "," (group.map (·.selector.write))
      ++ "\x7b" ++ r.declarations.writeBlock ++ "\x7d"

def writeSet (s : RuleSet) : String :=
  let groups := s.rules.splitBy fun a b => a.declarations == b.declarations
  let inner := String.join (s.fontFaces ++ groups.map writeRules)
  match s.media with
  | some query => if s.isBlock then "@media " ++ query ++ "\x7b" ++ inner ++ "\x7d" else inner
  | none => inner

end SheetText

/-- The text of a style sheet.  Sets without rules are left out. -/
def writeSheet (sets : List RuleSet) : String :=
  String.join ((sets.filter fun s => !s.isEmpty).map SheetText.writeSet)

end Css
end SlimSvg
