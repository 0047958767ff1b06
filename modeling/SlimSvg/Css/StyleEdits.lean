import SlimSvg.Css.Styles

namespace SlimSvg
namespace Css
namespace Styles

/-!
# Changing style sheets

A change of the sheets reaches the document when the sheets are written back.
Style elements that are left without text are taken out of the document then.
-/

/-- Change all rules of all sets. -/
def mapSets (s : Styles) (f : RuleSet → RuleSet) : Styles :=
  ofSheets (s.sheets.map fun sheet => { sheet with sets := sheet.sets.map f })

/-- Change every rule. -/
def mapRules (s : Styles) (f : Rule → Rule) : Styles :=
  s.mapSets fun set => { set with rules := set.rules.map f }

/-- Delete the rules with a property. -/
def deleteRules (s : Styles) (drop : Rule → Bool) : Styles :=
  s.mapSets fun set => { set with rules := set.rules.filter fun r => !drop r }

/-! ## Writing back -/

/-- Write the text of a sheet into its element, or take the element away. -/
def writeSheetOf (doc : Document) (sheet : Sheet) : Document :=
  let css := writeSheet sheet.sets
  if css.isEmpty then doc.detach sheet.element else doc.setText sheet.element css

/-- Write all sheets back; those without text are forgotten. -/
def writeBack (s : Styles) (doc : Document) : Styles × Document :=
  (ofSheets (s.sheets.filter fun sheet => !(writeSheet sheet.sets).isEmpty),
    s.sheets.foldl writeSheetOf doc)

/-! ## Renaming -/

/-- Exchange the classes that a map knows. -/
def renameClasses (s : Styles) (map : String → Option String) : Styles :=
  s.mapRules fun r => r.mapTests fun
    | .className name => .className ((map name).getD name)
    | t => t

/-- Exchange the ids that a map knows, in selectors and in references. -/
def renameIds (s : Styles) (map : String → Option String) : Styles :=
  s.mapRules fun r =>
    let r := r.mapTests fun
      | .idName id => .idName ((map id).getD id)
      | t => t
    { r with
      declarations := r.declarations.mapValues fun _ d =>
        { d with value := (Reference.renameIn? map d.value).getD d.value } }

/-! ## Merging -/

/-- A set as it stands in a sheet for all media. -/
def asBlock (set : RuleSet) : RuleSet :=
  if set.media.isSome then { set with isBlock := true } else set

/-- Move all rules into the first style element.  Tells whether there was more
than one. -/
def merge (s : Styles) (doc : Document) : Bool × Styles × Document :=
  match s.sheets with
  | first :: second :: others =>
    let sets := (s.sheets.flatMap (·.sets)).map asBlock
    let doc := (second :: others).foldl (fun doc sheet => doc.detach sheet.element) doc
    let doc := doc.modifyElement first.element fun e => e.removeAttribute "media"
    (true, (ofSheets [⟨first.element, sets⟩]).writeBack doc)
  | _ => (false, s, doc)

/-! ## Minifying -/

/-- The names that the elements of a document have. -/
structure UsedNames where
  types : List String
  classes : List String
  ids : List String

def usedNames (doc : Document) : UsedNames :=
  let elements := doc.elements.filterMap doc.element?
  { types := (elements.map (·.name)).eraseDups
    classes := (elements.flatMap (·.classes)).eraseDups
    ids := elements.filterMap (·.id?) }

/-- Whether an element with the names that a selector requires may exist. -/
def UsedNames.maySelect (used : UsedNames) (s : Selector) : Bool :=
  s.requiredClasses.all used.classes.contains
    && s.requiredIds.all used.ids.contains
    && s.requiredTypes.all used.types.contains

/-- Minify the values of declarations and drop rules without declarations, and,
if asked to, rules that cannot select anything. -/
def minify (s : Styles) (doc : Document) (removeUnused : Bool) : Styles × Document :=
  let used := usedNames doc
  let keep (r : Rule) : Bool :=
    !r.declarations.isEmpty && (!removeUnused || used.maySelect r.selector)
  let s := s.mapSets fun set =>
    { set with
      rules :=
        (set.rules.map fun r => { r with declarations := r.declarations.minifyValues }).filter keep }
  s.writeBack doc

/-! ## Adding -/

/-- Whether a sheet is for all media because its element says nothing else. -/
def isPlain (doc : Document) (sheet : Sheet) : Bool :=
  match doc.element? sheet.element with
  | some e => !e.hasAttribute "media"
  | none => false

/-- The place of a new style element behind the last one, or at the front of the
root element. -/
def newPlace? (s : Styles) (doc : Document) : Option (NodeId × Nat) :=
  match s.sheets.getLast? with
  | some sheet => do
    let parent ← doc.parent? sheet.element
    let index ← doc.indexInParent? sheet.element
    some (parent, index + 1)
  | none => doc.rootElement?.map fun root => (root, 0)

/-- Add rules that weigh more than all others of their kind.  A document without
a place for them stays as it is. -/
def addText (s : Styles) (doc : Document) (css : String) : Except CssError (Styles × Document) := do
  let sets ← readSheet css none
  match s.sheets.getLast?.filter (isPlain doc) with
  | some last =>
    let sheets := s.sheets.dropLast ++ [{ last with sets := last.sets ++ sets }]
    return (ofSheets sheets).writeBack doc
  | none =>
    match s.newPlace? doc with
    | none => return (s, doc)
    | some (parent, index) =>
      let (element, doc) := doc.insertAt parent index (.element (.ofName "style"))
      return (ofSheets (s.sheets ++ [⟨element, sets⟩])).writeBack doc

/-- Reading comes first, and nothing behind it fails: where there is an error, neither the
sheets nor the document were touched. -/
theorem addText_eq_error {s : Styles} {doc : Document} {css : String} {e : CssError} :
    s.addText doc css = .error e ↔ readSheet css none = .error e := by
  rw [addText]
  cases readSheet css none with
  | error fault =>
      change (.error fault : Except CssError (Styles × Document)) = .error e ↔ _
      rw [Except.error.injEq, Except.error.injEq]
  | ok sets =>
      refine iff_of_false (fun failed => ?_) nofun
      dsimp only [bind, Except.bind] at failed
      split at failed
      · cases failed
      · split at failed
        · cases failed
        · cases failed

end Styles
end Css
end SlimSvg
