import SlimSvg.Css.Styles

namespace SlimSvg

/-!
# What is known of a document before it is changed

Scripts and animations can depend on everything, and style sheets that cannot
be understood can select anything.  A document is looked through for them once;
plugins that would have to know more than they can stay away from it.
-/

/-- Something that a user should hear of although it is no failure. -/
inductive Warning where
  /-- The style sheets are left alone. -/
  | unusableStyles (cause : Css.CssError)
  /-- Several elements have one id. -/
  | repeatedId (id : String) (count : Nat)
deriving DecidableEq, Repr

def Warning.message : Warning → String
  | unusableStyles cause =>
    "Failed to parse styles cause " ++ cause.message
      ++ ". Style-dependent plugins are disabled."
  | repeatedId id count =>
    "Element ID '" ++ id ++ "' is used " ++ toString count ++ " times. Kept as is."

/-- What a warning is about. -/
def Warning.subject : Warning → String
  | unusableStyles _ => "styles"
  | repeatedId _ _ => "ids"

structure Summary where
  hasScripts : Bool
  hasAnimations : Bool
  /-- The style sheets, or why they cannot be understood. -/
  styles : Except Css.CssError Css.Styles
deriving Repr

namespace Summary

/-- Whether an element runs a script, by its name, by an attribute for an event
or by its link. -/
def isScripted (e : Element) : Bool :=
  e.hasName "script"
    || e.attributes.items.any (fun a => Vocabulary.isEventAttribute a.name)
    || match e.href? with
      | some href => Text.startsWith (Text.trimStart href) "javascript:"
      | none => false

def isAnimation (e : Element) : Bool :=
  e.isSvg && Vocabulary.isAnimation e.name

def ofDocument (doc : Document) : Summary :=
  let elements := doc.elements.filterMap doc.element?
  { hasScripts := elements.any isScripted
    hasAnimations := elements.any isAnimation
    styles := Css.Styles.ofDocument doc }

def styles? (s : Summary) : Option Css.Styles :=
  s.styles.toOption

/-- The styles, if they say all that can become of the document. -/
def reliableStyles? (s : Summary) : Option Css.Styles :=
  if s.hasScripts then none else s.styles?

/-- The styles of a document without animations. -/
def stillStyles? (s : Summary) : Option Css.Styles :=
  if s.hasAnimations then none else s.reliableStyles?

def withStyles (s : Summary) (styles : Css.Styles) : Summary :=
  { s with styles := .ok styles }

def warnings (s : Summary) : List Warning :=
  match s.styles with
  | .ok _ => []
  | .error cause => [.unusableStyles cause]

end Summary

end SlimSvg
