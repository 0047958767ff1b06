import SlimSvg.Number.Written
import SlimSvg.Value.Reference
import SlimSvg.Vocabulary

namespace SlimSvg
namespace Css

/-!
# Computed styles

A computed style says for each property that is set whether its value is known.
A value that depends on more than the document is dynamic; nothing may be
concluded from it, not even that it differs from another dynamic value.
-/

/-- What is known about the value of a property. -/
inductive ComputedValue where
  | known (text : String)
  /-- The value depends on media, on the state of the page or on variables. -/
  | dynamic
deriving DecidableEq, Repr

namespace ComputedValue

/-- The value that a text stands for. -/
def ofText (text : String) : ComputedValue :=
  if Text.hasVariable text then dynamic else known (Text.trim text)

/-- The text, if the value is known. -/
def text? : ComputedValue → Option String
  | known text => some text
  | dynamic => none

end ComputedValue

/-- The properties that are set, each of them once. -/
structure ComputedStyle where
  entries : List (String × ComputedValue)
deriving DecidableEq, Repr

namespace ComputedStyle

def empty : ComputedStyle := ⟨[]⟩

def get? (style : ComputedStyle) (name : String) : Option ComputedValue :=
  style.entries.lookup name

/-- The text of a property that is set and known. -/
def text? (style : ComputedStyle) (name : String) : Option String :=
  (style.get? name).bind (·.text?)

def isDynamic (style : ComputedStyle) (name : String) : Bool :=
  style.get? name == some .dynamic

/-- Whether a property is known to be zero, in whatever unit. -/
def isZero (style : ComputedStyle) (name : String) : Bool :=
  (style.text? name).any Number.isZeroText

def has (style : ComputedStyle) (name : String) : Bool :=
  (style.get? name).isSome

/-- Take a property away. -/
def remove (style : ComputedStyle) (name : String) : ComputedStyle :=
  ⟨style.entries.filter fun (n, _) => n != name⟩

/-- Set a property, whatever it was before. -/
def set (style : ComputedStyle) (name : String) (value : ComputedValue) : ComputedStyle :=
  ⟨(name, value) :: (style.remove name).entries⟩

/-! ## Inheritance -/

/-- Whether a value asks for that of the parent. -/
def asksParent (value : ComputedValue) : Bool :=
  value == .known "inherit"

/-- Give the properties that ask for the value of the parent that value, or take
them away if the parent has none. -/
def resolveExplicit (style parent : ComputedStyle) : ComputedStyle :=
  ⟨style.entries.filterMap fun (n, v) =>
    if asksParent v then (parent.get? n).map fun w => (n, w) else some (n, v)⟩

/-- The style together with what is inherited from the parent. -/
def inheritFrom (style parent : ComputedStyle) : ComputedStyle :=
  let own := style.resolveExplicit parent
  let inherited := parent.entries.filter fun (n, _) =>
    Vocabulary.isInheritable n && !own.has n
  ⟨own.entries ++ inherited⟩

end ComputedStyle

end Css
end SlimSvg
