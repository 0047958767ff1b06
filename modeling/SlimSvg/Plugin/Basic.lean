import SlimSvg.Number.Decimal
import SlimSvg.Text.Search
import SlimSvg.Plugin.Summary
import SlimSvg.Tree.Visit

namespace SlimSvg

/-!
# Plugins

A plugin is one kind of change to a document.  Before a run it looks at the
summary of the document and at its parameters, and may decline.  Otherwise it
gives an edit, which knows no more than the document it is applied to.

The style sheets belong to the summary and are handed from one plugin to the
next.  An edit that changes them must say so in its outcome; the sheets are
not read again from the document within a pass.
-/

/-! ## Parameters

A plugin takes what it needs from a list of named values and has a default for
everything else.  A value of another kind than the plugin asks for counts as
missing; only a single text may stand for a list.
-/

inductive ParameterValue where
  | truth (value : Bool)
  | number (value : Number.Binary)
  | text (value : String)
  | list (items : List String)
deriving DecidableEq, Repr

namespace ParameterValue

/-- The value that a text stands for.  Whatever reads as a number is one, and a
text with a comma is a list. -/
def read (s : String) : ParameterValue :=
  if s = "true" then truth true
  else if s = "false" then truth false
  else
    match Number.Binary.read? s with
    | some x => number x
    | none => if s.toList.contains ',' then list (Text.commaList s) else text s

end ParameterValue

/-- Named values, each name once. -/
structure Parameters where
  entries : List (String × ParameterValue)
deriving DecidableEq, Repr

namespace Parameters

def empty : Parameters := ⟨[]⟩

def get? (p : Parameters) (name : String) : Option ParameterValue :=
  p.entries.lookup name

/-- Set a value, whatever it was before. -/
def set (p : Parameters) (name : String) (value : ParameterValue) : Parameters :=
  ⟨(name, value) :: p.entries.filter fun (n, _) => n != name⟩

def truth (p : Parameters) (name : String) (default : Bool) : Bool :=
  match p.get? name with
  | some (.truth b) => b
  | _ => default

def number (p : Parameters) (name : String) (default : Number.Binary) : Number.Binary :=
  match p.get? name with
  | some (.number x) => x
  | _ => default

def text? (p : Parameters) (name : String) : Option String :=
  match p.get? name with
  | some (.text s) => some s
  | _ => none

/-- The items of a list; one text is a list of one item. -/
def list (p : Parameters) (name : String) : List String :=
  match p.get? name with
  | some (.list items) => items
  | some (.text s) => [s]
  | _ => []

end Parameters

/-! ## Edits -/

/-- What a plugin knows before it runs. -/
structure Situation where
  /-- The number of the pass; the first one is 1. -/
  pass : Nat
  path : Option String
  summary : Summary

/-- What an edit leaves behind. -/
structure Outcome where
  document : Document
  /-- The style sheets, if they were changed. -/
  newStyles : Option Css.Styles := none
  warnings : List Warning := []

/-- A change to documents that may fail. -/
abbrev DocumentEdit := Document → Except VisitError Outcome

namespace DocumentEdit

/-- A change that looks at the document as a whole. -/
def whole (edit : Document → Document) : DocumentEdit :=
  fun doc => .ok { document := edit doc }

/-- A change of the document together with its style sheets. -/
def withStyles (edit : Document → Css.Styles × Document) : DocumentEdit :=
  fun doc =>
    let (styles, doc) := edit doc
    .ok { document := doc, newStyles := some styles }

/-- A change made on the way through the document. -/
def visiting {σ : Type} (v : Visitor σ) (start : σ) : DocumentEdit :=
  fun doc =>
    let (result, scene) := v.run ⟨start, doc⟩
    result.map fun _ => { document := scene.document }

/-- A visit that succeeds leaves the document that it ends with. -/
theorem visiting_of_run {σ : Type} {v : Visitor σ} {start : σ} {doc : Document} {after : Scene σ}
    (ran : v.run ⟨start, doc⟩ = (.ok (), after)) :
    visiting v start doc = .ok { document := after.document } := by
  rw [visiting, ran]
  rfl

end DocumentEdit

structure Plugin where
  name : String
  /-- The edit of a document, unless the plugin declines. -/
  prepare : Situation → Parameters → Option DocumentEdit

namespace Plugin

/-- A plugin that never declines and looks at its parameters only. -/
def always (name : String) (edit : Parameters → DocumentEdit) : Plugin :=
  ⟨name, fun _ p => some (edit p)⟩

end Plugin

namespace Document

/-- Change all elements of the tree. -/
def mapElements (doc : Document) (f : Element → Element) : Document :=
  doc.elements.foldl (fun doc node => doc.modifyElement node f) doc

end Document

end SlimSvg
