import SlimSvg.Value.Color
import SlimSvg.Value.Reference

namespace SlimSvg

/-!
# Paints

A paint fills a shape or its outline.  Only opaque colours are paints here: a
colour with an opacity, and the word that asks for the paint of the parent, are
left to their texts.
-/

/-- What is used when a referenced paint does not exist. -/
inductive PaintFallback where
  | none
  | currentColor
  | color (c : Color)
deriving DecidableEq, Repr

inductive Paint where
  | none
  | currentColor
  | contextFill
  | contextStroke
  | color (c : Color)
  | server (id : String) (fallback : Option PaintFallback)
deriving DecidableEq, Repr

namespace Paint

def isNone : Paint → Bool
  | none => true
  | _ => false

/-- Read an opaque colour up to the end of the text. -/
def opaqueColor? (cs : List Char) : Option Color :=
  (Color.read? cs).filter Color.isOpaque

/-- Read what stands behind a reference up to the end of the text. -/
def fallback? (cs : List Char) : Option (Option PaintFallback) :=
  match Value.skipSpaces cs with
  | [] => some Option.none
  | cs =>
    let word := String.ofList cs
    if word == "none" then some (some .none)
    else if word == "currentColor" then some (some .currentColor)
    else (opaqueColor? cs).map fun c => some (.color c)

def read? (s : String) : Option Paint :=
  let cs := Text.trimChars s.toList
  let word := String.ofList cs
  if word == "none" then some none
  else if word == "inherit" then Option.none
  else if word == "currentColor" then some currentColor
  else if word == "context-fill" then some contextFill
  else if word == "context-stroke" then some contextStroke
  else if Text.startsWith word "url(" then do
    let (id, rest) ← Reference.scanFunction? cs
    let fallback ← fallback? rest
    some (server (String.ofList id) fallback)
  else (opaqueColor? cs).map color

def writeFallback : Option PaintFallback → String
  | Option.none => ""
  | some .none => " none"
  | some .currentColor => " currentColor"
  | some (.color c) => " " ++ c.write

def write : Paint → String
  | none => "none"
  | currentColor => "currentColor"
  | contextFill => "context-fill"
  | contextStroke => "context-stroke"
  | color c => c.write
  | server id fallback => "url(#" ++ id ++ ")" ++ writeFallback fallback

instance : TextForm Paint where
  read? := read?
  write := write

end Paint

end SlimSvg
