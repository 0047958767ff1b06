import SlimSvg.Value.Cached
import SlimSvg.Value.Scan

namespace SlimSvg

/-!
# Colours

A colour is read from hexadecimal digits, from the two functional notations or
from a keyword, and an opaque one is written as its shortest hexadecimal form or
as a keyword that is shorter still.
-/

open Number

/-- A colour with its opacity, four bytes. -/
structure Color where
  red : UInt8
  green : UInt8
  blue : UInt8
  alpha : UInt8 := 255
deriving DecidableEq, Repr, Inhabited

namespace Color

/-- The opaque colour `0xRRGGBB`. -/
def ofCode (code : Nat) : Color where
  red := UInt8.ofNat (code / 0x10000)
  green := UInt8.ofNat (code / 0x100)
  blue := UInt8.ofNat code

/-- The bytes as `0xRRGGBB`, without the opacity. -/
def code (c : Color) : Nat :=
  c.red.toNat * 0x10000 + c.green.toNat * 0x100 + c.blue.toNat

def isOpaque (c : Color) : Bool :=
  c.alpha == 255

/-- The colour keywords. -/
def keywords : List (String × Nat) := [
    ("aliceblue", 0xf0f8ff), ("antiquewhite", 0xfaebd7), ("aqua", 0x00ffff),
    ("aquamarine", 0x7fffd4), ("azure", 0xf0ffff), ("beige", 0xf5f5dc), ("bisque", 0xffe4c4),
    ("black", 0x000000), ("blanchedalmond", 0xffebcd), ("blue", 0x0000ff),
    ("blueviolet", 0x8a2be2), ("brown", 0xa52a2a), ("burlywood", 0xdeb887),
    ("cadetblue", 0x5f9ea0), ("chartreuse", 0x7fff00), ("chocolate", 0xd2691e),
    ("coral", 0xff7f50), ("cornflowerblue", 0x6495ed), ("cornsilk", 0xfff8dc),
    ("crimson", 0xdc143c), ("cyan", 0x00ffff), ("darkblue", 0x00008b), ("darkcyan", 0x008b8b),
    ("darkgoldenrod", 0xb8860b), ("darkgray", 0xa9a9a9), ("darkgreen", 0x006400),
    ("darkgrey", 0xa9a9a9), ("darkkhaki", 0xbdb76b), ("darkmagenta", 0x8b008b),
    ("darkolivegreen", 0x556b2f), ("darkorange", 0xff8c00), ("darkorchid", 0x9932cc),
    ("darkred", 0x8b0000), ("darksalmon", 0xe9967a), ("darkseagreen", 0x8fbc8f),
    ("darkslateblue", 0x483d8b), ("darkslategray", 0x2f4f4f), ("darkslategrey", 0x2f4f4f),
    ("darkturquoise", 0x00ced1), ("darkviolet", 0x9400d3), ("deeppink", 0xff1493),
    ("deepskyblue", 0x00bfff), ("dimgray", 0x696969), ("dimgrey", 0x696969),
    ("dodgerblue", 0x1e90ff), ("firebrick", 0xb22222), ("floralwhite", 0xfffaf0),
    ("forestgreen", 0x228b22), ("fuchsia", 0xff00ff), ("gainsboro", 0xdcdcdc),
    ("ghostwhite", 0xf8f8ff), ("gold", 0xffd700), ("goldenrod", 0xdaa520), ("gray", 0x808080),
    ("grey", 0x808080), ("green", 0x008000), ("greenyellow", 0xadff2f), ("honeydew", 0xf0fff0),
    ("hotpink", 0xff69b4), ("indianred", 0xcd5c5c), ("indigo", 0x4b0082), ("ivory", 0xfffff0),
    ("khaki", 0xf0e68c), ("lavender", 0xe6e6fa), ("lavenderblush", 0xfff0f5),
    ("lawngreen", 0x7cfc00), ("lemonchiffon", 0xfffacd), ("lightblue", 0xadd8e6),
    ("lightcoral", 0xf08080), ("lightcyan", 0xe0ffff), ("lightgoldenrodyellow", 0xfafad2),
    ("lightgray", 0xd3d3d3), ("lightgreen", 0x90ee90), ("lightgrey", 0xd3d3d3),
    ("lightpink", 0xffb6c1), ("lightsalmon", 0xffa07a), ("lightseagreen", 0x20b2aa),
    ("lightskyblue", 0x87cefa), ("lightslategray", 0x778899), ("lightslategrey", 0x778899),
    ("lightsteelblue", 0xb0c4de), ("lightyellow", 0xffffe0), ("lime", 0x00ff00),
    ("limegreen", 0x32cd32), ("linen", 0xfaf0e6), ("magenta", 0xff00ff), ("maroon", 0x800000),
    ("mediumaquamarine", 0x66cdaa), ("mediumblue", 0x0000cd), ("mediumorchid", 0xba55d3),
    ("mediumpurple", 0x9370db), ("mediumseagreen", 0x3cb371), ("mediumslateblue", 0x7b68ee),
    ("mediumspringgreen", 0x00fa9a), ("mediumturquoise", 0x48d1cc),
    ("mediumvioletred", 0xc71585), ("midnightblue", 0x191970), ("mintcream", 0xf5fffa),
    ("mistyrose", 0xffe4e1), ("moccasin", 0xffe4b5), ("navajowhite", 0xffdead),
    ("navy", 0x000080), ("oldlace", 0xfdf5e6), ("olive", 0x808000), ("olivedrab", 0x6b8e23),
    ("orange", 0xffa500), ("orangered", 0xff4500), ("orchid", 0xda70d6),
    ("palegoldenrod", 0xeee8aa), ("palegreen", 0x98fb98), ("paleturquoise", 0xafeeee),
    ("palevioletred", 0xdb7093), ("papayawhip", 0xffefd5), ("peachpuff", 0xffdab9),
    ("peru", 0xcd853f), ("pink", 0xffc0cb), ("plum", 0xdda0dd), ("powderblue", 0xb0e0e6),
    ("purple", 0x800080), ("red", 0xff0000), ("rosybrown", 0xbc8f8f), ("royalblue", 0x4169e1),
    ("saddlebrown", 0x8b4513), ("salmon", 0xfa8072), ("sandybrown", 0xf4a460),
    ("seagreen", 0x2e8b57), ("seashell", 0xfff5ee), ("sienna", 0xa0522d), ("silver", 0xc0c0c0),
    ("skyblue", 0x87ceeb), ("slateblue", 0x6a5acd), ("slategray", 0x708090),
    ("slategrey", 0x708090), ("snow", 0xfffafa), ("springgreen", 0x00ff7f),
    ("steelblue", 0x4682b4), ("tan", 0xd2b48c), ("teal", 0x008080), ("thistle", 0xd8bfd8),
    ("tomato", 0xff6347), ("turquoise", 0x40e0d0), ("violet", 0xee82ee), ("wheat", 0xf5deb3),
    ("white", 0xffffff), ("whitesmoke", 0xf5f5f5), ("yellow", 0xffff00),
    ("yellowgreen", 0x9acd32)]

/-- The keywords that are shorter than a six-digit form, one for each colour. -/
def shortKeywords : List (String × Nat) := [
    ("azure", 0xf0ffff), ("beige", 0xf5f5dc), ("bisque", 0xffe4c4), ("brown", 0xa52a2a),
    ("coral", 0xff7f50), ("gold", 0xffd700), ("gray", 0x808080), ("green", 0x008000),
    ("indigo", 0x4b0082), ("ivory", 0xfffff0), ("khaki", 0xf0e68c), ("linen", 0xfaf0e6),
    ("maroon", 0x800000), ("navy", 0x000080), ("olive", 0x808000), ("orange", 0xffa500),
    ("orchid", 0xda70d6), ("peru", 0xcd853f), ("pink", 0xffc0cb), ("plum", 0xdda0dd),
    ("purple", 0x800080), ("red", 0xff0000), ("salmon", 0xfa8072), ("sienna", 0xa0522d),
    ("silver", 0xc0c0c0), ("snow", 0xfffafa), ("tan", 0xd2b48c), ("teal", 0x008080),
    ("tomato", 0xff6347), ("violet", 0xee82ee), ("wheat", 0xf5deb3)]

/-! ## Writing -/

/-- The lower-case hexadecimal digit of a number below sixteen. -/
def hexDigit (n : Nat) : Char :=
  if n < 10 then Char.ofNat ('0'.toNat + n) else Char.ofNat ('a'.toNat + (n - 10))

/-- Whether both hexadecimal digits of a byte are equal. -/
def isDoubled (byte : UInt8) : Bool :=
  byte.toNat / 16 == byte.toNat % 16

/-- The shorter of the hexadecimal forms of a colour. -/
def hexForm (c : Color) : String :=
  let bytes := [c.red, c.green, c.blue]
  if bytes.all isDoubled then
    String.ofList ('#' :: bytes.map fun b => hexDigit (b.toNat % 16))
  else
    String.ofList ('#' :: bytes.flatMap fun b =>
      [hexDigit (b.toNat / 16), hexDigit (b.toNat % 16)])

/-- The shortest text of an opaque colour. -/
def write (c : Color) : String :=
  match shortKeywords.find? fun (_, code) => code == c.code with
  | some (name, _) =>
    if Text.size name < Text.size c.hexForm then name else c.hexForm
  | none => c.hexForm

/-! ## Reading -/

/-- The value of a hexadecimal digit of either case. -/
def hexValue? (c : Char) : Option Nat :=
  if c.isDigit then some (c.toNat - '0'.toNat)
  else if 'a' ≤ c ∧ c ≤ 'f' then some (c.toNat - 'a'.toNat + 10)
  else if 'A' ≤ c ∧ c ≤ 'F' then some (c.toNat - 'A'.toNat + 10)
  else none

/-- The colour of 3, 4, 6 or 8 hexadecimal digits. -/
def ofHexDigits? (digits : List Nat) : Option Color :=
  let short (d : Nat) : UInt8 := UInt8.ofNat (d * 17)
  let long (h l : Nat) : UInt8 := UInt8.ofNat (h * 16 + l)
  match digits with
  | [r, g, b] => some ⟨short r, short g, short b, 255⟩
  | [r, g, b, a] => some ⟨short r, short g, short b, short a⟩
  | [r, r', g, g', b, b'] => some ⟨long r r', long g g', long b b', 255⟩
  | [r, r', g, g', b, b', a, a'] => some ⟨long r r', long g g', long b b', long a a'⟩
  | _ => none

def isHexDigit (c : Char) : Bool :=
  (hexValue? c).isSome

/-- Whether a character may stand in a keyword or the name of a notation. -/
def isKeywordChar (c : Char) : Bool :=
  c.isAlphanum || c == '-' || c == '_'

def byteScale : Binary := Binary.ofNat double 255
def hundred : Binary := Binary.ofNat double 100
def unit : Binary := Binary.ofNat double 1

/-- The byte nearest to a number. -/
def byteOf (x : Binary) : UInt8 :=
  UInt8.ofNat x.toByte

/-- The byte for a share of the whole. -/
def byteOfShare (x : Binary) : UInt8 :=
  byteOf (Binary.mul double x byteScale)

/-- A list item that is a number, or a percentage divided by one hundred. -/
def scanShare? (cs : List Char) : Option (Binary × List Char) := do
  let (number, rest) ← Value.scanNumber? cs
  match rest with
  | '%' :: rest => some (Binary.div double number hundred, Value.skipSeparator rest)
  | rest => some (number, Value.skipSeparator rest)

/-- The end of a functional notation: an optional opacity and the parenthesis. -/
def scanOpacity? (cs : List Char) : Option (UInt8 × List Char) :=
  match Value.skipSpaces cs with
  | ')' :: rest => some (255, rest)
  | cs => do
    let (number, rest) ← Value.scanListNumber? cs
    match Value.skipSpaces rest with
    | ')' :: rest => some (byteOfShare number, rest)
    | _ => none

/-- The arguments of `rgb`.  A percent sign after the first number makes all
three of them shares of the whole. -/
def scanRgb? (cs : List Char) : Option (Color × List Char) := do
  let (first, rest) ← Value.scanNumber? cs
  let (red, green, blue, rest) ←
    match rest with
    | '%' :: rest => do
      let (second, rest) ← scanShare? (Value.skipSeparator rest)
      let (third, rest) ← scanShare? rest
      some (byteOfShare (Binary.div double first hundred), byteOfShare second,
        byteOfShare third, rest)
    | rest => do
      let (second, rest) ← Value.scanListNumber? (Value.skipSeparator rest)
      let (third, rest) ← Value.scanListNumber? rest
      some (byteOf first, byteOf second, byteOf third, rest)
  let (alpha, rest) ← scanOpacity? rest
  some (⟨red, green, blue, alpha⟩, rest)

/-! ### The hue formula -/

/-- A whole number in the precision of the hue formula. -/
def coarse (n : Nat) : Binary := Binary.ofNat single n

/-- One channel of a hue in sixths of the circle, between two levels. -/
def hueChannel (low high hue : Binary) : Binary :=
  let hue := if hue.lt (coarse 0) then Binary.add single hue (coarse 6) else hue
  let hue := if hue.lt (coarse 6) then hue else Binary.sub single hue (coarse 6)
  let rise (x : Binary) : Binary :=
    Binary.add single (Binary.mul single (Binary.sub single high low) x) low
  if hue.lt (coarse 1) then rise hue
  else if hue.lt (coarse 3) then high
  else if hue.lt (coarse 4) then rise (Binary.sub single (coarse 4) hue)
  else low

/-- The opaque colour of a hue in sixths of the circle, a saturation and a
lightness. -/
def ofHue (hue saturation lightness : Binary) : Color :=
  let half := Binary.div single (coarse 1) (coarse 2)
  let high :=
    if half.lt lightness then
      Binary.sub single (Binary.add single lightness saturation)
        (Binary.mul single lightness saturation)
    else Binary.mul single lightness (Binary.add single saturation (coarse 1))
  let low := Binary.sub single (Binary.mul single lightness (coarse 2)) high
  let byte (h : Binary) : UInt8 :=
    byteOf (Binary.mul single (hueChannel low high h) (coarse 255))
  { red := byte (Binary.add single hue (coarse 2))
    green := byte hue
    blue := byte (Binary.sub single hue (coarse 2)) }

/-- The arguments of `hsl`: an angle in degrees and two shares. -/
def scanHsl? (cs : List Char) : Option (Color × List Char) := do
  let (angle, rest) ← Value.scanListNumber? cs
  let (saturation, rest) ← scanShare? rest
  let (lightness, rest) ← scanShare? rest
  let circle := Binary.ofNat double 360
  let turned := Binary.rem double (Binary.add double (Binary.rem double angle circle) circle) circle
  let hue := Binary.div single (turned.round single) (coarse 60)
  let share (x : Binary) : Binary := (x.clamp (Binary.zero false) unit).round single
  let color := ofHue hue (share saturation) (share lightness)
  let (alpha, rest) ← scanOpacity? rest
  some ({ color with alpha := alpha }, rest)

/-- The colour at the front of a text, after blanks. -/
def scan? (cs : List Char) : Option (Color × List Char) :=
  match Value.skipSpaces cs with
  | '#' :: rest => do
    let color ← ofHexDigits? ((rest.takeWhile isHexDigit).filterMap hexValue?)
    some (color, rest.dropWhile isHexDigit)
  | cs =>
    let name := Text.toAsciiLower (String.ofList (cs.takeWhile isKeywordChar))
    let rest := cs.dropWhile isKeywordChar
    if name == "rgb" || name == "rgba" then
      match rest with
      | '(' :: rest => scanRgb? rest
      | _ => none
    else if name == "hsl" || name == "hsla" then
      match rest with
      | '(' :: rest => scanHsl? rest
      | _ => none
    else if name == "transparent" then some (⟨0, 0, 0, 0⟩, rest)
    else (keywords.lookup name).map fun code => (ofCode code, rest)

/-- Read a colour; only blanks may follow it. -/
def read? (cs : List Char) : Option Color := do
  let (color, rest) ← scan? cs
  if (Value.skipSpaces rest).isEmpty then some color else none

end Color

end SlimSvg
