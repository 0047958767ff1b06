namespace SlimSvg
namespace Text

/-!
# Blanks

Three sets of blanks meet in an SVG file.  The XML grammar knows four
characters, style sheets and class lists add the form feed, and trimming a
value removes every character with the Unicode property `White_Space`.  The
sets are kept apart because the same text is cut differently by each.
-/

/-- The four blanks of the XML grammar. -/
def isXmlSpace (c : Char) : Bool :=
  c == ' ' || c == '\t' || c == '\n' || c == '\r'

/-- The blanks of style sheets, which also separate class names. -/
def isCssSpace (c : Char) : Bool :=
  isXmlSpace c || c == '\x0c'

/-- The characters with the Unicode property `White_Space`. -/
def isWhiteSpace (c : Char) : Bool :=
  let n := c.toNat
  (0x9 ≤ n && n ≤ 0xD) || n == 0x20 || n == 0x85 || n == 0xA0 || n == 0x1680
    || (0x2000 ≤ n && n ≤ 0x200A) || n == 0x2028 || n == 0x2029 || n == 0x202F
    || n == 0x205F || n == 0x3000

/-! ## Trimming -/

/-- The text without its longest suffix of characters in a class. -/
def dropSuffix (p : Char → Bool) (cs : List Char) : List Char :=
  (cs.reverse.dropWhile p).reverse

/-- The text without white space at either end. -/
def trimChars (cs : List Char) : List Char :=
  dropSuffix isWhiteSpace (cs.dropWhile isWhiteSpace)

/-- The text without white space at either end. -/
def trim (s : String) : String :=
  String.ofList (trimChars s.toList)

/-- The text without white space at its start. -/
def trimStart (s : String) : String :=
  String.ofList (s.toList.dropWhile isWhiteSpace)

/-- Whether a text has no character besides white space. -/
def isBlank (s : String) : Bool :=
  s.toList.all isWhiteSpace

/-! ## Words -/

/-- The maximal runs of characters outside a class, in order. -/
def runs (p : Char → Bool) (cs : List Char) : List (List Char) :=
  let (word, out) := cs.foldr
    (fun c (word, out) =>
      if p c then ([], if word.isEmpty then out else word :: out)
      else (c :: word, out))
    (([] : List Char), ([] : List (List Char)))
  if word.isEmpty then out else word :: out

/-- The words of a class list: runs of characters that are no blanks. -/
def words (s : String) : List String :=
  (runs isCssSpace s.toList).map String.ofList

end Text
end SlimSvg
