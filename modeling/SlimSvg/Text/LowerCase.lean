import SlimSvg.Text.CaseData

namespace SlimSvg
namespace Text

/-!
# Lower case

The mapping of a whole text to lower case.  It differs from the mapping of
single characters in two places: the capital I with a dot above becomes two
characters, and a capital sigma becomes its final form at the end of a word.
-/

/-- Whether one of the ranges holds a code point. -/
def inRanges (ranges : List (Nat × Nat)) (n : Nat) : Bool :=
  ranges.any fun (first, last) => first ≤ n && n ≤ last

/-- The lower form of a single character. -/
def lowerChar (c : Char) : Char :=
  let n := c.toNat
  match lowerRanges.find? fun r => r.first ≤ n && n ≤ r.last && (n - r.first) % r.step == 0 with
  | some r => Char.ofNat (n + r.shift).toNat
  | none => c

/-- Whether the nearest character that counts for letter case is a cased one. -/
def meetsCased (cs : List Char) : Bool :=
  match cs.dropWhile fun c => inRanges caseIgnorableRanges c.toNat with
  | c :: _ => inRanges casedRanges c.toNat
  | [] => false

/-- The lower form of a text, given the characters before it from right to left. -/
def lowerChars (before : List Char) : List Char → List Char
  | [] => []
  | c :: rest =>
    let lowered :=
      if c == 'İ' then ['i', '\u0307']
      else if c == 'Σ' then
        if meetsCased before && !meetsCased rest then ['ς'] else ['σ']
      else [lowerChar c]
    lowered ++ lowerChars (c :: before) rest

/-- The lower form of a text. -/
def toLower (s : String) : String :=
  String.ofList (lowerChars [] s.toList)

/-- The lower form of the ASCII letters; every other character stays. -/
def toAsciiLower (s : String) : String :=
  s.map Char.toLower

end Text
end SlimSvg
