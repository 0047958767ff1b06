import SlimSvg.Text.Space

namespace SlimSvg
namespace Text

/-!
# Looking for a piece of text

Texts are searched as lists of characters, so that what stands before and
after a hit are again lists and a scanner can go on with the rest.
-/

/-- The parts of a text before and after the first occurrence of `piece`. -/
def cut? (piece : List Char) : List Char → Option (List Char × List Char)
  | [] => if piece.isEmpty then some ([], []) else none
  | c :: cs =>
    match piece.isPrefixOf? (c :: cs) with
    | some rest => some ([], rest)
    | none => (cut? piece cs).map fun (before, after) => (c :: before, after)

/-- What remains behind a prefix, together with the prefix, is the text. -/
theorem eq_append_of_isPrefixOf? {piece cs rest : List Char}
    (h : piece.isPrefixOf? cs = some rest) : cs = piece ++ rest := by
  induction piece generalizing cs with
  | nil => exact Option.some.inj (show some cs = some rest from h)
  | cons p piece ih =>
    cases cs with
    | nil => exact nomatch (show none = some rest from h)
    | cons c cs =>
      have step : (if p == c then piece.isPrefixOf? cs else none) = some rest := h
      split at step
      · next same => rw [ih step, eq_of_beq same, List.cons_append]
      · exact nomatch step

/-- Cutting a text loses nothing but the piece. -/
theorem eq_append_of_cut? {piece cs before after : List Char}
    (h : cut? piece cs = some (before, after)) : cs = before ++ piece ++ after := by
  induction cs generalizing before with
  | nil =>
    unfold cut? at h
    split at h
    next none_of_it =>
      obtain rfl : piece = [] := by simpa using none_of_it
      simp_all
    next => simp at h
  | cons c cs ih =>
    unfold cut? at h
    split at h
    next rest found =>
      simp only [Option.some.injEq, Prod.mk.injEq] at h
      rw [← h.1, ← h.2, eq_append_of_isPrefixOf? found, List.nil_append]
    next =>
      simp only [Option.map_eq_some_iff] at h
      obtain ⟨⟨b, a⟩, found, same⟩ := h
      simp only [Prod.mk.injEq] at same
      obtain ⟨rfl, rfl⟩ := same
      rw [ih found]
      simp

/-- Whether `piece` occurs in a text. -/
def hasPiece (piece cs : List Char) : Bool :=
  (cut? piece cs).isSome

/-- Whether `piece` occurs in a text. -/
def contains (s piece : String) : Bool :=
  hasPiece piece.toList s.toList

/-- Whether a text begins with `start`. -/
def startsWith (s start : String) : Bool :=
  start.toList.isPrefixOf s.toList

/-- Whether a text ends with `tail`. -/
def endsWith (s tail : String) : Bool :=
  tail.toList.reverse.isPrefixOf s.toList.reverse

/-- The pieces of a text between the occurrences of one character. -/
def splitAt (sep : Char) : List Char → List (List Char)
  | [] => [[]]
  | c :: cs =>
    match splitAt sep cs with
    | [] => [[]]
    | piece :: rest => if c == sep then [] :: piece :: rest else (c :: piece) :: rest

/-- The items of a list written with commas; blanks around an item and empty
items do not count. -/
def commaList (s : String) : List String :=
  ((splitAt ',' s.toList).map fun item => String.ofList (trimChars item)).filter (· ≠ "")

/-- The lines of a text, without their ends.  A line ends at a line feed or at a
carriage return with a line feed; after the last end there is a line only if it
is not empty. -/
def lines (s : String) : List String :=
  let pieces := splitAt '\n' s.toList
  let ended := pieces.dropLast.map fun line =>
    String.ofList (if line.getLast? == some '\r' then line.dropLast else line)
  match pieces.getLast? with
  | some (c :: cs) => ended ++ [String.ofList (c :: cs)]
  | _ => ended

/-- The number of bytes of a text in UTF-8, the measure of all "not longer" rules. -/
abbrev size (s : String) : Nat :=
  s.utf8ByteSize

end Text
end SlimSvg
