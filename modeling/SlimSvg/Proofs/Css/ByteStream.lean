import SlimSvg.Proofs.Css.Blocks

namespace SlimSvg
namespace Css

/-!
# Reading byte by byte

The readers of this library go from character to character.  A reader that works on the
bytes of a text knows no more than its place among them, so it can go wrong in ways that
cannot be said of characters: it can read or step beyond the end, and it can cut a text
inside of a character.  Here the scanners are written once more for bytes.  Each of these
mistakes is an outcome of its own, and a loop ends only if it does, for nothing bounds it.
Each scanner turns out to find what the scanner of characters finds.
-/

/-! ## Bytes -/

/-- The bytes of a text. -/
def bytes (cs : List Char) : List UInt8 :=
  cs.flatMap String.utf8EncodeChar

/-- The number of bytes of a text. -/
def width : List Char → Nat
  | [] => 0
  | c :: cs => c.utf8Size + width cs

theorem width_cons (c : Char) (cs : List Char) : width (c :: cs) = c.utf8Size + width cs :=
  rfl

theorem width_append (first second : List Char) : width (first ++ second) = width first + width second := by
  induction first with
  | nil => exact (Nat.zero_add _).symm
  | cons c rest inductionHypothesis =>
      rw [List.cons_append, width, width, inductionHypothesis, Nat.add_assoc]

theorem length_bytes (cs : List Char) : (bytes cs).length = width cs := by
  induction cs with
  | nil => rfl
  | cons c rest inductionHypothesis =>
      rw [bytes, List.flatMap_cons, List.length_append, String.length_utf8EncodeChar, ← bytes, inductionHypothesis,
        width]

theorem bytes_append (first second : List Char) : bytes (first ++ second) = bytes first ++ bytes second :=
  List.flatMap_append

theorem bytes_cons (c : Char) (cs : List Char) : bytes (c :: cs) = String.utf8EncodeChar c ++ bytes cs :=
  List.flatMap_cons

/-- Whether a character takes more than one byte.  Such characters are the ones whose bytes
look like them. -/
def IsWide (c : Char) : Prop :=
  0x80 ≤ c.toNat

instance (c : Char) : Decidable (IsWide c) :=
  inferInstanceAs (Decidable (_ ≤ _))

theorem toNat_ofUInt8 (b : UInt8) : (Char.ofUInt8 b).toNat = b.toNat :=
  UInt8.toNat_toUInt32 b

section Encoding

variable {c : Char}

theorem utf8Size_of_narrow (narrow : ¬ IsWide c) : c.utf8Size = 1 :=
  Char.utf8Size_eq_one_iff.mpr (UInt32.le_iff_toNat_le.mpr (Nat.le_of_lt_succ (Nat.lt_of_not_le narrow)))

theorem utf8EncodeChar_of_narrow (narrow : ¬ IsWide c) : String.utf8EncodeChar c = [c.toUInt8] :=
  String.utf8EncodeChar_eq_singleton (utf8Size_of_narrow narrow)

theorem ofUInt8_toUInt8 (narrow : ¬ IsWide c) : Char.ofUInt8 c.toUInt8 = c := by
  have small : c.toNat < 0x80 := Nat.lt_of_not_le narrow
  apply Char.toNat_inj.mp
  rw [toNat_ofUInt8]
  change c.toNat % 256 = c.toNat
  omega

theorem isWide_of_mem_utf8EncodeChar (wide : IsWide c) {b : UInt8} (listed : b ∈ String.utf8EncodeChar c) :
    IsWide (Char.ofUInt8 b) := by
  have large : ¬ c.val.toNat ≤ 127 := Nat.not_le.mpr wide
  rw [String.utf8EncodeChar, if_neg large] at listed
  rw [IsWide, toNat_ofUInt8]
  -- Every byte has the highest bit, whatever else it holds.
  split at listed
  · simp only [List.mem_cons, List.not_mem_nil, or_false] at listed
    rcases listed with rfl | rfl <;> simp only [UInt8.toNat_ofNat'] <;> omega
  · split at listed
    · simp only [List.mem_cons, List.not_mem_nil, or_false] at listed
      rcases listed with rfl | rfl | rfl <;> simp only [UInt8.toNat_ofNat'] <;> omega
    · simp only [List.mem_cons, List.not_mem_nil, or_false] at listed
      rcases listed with rfl | rfl | rfl | rfl <;> simp only [UInt8.toNat_ofNat'] <;> omega

end Encoding

/-! ### Characters that bytes are taken for -/

/-- Whether a byte is a character, or both are wide. -/
def LooksLike (b c : Char) : Prop :=
  b = c ∨ IsWide b ∧ IsWide c

theorem isNameChar_of_wide {c : Char} (wide : IsWide c) : isNameChar c = true := by
  have large : decide (0x80 ≤ c.toNat) = true := decide_eq_true wide
  rw [isNameChar, large, Bool.or_true]

theorem ne_of_wide {c d : Char} (wide : IsWide c) (narrow : ¬ IsWide d) : c ≠ d :=
  fun same => narrow (same ▸ wide)

theorem isQuote_of_wide {c : Char} (wide : IsWide c) : isQuote c = false := by
  rw [isQuote, beq_false_of_ne (ne_of_wide wide (by decide)), beq_false_of_ne (ne_of_wide wide (by decide))]
  rfl

theorem isCombinator_of_wide {c : Char} (wide : IsWide c) : isCombinator c = false := by
  rw [isCombinator, beq_false_of_ne (ne_of_wide wide (by decide)), beq_false_of_ne (ne_of_wide wide (by decide)),
    beq_false_of_ne (ne_of_wide wide (by decide))]
  rfl

theorem isCssSpace_of_wide {c : Char} (wide : IsWide c) : Text.isCssSpace c = false := by
  rw [Bool.eq_false_iff]
  intro blank
  simp only [Text.isCssSpace, Text.isXmlSpace, Bool.or_eq_true, beq_iff_eq] at blank
  rcases blank with (((rfl | rfl) | rfl) | rfl) | rfl <;> exact absurd wide (by decide)

namespace LooksLike

variable {b c : Char}

theorem same_of {β : Type} (like : LooksLike b c) {f : Char → β} {value : β} (wide : ∀ d, IsWide d → f d = value) :
    f b = f c := by
  rcases like with rfl | ⟨byteWide, charWide⟩
  · rfl
  · rw [wide b byteWide, wide c charWide]

theorem isNameChar_eq (like : LooksLike b c) : isNameChar b = isNameChar c :=
  like.same_of fun _ => isNameChar_of_wide

theorem isQuote_eq (like : LooksLike b c) : isQuote b = isQuote c :=
  like.same_of fun _ => isQuote_of_wide

theorem isCombinator_eq (like : LooksLike b c) : isCombinator b = isCombinator c :=
  like.same_of fun _ => isCombinator_of_wide

theorem isCssSpace_eq (like : LooksLike b c) : Text.isCssSpace b = Text.isCssSpace c :=
  like.same_of fun _ => isCssSpace_of_wide

theorem beq_eq (like : LooksLike b c) {d : Char} (narrow : ¬ IsWide d) : (b == d) = (c == d) :=
  @same_of b c Bool like (· == d) false fun _ wide => beq_false_of_ne (ne_of_wide wide narrow)

end LooksLike

/-! ## Outcomes -/

/-- What a reader of bytes must not do. -/
inductive Fault where
  /-- Look at a byte at the end or behind it. -/
  | readsBeyond
  /-- Go to a place behind the end. -/
  | stepsBeyond
  /-- Take out a part that does not begin and end between characters. -/
  | cutsCharacter
deriving DecidableEq

/-- Why a reader stops without a result. -/
inductive Halt where
  | refusal (e : CssError)
  | fault (f : Fault)

/-- What becomes of a reader: it ends or it does not, and if it ends it has a result or
none. -/
abbrev ByteRun (α : Type) : Type :=
  ExceptT Halt Option α

namespace ByteRun

variable {α β : Type}

/-- The end of a reader that finds what another one has found. -/
def answer : Except CssError α → ByteRun α
  | .ok a => pure a
  | .error e => throw (.refusal e)

/-- Go on after a refusal, knowing of it. -/
def attempt (run : ByteRun α) : ByteRun (Except CssError α) :=
  tryCatch (Except.ok <$> run) fun
    | .refusal e => pure (.error e)
    | .fault f => throw (.fault f)

theorem attempt_answer (found : Except CssError α) : attempt (answer found) = pure found := by
  cases found with
  | ok a => rfl
  | error e => rfl

end ByteRun

/-! ## Streams -/

/-- A text with a place among its bytes. -/
structure ByteStream where
  text : List Char
  place : Nat

namespace ByteStream

open ByteRun

def start (text : List Char) : ByteStream :=
  ⟨text, 0⟩

def atEnd (s : ByteStream) : Bool :=
  width s.text ≤ s.place

/-- The byte at the place, as the character of its number. -/
def byte (s : ByteStream) : ByteRun Char :=
  match (bytes s.text)[s.place]? with
  | some b => pure (Char.ofUInt8 b)
  | none => throw (.fault .readsBeyond)

/-- The byte at the place, unless the text ends there. -/
def byteOrEnd (s : ByteStream) : ByteRun Char :=
  if s.atEnd then throw (.refusal .endOfSheet) else s.byte

/-- Whether the text goes on with a byte. -/
def isAt (c : Char) (s : ByteStream) : ByteRun Bool :=
  if s.atEnd then pure false else (· == c) <$> s.byte

/-- Whether what follows the place begins with a byte. -/
def beginsWith (c : Char) (s : ByteStream) : ByteRun Bool :=
  if width s.text < s.place then throw (.fault .readsBeyond) else s.isAt c

/-- Go on by some bytes. -/
def advance (n : Nat) (s : ByteStream) : ByteRun ByteStream :=
  if s.place + n ≤ width s.text then pure ⟨s.text, s.place + n⟩ else throw (.fault .stepsBeyond)

/-- What stands before a place, if the place lies between characters. -/
def takeBytes? : (place : Nat) → List Char → Option (List Char)
  | 0, _ => some []
  | _ + 1, [] => none
  | place + 1, c :: cs =>
    if c.utf8Size ≤ place + 1 then (takeBytes? (place + 1 - c.utf8Size) cs).map (c :: ·) else none

/-- What follows a place, if the place lies between characters. -/
def dropBytes? : (place : Nat) → List Char → Option (List Char)
  | 0, cs => some cs
  | _ + 1, [] => none
  | place + 1, c :: cs => if c.utf8Size ≤ place + 1 then dropBytes? (place + 1 - c.utf8Size) cs else none

/-- The text between two places. -/
def slice (text : List Char) (first last : Nat) : ByteRun (List Char) :=
  match (takeBytes? last text).bind (dropBytes? first) with
  | some part => pure part
  | none => throw (.fault .cutsCharacter)

/-- The text up to a later place. -/
def upTo (s behind : ByteStream) : ByteRun (List Char) :=
  slice s.text s.place behind.place

/-- The text from the place on. -/
def toEnd (s : ByteStream) : ByteRun (List Char) :=
  slice s.text s.place (width s.text)

/-! ### Places between characters -/

/-- The stream that stands before the last part of a text. -/
def before (text rest : List Char) : ByteStream :=
  ⟨text, width text - width rest⟩

theorem start_eq (text : List Char) : start text = before text text := by
  rw [before, Nat.sub_self]
  rfl

theorem width_eq_zero {cs : List Char} : width cs = 0 ↔ cs = [] := by
  cases cs with
  | nil => exact ⟨fun _ => rfl, fun _ => rfl⟩
  | cons c rest =>
      have := c.utf8Size_pos
      rw [width_cons]
      constructor
      · omega
      · intro impossible
        cases impossible

theorem width_le_of_suffix {text rest : List Char} (suffix : rest <:+ text) : width rest ≤ width text := by
  rcases suffix with ⟨front, rfl⟩
  rw [width_append]
  exact Nat.le_add_left _ _

section Places

variable {text rest : List Char} {c : Char}

theorem atEnd_before (suffix : rest <:+ text) : (before text rest).atEnd = rest.isEmpty := by
  have fits := width_le_of_suffix suffix
  have empty := @width_eq_zero rest
  rw [Bool.eq_iff_iff, List.isEmpty_iff, ← empty, atEnd, before, decide_eq_true_iff]
  dsimp only
  omega

theorem atEnd_before_cons (suffix : c :: rest <:+ text) : (before text (c :: rest)).atEnd = false :=
  atEnd_before suffix

/-- The bytes from a place between characters on. -/
theorem drop_bytes (suffix : rest <:+ text) : (bytes text).drop (width text - width rest) = bytes rest := by
  rcases suffix with ⟨front, rfl⟩
  rw [width_append, Nat.add_sub_cancel, bytes_append, ← length_bytes front, List.drop_left]

theorem byte_before_of_narrow (suffix : c :: rest <:+ text) (narrow : ¬ IsWide c) :
    (before text (c :: rest)).byte = pure c := by
  have found : (bytes text)[width text - width (c :: rest)]? = some c.toUInt8 := by
    rw [← List.head?_drop, drop_bytes suffix, bytes_cons, utf8EncodeChar_of_narrow narrow]
    rfl
  rw [byte, before]
  dsimp only
  rw [found]
  exact congrArg pure (ofUInt8_toUInt8 narrow)

/-- Between the bytes of a wide character all bytes look wide, and there is one more. -/
theorem byte_of_wide (suffix : c :: rest <:+ text) (wide : IsWide c) {passed : Nat} (inside : passed < c.utf8Size) :
    ∃ b, (⟨text, width text - width (c :: rest) + passed⟩ : ByteStream).byte = pure b ∧ IsWide b := by
  have encoded : passed < (String.utf8EncodeChar c).length := by
    rw [String.length_utf8EncodeChar]
    exact inside
  have found : (bytes text)[width text - width (c :: rest) + passed]? =
      some ((String.utf8EncodeChar c)[passed]) := by
    rw [← List.getElem?_drop, drop_bytes suffix, bytes_cons, List.getElem?_append_left encoded,
      List.getElem?_eq_getElem encoded]
  refine ⟨Char.ofUInt8 ((String.utf8EncodeChar c)[passed]), ?_,
    isWide_of_mem_utf8EncodeChar wide (List.getElem_mem encoded)⟩
  rw [byte, found]

theorem dropBytes?_append (front rest : List Char) : dropBytes? (width front) (front ++ rest) = some rest := by
  induction front with
  | nil =>
      change dropBytes? 0 rest = some rest
      rw [dropBytes?]
  | cons c front inductionHypothesis =>
      have positive := c.utf8Size_pos
      have split := width_cons c front
      cases sizeEq : width (c :: front) with
      | zero => omega
      | succ size =>
          have left : size + 1 - c.utf8Size = width front := by omega
          rw [List.cons_append, dropBytes?, if_pos (by omega), left, inductionHypothesis]

theorem takeBytes?_append (front rest : List Char) : takeBytes? (width front) (front ++ rest) = some front := by
  induction front with
  | nil =>
      change takeBytes? 0 rest = some []
      rw [takeBytes?]
  | cons c front inductionHypothesis =>
      have positive := c.utf8Size_pos
      have split := width_cons c front
      cases sizeEq : width (c :: front) with
      | zero => omega
      | succ size =>
          have left : size + 1 - c.utf8Size = width front := by omega
          rw [List.cons_append, takeBytes?, if_pos (by omega), left, inductionHypothesis, Option.map_some]

/-- The text between two places between characters. -/
theorem slice_eq {part : List Char} (suffix : part ++ rest <:+ text) :
    slice text (width text - width (part ++ rest)) (width text - width rest) = pure part := by
  rcases suffix with ⟨front, rfl⟩
  have first : width (front ++ (part ++ rest)) - width (part ++ rest) = width front := by
    rw [width_append, Nat.add_sub_cancel]
  have last : width (front ++ (part ++ rest)) - width rest = width (front ++ part) := by
    rw [← List.append_assoc, width_append, Nat.add_sub_cancel]
  rw [slice, first, last, ← List.append_assoc, takeBytes?_append, Option.bind_some, dropBytes?_append]

theorem upTo_before {part : List Char} (suffix : part ++ rest <:+ text) :
    (before text (part ++ rest)).upTo (before text rest) = pure part :=
  slice_eq suffix

theorem toEnd_before (suffix : rest <:+ text) : (before text rest).toEnd = pure rest := by
  rw [← List.append_nil rest] at suffix
  have whole : slice text (width text - width (rest ++ [])) (width text - 0) = pure rest := slice_eq suffix
  rw [List.append_nil, Nat.sub_zero] at whole
  exact whole

/-- Going past a whole character. -/
theorem advance_before (suffix : c :: rest <:+ text) :
    (before text (c :: rest)).advance c.utf8Size = pure (before text rest) := by
  have fits := width_le_of_suffix suffix
  have whole := width_cons c rest
  have next : width text - width (c :: rest) + c.utf8Size = width text - width rest := by omega
  have inside : width text - width rest ≤ width text := Nat.sub_le _ _
  rw [advance, before]
  dsimp only
  rw [next, if_pos inside, before]

/-- Going past a character of one byte. -/
theorem advance_before_of_narrow (suffix : c :: rest <:+ text) (narrow : ¬ IsWide c) :
    (before text (c :: rest)).advance 1 = pure (before text rest) := by
  rw [← utf8Size_of_narrow narrow]
  exact advance_before suffix

/-- The first byte of a character looks like the character. -/
theorem byte_before (suffix : c :: rest <:+ text) :
    ∃ b, (before text (c :: rest)).byte = pure b ∧ LooksLike b c := by
  by_cases wide : IsWide c
  · rcases byte_of_wide suffix wide c.utf8Size_pos with ⟨b, found, looksWide⟩
    exact ⟨b, found, .inr ⟨looksWide, wide⟩⟩
  · exact ⟨c, byte_before_of_narrow suffix wide, .inl rfl⟩

theorem isAt_before {d : Char} (suffix : rest <:+ text) (narrow : ¬ IsWide d) :
    (before text rest).isAt d = pure (rest.head? == some d) := by
  rw [isAt, atEnd_before suffix]
  cases rest with
  | nil => rfl
  | cons c later =>
      rcases byte_before suffix with ⟨b, found, like⟩
      rw [List.isEmpty_cons, if_neg Bool.false_ne_true, found, map_pure, like.beq_eq narrow]
      rfl

theorem beginsWith_before {d : Char} (suffix : rest <:+ text) (narrow : ¬ IsWide d) :
    (before text rest).beginsWith d = pure (rest.head? == some d) := by
  have inside : ¬ width text < width text - width rest := Nat.not_lt.mpr (Nat.sub_le _ _)
  rw [beginsWith, before, if_neg inside]
  exact isAt_before suffix narrow

/-- A loop that goes past wide bytes one by one goes past what is left of a character. -/
theorem passes_wide {α : Type} {loop : ByteStream → ByteRun α}
    (steps : ∀ s b, s.atEnd = false → s.byte = pure b → IsWide b → loop s = s.advance 1 >>= loop)
    (suffix : c :: rest <:+ text) (wide : IsWide c) {passed : Nat} (inside : passed ≤ c.utf8Size) :
    loop ⟨text, width text - width (c :: rest) + passed⟩ = loop (before text rest) := by
  have fits := width_le_of_suffix suffix
  have whole := width_cons c rest
  -- The induction is on the number of bytes that are left.
  induction remaining : c.utf8Size - passed generalizing passed with
  | zero =>
      have there : width text - width (c :: rest) + passed = width text - width rest := by omega
      rw [there, before]
  | succ more inductionHypothesis =>
      have unpassed : passed < c.utf8Size := by omega
      rcases byte_of_wide suffix wide unpassed with ⟨b, found, looksWide⟩
      have room : width text - width (c :: rest) + passed + 1 ≤ width text := by omega
      have unfinished : (⟨text, width text - width (c :: rest) + passed⟩ : ByteStream).atEnd = false :=
        decide_eq_false (Nat.not_le.mpr room)
      rw [steps _ b unfinished found looksWide, advance, if_pos room, pure_bind]
      exact @inductionHypothesis (passed + 1) unpassed (by omega)

/-- After the first byte of any character only wide bytes are left of it. -/
theorem passes_rest {α : Type} {loop : ByteStream → ByteRun α}
    (steps : ∀ s b, s.atEnd = false → s.byte = pure b → IsWide b → loop s = s.advance 1 >>= loop)
    (suffix : c :: rest <:+ text) :
    (before text (c :: rest)).advance 1 >>= loop = loop (before text rest) := by
  by_cases wide : IsWide c
  · have fits := width_le_of_suffix suffix
    have whole := width_cons c rest
    have positive := c.utf8Size_pos
    rw [advance, before, if_pos (by dsimp only; omega), pure_bind]
    exact passes_wide steps suffix wide positive
  · rw [advance_before_of_narrow suffix wide, pure_bind]

end Places

end ByteStream
end Css
end SlimSvg
