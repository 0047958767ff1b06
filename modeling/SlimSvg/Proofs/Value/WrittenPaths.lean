import Mathlib.Data.Bool.AllAny
import Mathlib.Data.List.DropRight
import SlimSvg.Proofs.Value.WrittenTransforms

namespace SlimSvg

/-!
# Written path data

Path data is written with as few characters as its grammar allows: a letter that repeats is
left out, and a number is set off from the one before it only where the two would be read as
one.  The grammar is told here in its own words, with texts in place of numbers.  Whatever
the numbers are, it finds the commands and the texts that were written.  The reader finds the
commands, too, with each number as its compact form says it, so path data that was read is
written once more as it was.
-/

open Number

/-! ## The grammar of path data -/

namespace PathGrammar

/-- What a command is followed by: numbers, and flags of one character. -/
inductive Argument where
  | number
  | flag
deriving DecidableEq, Repr

def arguments : PathCommand → List Argument
  | .move | .line | .smoothQuadratic => [.number, .number]
  | .horizontal | .vertical => [.number]
  | .curve => [.number, .number, .number, .number, .number, .number]
  | .smoothCurve | .quadratic => [.number, .number, .number, .number]
  | .arc => [.number, .number, .number, .flag, .flag, .number, .number]
  | .close => []

/-- The longest number at the front of a text: a sign, digits, and a point with digits. -/
def number? (cs : List Char) : Option (List Char × List Char) :=
  let (sign, body) := Value.splitSign cs
  let whole := body.takeWhile Char.isDigit
  let (fraction, rest) := Value.splitFraction (body.dropWhile Char.isDigit)
  if (whole ++ fraction).any Char.isDigit then some (sign ++ (whole ++ fraction), rest) else none

def argument? : Argument → List Char → Option (List Char × List Char)
  | .number, cs => number? cs
  | .flag, '0' :: rest => some (['0'], rest)
  | .flag, '1' :: rest => some (['1'], rest)
  | .flag, _ => none

/-- The texts of arguments, which may be separated. -/
def arguments? : List Argument → List Char → Option (List (List Char) × List Char)
  | [], cs => some ([], cs)
  | argument :: more, cs => do
    let (text, rest) ← argument? argument (Value.skipSpaces cs)
    let (texts, rest) ← arguments? more (if more.isEmpty then rest else Value.skipSeparator rest)
    some (text :: texts, rest)

/-- The command that arguments without a letter belong to, after the command of a letter. -/
def implied? : Char → Option Char
  | 'M' => some 'L'
  | 'm' => some 'l'
  | 'Z' | 'z' => none
  | letter => some letter

/-- The letter of the command at the front of a text, written or implied, and what follows
it.  A path begins with a move. -/
def letter? (previous : Option Char) : List Char → Option (Char × List Char)
  | [] => none
  | c :: rest =>
    if (PathCommand.ofLetter? c).isSome then
      if previous.isSome || c.toLower == 'm' then some (c, rest) else none
    else (previous.bind implied?).map fun letter => (letter, Value.skipSeparator (c :: rest))

/-- The commands of a text with the texts of their arguments; every command takes at least one
character. -/
def commands? : (bound : Nat) → (previous : Option Char) → List Char →
    Option (List (Char × List (List Char)))
  | bound, previous, cs =>
    match Value.skipSpaces cs with
    | [] => some []
    | cs =>
      match bound with
      | 0 => none
      | bound + 1 => do
        let (letter, rest) ← letter? previous cs
        let (command, _) ← PathCommand.ofLetter? letter
        let (texts, rest) ← arguments? (arguments command) rest
        let more ← commands? bound (some letter) rest
        some ((letter, texts) :: more)

def read? (s : String) : Option (List (Char × List (List Char))) :=
  commands? s.toList.length none s.toList

/-! ## Reading arguments -/

/-- A row has a digit, before its point or behind it. -/
theorem exists_isDigit {cs whole fraction : List Char} (spells : Spells cs whole fraction) :
    cs.any Char.isDigit = true := by
  rw [List.any_eq_true]
  cases spells with
  | whole some digits =>
      rcases List.exists_mem_of_ne_nil _ some with ⟨c, listed⟩
      exact ⟨c, listed, digits c listed⟩
  | pointed some digits =>
      rcases List.exists_mem_of_ne_nil _ some with ⟨c, listed⟩
      exact ⟨c, List.mem_append_right _ (List.mem_cons_of_mem _ listed), digits c (List.mem_append_right _ listed)⟩

section Arguments

variable {x : Binary} {rest : List Char}

/-- A written number is read as it stands, if what follows cannot be a part of it. -/
theorem number?_compactChars (ends : EndsBefore x.compactChars rest) :
    number? (x.compactChars ++ rest) = some (x.compactChars, rest) := by
  rcases x.exists_signed_compactChars with ⟨negative, cs, whole, fraction, written, spells⟩
  rw [written] at ends ⊢
  rcases spells.splitFraction_eq ends.of_signed with ⟨point, cut, joined⟩
  rw [number?, spells.splitSign_signed]
  dsimp only
  rw [cut]
  dsimp only
  rw [joined, if_pos (exists_isDigit spells), signed_append]

theorem compactChars_flag (b : Bool) : (PathAction.flag b).compactChars = [if b then '1' else '0'] := by
  cases b <;> decide +kernel

/-- Whether a number is one that is written for an argument. -/
def Holds : Argument → Binary → Prop
  | .number, _ => True
  | .flag, x => ∃ b, x = PathAction.flag b

theorem argument?_compactChars {argument : Argument} (holds : Holds argument x)
    (ends : EndsBefore x.compactChars rest) :
    argument? argument (x.compactChars ++ rest) = some (x.compactChars, rest) := by
  cases argument with
  | number => exact number?_compactChars ends
  | flag =>
      rcases holds with ⟨b, rfl⟩
      rw [compactChars_flag]
      cases b <;> rfl

/-- A row of arguments is read as it was written, whatever stands behind it, if this cannot
be read as a part of the last one. -/
theorem arguments?_writeNumbers {arguments : List Argument} {xs : List Binary}
    (hold : List.Forall₂ Holds arguments xs) (before : List Char)
    (ends : ∀ y ∈ xs.getLast?, EndsBefore y.compactChars rest) :
    arguments? arguments (writeNumbers before xs ++ rest) = some (xs.map Binary.compactChars, rest) := by
  induction hold generalizing before with
  | nil => rfl
  | @cons argument x more ys holds later inductionHypothesis =>
      rw [arguments?, skipSpaces_writeNumbers]
      cases later with
      | nil =>
          have last : EndsBefore x.compactChars (writeNumbers x.compactChars [] ++ rest) := ends x rfl
          rw [argument?_compactChars holds last]
          rfl
      | @cons _ y _ ys =>
          have others := inductionHypothesis [] fun z last => ends z (by rw [List.getLast?_cons_cons]; exact last)
          rw [argument?_compactChars holds (endsBefore_writeNumbers x y ys rest)]
          change (arguments? _ (Value.skipSeparator _)).bind _ = _
          rw [skipSeparator_writeNumbers, others]
          rfl

theorem forall₂_arguments (action : PathAction) : List.Forall₂ Holds (arguments action.command) action.arguments := by
  cases action <;> simp [arguments, PathAction.command, PathAction.arguments, Holds]

end Arguments

end PathGrammar

/-! ## Letters -/

theorem toLower_of_isDigit {c : Char} (digit : c.isDigit = true) : c.toLower = c := by
  unfold Char.toLower
  refine dif_neg ?_
  simp only [Char.isDigit, Bool.and_eq_true, decide_eq_true_eq, ge_iff_le, UInt32.le_iff_toNat_le] at digit ⊢
  have upper : c.val.toNat ≤ 57 := digit.2
  rintro ⟨lower, -⟩
  have lower : 65 ≤ c.val.toNat := lower
  omega
namespace PathCommand

theorem ofLetter?_eq_some {c : Char} {command : PathCommand} {absolute : Bool}
    (found : ofLetter? c = some (command, absolute)) : command.letter = c.toLower := by
  rcases Option.map_eq_some_iff.mp found with ⟨own, first, same⟩
  have letter := List.find?_some first
  rw [← (Prod.mk.inj same).1]
  exact eq_of_beq letter

/-- No number begins with the letter of a command. -/
theorem ofLetter?_of_isNumeric {c : Char} (numeric : Value.IsNumeric c) : ofLetter? c = none := by
  rcases numeric with digit | listed
  · rw [Option.eq_none_iff_forall_not_mem]
    rintro ⟨command, absolute⟩ found
    have same := ofLetter?_eq_some found
    rw [toLower_of_isDigit digit] at same
    rw [← same] at digit
    cases command <;> exact absurd digit (by decide)
  · simp only [List.mem_cons, List.not_mem_nil, or_false] at listed
    rcases listed with rfl | rfl | rfl | rfl | rfl <;> rfl

end PathCommand

namespace PathSegment
theorem ofLetter?_letter (s : PathSegment) : PathCommand.ofLetter? s.letter = some (s.action.command, s.absolute) := by
  rw [letter]
  generalize s.action.command = command
  generalize s.absolute = absolute
  cases absolute <;> cases command <;> decide

/-- The letters of commands. -/
def letters : List Char :=
  PathCommand.all.flatMap fun command => [command.letter, command.letter.toUpper]

theorem letter_mem (s : PathSegment) : s.letter ∈ letters := by
  rw [letter]
  generalize s.action.command = command
  generalize s.absolute = absolute
  cases absolute <;> cases command <;> decide

theorem letter_solid (s : PathSegment) : Text.isXmlSpace s.letter = false := by
  have solid : ∀ c ∈ letters, Text.isXmlSpace c = false := List.all_iff_forall_prop.mp (by decide)
  exact solid _ s.letter_mem

theorem endsBefore_letter (cs : List Char) (s : PathSegment) (rest : List Char) :
    EndsBefore cs (s.letter :: rest) := by
  have shape : ∀ c ∈ letters, c.isDigit = false ∧ c ≠ '.' ∧ c ≠ 'e' ∧ c ≠ 'E' :=
    List.all_iff_forall_prop.mp (by decide)
  rcases shape _ s.letter_mem with ⟨digit, point, small, capital⟩
  refine ⟨?_, ?_, Value.splitExponent?_of_ne small capital rest⟩
  · rintro c ⟨⟩
    exact digit
  · intro same
    exact absurd (Option.some.inj same) point
end PathSegment
/-! ## Segments -/

namespace PathData

/-- A letter is implied after the same letter only, and a figure is not ended twice without
it. -/
theorem isImplied_iff {previous : Option Char} {letter : Char} :
    isImplied previous letter = true ↔
      previous = some letter ∧ letter.toLower ≠ 'm' ∧ letter.toLower ≠ 'z' := by
  rw [isImplied, Bool.and_eq_true, Bool.and_eq_true, beq_iff_eq, bne_iff_ne, bne_iff_ne, and_assoc]

theorem exists_arguments_eq_cons {s : PathSegment} (other : s.letter.toLower ≠ 'z') :
    ∃ x xs, s.action.arguments = x :: xs := by
  rcases s with ⟨absolute, action⟩
  cases action with
  | close => cases absolute <;> exact absurd rfl other
  | _ => exact ⟨_, _, rfl⟩

/-- The number that stands before the next segment. -/
def lastNumber (number : List Char) (s : PathSegment) : List Char :=
  match s.action.arguments.getLast? with
  | some x => x.compactChars
  | none => number

theorem writeSegments_of_implied {previous : Option Char} {number : List Char} {s : PathSegment}
    (implied : isImplied previous s.letter = true) (rest : List PathSegment) :
    writeSegments previous number (s :: rest) =
      writeNumbers number s.action.arguments ++ writeSegments (some s.letter) (lastNumber number s) rest := by
  rw [writeSegments, implied]
  rfl

theorem writeSegments_of_not_implied {previous : Option Char} {number : List Char} {s : PathSegment}
    (told : ¬ isImplied previous s.letter = true) (rest : List PathSegment) :
    writeSegments previous number (s :: rest) =
      s.letter :: (writeNumbers [] s.action.arguments ++ writeSegments (some s.letter) (lastNumber [] s) rest) := by
  rw [writeSegments, Bool.eq_false_iff.mpr told]
  rfl

/-- A number ends where the next segment begins. -/
theorem endsBefore_writeSegments (x : Binary) (previous : Option Char) (segments : List PathSegment) :
    EndsBefore x.compactChars (writeSegments previous x.compactChars segments) := by
  cases segments with
  | nil => exact endsBefore_nil _
  | cons s rest =>
      by_cases implied : isImplied previous s.letter = true
      · rcases exists_arguments_eq_cons (isImplied_iff.mp implied).2.2 with ⟨y, ys, written⟩
        rw [writeSegments_of_implied implied, written]
        exact endsBefore_writeNumbers x y ys _
      · rw [writeSegments_of_not_implied implied]
        exact PathSegment.endsBefore_letter _ s _

theorem endsBefore_lastNumber (number : List Char) (s : PathSegment) (rest : List PathSegment) :
    ∀ x ∈ s.action.arguments.getLast?,
      EndsBefore x.compactChars (writeSegments (some s.letter) (lastNumber number s) rest) := by
  intro x last
  have same : lastNumber number s = x.compactChars := by
    rw [lastNumber, last]
  rw [same]
  exact endsBefore_writeSegments x _ rest

end PathData

namespace PathGrammar

open PathData

theorem implied?_of_repeated {c : Char} (repeated : c.toLower ≠ 'm' ∧ c.toLower ≠ 'z') : implied? c = some c := by
  unfold implied?
  split
  · exact absurd rfl repeated.1
  · exact absurd rfl repeated.1
  · exact absurd rfl repeated.2
  · exact absurd rfl repeated.2
  · rfl

/-- The letter of a segment is found at its front, or it is implied. -/
theorem letter?_writeSegments {previous : Option Char} {s : PathSegment} (number : List Char)
    (start : previous = none → s.action.command = .move) (rest : List PathSegment) :
    ∃ c behind number', Value.skipSpaces (writeSegments previous number (s :: rest)) = c :: behind ∧
      letter? previous (c :: behind) = some (s.letter, writeNumbers [] s.action.arguments ++
        writeSegments (some s.letter) (lastNumber number' s) rest) := by
  by_cases implied : isImplied previous s.letter = true
  · rcases isImplied_iff.mp implied with ⟨rfl, repeated⟩
    rcases exists_arguments_eq_cons repeated.2 with ⟨x, xs, written⟩
    rw [writeSegments_of_implied implied, written, skipSpaces_writeNumbers]
    rcases List.exists_cons_of_ne_nil (compactChars_ne_nil x) with ⟨c, digits, text⟩
    have joined (tail : List Char) : x.compactChars ++ tail = c :: (digits ++ tail) := congrArg (· ++ tail) text
    have numeric : Value.IsNumeric c := isNumeric_of_mem_compactChars (text ▸ List.mem_cons_self)
    rw [joined]
    refine ⟨c, _, number, rfl, ?_⟩
    rw [letter?, PathCommand.ofLetter?_of_isNumeric numeric, Option.bind_some, implied?_of_repeated repeated]
    refine (if_neg Bool.false_ne_true).trans ?_
    rw [Option.map_some, ← joined, ← List.append_assoc, ← writeNumbers_nil_cons, skipSeparator_writeNumbers]
  · rw [writeSegments_of_not_implied implied]
    refine ⟨s.letter, _, [], List.dropWhile_cons_of_neg (Bool.eq_false_iff.mp s.letter_solid), ?_⟩
    rw [letter?, PathSegment.ofLetter?_letter]
    refine (if_pos rfl).trans (if_pos ?_)
    cases previous with
    | some c => rfl
    | none =>
        rw [← PathCommand.ofLetter?_eq_some s.ofLetter?_letter, start rfl]
        rfl

/-- Segments are read as they were written, after any command or from the start. -/
theorem commands?_writeSegments {segments : List PathSegment} {bound : Nat} {previous : Option Char}
    (number : List Char) (enough : segments.length ≤ bound)
    (start : previous = none → ∀ s ∈ segments.head?, s.action.command = .move) :
    commands? bound previous (writeSegments previous number segments) =
      some (segments.map fun s => (s.letter, s.action.arguments.map Binary.compactChars)) := by
  induction segments generalizing bound previous number with
  | nil => cases bound <;> rfl
  | cons s rest inductionHypothesis =>
      cases bound with
      | zero => exact absurd enough (Nat.not_succ_le_zero _)
      | succ bound =>
        rcases letter?_writeSegments number (fun first => start first s rfl) rest with
          ⟨c, behind, number', front, letter⟩
        have later := @inductionHypothesis bound (some s.letter) (lastNumber number' s)
          (Nat.le_of_succ_le_succ enough) fun impossible => nomatch impossible
        have texts := arguments?_writeNumbers (forall₂_arguments s.action) [] (endsBefore_lastNumber number' s rest)
        rw [commands?, front]
        dsimp only
        rw [letter]
        change (PathCommand.ofLetter? s.letter).bind _ = _
        rw [s.ofLetter?_letter]
        change (arguments? (arguments s.action.command) _).bind _ = _
        rw [texts]
        change (commands? bound (some s.letter) _).bind _ = _
        rw [later]
        rfl

theorem length_le_length_writeSegments (previous : Option Char) (number : List Char) (segments : List PathSegment) :
    segments.length ≤ (writeSegments previous number segments).length := by
  induction segments generalizing previous number with
  | nil => exact Nat.zero_le _
  | cons s rest inductionHypothesis =>
      by_cases implied : isImplied previous s.letter = true
      · have later := inductionHypothesis (some s.letter) (lastNumber number s)
        rcases exists_arguments_eq_cons (isImplied_iff.mp implied).2.2 with ⟨x, xs, written⟩
        have some := List.length_pos_of_ne_nil (compactChars_ne_nil x)
        rw [writeSegments_of_implied implied, written, writeNumbers_cons]
        simp only [List.length_append, List.length_cons]
        omega
      · have later := inductionHypothesis (some s.letter) (lastNumber [] s)
        rw [writeSegments_of_not_implied implied, List.length_cons, List.length_cons, List.length_append]
        omega

/-- Path data that begins with a move is read by the grammar as it was written: every
command, with its letter or without, and the text of every argument, in order. -/
theorem finds_what_is_written {d : PathData} (start : ∀ s ∈ d.segments.head?, s.action.command = .move) :
    read? d.write = some (d.segments.map fun s => (s.letter, s.action.arguments.map Binary.compactChars)) := by
  rw [read?, PathData.write, String.toList_ofList]
  exact commands?_writeSegments [] (length_le_length_writeSegments none [] d.segments) fun _ => start

/-- Points, signs and blanks between numbers, a repeated move, repeated lines and arcs, and
two ends. -/
theorem finds_lines_and_arcs :
    ∃ d : PathData, d.write = "m.5-.5m1 .5L.5 3 .5-3a1 1 0 1 0 .5 1.5 1 1 0 0 1 3-.5ZZ" ∧
      read? d.write = some ([('m', [".5", "-.5"]), ('m', ["1", ".5"]), ('L', [".5", "3"]), ('L', [".5", "-3"]),
        ('a', ["1", "1", "0", "1", "0", ".5", "1.5"]), ('a', ["1", "1", "0", "0", "1", "3", "-.5"]),
        ('Z', []), ('Z', [])].map fun (letter, texts) => (letter, texts.map String.toList)) := by
  let half := Binary.finite false 1 (-1)
  let minusHalf := Binary.finite true 1 (-1)
  let one := Binary.finite false 1 0
  let three := Binary.finite false 3 0
  let d : PathData := ⟨[⟨false, .move half minusHalf⟩, ⟨false, .move one half⟩, ⟨true, .line half three⟩,
    ⟨true, .line half three.neg⟩, ⟨false, .arc one one (Binary.zero false) true false half (.finite false 3 (-1))⟩,
    ⟨false, .arc one one (Binary.zero true) false true three minusHalf⟩, ⟨true, .close⟩, ⟨true, .close⟩]⟩
  have found := finds_what_is_written (d := d) (by rintro s ⟨⟩; rfl)
  exact ⟨d, by decide +kernel, found.trans (by decide +kernel)⟩

end PathGrammar

/-! ## Reading paths -/

namespace PathAction

/-- The action with each number as its compact form says it. -/
def said : PathAction → PathAction
  | move x y => move x.said y.said
  | line x y => line x.said y.said
  | horizontal x => horizontal x.said
  | vertical y => vertical y.said
  | curve x₁ y₁ x₂ y₂ x y => curve x₁.said y₁.said x₂.said y₂.said x.said y.said
  | smoothCurve x₂ y₂ x y => smoothCurve x₂.said y₂.said x.said y.said
  | quadratic x₁ y₁ x y => quadratic x₁.said y₁.said x.said y.said
  | smoothQuadratic x y => smoothQuadratic x.said y.said
  | arc rx ry rotation large sweep x y => arc rx.said ry.said rotation.said large sweep x.said y.said
  | close => close

theorem said_flag (b : Bool) : (flag b).said = flag b := by
  cases b <;> rfl

theorem isExact_flag (b : Bool) : (flag b).IsExact := by
  cases b with
  | false => exact Binary.isExact_zero
  | true =>
      have one : flag true = Binary.ofNat double 1 := by decide +kernel
      refine ⟨?_, rfl⟩
      rw [one]
      exact Binary.fits_ofRatio (by decide) Nat.one_pos

theorem command_said (action : PathAction) : action.said.command = action.command := by
  cases action <;> rfl

theorem arguments_said (action : PathAction) : action.said.arguments = action.arguments.map Binary.said := by
  cases action <;> simp only [said, arguments, List.map_cons, List.map_nil, said_flag]

end PathAction

namespace PathSegment

def said (s : PathSegment) : PathSegment :=
  ⟨s.absolute, s.action.said⟩

theorem letter_said (s : PathSegment) : s.said.letter = s.letter := by
  rw [letter, letter, said, PathAction.command_said]

/-- Whether the numbers of a segment are finite numbers of the format. -/
def IsExact (s : PathSegment) : Prop :=
  ∀ x ∈ s.action.arguments, x.IsExact

end PathSegment

namespace PathData

theorem writeSegments_map_said (previous : Option Char) (number : List Char) (segments : List PathSegment) :
    writeSegments previous number (segments.map PathSegment.said) = writeSegments previous number segments := by
  induction segments generalizing previous number with
  | nil => rfl
  | cons s rest inductionHypothesis =>
      have last (number : List Char) : lastNumber number s.said = lastNumber number s := by
        rw [lastNumber, lastNumber, PathSegment.said, PathAction.arguments_said, List.getLast?_map]
        cases s.action.arguments.getLast? with
        | none => rfl
        | some x => exact Binary.compactChars_said x
      have numbers (before : List Char) : writeNumbers before s.said.action.arguments =
          writeNumbers before s.action.arguments := by
        rw [PathSegment.said, PathAction.arguments_said, writeNumbers_map_said]
      rw [List.map_cons]
      by_cases implied : isImplied previous s.letter = true
      · rw [writeSegments_of_implied implied, writeSegments_of_implied (s.letter_said ▸ implied), numbers, last,
          s.letter_said, inductionHypothesis]
      · rw [writeSegments_of_not_implied implied, writeSegments_of_not_implied (s.letter_said ▸ implied), numbers, last,
          s.letter_said, inductionHypothesis]

section Reading

variable {x : Binary} {rest : List Char}

theorem writeNumbers_append (before : List Char) (xs : List Binary) (x : Binary) (ys : List Binary) :
    writeNumbers before (xs ++ x :: ys) = writeNumbers before (xs ++ [x]) ++ writeNumbers x.compactChars ys := by
  induction xs generalizing before with
  | nil =>
      rw [List.nil_append, List.nil_append, writeNumbers_cons, writeNumbers_cons, List.append_assoc, List.append_assoc]
      rfl
  | cons y more inductionHypothesis =>
      rw [List.cons_append, List.cons_append, writeNumbers_cons, writeNumbers_cons, inductionHypothesis,
        List.append_assoc, List.append_assoc]

theorem comma_notMem_head?_writeNumbers (before : List Char) (x : Binary) (xs : List Binary) (rest : List Char) :
    ',' ∉ (writeNumbers before (x :: xs) ++ rest).head? := by
  rw [writeNumbers_cons]
  split
  · exact fun comma => absurd (Option.some.inj comma) (by decide)
  · rw [List.nil_append, List.append_assoc]
    exact fun comma => absurd (isNumeric_of_head? comma) (by unfold Value.IsNumeric; decide)

theorem scanFlag?_digit (b : Bool) {tail : List Char} (noComma : ',' ∉ tail.head?) :
    scanFlag? ((if b then '1' else '0') :: tail) = some (b, Value.skipSpaces tail) := by
  cases b with
  | false =>
      change some (false, _) = some (false, Value.skipSpaces tail)
      dsimp only
      split
      · exact absurd rfl noComma
      · rfl
  | true =>
      change some (true, _) = some (true, Value.skipSpaces tail)
      dsimp only
      split
      · exact absurd rfl noComma
      · rfl

/-- A flag is read as it was written, with what separates it from the next argument. -/
theorem scanFlag?_writeNumbers (b : Bool) (before : List Char) (x : Binary) (xs : List Binary) (rest : List Char) :
    scanFlag? (writeNumbers before (PathAction.flag b :: x :: xs) ++ rest) =
      some (b, writeNumbers [] (x :: xs) ++ rest) := by
  have digit : (PathAction.flag b).compactChars = [if b then '1' else '0'] := PathGrammar.compactChars_flag b
  have noComma := comma_notMem_head?_writeNumbers (PathAction.flag b).compactChars x xs rest
  have behind := skipSpaces_writeNumbers (PathAction.flag b).compactChars x xs rest
  rw [← List.append_assoc, ← writeNumbers_nil_cons, digit] at behind
  have front := skipSpaces_writeNumbers before (PathAction.flag b) (x :: xs) rest
  rw [digit] at front noComma
  have same (first second : List Char) (equal : Value.skipSpaces first = second) (solid : Value.skipSpaces second = second) :
      scanFlag? first = scanFlag? second := by
    rw [scanFlag?, scanFlag?, equal, solid]
  rw [same _ _ front (List.dropWhile_cons_of_neg (by cases b <;> decide)), ← behind]
  exact scanFlag?_digit b noComma

/-- The arguments of an action are read as they were written. -/
theorem scanAction?_writeNumbers {action : PathAction} (exact : ∀ x ∈ action.arguments, x.IsExact)
    (ends : ∀ y ∈ action.arguments.getLast?, EndsBefore y.compactChars rest)
    (noComma : ',' ∉ (Value.skipSpaces rest).head?) :
    ∃ behind, Value.skipSpaces behind = Value.skipSpaces rest ∧
      scanAction? action.command (writeNumbers [] action.arguments ++ rest) = some (action.said, behind) := by
  have fits : ∀ x ∈ action.arguments, x.Fits double := fun x listed => (exact x listed).1
  have behind : Value.skipSpaces (Value.skipSeparator rest) = Value.skipSpaces rest := by
    rw [skipSeparator_of_ne_comma noComma]
    exact List.dropWhile_idempotent Text.isXmlSpace rest
  cases action with
  | close => exact ⟨rest, rfl, rfl⟩
  | arc rx ry rotation large sweep x y =>
      refine ⟨_, behind, ?_⟩
      have sizes := @scanListNumbers?_writeNumbers rx _ [ry, rotation]
        (fun z listed => fits z (List.mem_append_left [PathAction.flag large, PathAction.flag sweep, x, y] listed)) []
        (by rintro z ⟨⟩; exact endsBefore_writeNumbers rotation (PathAction.flag large) [PathAction.flag sweep, x, y] rest)
      have largeFlag := scanFlag?_writeNumbers large [] (PathAction.flag sweep) [x, y] rest
      have sweepFlag := scanFlag?_writeNumbers sweep [] x [y] rest
      have point := @scanListNumbers?_writeNumbers x _ [y] (fun z listed => fits z (List.mem_append_right
        [rx, ry, rotation, PathAction.flag large, PathAction.flag sweep] listed)) [] ends
      rw [skipSeparator_writeNumbers] at sizes
      have written := writeNumbers_append [] [rx, ry] rotation [PathAction.flag large, PathAction.flag sweep, x, y]
      change (Value.scanListNumbers? [rx, ry, rotation].length (writeNumbers [] ([rx, ry] ++ rotation :: _) ++ rest)).bind _ = _
      rw [written, List.append_assoc]
      refine (congrArg (Option.bind · _) sizes).trans ?_
      change (scanFlag? _).bind _ = _
      rw [largeFlag]
      change (scanFlag? _).bind _ = _
      rw [sweepFlag]
      exact congrArg (Option.bind · _) point
  | horizontal x =>
      refine ⟨_, behind, ?_⟩
      have number := @scanListNumber?_writeNumbers x rest [] (fits x List.mem_cons_self) [] (ends x rfl)
      exact congrArg (Option.bind · _) number
  | vertical y =>
      refine ⟨_, behind, ?_⟩
      have number := @scanListNumber?_writeNumbers y rest [] (fits y List.mem_cons_self) [] (ends y rfl)
      exact congrArg (Option.bind · _) number
  | _ =>
      refine ⟨_, behind, ?_⟩
      have numbers := scanListNumbers?_writeNumbers fits [] ends
      exact congrArg (Option.bind · _) numbers

theorem startsNumber_compactChars {c : Char} {tail : List Char} (front : x.compactChars = c :: tail) :
    startsNumber c = true := by
  rcases x.exists_signed_compactChars with ⟨negative, cs, whole, fraction, written, spells⟩
  rw [written, signed] at front
  rw [startsNumber, Bool.or_eq_true, Bool.or_eq_true]
  split at front
  · rw [← (List.cons.inj front).1]
    exact .inl (.inr rfl)
  · exact .inl (.inl (spells.isNumberChar (front ▸ List.mem_cons_self)))

/-- The command of a segment as it is found, and repeated. -/
def commandOf (s : PathSegment) : PathCommand × Bool :=
  (s.action.command, s.absolute)

/-- A number without a letter before it repeats the command. -/
theorem scanCommand?_repeated {s : PathSegment} {c : Char} (numeric : Value.IsNumeric c) (starts : startsNumber c = true)
    (other : s.letter.toLower ≠ 'm' ∧ s.letter.toLower ≠ 'z') (behind : List Char) :
    scanCommand? (some (commandOf s)) (c :: behind) = some (commandOf s, commandOf s, c :: behind) := by
  have same := PathCommand.ofLetter?_eq_some s.ofLetter?_letter
  rw [← same] at other
  unfold scanCommand?
  dsimp only [commandOf]
  rw [PathCommand.ofLetter?_of_isNumeric numeric]
  dsimp only
  rw [starts]
  cases command : s.action.command with
  | move => exact absurd (by rw [command]; rfl) other.1
  | close => exact absurd (by rw [command]; rfl) other.2
  | _ => rfl

/-- A segment begins with its letter, or with a number if the letter is implied. -/
theorem scanCommand?_writeSegments {previous : Option PathSegment} {s : PathSegment} (number : List Char)
    (start : previous = none → s.action.command = .move) (rest : List PathSegment) :
    ∃ c behind number', Value.skipSpaces (writeSegments (previous.map PathSegment.letter) number (s :: rest)) = c :: behind ∧
      scanCommand? (previous.map commandOf) (c :: behind) = some (commandOf s, commandOf s,
        writeNumbers [] s.action.arguments ++ writeSegments (some s.letter) (lastNumber number' s) rest) := by
  by_cases implied : isImplied (previous.map PathSegment.letter) s.letter = true
  · rcases isImplied_iff.mp implied with ⟨same, other⟩
    rcases Option.map_eq_some_iff.mp same with ⟨p, rfl, sameLetter⟩
    rcases exists_arguments_eq_cons other.2 with ⟨x, xs, written⟩
    have repeated : commandOf p = commandOf s := by
      have found := p.ofLetter?_letter
      rw [sameLetter, s.ofLetter?_letter] at found
      exact (Option.some.inj found).symm
    rw [writeSegments_of_implied implied, written, skipSpaces_writeNumbers]
    rcases List.exists_cons_of_ne_nil (compactChars_ne_nil x) with ⟨c, digits, text⟩
    have joined (tail : List Char) : x.compactChars ++ tail = c :: (digits ++ tail) := congrArg (· ++ tail) text
    have numeric : Value.IsNumeric c := isNumeric_of_mem_compactChars (text ▸ List.mem_cons_self)
    refine ⟨c, digits ++ (writeNumbers x.compactChars xs ++ writeSegments (some s.letter) (lastNumber number s) rest), number,
      joined _, ?_⟩
    rw [writeNumbers_nil_cons, List.append_assoc, joined]
    exact (congrArg (fun again => scanCommand? (some again) _) repeated).trans
      (scanCommand?_repeated numeric (startsNumber_compactChars text) other _)
  · rw [writeSegments_of_not_implied implied]
    refine ⟨s.letter, _, [], List.dropWhile_cons_of_neg (Bool.eq_false_iff.mp s.letter_solid), ?_⟩
    unfold scanCommand?
    dsimp only
    rw [s.ofLetter?_letter]
    cases previous with
    | none => exact if_pos (beq_iff_eq.mpr (start rfl))
    | some p => rfl

theorem scanCommand?_comma (previous : Option (PathCommand × Bool)) (behind : List Char) :
    scanCommand? previous (',' :: behind) = none := by
  cases previous <;> rfl

theorem comma_notMem_head?_writeSegments (s : PathSegment) (number : List Char) (segments : List PathSegment) :
    ',' ∉ (Value.skipSpaces (writeSegments (some s.letter) number segments)).head? := by
  cases segments with
  | nil => exact Option.not_mem_none _
  | cons next rest =>
      rcases @scanCommand?_writeSegments (some s) next number (fun impossible => nomatch impossible) rest with
        ⟨c, behind, number', front, command⟩
      rw [Option.map_some] at front
      rw [front]
      intro comma
      rw [Option.some.inj comma, scanCommand?_comma] at command
      cases command

/-- Segments are read as they were written, up to the signs of zeros. -/
theorem scanSegments?_writeSegments {segments : List PathSegment} (exact : ∀ s ∈ segments, s.IsExact)
    {bound : Nat} (enough : segments.length ≤ bound) {previous : Option PathSegment}
    (start : previous = none → ∀ s ∈ segments.head?, s.action.command = .move) (number : List Char) {cs : List Char}
    (same : Value.skipSpaces cs = Value.skipSpaces (writeSegments (previous.map PathSegment.letter) number segments)) :
    scanSegments? bound (previous.map commandOf) cs = some (segments.map PathSegment.said) := by
  induction segments generalizing bound previous number cs with
  | nil =>
      have nothing : Value.skipSpaces cs = [] := same
      unfold scanSegments?
      rw [nothing]
      rfl
  | cons s rest inductionHypothesis =>
      rcases List.forall_mem_cons.mp exact with ⟨here, later⟩
      cases bound with
      | zero => exact absurd enough (Nat.not_succ_le_zero _)
      | succ bound =>
        rcases scanCommand?_writeSegments number (fun first => start first s rfl) rest with
          ⟨c, behind, number', front, command⟩
        rcases scanAction?_writeNumbers here (endsBefore_lastNumber number' s rest)
          (comma_notMem_head?_writeSegments s _ rest) with ⟨remaining, sameRest, action⟩
        have others := @inductionHypothesis later bound (Nat.le_of_succ_le_succ enough) (some s)
          (fun impossible => nomatch impossible) (lastNumber number' s) remaining sameRest
        rw [scanSegments?, same, front]
        dsimp only
        rw [command]
        change (scanAction? s.action.command _).bind _ = _
        rw [action]
        change (scanSegments? bound (some (commandOf s)) remaining).bind _ = _
        rw [show scanSegments? bound (some (commandOf s)) remaining = _ from others]
        rfl

/-- Path data is read as it was written, up to the signs of zeros. -/
theorem read?_write {d : PathData} (exact : ∀ s ∈ d.segments, s.IsExact)
    (start : ∀ s ∈ d.segments.head?, s.action.command = .move) :
    read? d.write = some ⟨d.segments.map PathSegment.said⟩ := by
  have segments := @scanSegments?_writeSegments d.segments exact _
    (PathGrammar.length_le_length_writeSegments none [] d.segments) none (fun _ => start) [] _ rfl
  rw [read?, write, String.toList_ofList]
  exact congrArg (Option.map PathData.mk) segments

/-! ## What is read -/

theorem isExact_of_scanAction? {command : PathCommand} {cs : List Char} {action : PathAction}
    (found : scanAction? command cs = some (action, rest)) :
    action.command = command ∧ ∀ x ∈ action.arguments, x.IsExact := by
  cases command with
  | close =>
      rcases Prod.mk.inj (Option.some.inj found) with ⟨rfl, -⟩
      exact ⟨rfl, List.forall_mem_nil _⟩
  | horizontal =>
      rcases Option.bind_eq_some_iff.mp found with ⟨⟨x, behind⟩, number, same⟩
      rcases Prod.mk.inj (Option.some.inj same) with ⟨rfl, -⟩
      exact ⟨rfl, List.forall_mem_singleton.mpr (isExact_of_scanListNumber? number)⟩
  | vertical =>
      rcases Option.bind_eq_some_iff.mp found with ⟨⟨x, behind⟩, number, same⟩
      rcases Prod.mk.inj (Option.some.inj same) with ⟨rfl, -⟩
      exact ⟨rfl, List.forall_mem_singleton.mpr (isExact_of_scanListNumber? number)⟩
  | arc =>
      rcases Option.bind_eq_some_iff.mp found with ⟨⟨sizes, behind⟩, first, found⟩
      split at found
      · next rx ry rotation afterSizes sized =>
        rcases Option.bind_eq_some_iff.mp found with ⟨⟨large, afterLarge⟩, -, found⟩
        rcases Option.bind_eq_some_iff.mp found with ⟨⟨sweep, afterSweep⟩, -, found⟩
        rcases Option.bind_eq_some_iff.mp found with ⟨⟨point, last⟩, second, same⟩
        split at same
        · next x y afterPoint pointed =>
          rcases Prod.mk.inj (Option.some.inj same) with ⟨rfl, -⟩
          rw [sized] at first
          rw [pointed] at second
          have flags : ∀ z ∈ [PathAction.flag large, PathAction.flag sweep], z.IsExact :=
            List.forall_mem_cons.mpr ⟨PathAction.isExact_flag large,
              List.forall_mem_singleton.mpr (PathAction.isExact_flag sweep)⟩
          exact ⟨rfl, List.forall_mem_append.mpr ⟨isExact_of_scanListNumbers? first,
            List.forall_mem_append.mpr ⟨flags, isExact_of_scanListNumbers? second⟩⟩⟩
        · cases same
      · cases found
  | _ =>
      rcases Option.bind_eq_some_iff.mp found with ⟨⟨numbers, behind⟩, scanned, same⟩
      split at same
      · next listed =>
        rw [listed] at scanned
        rcases Prod.mk.inj (Option.some.inj same) with ⟨rfl, -⟩
        exact ⟨rfl, isExact_of_scanListNumbers? scanned⟩
      · cases same

/-- A path begins with a move. -/
theorem command_of_scanCommand? {cs : List Char} {command : PathCommand} {absolute : Bool} {again : PathCommand × Bool}
    (found : scanCommand? none cs = some ((command, absolute), again, rest)) : command = .move := by
  unfold scanCommand? at found
  split at found
  · cases found
  · split at found
    · next isMove =>
      rcases Option.ite_none_right_eq_some.mp found with ⟨move, same⟩
      cases same
      exact beq_iff_eq.mp move
    · next previous => cases previous
    · cases found
    · next previous => cases previous

theorem isExact_of_scanSegments? {bound : Nat} {previous : Option (PathCommand × Bool)} {cs : List Char}
    {segments : List PathSegment} (found : scanSegments? bound previous cs = some segments) :
    (∀ s ∈ segments, s.IsExact) ∧ (previous = none → ∀ s ∈ segments.head?, s.action.command = .move) := by
  induction bound generalizing previous cs segments with
  | zero =>
      rw [scanSegments?] at found
      split at found
      · cases found
        exact ⟨List.forall_mem_nil _, fun _ _ impossible => nomatch impossible⟩
      · cases found
  | succ bound inductionHypothesis =>
      rw [scanSegments?] at found
      split at found
      · cases found
        exact ⟨List.forall_mem_nil _, fun _ _ impossible => nomatch impossible⟩
      · rcases Option.bind_eq_some_iff.mp found with ⟨⟨⟨command, absolute⟩, again, rest⟩, scanned, found⟩
        rcases Option.bind_eq_some_iff.mp found with ⟨⟨action, behind⟩, acted, found⟩
        rcases Option.bind_eq_some_iff.mp found with ⟨others, later, same⟩
        rcases isExact_of_scanAction? acted with ⟨own, exact⟩
        cases same
        refine ⟨List.forall_mem_cons.mpr ⟨exact, (inductionHypothesis later).1⟩, ?_⟩
        rintro rfl s ⟨⟩
        exact own.trans (command_of_scanCommand? scanned)

end Reading

/-! ## White space around what is written -/

theorem last_writeNumbers (before : List Char) (numbers : List Binary) :
    ∀ c ∈ (writeNumbers before numbers).getLast?, Text.isWhiteSpace c = false := by
  induction numbers generalizing before with
  | nil => exact fun c impossible => nomatch impossible
  | cons x rest inductionHypothesis =>
      have number : ∀ c ∈ x.compactChars.getLast?, Text.isWhiteSpace c = false := fun c last =>
        (isNumeric_of_mem_compactChars (List.mem_of_getLast? last)).not_isWhiteSpace
      rw [writeNumbers_cons]
      refine Text.last_append (fun none => ?_) (Text.last_append (fun _ => number) (inductionHypothesis _))
      exact absurd (List.append_eq_nil_iff.mp none).1 (compactChars_ne_nil x)

theorem last_writeSegments (previous : Option Char) (number : List Char) (segments : List PathSegment) :
    ∀ c ∈ (writeSegments previous number segments).getLast?, Text.isWhiteSpace c = false := by
  induction segments generalizing previous number with
  | nil => exact fun c impossible => nomatch impossible
  | cons s rest inductionHypothesis =>
      have letter : ∀ c ∈ [s.letter].getLast?, Text.isWhiteSpace c = false := by
        have solid : ∀ c ∈ PathSegment.letters, Text.isWhiteSpace c = false := List.all_iff_forall_prop.mp (by decide)
        rintro c ⟨⟩
        exact solid _ s.letter_mem
      by_cases implied : isImplied previous s.letter = true
      · rw [writeSegments_of_implied implied]
        exact Text.last_append (fun _ => last_writeNumbers _ _) (inductionHypothesis _ _)
      · rw [writeSegments_of_not_implied implied, ← List.singleton_append]
        exact Text.last_append (fun _ => letter) (Text.last_append (fun _ => last_writeNumbers _ _) (inductionHypothesis _ _))

theorem trim_write (d : PathData) : Text.trim d.write = d.write := by
  rw [Text.trim, write, String.toList_ofList, Text.trimChars_eq_self]
  refine ⟨fun c first => ?_, last_writeSegments none [] d.segments⟩
  cases segments : d.segments with
  | nil =>
      rw [segments] at first
      cases first
  | cons s rest =>
      have solid : ∀ c ∈ PathSegment.letters, Text.isWhiteSpace c = false := List.all_iff_forall_prop.mp (by decide)
      rw [segments, writeSegments_of_not_implied (show ¬ isImplied none s.letter = true from Bool.false_ne_true)] at first
      cases first
      exact solid _ s.letter_mem

/-- What is written for path data is read again, and written as before. -/
theorem exists_read?_write {s : String} {d : PathData} (read : read? s = some d) :
    ∃ again : PathData, read? d.write = some again ∧ again.write = d.write := by
  rcases Option.map_eq_some_iff.mp read with ⟨segments, scanned, rfl⟩
  rcases isExact_of_scanSegments? scanned with ⟨exact, start⟩
  exact ⟨_, read?_write exact (start rfl), congrArg String.ofList (writeSegments_map_said none [] segments)⟩

end PathData

end SlimSvg
