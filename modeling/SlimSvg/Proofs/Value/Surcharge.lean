import Mathlib.Algebra.BigOperators.Group.List.Lemmas
import Mathlib.Algebra.Order.BigOperators.Group.List
import Mathlib.Data.String.Basic
import SlimSvg.Proofs.Text.Words
import SlimSvg.Proofs.Value.Shortest
import SlimSvg.Proofs.Value.SpelledReferences
import SlimSvg.Tree.Written

namespace SlimSvg

/-!
# What escaping costs

Three characters take more room in an attribute than in a text, because they are written
as references.  The shortest text of a value has no more bytes than the text it was found
from; it is also written no longer, since what a value adds of its own needs no escaping,
and what it takes over from its text it takes over once.
-/

namespace Written

/-- By how many bytes a character grows when it is escaped in an attribute. -/
def extra (c : Char) : Nat :=
  if c == '&' then 4 else if c == '<' then 3 else if c == '"' then 5 else 0

/-- By how many bytes a text grows when it is escaped in an attribute. -/
def surcharge (cs : List Char) : Nat :=
  (cs.map extra).sum

section Surcharge

variable {first second cs : List Char}

theorem utf8Len_attributeChar (c : Char) : String.utf8Len (attributeChar c) = c.utf8Size + extra c := by
  rw [attributeChar, extra]
  split
  · next same =>
    rw [eq_of_beq same]
    rfl
  · split
    · next same =>
      rw [eq_of_beq same]
      rfl
    · split
      · next same =>
        rw [eq_of_beq same]
        rfl
      · exact Nat.zero_add _

theorem size_escape (s : String) : Text.size (escape attributeChar s) = Text.size s + surcharge s.toList := by
  rw [escape, Text.size, String.utf8ByteSize_ofList, Text.size, ← String.utf8Len_toList]
  induction s.toList with
  | nil => rfl
  | cons c rest inductionHypothesis =>
      rw [List.flatMap_cons, String.utf8Len_append, inductionHypothesis, utf8Len_attributeChar,
        String.utf8Len_cons, surcharge, surcharge, List.map_cons, List.sum_cons]
      omega

theorem surcharge_append (first second : List Char) :
    surcharge (first ++ second) = surcharge first + surcharge second := by
  rw [surcharge, List.map_append, List.sum_append, surcharge, surcharge]

theorem surcharge_le_of_sublist (sublist : first.Sublist second) : surcharge first ≤ surcharge second :=
  (sublist.map extra).sum_le_sum fun _ _ => Nat.zero_le _

theorem surcharge_eq_zero (free : ∀ c ∈ cs, extra c = 0) : surcharge cs = 0 :=
  List.sum_eq_zero fun cost listed => by
    rcases List.mem_map.mp listed with ⟨c, among, rfl⟩
    exact free c among

theorem surcharge_flatMap {α : Type} (f : α → List Char) (items : List α) :
    surcharge (items.flatMap f) = (items.map fun item => surcharge (f item)).sum := by
  induction items with
  | nil => rfl
  | cons item rest inductionHypothesis =>
      rw [List.flatMap_cons, surcharge_append, inductionHypothesis, List.map_cons, List.sum_cons]

/-- A separator that needs no escaping adds nothing. -/
theorem surcharge_intercalate {separator : String} (free : surcharge separator.toList = 0) (items : List String) :
    surcharge (String.intercalate separator items).toList = (items.map fun item => surcharge item.toList).sum := by
  rw [String.toList_intercalate]
  induction items with
  | nil => rfl
  | cons item rest inductionHypothesis =>
      cases rest with
      | nil => simp [List.intercalate_singleton]
      | cons other more =>
          rw [List.map_cons] at inductionHypothesis
          rw [List.map_cons, List.map_cons, List.intercalate_cons_cons, surcharge_append, surcharge_append, free,
            Nat.add_zero, inductionHypothesis, List.map_cons (l := other :: more), List.sum_cons]

end Surcharge

/-- Whether a text takes no more room than another one, as it is and escaped in an attribute. -/
structure Within (s t : String) : Prop where
  size_le : Text.size s ≤ Text.size t
  surcharge_le : surcharge s.toList ≤ surcharge t.toList

namespace Within

variable {s t u : String}

theorem refl (s : String) : Within s s :=
  ⟨Nat.le_refl _, Nat.le_refl _⟩

theorem trans (first : Within s t) (second : Within t u) : Within s u :=
  ⟨Nat.le_trans first.size_le second.size_le, Nat.le_trans first.surcharge_le second.surcharge_le⟩

theorem size_escape_le (within : Within s t) :
    Text.size (escape attributeChar s) ≤ Text.size (escape attributeChar t) := by
  rw [size_escape, size_escape]
  exact Nat.add_le_add within.size_le within.surcharge_le

end Within

end Written

open Written

namespace Text

theorem within_trim (s : String) : Within (trim s) s where
  size_le := by
    rw [trim, size, String.utf8ByteSize_ofList, size, ← String.utf8Len_toList]
    exact String.utf8Len_le_of_sublist (trimChars_sublist s.toList)
  surcharge_le := by
    rw [toList_trim]
    exact surcharge_le_of_sublist (trimChars_sublist s.toList)

/-- The runs of a text are pieces of it, one behind the other. -/
theorem flatten_runs_sublist (p : Char → Bool) (cs : List Char) : (runs p cs).flatten.Sublist cs := by
  have closed : ∀ parts : List Char × List (List Char), (closeRun parts).flatten = parts.1 ++ parts.2.flatten := by
    intro parts
    rw [closeRun]
    split
    · next empty =>
      rw [List.isEmpty_iff.mp empty]
      rfl
    · rfl
  rw [runs_eq, closed]
  induction cs with
  | nil => exact List.Sublist.slnil
  | cons c rest inductionHypothesis =>
      rw [splitRuns_cons]
      split
      · rw [List.nil_append, runs_eq, closed]
        exact inductionHypothesis.cons c
      · exact inductionHypothesis.cons_cons c

end Text

/-! ## Types that spare escaping -/

namespace TextForm

/-- Whether the writer of a type needs no more escaping than the text that was read. -/
def Sparing (α : Type) [TextForm α] : Prop :=
  ∀ {s : String} {a : α}, TextForm.read? s = some a → surcharge (TextForm.write a).toList ≤ surcharge s.toList

end TextForm

namespace Cached

variable {α : Type} [TextForm α]

/-- The shortest text of what was read takes no more room than the text. -/
theorem within_minified (sparing : TextForm.Sparing α) (s : String) : Within (ofText s : Cached α).minified s := by
  cases read : (TextForm.read? s : Option α) with
  | none =>
      rw [minified_of_unread read]
      exact Text.within_trim s
  | some a =>
      rw [minified_of_read? read]
      split
      · next shorter => exact ⟨Nat.le_trans shorter (Text.within_trim s).size_le, sparing read⟩
      · exact Text.within_trim s

end Cached

section Numbers

open Number

theorem extra_of_isNumeric {c : Char} (numeric : Value.IsNumeric c) : extra c = 0 := by
  have other : ∀ d : Char, d.isDigit = false → d ∉ ['.', '+', '-', 'e', 'E'] → (c == d) = false := by
    intro d noDigit unlisted
    rw [beq_eq_false_iff_ne]
    rintro rfl
    rcases numeric with digit | listed
    · exact Bool.false_ne_true (noDigit.symm.trans digit)
    · exact unlisted listed
  rw [extra, other '&' (by decide) (by decide), other '<' (by decide) (by decide),
    other '"' (by decide) (by decide)]
  rfl

theorem surcharge_compactChars (x : Binary) : surcharge x.compactChars = 0 :=
  surcharge_eq_zero fun _ listed => extra_of_isNumeric (isNumeric_of_mem_compactChars listed)

theorem surcharge_compact (x : Binary) : surcharge x.compact.toList = 0 := by
  rw [Binary.compact, String.toList_ofList]
  exact surcharge_compactChars x

theorem surcharge_writeNumbers (before : List Char) (numbers : List Binary) :
    surcharge (writeNumbers before numbers) = 0 := by
  induction numbers generalizing before with
  | nil => rfl
  | cons x rest inductionHypothesis =>
      rw [writeNumbers, surcharge_append, inductionHypothesis, Nat.add_zero]
      split
      · change surcharge ([' '] ++ x.compactChars) = 0
        rw [surcharge_append, surcharge_compactChars]
        rfl
      · exact surcharge_compactChars x

theorem surcharge_write_length (l : Length) : surcharge l.write.toList = 0 := by
  have unit : surcharge l.unit.suffix.toList = 0 := by cases l.unit <;> rfl
  rw [Length.write]
  split
  · exact surcharge_compact l.number
  · rw [String.toList_append, surcharge_append, surcharge_compact, unit]

theorem surcharge_write_percentage (p : Percentage) : surcharge p.write.toList = 0 := by
  rw [Percentage.write]
  split
  · rw [String.toList_append, surcharge_append, surcharge_compact]
    rfl
  · exact surcharge_compact p.number

theorem surcharge_write_transform (l : TransformList) : surcharge l.write.toList = 0 := by
  rw [TransformList.write, String.toList_ofList, surcharge_flatMap]
  refine List.sum_eq_zero fun cost listed => ?_
  rcases List.mem_map.mp listed with ⟨item, -, rfl⟩
  have named : ∀ name ∈ ["matrix", "translate", "scale", "rotate", "skewX", "skewY"], surcharge name.toList = 0 := by
    decide
  have parenthesis : ∀ cs, surcharge ('(' :: cs) = surcharge cs := fun cs => Nat.zero_add _
  rw [TransformItem.write, surcharge_append, surcharge_append, parenthesis, surcharge_writeNumbers,
    named item.parts.1 (by cases item <;> simp [TransformItem.parts])]
  rfl

theorem surcharge_writeSegments (previous : Option Char) (number : List Char) (segments : List PathSegment) :
    surcharge (PathData.writeSegments previous number segments) = 0 := by
  induction segments generalizing previous number with
  | nil => rfl
  | cons s rest inductionHypothesis =>
      have letters : ∀ command ∈ PathCommand.all, extra command.letter.toUpper = 0 ∧ extra command.letter = 0 := by
        decide
      have listed : s.action.command ∈ PathCommand.all := by cases s.action.command <;> decide
      have letter : extra s.letter = 0 := by
        rw [PathSegment.letter]
        split
        · exact (letters _ listed).1
        · exact (letters _ listed).2
      have named : surcharge (if PathData.isImplied previous s.letter then [] else [s.letter]) = 0 := by
        split
        · rfl
        · rw [surcharge, List.map_singleton, letter]
          rfl
      rw [PathData.writeSegments, surcharge_append, surcharge_append, inductionHypothesis, surcharge_writeNumbers,
        named]

end Numbers

namespace Color

theorem extra_hexDigit {n : Nat} (small : n < 16) : extra (hexDigit n) = 0 := by
  have all : ∀ n < 16, extra (hexDigit n) = 0 := by decide
  exact all n small

theorem surcharge_write (c : Color) : surcharge c.write.toList = 0 := by
  have digits : surcharge c.hexForm.toList = 0 := by
    rw [hexForm]
    have sign : extra '#' = 0 := rfl
    have low : ∀ b : UInt8, extra (hexDigit (b.toNat % 16)) = 0 := fun b => extra_hexDigit (Nat.mod_lt _ (by decide))
    have high : ∀ b : UInt8, extra (hexDigit (b.toNat / 16)) = 0 := by
      intro b
      have size := b.toNat_lt
      exact extra_hexDigit (by omega)
    split
    · simp [surcharge, sign, low]
    · simp [surcharge, sign, low, high]
  rw [write]
  split
  · next name code found =>
    have all : ∀ p ∈ shortKeywords, surcharge p.1.toList = 0 := by decide
    split
    · exact all _ (List.mem_of_find?_eq_some found)
    · exact digits
  · exact digits

end Color

/-! ## Texts that are taken over -/

namespace Reference

/-- The id of a reference is a piece of its text. -/
theorem sublist_of_scanFunction? {cs id rest : List Char} (found : scanFunction? cs = some (id, rest)) :
    id.Sublist cs := by
  rcases exists_spells_of_scanFunction? found with ⟨quote, before, lead, closing, spells⟩
  have grouped : cs = (before ++ 'u' :: 'r' :: 'l' :: '(' :: (lead ++ ['#'])) ++ (id ++ closing) := by
    rw [spells.text]
    simp only [List.append_assoc, List.cons_append, List.nil_append]
  rw [grouped]
  exact (List.sublist_append_left id closing).trans (List.sublist_append_right _ _)

theorem surcharge_function (id : List Char) (behind : String) :
    surcharge ("url(#" ++ String.ofList id ++ ")" ++ behind).toList = surcharge id + surcharge behind.toList := by
  have front : surcharge "url(#".toList = 0 := by decide
  have back : surcharge ")".toList = 0 := by decide
  rw [String.toList_append, String.toList_append, String.toList_append, surcharge_append, surcharge_append,
    surcharge_append, front, back, String.toList_ofList, Nat.zero_add, Nat.add_zero]

theorem surcharge_write_of_readFunction? {cs : List Char} {r : Reference} (found : readFunction? cs = some r) :
    surcharge r.write.toList ≤ surcharge cs := by
  rcases Option.bind_eq_some_iff.mp found with ⟨⟨id, rest⟩, scanned, ended⟩
  rcases Option.ite_none_right_eq_some.mp ended with ⟨-, same⟩
  have written := surcharge_function id ""
  rw [String.append_empty] at written
  rw [← Option.some.inj same]
  exact Nat.le_trans (Nat.le_of_eq written) (surcharge_le_of_sublist (sublist_of_scanFunction? scanned))

theorem surcharge_write_of_readFragment? {cs : List Char} {r : Reference} (found : readFragment? cs = some r) :
    surcharge r.write.toList ≤ surcharge cs := by
  rcases Option.bind_eq_some_iff.mp found with ⟨behind, hash, ended⟩
  rcases Option.ite_none_left_eq_some.mp ended with ⟨-, ended⟩
  rcases Option.ite_none_right_eq_some.mp ended with ⟨-, same⟩
  have sign : surcharge "#".toList = 0 := by decide
  rw [← Option.some.inj same, write, String.toList_append, surcharge_append, sign, String.toList_ofList, Nat.zero_add]
  have tail : behind.Sublist (Value.skipSpaces cs) := by
    rw [Text.eq_append_of_isPrefixOf? hash]
    exact List.sublist_append_right _ behind
  exact surcharge_le_of_sublist ((List.takeWhile_sublist _).trans (tail.trans (List.dropWhile_sublist _)))

theorem sparing : TextForm.Sparing Reference := by
  intro s r read
  refine Nat.le_trans ?_ (surcharge_le_of_sublist (Text.trimChars_sublist s.toList))
  change read? s = some r at read
  rw [read?] at read
  generalize Text.trimChars s.toList = cs at read
  split at read
  · rw [← Option.some.inj read]
    exact Nat.zero_le _
  · exact surcharge_write_of_readFunction? read
  · exact surcharge_write_of_readFragment? read
  · cases read

end Reference

namespace Paint

theorem surcharge_writeFallback (fallback : Option PaintFallback) : surcharge (writeFallback fallback).toList = 0 := by
  have words : ∀ word ∈ ["", " none", " currentColor", " "], surcharge word.toList = 0 := by decide
  unfold writeFallback
  split
  · exact words _ (by simp)
  · exact words _ (by simp)
  · exact words _ (by simp)
  · next c =>
    rw [String.toList_append, surcharge_append, Color.surcharge_write, words " " (by simp)]

theorem sparing : TextForm.Sparing Paint := by
  intro s paint read
  have words : ∀ word ∈ ["none", "currentColor", "context-fill", "context-stroke"], surcharge word.toList = 0 := by
    decide
  have free : surcharge (write paint).toList = 0 → surcharge (write paint).toList ≤ surcharge s.toList :=
    fun zero => zero ▸ Nat.zero_le _
  change surcharge (write paint).toList ≤ _
  cases paint with
  | none => exact free (words _ (by simp [write]))
  | currentColor => exact free (words _ (by simp [write]))
  | contextFill => exact free (words _ (by simp [write]))
  | contextStroke => exact free (words _ (by simp [write]))
  | color c => exact free (Color.surcharge_write c)
  | server id fallback =>
      rcases exists_scanFunction?_of_read? read with ⟨rest, scanned, -⟩
      have written := Reference.surcharge_function id.toList (writeFallback fallback)
      rw [String.ofList_toList, surcharge_writeFallback] at written
      exact Nat.le_trans (Nat.le_of_eq written) (surcharge_le_of_sublist
        ((Reference.sublist_of_scanFunction? scanned).trans (Text.trimChars_sublist s.toList)))

end Paint

namespace ClassList

variable {l : ClassList}

theorem exists_names_foldl_add (words : List String) :
    ∃ fresh, fresh.Sublist words ∧ (words.foldl add l).names = l.names ++ fresh := by
  induction words generalizing l with
  | nil => exact ⟨[], List.Sublist.slnil, (List.append_nil _).symm⟩
  | cons word rest inductionHypothesis =>
      rcases @inductionHypothesis (l.add word) with ⟨fresh, sublist, same⟩
      rw [List.foldl_cons, same, add]
      split
      · exact ⟨fresh, sublist.cons word, rfl⟩
      · exact ⟨word :: fresh, sublist.cons_cons word, List.append_assoc _ _ _⟩

theorem sparing : TextForm.Sparing ClassList := by
  intro s l read
  rcases @exists_names_foldl_add ⟨[]⟩ (Text.words s) with ⟨fresh, sublist, same⟩
  rw [← Option.some.inj (show some (ClassList.read s) = some l from read)]
  change surcharge (String.intercalate " " (ClassList.read s).names).toList ≤ _
  rw [surcharge_intercalate (by decide), ClassList.read, same, List.nil_append]
  calc (fresh.map fun name => surcharge name.toList).sum
    _ ≤ ((Text.words s).map fun name => surcharge name.toList).sum :=
        (sublist.map _).sum_le_sum fun _ _ => Nat.zero_le _
    _ = surcharge (Text.runs Text.isCssSpace s.toList).flatten := by
        rw [Text.words, List.map_map, ← List.flatMap_id, surcharge_flatMap]
        simp only [Function.comp_def, String.toList_ofList, id]
    _ ≤ surcharge s.toList := surcharge_le_of_sublist (Text.flatten_runs_sublist _ _)

end ClassList

section Types

theorem Length.sparing : TextForm.Sparing Length :=
  fun _ => (surcharge_write_length _).trans_le (Nat.zero_le _)

theorem Numeral.sparing : TextForm.Sparing Numeral :=
  fun _ => (surcharge_compact _).trans_le (Nat.zero_le _)

theorem Percentage.sparing : TextForm.Sparing Percentage :=
  fun _ => (surcharge_write_percentage _).trans_le (Nat.zero_le _)

theorem Fraction.sparing : TextForm.Sparing Fraction :=
  fun _ => (surcharge_compact _).trans_le (Nat.zero_le _)

theorem TransformList.sparing : TextForm.Sparing TransformList :=
  fun _ => (surcharge_write_transform _).trans_le (Nat.zero_le _)

theorem PathData.sparing : TextForm.Sparing PathData := by
  intro s d _
  change surcharge (String.ofList (PathData.writeSegments none [] d.segments)).toList ≤ _
  rw [String.toList_ofList, surcharge_writeSegments]
  exact Nat.zero_le _

end Types

/-- The shortest text of a property takes no more room than its text. -/
theorem PropertyValue.within_minified (property text : String) : Within (ofText property text).minified text := by
  by_cases transforms : property = "transform"
  · rw [transforms]
    exact Cached.within_minified TransformList.sparing text
  · have simple := simpleType_ofText transforms
    generalize ofText property = read at simple
    cases simple with
    | generic => exact Text.within_trim text
    | paint => exact Cached.within_minified Paint.sparing text
    | length => exact Cached.within_minified Length.sparing text
    | lengthPercentage => exact Cached.within_minified Length.sparing text
    | number => exact Cached.within_minified Numeral.sparing text
    | url => exact Cached.within_minified Reference.sparing text
    | opacity => exact Cached.within_minified Fraction.sparing text

end SlimSvg
