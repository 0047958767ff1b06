import SlimSvg.Proofs.Attempt
import SlimSvg.Value.Property

namespace SlimSvg

/-!
# Reads nobody notices

Asking a value what it says fills its cells, and what a cell holds decides how a later
question is answered: a value without a text of its own is written in its shortest form,
and the shortest form depends on whether there was a text to compare with.  This module
follows a value through a sequence of questions, minifications and edits and shows that
the questions change nothing.  Leaving out any of them leaves every other answer as it
was, and the value says the same at the end.

The invariant is that the shortest text never outlives the reading it was computed from.
So where a text is made up later, from what the cells hold by then, it is made up from the
same reading.
-/

namespace Cached

variable {α : Type}

/-! ## What is done with a value -/

/-- How a value comes about: from its text, or already read. -/
inductive Origin (α : Type) where
  | text (source : String)
  | parsed (reading : α)

/-- The value as it comes about. -/
def Origin.value : Origin α → Cached α
  | .text source => ofText source
  | .parsed reading => ofParsed reading

/-- What is done with a value.  An edit may change what the value means in any way. -/
inductive Use (α : Type) where
  | text
  | minified
  | parsed
  | minify
  | edit (change : α → α)

/-- Whether a use only asks the value for something. -/
def Use.isRead : Use α → Bool
  | .text | .minified | .parsed => true
  | .minify | .edit _ => false

/-- What a use gets back.  An edit gets the reading it is about to change, and nothing if
the value cannot be read. -/
inductive Answer (α : Type) where
  | text (said : String)
  | reading (said : Option α)
  | nothing
deriving DecidableEq

/-! ## Cells that depend on each other -/

/-- A value whose shortest text is known has been read. -/
def Sound (v : Cached α) : Prop :=
  v.shortest.isSome = true → v.reading.isSome = true

theorem sound_value (origin : Origin α) : origin.value.Sound := by
  intro shortened
  cases origin with
  | text source | parsed reading => exact absurd shortened Bool.false_ne_true

/-- A value that has been read is sound, whatever its other cells hold. -/
theorem sound_of_read {v : Cached α} (read : v.reading.isSome = true) : v.Sound :=
  fun _ => read

variable [TextForm α]

/-! ## A run of uses -/

/-- One use of a value: what it gets back, and the value with the cells it filled or
emptied. -/
def use (v : Cached α) : Use α → Answer α × Cached α
  | .text => (.text v.rememberText.1, v.rememberText.2)
  | .minified => (.text v.rememberMinified.1, v.rememberMinified.2)
  | .parsed => (.reading v.rememberParsed.1, v.rememberParsed.2)
  | .minify => (.nothing, v.minify)
  | .edit change => (.reading v.parsed, v.edit change)

/-- The uses of a value one after another, each with what it got back, and the value at
the end. -/
def run (v : Cached α) : List (Use α) → List (Use α × Answer α) × Cached α
  | [] => ([], v)
  | u :: uses => ((u, (v.use u).1) :: ((v.use u).2.run uses).1, ((v.use u).2.run uses).2)

/-- Some of the reads are left out of a log. -/
inductive Omits : List (Use α × Answer α) → List (Use α × Answer α) → Prop
  | nil : Omits [] []
  | keep (entry : Use α × Answer α) (omits : Omits log kept) : Omits (entry :: log) (entry :: kept)
  | drop (reads : entry.1.isRead = true) (omits : Omits log kept) : Omits (entry :: log) kept

/-- Two values that answer every question alike, whichever of their cells are filled. -/
structure Alike (v w : Cached α) : Prop where
  text : v.text = w.text
  minified : v.minified = w.minified
  parsed : v.parsed = w.parsed

namespace Alike

variable {v w x : Cached α}

theorem refl (v : Cached α) : Alike v v :=
  ⟨rfl, rfl, rfl⟩

theorem symm (alike : Alike v w) : Alike w v :=
  ⟨alike.text.symm, alike.minified.symm, alike.parsed.symm⟩

theorem trans (first : Alike v w) (second : Alike w x) : Alike v x :=
  ⟨first.text.trans second.text, first.minified.trans second.minified, first.parsed.trans second.parsed⟩

end Alike

/-! ## What the cells hold after a use -/

section Cells

variable {v w : Cached α}

theorem reading_eq (read : v.reading.isSome = true) : v.reading = some v.parsed := by
  obtain ⟨reading, known⟩ := Option.isSome_iff_exists.mp read
  rw [parsed, known, Option.getD_some]

theorem rememberMinified_fst (v : Cached α) : v.rememberMinified.1 = v.minified := by
  unfold rememberMinified
  cases known : v.shortest with
  | some text => rw [minified, known, Option.getD_some]
  | none => rfl

theorem source_rememberMinified (v : Cached α) : v.rememberMinified.2.source = v.source := by
  unfold rememberMinified
  cases v.shortest <;> rfl

theorem shortest_rememberMinified (v : Cached α) : v.rememberMinified.2.shortest = some v.minified := by
  unfold rememberMinified
  cases known : v.shortest with
  | some text => rw [minified, known, Option.getD_some]
  | none => rfl

/-- Finding the shortest text reads the value, unless that was done before. -/
theorem reading_rememberMinified (sound : v.Sound) : v.rememberMinified.2.reading = some v.parsed := by
  unfold rememberMinified
  cases known : v.shortest with
  | some text => exact reading_eq (sound (by rw [known]; rfl))
  | none => rfl

theorem rememberText_fst (v : Cached α) : v.rememberText.1 = v.text := by
  unfold rememberText
  cases known : v.source with
  | some said => rw [text, known, Option.getD_some]
  | none => rfl

/-! ## Reads leave the answers as they are -/

/-- A value that remembers its shortest text can be given any other text: it still has the
same reading and the same shortest text. -/
theorem alike_rewritten (said : String) (sound : v.Sound) :
    let rewritten : Cached α := { v.rememberMinified.2 with source := some said }
    rewritten.text = said ∧ rewritten.minified = v.minified ∧ rewritten.parsed = v.parsed := by
  refine ⟨rfl, ?_, ?_⟩
  · change v.rememberMinified.2.shortest.getD _ = v.minified
    rw [shortest_rememberMinified, Option.getD_some]
  · change v.rememberMinified.2.reading.getD _ = v.parsed
    rw [reading_rememberMinified sound, Option.getD_some]

theorem alike_rememberParsed (v : Cached α) : Alike v.rememberParsed.2 v :=
  ⟨rfl, rfl, rfl⟩

theorem alike_rememberMinified (sound : v.Sound) : Alike v.rememberMinified.2 v := by
  have shortest : v.rememberMinified.2.minified = v.minified := by
    rw [minified, shortest_rememberMinified, Option.getD_some]
  refine ⟨?_, shortest, ?_⟩
  · rw [text, shortest, source_rememberMinified, text]
  · rw [parsed, reading_rememberMinified sound, Option.getD_some]

theorem alike_rememberText (sound : v.Sound) : Alike v.rememberText.2 v := by
  unfold rememberText
  cases v.source with
  | some said => exact .refl v
  | none =>
    obtain ⟨text, minified, parsed⟩ := alike_rewritten v.text sound
    exact ⟨text, minified, parsed⟩

/-- A read leaves every answer as it was. -/
theorem alike_of_isRead {u : Use α} (sound : v.Sound) (reads : u.isRead = true) : Alike (v.use u).2 v := by
  cases u with
  | text => exact alike_rememberText sound
  | minified => exact alike_rememberMinified sound
  | parsed => exact alike_rememberParsed v
  | minify | edit change => exact absurd reads Bool.false_ne_true

/-! ## One use of two values that are alike -/

theorem sound_use (sound : v.Sound) (u : Use α) : (v.use u).2.Sound := by
  have read : v.rememberMinified.2.reading.isSome = true := by rw [reading_rememberMinified sound]; rfl
  cases u with
  | text =>
    change v.rememberText.2.Sound
    unfold rememberText
    cases v.source with
    | some said => exact sound
    | none => exact sound_of_read read
  | minified => exact sound_of_read read
  | parsed => exact sound_of_read rfl
  | minify => exact sound_of_read read
  | edit change =>
    change (v.edit change).Sound
    unfold edit
    cases v.parsed with
    | some a => exact sound_of_read rfl
    | none => exact sound_of_read rfl

theorem alike_minify (soundLeft : v.Sound) (soundRight : w.Sound) (alike : Alike v w) :
    Alike v.minify w.minify := by
  obtain ⟨textLeft, minifiedLeft, parsedLeft⟩ := alike_rewritten v.minified soundLeft
  obtain ⟨textRight, minifiedRight, parsedRight⟩ := alike_rewritten w.minified soundRight
  exact ⟨textLeft.trans (alike.minified.trans textRight.symm),
    minifiedLeft.trans (alike.minified.trans minifiedRight.symm),
    parsedLeft.trans (alike.parsed.trans parsedRight.symm)⟩

/-- An edit starts from the reading only, so nothing else about the value matters. -/
theorem alike_edit (change : α → α) (alike : Alike v w) : Alike (v.edit change) (w.edit change) := by
  unfold edit
  rw [← alike.parsed]
  cases v.parsed with
  | some a => exact .refl _
  | none => exact (alike_rememberParsed v).trans (alike.trans (alike_rememberParsed w).symm)

theorem alike_use (soundLeft : v.Sound) (soundRight : w.Sound) (alike : Alike v w) (u : Use α) :
    (v.use u).1 = (w.use u).1 ∧ Alike (v.use u).2 (w.use u).2 := by
  have reads (quiet : u.isRead = true) : Alike (v.use u).2 (w.use u).2 :=
    (alike_of_isRead soundLeft quiet).trans (alike.trans (alike_of_isRead soundRight quiet).symm)
  cases u with
  | text =>
    refine ⟨congrArg Answer.text ?_, reads rfl⟩
    rw [rememberText_fst, rememberText_fst, alike.text]
  | minified =>
    refine ⟨congrArg Answer.text ?_, reads rfl⟩
    rw [rememberMinified_fst, rememberMinified_fst, alike.minified]
  | parsed => exact ⟨congrArg Answer.reading alike.parsed, reads rfl⟩
  | minify => exact ⟨rfl, alike_minify soundLeft soundRight alike⟩
  | edit change => exact ⟨congrArg Answer.reading alike.parsed, alike_edit change alike⟩

end Cells

/-! ## Whole runs -/

/-- Of two values that are alike, one goes through all the uses and the other is spared
some of the reads: what is left of the log is the log of the second, and the two are still
alike at the end. -/
theorem run_of_omits {v w : Cached α} (soundLeft : v.Sound) (soundRight : w.Sound) (alike : Alike v w)
    {uses : List (Use α)} {kept : List (Use α × Answer α)} (omits : Omits (v.run uses).1 kept) :
    (w.run (kept.map Prod.fst)).1 = kept ∧ Alike (v.run uses).2 (w.run (kept.map Prod.fst)).2 := by
  induction uses generalizing v w kept with
  | nil =>
    cases omits with
    | nil => exact ⟨rfl, alike⟩
  | cons u uses inductionHypothesis =>
    have soundNext : (v.use u).2.Sound := sound_use soundLeft u
    cases omits with
    | keep _ omits =>
      obtain ⟨answer, alikeNext⟩ := alike_use soundLeft soundRight alike u
      obtain ⟨log, final⟩ := inductionHypothesis soundNext (sound_use soundRight u) alikeNext omits
      refine ⟨?_, final⟩
      rw [List.map_cons, run, log, answer]
    | drop reads omits =>
      exact inductionHypothesis soundNext soundRight ((alike_of_isRead soundLeft reads).trans alike) omits

/-- Reads are not noticed.  For every value, however it came about, and every sequence of
reads, minifications and edits: if any of the reads are left out, every other use gets
back what it got before, and the value says the same at the end. -/
theorem unread_value_answers_alike (origin : Origin α) {uses : List (Use α)} {kept : List (Use α × Answer α)}
    (omits : Omits (origin.value.run uses).1 kept) :
    (origin.value.run (kept.map Prod.fst)).1 = kept ∧
      Alike (origin.value.run uses).2 (origin.value.run (kept.map Prod.fst)).2 :=
  run_of_omits (sound_value origin) (sound_value origin) (.refl _) omits

/-- The uses of a list of classes whose shortest text is found before a class is renamed. -/
def earlyUses : List (Use ClassList) :=
  [.minified, .parsed, .edit (·.rename "a" "x"), .text, .minify, .minified]

/-- The text that was found too early says nothing about the renamed list, and nobody
misses it. -/
theorem renamed_class_is_said_alike :
    let value : Cached ClassList := Origin.value (.text " a  b")
    let log := (value.run earlyUses).1
    log.map Prod.snd = [.text "a b", .reading (some ⟨["a", "b"]⟩), .reading (some ⟨["a", "b"]⟩),
        .text "x b", .nothing, .text "x b"] ∧
      Omits log (log.drop 2) ∧ (value.run ((log.drop 2).map Prod.fst)).1 = log.drop 2 ∧
      Alike (value.run earlyUses).2 (value.run ((log.drop 2).map Prod.fst)).2 := by
  intro value log
  have omits : Omits log (log.drop 2) := .drop rfl (.drop rfl (.keep _ (.keep _ (.keep _ (.keep _ .nil)))))
  exact ⟨by decide +kernel, omits, unread_value_answers_alike (.text " a  b") omits⟩

end Cached

end SlimSvg
