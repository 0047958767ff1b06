import SlimSvg.Proofs.Text.Words
import SlimSvg.Proofs.Value.WrittenNumbers
import SlimSvg.Proofs.Value.WrittenReferences
import SlimSvg.Value.Property

namespace SlimSvg

/-!
# Shortest texts keep their meaning

The shortest text of a value is what is written for it or its trimmed text.  It is read as
the value if this holds of both.  What is written is always read again, quoted ids with
blanks or parentheses apart; trimming matters only to the types whose readers know fewer
blanks than trimming does.
-/

namespace TextForm

/-- What the reader and the writer of a type promise about a text.  Values are compared by
a relation of what is read again with what was written. -/
structure Lawful {α : Type} [TextForm α] (Means : α → α → Prop) (s : String) : Prop where
  trimmed : (read? (Text.trim s) : Option α) = read? s
  means_self : ∀ a : α, read? s = some a → Means a a
  read?_write : ∀ a : α, read? s = some a → ∃ again : α, read? (write a) = some again ∧ Means again a

end TextForm

namespace Cached

theorem eq_of_rel {α : Type} {a b : Option α} (rel : Option.Rel Eq a b) : a = b := by
  cases rel with
  | some same => rw [same]
  | none => rfl

variable {α : Type} [TextForm α] {Means : α → α → Prop} {s : String}

/-- The shortest text is read as the text is, or both cannot be read. -/
theorem read?_minified (lawful : TextForm.Lawful Means s) :
    Option.Rel Means (TextForm.read? (ofText s : Cached α).minified) (TextForm.read? s) := by
  cases read : (TextForm.read? s : Option α) with
  | none =>
      rw [minified_of_unread read, lawful.trimmed, read]
      exact .none
  | some a =>
      rw [minified_of_read? read]
      split
      · rcases lawful.read?_write a read with ⟨again, readAgain, means⟩
        rw [readAgain]
        exact .some means
      · rw [lawful.trimmed, read]
        exact .some (lawful.means_self a read)

theorem read?_minified_eq (lawful : TextForm.Lawful (α := α) Eq s) :
    (TextForm.read? (ofText s : Cached α).minified : Option α) = TextForm.read? s := by
  exact eq_of_rel (read?_minified lawful)

end Cached

/-! ## Class lists -/

namespace ClassList

variable {l : ClassList} {words : List String}

theorem mem_foldl_add {name : String} :
    name ∈ (words.foldl add l).names ↔ name ∈ l.names ∨ name ∈ words := by
  induction words generalizing l with
  | nil => simp
  | cons word rest inductionHypothesis =>
      rw [List.foldl_cons, inductionHypothesis, add, List.mem_cons]
      split
      · next listed =>
        have known : word ∈ l.names := List.contains_iff_mem.mp listed
        constructor
        · exact fun among => among.imp_right .inr
        · rintro (among | rfl | among)
          · exact .inl among
          · exact .inl known
          · exact .inr among
      · rw [List.mem_append, List.mem_singleton, or_assoc]

theorem nodup_foldl_add (distinct : l.names.Nodup) : (words.foldl add l).names.Nodup := by
  induction words generalizing l with
  | nil => exact distinct
  | cons word rest inductionHypothesis =>
      apply inductionHypothesis
      rw [add]
      split
      · exact distinct
      · next other =>
        refine List.nodup_append.mpr ⟨distinct, List.nodup_singleton word, ?_⟩
        rintro name among _ last rfl
        rw [List.mem_singleton.mp last] at among
        exact other (List.contains_iff_mem.mpr among)

theorem foldl_add_of_nodup (distinct : (l.names ++ words).Nodup) : words.foldl add l = ⟨l.names ++ words⟩ := by
  induction words generalizing l with
  | nil => rw [List.append_nil, List.foldl_nil]
  | cons word rest inductionHypothesis =>
      have fresh : l.names.contains word = false := by
        rw [← Bool.not_eq_true, List.contains_iff_mem]
        exact fun listed => (List.nodup_append.mp distinct).2.2 word listed word List.mem_cons_self rfl
      have grouped : l.names ++ word :: rest = (l.names ++ [word]) ++ rest := List.append_cons _ _ _
      rw [List.foldl_cons, add, fresh, grouped]
      rw [grouped] at distinct
      exact inductionHypothesis distinct

/-- Names are read as they were written. -/
theorem read_write_read (s : String) : read (read s).write = read s := by
  have solid : ∀ name ∈ (read s).names, Text.IsWord name := by
    intro name listed
    rcases mem_foldl_add.mp listed with impossible | word
    · exact absurd impossible List.not_mem_nil
    · exact Text.isWord_of_mem_words word
  have distinct : (read s).names.Nodup := nodup_foldl_add List.nodup_nil
  have words : Text.words (read s).write = (read s).names := Text.words_intercalate solid
  rw [read, words, foldl_add_of_nodup (by rw [List.nil_append]; exact distinct), List.nil_append]

/-- Trimming changes a class list only where a name begins or ends with white space. -/
theorem read_trim {s : String} (tight : ∀ name ∈ (read s).names, Text.Tight name.toList) :
    read (Text.trim s) = read s := by
  have same : Text.runs Text.isCssSpace (Text.trimChars s.toList) = Text.runs Text.isCssSpace s.toList := by
    refine Text.runs_trimChars fun run listed => ?_
    have word : String.ofList run ∈ Text.words s := List.mem_map_of_mem listed
    have runTight := tight _ (mem_foldl_add.mpr (.inr word))
    rw [String.toList_ofList] at runTight
    exact runTight
  rw [read, Text.words, Text.toList_trim, same]
  rfl

end ClassList

/-! ## All types -/

section Types

variable {s : String}

theorem Paint.lawful (bare : ∀ id fallback, read? s = some (.server id fallback) → Reference.IsBare id) :
    TextForm.Lawful (α := Paint) Eq s where
  trimmed := Paint.trimsFirst s
  means_self _ _ := rfl
  read?_write paint read := by
    refine ⟨paint, read?_write (wasRead_of_read? read) ?_, rfl⟩
    exact fun id fallback server => bare id fallback (server ▸ read)

theorem Reference.lawful (bare : ∀ id, read? s = some (.function id) → IsBare id) :
    TextForm.Lawful (α := Reference) Eq s where
  trimmed := Reference.trimsFirst s
  means_self _ _ := rfl
  read?_write r read := ⟨r, read?_write read fun id function => bare id (function ▸ read), rfl⟩

theorem Length.lawful (s : String) : TextForm.Lawful Length.Means s where
  trimmed := Length.trimsFirst s
  means_self _ read := means_self read
  read?_write _ read := read?_write read

theorem trimmed_of_unread {α : Type} [TextForm α]
    (settled : ∀ a : α, TextForm.read? s = some a → TextForm.read? (Text.trim s) = some a)
    (unread : (TextForm.read? s : Option α) = none → (TextForm.read? (Text.trim s) : Option α) = none) :
    (TextForm.read? (Text.trim s) : Option α) = TextForm.read? s := by
  cases read : (TextForm.read? s : Option α) with
  | none => exact unread read
  | some a => exact settled a read

theorem Numeral.lawful (unread : read? s = none → read? (Text.trim s) = none) :
    TextForm.Lawful Numeral.Means s where
  trimmed := trimmed_of_unread (fun _ read => settles.read?_trim read) unread
  means_self _ read := means_self read
  read?_write _ read := read?_write read

theorem Percentage.lawful (unread : read? s = none → read? (Text.trim s) = none) :
    TextForm.Lawful Percentage.Means s where
  trimmed := trimmed_of_unread (fun _ read => read?_trim read) unread
  means_self _ read := means_self read
  read?_write _ read := read?_write read

theorem Fraction.lawful
    (unread : (TextForm.read? s : Option Fraction) = none → (TextForm.read? (Text.trim s) : Option Fraction) = none) :
    TextForm.Lawful Fraction.Means s where
  trimmed := trimmed_of_unread (fun _ read => settles.read?_trim read) unread
  means_self _ read := means_self read
  read?_write _ read := read?_write read

theorem ClassList.lawful (tight : ∀ name ∈ (read s).names, Text.Tight name.toList) :
    TextForm.Lawful (α := ClassList) Eq s where
  trimmed := congrArg some (read_trim tight)
  means_self _ _ := rfl
  read?_write l found := ⟨l, by rw [← Option.some.inj found]; exact congrArg some (read_write_read s), rfl⟩

end Types

/-- The shortest text of a value is read as the text of the value, for every type.  A zero
may lose its unit.  The id of a reference must need no quotation marks, trimming must not
make a text of a number readable, and no name of a class list may begin or end with white
space. -/
theorem shortest_text_is_read_alike (s : String) :
    ((∀ id fallback, Paint.read? s = some (.server id fallback) → Reference.IsBare id) →
      Paint.read? (Cached.ofText s : Cached Paint).minified = Paint.read? s) ∧
    ((∀ id, Reference.read? s = some (.function id) → Reference.IsBare id) →
      Reference.read? (Cached.ofText s : Cached Reference).minified = Reference.read? s) ∧
    Option.Rel Length.Means (TextForm.read? (Cached.ofText s : Cached Length).minified) (TextForm.read? s) ∧
    ((Numeral.read? s = none → Numeral.read? (Text.trim s) = none) →
      Option.Rel Numeral.Means (Numeral.read? (Cached.ofText s : Cached Numeral).minified) (Numeral.read? s)) ∧
    ((Percentage.read? s = none → Percentage.read? (Text.trim s) = none) →
      Option.Rel Percentage.Means (Percentage.read? (Cached.ofText s : Cached Percentage).minified)
        (Percentage.read? s)) ∧
    (((TextForm.read? s : Option Fraction) = none → (TextForm.read? (Text.trim s) : Option Fraction) = none) →
      Option.Rel Fraction.Means (TextForm.read? (Cached.ofText s : Cached Fraction).minified) (TextForm.read? s)) ∧
    ((∀ name ∈ (ClassList.read s).names, Text.Tight name.toList) →
      ClassList.read (Cached.ofText s : Cached ClassList).minified = ClassList.read s) := by
  refine ⟨?_, ?_, ?_, ?_, ?_, ?_, ?_⟩
  · intro bare
    have same := Cached.read?_minified_eq (Paint.lawful bare)
    exact same
  · intro bare
    have same := Cached.read?_minified_eq (Reference.lawful bare)
    exact same
  · exact Cached.read?_minified (Length.lawful s)
  · exact fun unread => Cached.read?_minified (Numeral.lawful unread)
  · exact fun unread => Cached.read?_minified (Percentage.lawful unread)
  · exact fun unread => Cached.read?_minified (Fraction.lawful unread)
  · exact fun tight => Option.some.inj (Cached.read?_minified_eq (ClassList.lawful tight))

theorem written_fallback_is_read_alike :
    (Cached.ofText "url('#a') rgb(0, 0, 255)" : Cached Paint).minified = "url(#a) #00f" ∧
      Paint.read? "url(#a) #00f" = Paint.read? "url('#a') rgb(0, 0, 255)" ∧
      ClassList.read (Cached.ofText " b a  b" : Cached ClassList).minified = ClassList.read " b a  b" := by
  have read : Paint.read? "url('#a') rgb(0, 0, 255)" = some (.server "a" (some (.color ⟨0, 0, 255, 255⟩))) := by
    decide +kernel
  have shortest : (Cached.ofText "url('#a') rgb(0, 0, 255)" : Cached Paint).minified = "url(#a) #00f" := by
    decide +kernel
  have names : (ClassList.read " b a  b").names = ["b", "a"] := by decide +kernel
  have bare : ∀ id fallback, Paint.read? "url('#a') rgb(0, 0, 255)" = some (.server id fallback) →
      Reference.IsBare id := by
    intro id fallback found
    rw [read] at found
    cases found
    decide
  have tight : ∀ name ∈ (ClassList.read " b a  b").names, Text.Tight name.toList := by
    rw [names]
    exact List.forall_mem_cons.mpr ⟨by decide, List.forall_mem_singleton.mpr (by decide)⟩
  have kept := (shortest_text_is_read_alike "url('#a') rgb(0, 0, 255)").1 bare
  rw [shortest] at kept
  exact ⟨shortest, kept, (shortest_text_is_read_alike " b a  b").2.2.2.2.2.2 tight⟩

/-- A blank in a quoted id ends the id that is written without quotation marks. -/
theorem blank_in_quoted_id_is_lost :
    Reference.read? "url('#a b')" = some (.function "a b") ∧
      (Cached.ofText "url('#a b')" : Cached Reference).minified = "url(#a b)" ∧
      Reference.read? "url(#a b)" = none := by
  decide +kernel

end SlimSvg
