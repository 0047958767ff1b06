import SlimSvg.Proofs.Tree.Rereading

namespace SlimSvg

/-!
# Texts between two tags

What stands between two tags consists of runs of characters and references, which hold no
tag and no end of a section, and of sections between them.  Such character data has one
meaning.  A text is written as data with its own meaning in all ways but one: in another
language, a text without characters that need a section is written as it is, also if it
holds the end of a section.
-/

namespace Xml

variable {written spelt : List Char}

/-! ## Character data -/

/-- A text has one meaning. -/
theorem Spells.eq {other : List Char} (spells : Spells written spelt) (again : Spells written other) :
    spelt = other := by
  induction spells generalizing other with
  | nil =>
      cases again
      rfl
  | char plain _ inductionHypothesis =>
      cases again with
      | char _ rest => rw [inductionHypothesis rest]
      | reference _ _ _ => exact absurd rfl plain
  | @reference name c written spelt closed named _ inductionHypothesis =>
      generalize whole : '&' :: (name ++ ';' :: written) = text at again
      cases again with
      | nil => cases whole
      | char plain _ => exact absurd (List.cons.inj whole).1.symm plain
      | @reference otherName _ _ _ otherClosed otherNamed rest =>
          rcases Scan.append_char_inj closed otherClosed (List.cons.inj whole).2 with ⟨rfl, rfl⟩
          rw [inductionHypothesis rest, Piece.Target.char.inj (Option.some.inj (named.symm.trans otherNamed))]

/-- Whether characters between tags and sections stand for a text. -/
structure IsRun (written spelt : List Char) : Prop where
  spells : Spells written spelt
  chars : ∀ d ∈ written, isXmlChar d = true ∧ d ≠ '<' ∧ d ≠ '\r'
  noEnd : Text.hasPiece "]]>".toList written = false

/-- Whether characters between two tags stand for a text.  Carriage returns are left out, so that
no line end is changed. -/
inductive IsData : List Char → List Char → Prop
  | run {written spelt : List Char} (run : IsRun written spelt) : IsData written spelt
  | section {before spelt inner rest text : List Char} (run : IsRun before spelt)
    (chars : ∀ d ∈ inner, isXmlChar d = true ∧ d ≠ '\r') (noEnd : Text.hasPiece "]]>".toList inner = false)
    (more : IsData rest text) :
    IsData (before ++ ("<![CDATA[".toList ++ (inner ++ ("]]>".toList ++ rest)))) (spelt ++ (inner ++ text))

namespace IsRun

theorem noSection (run : IsRun written spelt) : ¬ "<![CDATA[".toList <:+: written :=
  fun inside => (run.chars '<' (inside.subset List.mem_cons_self)).2.1 rfl

/-- A run holds no section. -/
theorem ne_section (run : IsRun written spelt) (before rest : List Char) :
    written ≠ before ++ ("<![CDATA[".toList ++ rest) := by
  rintro rfl
  exact run.noSection ⟨before, rest, List.append_assoc ..⟩

end IsRun

theorem not_infix_of_noPiece {piece cs : List Char} (absent : Text.hasPiece piece cs = false) : ¬ piece <:+: cs := by
  rw [← Text.hasPiece_iff, absent]
  exact Bool.false_ne_true

/-- Character data has one meaning. -/
theorem IsData.eq {other : List Char} (data : IsData written spelt) (again : IsData written other) :
    spelt = other := by
  induction data generalizing other with
  | @run written _ run =>
      generalize whole : written = text at again
      cases again with
      | run runAgain => exact run.spells.eq (whole ▸ runAgain.spells)
      | «section» _ _ _ _ => exact absurd whole (run.ne_section _ _)
  | @«section» before spelt inner rest text run _ noEnd _ inductionHypothesis =>
      generalize whole : before ++ ("<![CDATA[".toList ++ (inner ++ ("]]>".toList ++ rest))) = data at again
      cases again with
      | run runAgain => exact absurd whole.symm (runAgain.ne_section _ _)
      | «section» runAgain _ noEndAgain more =>
          rcases Scan.append_piece_inj (by decide) run.noSection runAgain.noSection whole with ⟨rfl, behind⟩
          rcases Scan.append_piece_inj (by decide) (not_infix_of_noPiece noEnd) (not_infix_of_noPiece noEndAgain) behind with
            ⟨rfl, rfl⟩
          rw [run.spells.eq runAgain.spells, inductionHypothesis more]

end Xml

/-! ## Written texts -/

namespace Written

/-- Whether a text is written as it is although it holds the end of a section. -/
def losesEnd (raw : Bool) (s : String) : Bool :=
  raw && !(s.toList.any fun c => c == '<' || c == '&') && Text.contains s "]]>"

section Text

variable {raw : Bool} {s : String} {cs : List Char}

/-- Escaped characters bring no carriage return. -/
theorem ne_return_of_mem_textChar {c d : Char} (listed : d ∈ textChar c) (other : c ≠ '\r') : d ≠ '\r' := by
  rintro rfl
  rw [textChar] at listed
  split at listed
  · exact absurd listed (by decide)
  · split at listed
    · exact absurd listed (by decide)
    · split at listed
      · exact absurd listed (by decide)
      · exact other (List.mem_singleton.mp listed).symm

theorem isRun_of_run? (found : run? raw s = some cs) (chars : ∀ c ∈ s.toList, Xml.isXmlChar c = true)
    (noReturn : '\r' ∉ s.toList) (keeps : losesEnd raw s = false) : Xml.IsRun cs s.toList := by
  have plain := of_mem_run found chars
  have spells := spells_run found
  rw [run?] at found
  split at found
  · next verbatim =>
    rw [← Option.some.inj found] at plain spells ⊢
    rw [losesEnd, verbatim, Bool.true_and] at keeps
    refine ⟨spells, fun d listed => ⟨(plain d listed).1, (plain d listed).2, ?_⟩, keeps⟩
    exact fun same => noReturn (same ▸ listed)
  · split at found
    · cases found
    · rw [← Option.some.inj found] at plain spells ⊢
      refine ⟨spells, fun d listed => ⟨(plain d listed).1, (plain d listed).2, ?_⟩, ?_⟩
      · rcases List.mem_flatMap.mp listed with ⟨c, among, here⟩
        exact ne_return_of_mem_textChar here fun same => noReturn (same ▸ among)
      · -- The end of a section has a character that is always replaced.
        rw [← Bool.not_eq_true, Text.hasPiece_iff]
        intro ends
        rcases List.mem_flatMap.mp (ends.subset (show '>' ∈ "]]>".toList by decide)) with ⟨c, among, here⟩
        exact (of_mem_textChar here (chars c among)).2.2 rfl

theorem isData_text (chars : ∀ c ∈ s.toList, Xml.isXmlChar c = true) (noReturn : '\r' ∉ s.toList)
    (keeps : losesEnd raw s = false) : Xml.IsData (text raw s).toList s.toList := by
  cases found : run? raw s with
  | some cs =>
      rw [toList_text found]
      exact .run (isRun_of_run? found chars noReturn keeps)
  | none =>
      rcases toList_text_of_none found with ⟨written, noEnd⟩
      have nothing : Xml.IsRun [] [] := ⟨.nil, fun _ listed => absurd listed List.not_mem_nil, by decide⟩
      have data := Xml.IsData.section nothing
        (fun d listed => ⟨chars d listed, fun same => noReturn (same ▸ listed)⟩) noEnd (.run nothing)
      rw [List.append_nil, List.append_nil] at data
      rw [written]
      exact data

/-- The end of a section stands in no character data without a section. -/
theorem not_isData (loses : losesEnd raw s = true) (meaning : List Char) : ¬ Xml.IsData (text raw s).toList meaning := by
  rw [losesEnd, Bool.and_eq_true] at loses
  rcases loses with ⟨plain, ends⟩
  rw [text, if_pos plain]
  generalize same : s.toList = written
  intro data
  cases data with
  | run run =>
      have noEnd := run.noEnd
      rw [← same] at noEnd
      exact Bool.noConfusion (ends.symm.trans noEnd)
  | «section» _ _ _ _ =>
      rw [Bool.and_eq_true, Bool.not_eq_true', List.any_eq_false] at plain
      refine plain.2 '<' ?_ rfl
      rw [same]
      exact List.mem_append_right _ List.mem_cons_self

/-- The reader makes one text of what is written, unless it is empty. -/
theorem reads_text (chars : ∀ c ∈ s.toList, Xml.isXmlChar c = true) (noReturn : '\r' ∉ s.toList)
    (keeps : losesEnd raw s = false) (namespaces : Xml.Namespaces) :
    Xml.Build.Reads false namespaces (text raw s).toList
      (· = if s.isEmpty then [] else [.text s.toList]) := by
  cases found : run? raw s with
  | some cs =>
      have run := isRun_of_run? found chars noReturn keeps
      rw [toList_text found]
      by_cases nothing : cs = []
      · have spells := run.spells
        rw [nothing] at spells ⊢
        have empty : s.isEmpty = true := by
          rw [String.isEmpty_iff, ← String.toList_eq_nil_iff]
          exact (Xml.Spells.nil.eq spells).symm
        rw [if_pos empty]
        exact (Xml.Build.Reads.nil namespaces).of_closed
      · have something : ¬ s.isEmpty = true := by
          rw [String.isEmpty_iff]
          rintro rfl
          cases run.spells
          exact nothing rfl
        rw [if_neg something]
        have chars : ∀ d ∈ cs, Xml.isXmlChar d = true ∧ d ≠ '<' := fun d listed =>
          ⟨(run.chars d listed).1, (run.chars d listed).2.1⟩
        refine (Xml.Build.Reads.text run.spells nothing chars run.noEnd).of_imp ?_
        rintro _ ⟨whole, rfl, same⟩
        rw [same noReturn]
  | none =>
      rcases toList_text_of_none found with ⟨written, noEnd⟩
      have something : ¬ s.isEmpty = true := by
        rw [String.isEmpty_iff]
        rintro rfl
        cases raw <;> cases found
      rw [written, if_neg something]
      refine (Xml.Build.Reads.characterSection chars noEnd).of_closed.of_imp ?_
      rintro _ rfl
      rw [Xml.normalizeLineEnds_eq_self noReturn]

end Text

/-- Character data is written for every text, unless it is written as it is and holds the end of a
section; and the data has no meaning but the text, which the reader finds in it. -/
theorem text_is_lossless_iff (raw : Bool) (s : String) (chars : ∀ c ∈ s.toList, Xml.isXmlChar c = true)
    (noReturn : '\r' ∉ s.toList) :
    (Xml.IsData (text raw s).toList s.toList ↔ losesEnd raw s = false) ∧
      (∀ meaning, Xml.IsData (text raw s).toList meaning → meaning = s.toList) ∧
      (losesEnd raw s = false → ∀ namespaces, Xml.Build.Reads false namespaces (text raw s).toList
        (· = if s.isEmpty then [] else [.text s.toList])) := by
  have keeps {meaning : List Char} (data : Xml.IsData (text raw s).toList meaning) : losesEnd raw s = false := by
    rw [← Bool.not_eq_true]
    exact fun loses => not_isData loses meaning data
  exact ⟨⟨keeps, isData_text chars noReturn⟩, fun meaning data => data.eq (isData_text chars noReturn (keeps data)),
    reads_text chars noReturn⟩

/-- Brackets before the end of a section are a part of the text, and in another text the end is
escaped. -/
theorem brackets_are_kept :
    (text true "a&b]]" = "<![CDATA[a&b]]]]>" ∧ Xml.IsData (text true "a&b]]").toList "a&b]]".toList) ∧
      (text false "]]>" = "]]&gt;" ∧ Xml.IsData (text false "]]>").toList "]]>".toList) := by
  have sectioned := text_is_lossless_iff true "a&b]]" (List.all_iff_forall_prop.mp (by decide)) (by decide)
  have escaped := text_is_lossless_iff false "]]>" (List.all_iff_forall_prop.mp (by decide)) (by decide)
  exact ⟨⟨by decide, sectioned.1.mpr (by decide)⟩, by decide, escaped.1.mpr (by decide)⟩

/-- The end of a section alone is written as it is, which is no character data. -/
theorem section_end_is_lost :
    text true "]]>" = "]]>" ∧ ¬ ∃ meaning, Xml.IsData (text true "]]>").toList meaning := by
  refine ⟨by decide, ?_⟩
  rintro ⟨meaning, data⟩
  exact not_isData (by decide) meaning data

end Written

end SlimSvg
