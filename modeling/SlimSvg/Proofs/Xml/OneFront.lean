import SlimSvg.Proofs.Xml.Front

namespace SlimSvg
namespace Xml

/-!
# A text begins with one front

A part of a front shows by its first characters what it is, and it ends where something
stands for the first time that it cannot hold.  So the text before a root element can be
divided into an opening, parts and a document type declaration in one way only, except that
nothing says where one blank part ends and the next one begins.
-/

/-- Whether a text begins with a sign that divides or ends a declaration. -/
def AtSign (cs : List Char) : Prop :=
  ∃ c ∈ ['>', '['], ∃ rest, cs = c :: rest

/-- Outside of quotation marks, the first of these signs is known from the whole. -/
theorem Level.append_inj {cs ds after rest : List Char} (divides : AtSign after) (dividesToo : AtSign rest)
    (level : Level cs) (levelToo : Level ds) (same : cs ++ after = ds ++ rest) : cs = ds ∧ after = rest := by
  rcases divides with ⟨a, divides, after, rfl⟩
  rcases dividesToo with ⟨b, dividesToo, rest, rfl⟩
  have sign {c : Char} (divides : c ∈ ['>', '[']) : c ∈ signs := by
    rcases List.mem_pair.mp divides with rfl | rfl <;> decide
  have noMark {c : Char} (divides : c ∈ ['>', '[']) (mark : c = '\'' ∨ c = '"') : False := by
    rcases mark with rfl | rfl <;> revert divides <;> decide
  have ordinaryMark {q : Char} (mark : q = '\'' ∨ q = '"') : q ∈ signs := by
    rcases mark with rfl | rfl <;> decide
  induction level generalizing ds with
  | nil =>
      cases levelToo with
      | nil => exact ⟨rfl, same⟩
      | plain ordinary _ => exact absurd (sign divides) ((List.cons.inj same).1 ▸ ordinary)
      | quoted mark _ _ => exact (noMark divides ((List.cons.inj same).1 ▸ mark)).elim
  | plain ordinary _ inductionHypothesis =>
      cases levelToo with
      | nil => exact absurd (sign dividesToo) ((List.cons.inj same).1 ▸ ordinary)
      | plain _ later =>
          rw [List.cons_append, List.cons_append, List.cons.injEq] at same
          rcases same with ⟨rfl, same⟩
          rcases inductionHypothesis later same with ⟨rfl, ends⟩
          exact ⟨rfl, ends⟩
      | quoted mark _ _ => exact absurd (ordinaryMark mark) ((List.cons.inj same).1 ▸ ordinary)
  | @quoted q run cs mark inside _ inductionHypothesis =>
      cases levelToo with
      | nil => exact (noMark dividesToo ((List.cons.inj same).1 ▸ mark)).elim
      | plain ordinary _ => exact absurd (ordinaryMark mark) ((List.cons.inj same).1 ▸ ordinary)
      | @quoted _ other ds _ insideToo later =>
          rw [List.cons_append, List.cons_append, List.cons.injEq, List.append_assoc, List.append_assoc] at same
          rcases same with ⟨rfl, same⟩
          rcases Scan.append_char_inj inside insideToo same with ⟨rfl, behind⟩
          rcases inductionHypothesis later behind with ⟨rfl, ends⟩
          exact ⟨rfl, ends⟩

/-! ## Parts -/

namespace FrontPart

def isBlank : FrontPart → Bool
  | blank _ => true
  | _ => false

/-- The parts that are not blank. -/
def solid (parts : List FrontPart) : List FrontPart :=
  parts.filter fun part => !part.isBlank

variable {bracketed : Bool} {part other : FrontPart} {cs ds : List Char}

/-- The keywords of declarations that may stand between brackets. -/
def keywords : List String :=
  "<!ENTITY" :: SubsetPart.unusedKeywords

theorem mem_keywords {keyword : String} {body : List Char} (wellFormed : (declaration keyword body).IsWellFormed bracketed) :
    keyword ∈ keywords := by
  rcases wellFormed.2 with ⟨rfl, -⟩ | ⟨listed, -⟩
  · exact List.mem_cons_self
  · exact List.mem_cons_of_mem _ listed

/-- Four characters tell the keywords apart. -/
theorem keyword_inj {keyword word : String} (listed : keyword ∈ keywords) (listedToo : word ∈ keywords)
    (same : keyword.toList ++ cs = word.toList ++ ds) : keyword = word := by
  have apart : ∀ keyword ∈ keywords, ∀ word ∈ keywords, keyword.toList.take 4 = word.toList.take 4 → keyword = word := by
    decide
  have long : ∀ keyword ∈ keywords, 4 ≤ keyword.toList.length := by decide
  refine apart keyword listed word listedToo ?_
  rw [← List.take_append_of_le_length (long keyword listed), same, List.take_append_of_le_length (long word listedToo)]

/-- A declaration begins like a comment, but not with its hyphens. -/
theorem exists_letter {keyword : String} {body : List Char} (wellFormed : (declaration keyword body).IsWellFormed bracketed) :
    ∃ letter cs, (declaration keyword body).text = '<' :: '!' :: letter :: cs ∧ letter ≠ '-' := by
  have listed := mem_keywords wellFormed
  simp only [keywords, SubsetPart.unusedKeywords, List.mem_cons, List.not_mem_nil, or_false] at listed
  rcases listed with rfl | rfl | rfl | rfl <;> exact ⟨_, _, rfl, by decide⟩

/-- A part that is not blank begins like markup, and not like a tag. -/
theorem exists_mark (solid : part.isBlank = false) (wellFormed : part.IsWellFormed bracketed) :
    ∃ mark cs, part.text = '<' :: mark :: cs ∧ isNameChar mark = false := by
  have other {mark : Char} (listed : mark ∈ Scan.marks) := Scan.isNameChar_of_mem_marks mark listed
  cases part with
  | blank cs => cases solid
  | comment text => exact ⟨'!', _, rfl, other (by decide)⟩
  | instruction target gap value => exact ⟨'?', _, rfl, other (by decide)⟩
  | declaration keyword body =>
      rcases exists_letter wellFormed with ⟨letter, cs, begins, -⟩
      exact ⟨'!', letter :: cs, begins, other (by decide)⟩

/-- What begins a comment begins nothing else. -/
theorem comment_append_inj {text : List Char} (wellFormed : (comment text).IsWellFormed bracketed)
    (solid : other.isBlank = false) (wellFormedToo : other.IsWellFormed bracketed)
    (same : (comment text).text ++ cs = other.text ++ ds) : comment text = other ∧ cs = ds := by
  cases other with
  | blank _ => cases solid
  | comment otherText =>
      have free {text : List Char} (noDashes : ¬ ['-', '-'] <:+: text) : ¬ "-->".toList <:+: text :=
        fun inside => noDashes ((show ['-', '-'] <:+: "-->".toList by decide).trans inside)
      simp only [FrontPart.text, List.append_assoc, List.append_cancel_left_eq] at same
      rcases Scan.append_piece_inj (by decide) (free wellFormed.1) (free wellFormedToo.1) same with ⟨rfl, behind⟩
      exact ⟨rfl, behind⟩
  | instruction target gap value => cases same
  | declaration keyword body =>
      rcases exists_letter wellFormedToo with ⟨letter, more, begins, noHyphen⟩
      rw [begins] at same
      exact absurd (List.cons.inj (List.cons.inj (List.cons.inj same).2).2).1.symm noHyphen

/-- Where an instruction ends, and what of it is target, blank and value, is known from the
whole. -/
theorem instruction_append_inj {target gap value : List Char}
    (wellFormed : (instruction target gap value).IsWellFormed bracketed) (solid : other.isBlank = false)
    (wellFormedToo : other.IsWellFormed bracketed)
    (same : (instruction target gap value).text ++ cs = other.text ++ ds) :
    instruction target gap value = other ∧ cs = ds := by
  cases other with
  | blank _ => cases solid
  | comment _ => cases same
  | instruction otherTarget otherGap otherValue =>
      rcases wellFormed with ⟨⟨-, named⟩, blank, nameEnds, gapEnds, absent, -⟩
      rcases wellFormedToo with ⟨⟨-, namedToo⟩, blankToo, nameEndsToo, gapEndsToo, absentToo, -⟩
      have behindName {gap value cs : List Char} (ends : Scan.Ends isNameChar (gap ++ value)) :
          Scan.Ends isNameChar (gap ++ (value ++ ("?>".toList ++ cs))) := by
        rw [← List.append_assoc]
        exact Scan.ends_append ends (Scan.ends_cons (Scan.isNameChar_of_mem_marks _ (by decide)) _)
      have behindGap {value cs : List Char} (ends : Scan.Ends Text.isXmlSpace value) :
          Scan.Ends Text.isXmlSpace (value ++ ("?>".toList ++ cs)) :=
        Scan.ends_append ends (Scan.ends_cons rfl _)
      simp only [FrontPart.text, List.append_assoc, List.append_cancel_left_eq] at same
      rcases Scan.append_run_inj named namedToo (behindName nameEnds) (behindName nameEndsToo) same with ⟨rfl, later⟩
      rcases Scan.append_run_inj blank blankToo (behindGap gapEnds) (behindGap gapEndsToo) later with ⟨rfl, last⟩
      rcases Scan.append_piece_inj (by decide) absent absentToo last with ⟨rfl, behind⟩
      exact ⟨rfl, behind⟩
  | declaration keyword body =>
      rcases exists_letter wellFormedToo with ⟨letter, more, begins, -⟩
      rw [begins] at same
      cases same

/-- An entity ends with the first sign outside of quotation marks, and a declaration of which
nothing is used with the first sign of all. -/
theorem declaration_append_inj {keyword : String} {body : List Char}
    (wellFormed : (declaration keyword body).IsWellFormed bracketed) (solid : other.isBlank = false)
    (wellFormedToo : other.IsWellFormed bracketed) (same : (declaration keyword body).text ++ cs = other.text ++ ds) :
    declaration keyword body = other ∧ cs = ds := by
  cases other with
  | blank _ => cases solid
  | comment _ =>
      rcases comment_append_inj wellFormedToo rfl wellFormed same.symm with ⟨impossible, -⟩
      cases impossible
  | instruction _ _ _ =>
      rcases instruction_append_inj wellFormedToo rfl wellFormed same.symm with ⟨impossible, -⟩
      cases impossible
  | declaration word otherBody =>
      simp only [FrontPart.text, List.append_assoc] at same
      obtain rfl := keyword_inj (mem_keywords wellFormed) (mem_keywords wellFormedToo) same
      have behind := List.append_cancel_left same
      have bodies : body = otherBody ∧ cs = ds := by
        rcases wellFormed.2 with ⟨rfl, level⟩ | ⟨listed, absent⟩
        · rcases wellFormedToo.2 with ⟨-, levelToo⟩ | ⟨listed, -⟩
          · rcases Level.append_inj ⟨'>', by decide, cs, rfl⟩ ⟨'>', by decide, ds, rfl⟩ level levelToo behind with
              ⟨same, ends⟩
            exact ⟨same, (List.cons.inj ends).2⟩
          · exact absurd listed (by decide)
        · rcases wellFormedToo.2 with ⟨rfl, -⟩ | ⟨-, absentToo⟩
          · exact absurd listed (by decide)
          · exact Scan.append_char_inj absent absentToo behind
      rcases bodies with ⟨rfl, rfl⟩
      exact ⟨rfl, rfl⟩

/-- The first part of a text is known from the whole, if it is not blank. -/
theorem text_append_inj (solid : part.isBlank = false) (wellFormed : part.IsWellFormed bracketed)
    (solidToo : other.isBlank = false) (wellFormedToo : other.IsWellFormed bracketed)
    (same : part.text ++ cs = other.text ++ ds) : part = other ∧ cs = ds := by
  cases part with
  | blank _ => cases solid
  | comment text => exact comment_append_inj wellFormed solidToo wellFormedToo same
  | instruction target gap value => exact instruction_append_inj wellFormed solidToo wellFormedToo same
  | declaration keyword body => exact declaration_append_inj wellFormed solidToo wellFormedToo same

end FrontPart

/-! ## Parts one by one -/

/-- Where the parts of a front end: at the start tag of the root element, at a document type
declaration, or at the bracket that closes one. -/
inductive Stops : (bracketed : Bool) → List Char → Prop
  | root {c : Char} (named : isNameChar c = true) (rest : List Char) : Stops false ('<' :: c :: rest)
  | doctype (rest : List Char) : Stops false ("<!DOCTYPE".toList ++ rest)
  | bracket (rest : List Char) : Stops true (']' :: rest)

namespace Stops

variable {bracketed : Bool} {cs : List Char}

theorem ends_isXmlSpace (stops : Stops bracketed cs) : Scan.Ends Text.isXmlSpace cs := by
  cases stops with
  | root _ _ => exact Scan.ends_cons rfl _
  | doctype _ => exact Scan.ends_cons rfl _
  | bracket _ => exact Scan.ends_cons rfl _

/-- No part begins where the parts end. -/
theorem ne_text_append (stops : Stops bracketed cs) {part : FrontPart} (solid : part.isBlank = false)
    (wellFormed : part.IsWellFormed bracketed) (ds : List Char) : cs ≠ part.text ++ ds := by
  intro same
  rcases FrontPart.exists_mark solid wellFormed with ⟨mark, more, begins, other⟩
  cases stops with
  | root named rest =>
      rw [begins] at same
      rw [← (List.cons.inj (List.cons.inj same).2).1, named] at other
      cases other
  | doctype rest =>
      cases part with
      | blank _ => cases solid
      | comment _ => cases same
      | instruction _ _ _ => cases same
      | declaration _ _ => cases wellFormed.1
  | bracket rest =>
      rw [begins] at same
      cases same

end Stops

/-- How a text is divided into parts that are not blank, up to the place where the parts end. -/
inductive Divided (bracketed : Bool) : List Char → List FrontPart → List Char → Prop
  | stop {cs : List Char} (stops : Stops bracketed cs) : Divided bracketed cs [] cs
  | blank {c : Char} {cs rest : List Char} {parts : List FrontPart} (white : Text.isXmlSpace c = true)
      (divided : Divided bracketed cs parts rest) : Divided bracketed (c :: cs) parts rest
  | part {part : FrontPart} {text cs rest : List Char} {parts : List FrontPart} (solid : part.isBlank = false)
      (wellFormed : part.IsWellFormed bracketed) (whole : text = part.text ++ cs)
      (divided : Divided bracketed cs parts rest) : Divided bracketed text (part :: parts) rest

namespace Divided

variable {bracketed : Bool} {cs rest others : List Char} {parts more : List FrontPart}

/-- A part that is not blank does not begin with a blank. -/
theorem ne_blank_cons {part : FrontPart} (solid : part.isBlank = false) (wellFormed : part.IsWellFormed bracketed)
    {c : Char} (white : Text.isXmlSpace c = true) (ds : List Char) : c :: cs ≠ part.text ++ ds := by
  rcases FrontPart.exists_mark solid wellFormed with ⟨mark, more, begins, -⟩
  rw [begins]
  intro same
  rw [(List.cons.inj same).1] at white
  cases white

theorem unique (divided : Divided bracketed cs parts rest) (dividedToo : Divided bracketed cs more others) :
    parts = more ∧ rest = others := by
  induction divided generalizing more with
  | stop stops =>
      cases dividedToo with
      | stop _ => exact ⟨rfl, rfl⟩
      | blank white _ => exact absurd white (Bool.not_eq_true _ ▸ stops.ends_isXmlSpace _ rfl)
      | part solid wellFormed whole _ => exact absurd whole (stops.ne_text_append solid wellFormed _)
  | blank white _ inductionHypothesis =>
      cases dividedToo with
      | stop stops => exact absurd white (Bool.not_eq_true _ ▸ stops.ends_isXmlSpace _ rfl)
      | blank _ later => exact inductionHypothesis later
      | part solid wellFormed whole _ => exact absurd whole (ne_blank_cons solid wellFormed white _)
  | part solid wellFormed whole _ inductionHypothesis =>
      cases dividedToo with
      | stop stops => exact absurd whole (stops.ne_text_append solid wellFormed _)
      | blank white _ => exact absurd whole (ne_blank_cons solid wellFormed white _)
      | part solidToo wellFormedToo wholeToo later =>
          rcases FrontPart.text_append_inj solid wellFormed solidToo wellFormedToo (whole.symm.trans wholeToo) with
            ⟨rfl, rfl⟩
          rcases inductionHypothesis later with ⟨rfl, rfl⟩
          exact ⟨rfl, rfl⟩

theorem blanks {run : List Char} (white : ∀ c ∈ run, Text.isXmlSpace c = true) (divided : Divided bracketed cs parts rest) :
    Divided bracketed (run ++ cs) parts rest := by
  induction run with
  | nil => exact divided
  | cons c run inductionHypothesis =>
      rw [List.forall_mem_cons] at white
      exact .blank white.1 (inductionHypothesis white.2)

/-- The text of parts is divided into them. -/
theorem textOf_append (wellFormed : ∀ part ∈ parts, part.IsWellFormed bracketed) (stops : Stops bracketed cs) :
    Divided bracketed (FrontPart.textOf parts ++ cs) (FrontPart.solid parts) cs := by
  induction parts with
  | nil => exact .stop stops
  | cons part parts inductionHypothesis =>
      rw [List.forall_mem_cons] at wellFormed
      have later := inductionHypothesis wellFormed.2
      rw [FrontPart.textOf, List.flatMap_cons, List.append_assoc, ← FrontPart.textOf]
      cases part with
      | blank run => exact later.blanks wellFormed.1
      | _ => exact .part rfl wellFormed.1 rfl later

/-- A text that is divided into parts does not begin like an opening. -/
theorem undeclared (divided : Divided false cs parts rest) : cs.head? ≠ some '\uFEFF' ∧ ¬ "<?xml ".toList <+: cs := by
  cases divided with
  | stop stops =>
      cases stops with
      | @root c named rest =>
          refine ⟨nofun, fun begins => ?_⟩
          have same : '?' = c := (List.cons_prefix_cons.mp (List.cons_prefix_cons.mp begins).2).1
          rw [← same] at named
          cases named.symm.trans (Scan.isNameChar_of_mem_marks '?' (by decide))
      | doctype rest =>
          refine ⟨nofun, ?_⟩
          rintro ⟨_, same⟩
          cases same
  | blank white _ =>
      refine ⟨?_, ?_⟩
      · rintro ⟨⟩
        cases white
      · intro begins
        rw [← (List.cons_prefix_cons.mp begins).1] at white
        cases white
  | @part part _ cs _ _ solid wellFormed whole _ =>
      rw [whole]
      cases part with
      | blank _ => cases solid
      | comment text =>
          refine ⟨nofun, ?_⟩
          rintro ⟨_, same⟩
          cases same
      | instruction target gap value =>
          refine ⟨nofun, fun begins => wellFormed.2.2.2.2.2 ?_⟩
          have ends : (FrontPart.instruction target gap value).text =
              "<?".toList ++ (target ++ (gap ++ (value ++ ['?']))) ++ ['>'] := by simp [FrontPart.text]
          rw [ends, List.append_assoc, List.singleton_append, Text.prefix_append_cons_iff (by decide)] at begins
          rw [ends]
          exact begins.trans (List.prefix_append _ _)
      | declaration _ _ => cases wellFormed.1

end Divided

/-! ## Document type declarations -/

namespace TypeDeclaration

/-- A declaration but for the division of its blanks. -/
structure Outline where
  body : List Char
  /-- What stands between the brackets, if there are any. -/
  parts? : Option (List FrontPart)

def outline (d : TypeDeclaration) : Outline :=
  ⟨d.body, d.subset.map fun (parts, _) => FrontPart.solid parts⟩

/-- Behind the name and the reference of a declaration stands the bracket or the last sign. -/
theorem text_append (d : TypeDeclaration) (cs : List Char) :
    d.text ++ cs = "<!DOCTYPE".toList ++ (d.header ++ d.subset.elim ('>' :: cs) fun (parts, gap) =>
      '[' :: (FrontPart.textOf parts ++ (']' :: (gap ++ '>' :: cs)))) := by
  rcases d with ⟨header, _ | ⟨parts, gap⟩⟩
  · rw [text_plain]
    generalize "<!DOCTYPE".toList = word
    simp only [Option.elim_none, List.append_assoc, List.cons_append, List.nil_append]
  · rw [text_bracketed]
    generalize "<!DOCTYPE".toList = word
    simp only [Option.elim_some, List.append_assoc, List.cons_append, List.nil_append]

/-- A declaration is known from the whole. -/
theorem text_append_inj {d e : TypeDeclaration} (wellFormed : d.IsWellFormed) (wellFormedToo : e.IsWellFormed)
    {cs ds : List Char} (same : d.text ++ cs = e.text ++ ds) : d.outline = e.outline ∧ cs = ds := by
  have divides (subset : Option (List FrontPart × List Char)) (cs : List Char) :
      AtSign (subset.elim ('>' :: cs) fun (parts, gap) =>
        '[' :: (FrontPart.textOf parts ++ (']' :: (gap ++ '>' :: cs)))) := by
    cases subset with
    | none => exact ⟨'>', by decide, _, rfl⟩
    | some _ => exact ⟨'[', by decide, _, rfl⟩
  rw [text_append, text_append] at same
  rcases Level.append_inj (divides _ _) (divides _ _) wellFormed.header wellFormedToo.header
    (List.append_cancel_left same) with ⟨headers, behind⟩
  rcases d with ⟨header, _ | ⟨parts, gap⟩⟩ <;> rcases e with ⟨other, _ | ⟨others, otherGap⟩⟩
  · exact ⟨congrArg (fun header => outline ⟨header, none⟩) headers, (List.cons.inj behind).2⟩
  · cases (List.cons.inj behind).1
  · cases (List.cons.inj behind).1
  · have inside := (List.cons.inj behind).2
    have divided := Divided.textOf_append wellFormed.parts (.bracket (gap ++ '>' :: cs))
    have dividedToo := Divided.textOf_append wellFormedToo.parts (.bracket (otherGap ++ '>' :: ds))
    rcases (inside ▸ divided).unique dividedToo with ⟨sameParts, closing⟩
    have ends (cs : List Char) : Scan.Ends Text.isXmlSpace ('>' :: cs) := Scan.ends_cons rfl cs
    rcases Scan.append_run_inj (wellFormed.gap _ _ rfl) (wellFormedToo.gap _ _ rfl) (ends cs) (ends ds)
      (List.cons.inj closing).2 with ⟨rfl, last⟩
    rw [closing] at inside
    have texts : FrontPart.textOf parts = FrontPart.textOf others := List.append_cancel_right inside
    have bodies : header ++ '[' :: (FrontPart.textOf parts ++ (']' :: gap)) =
        other ++ '[' :: (FrontPart.textOf others ++ (']' :: gap)) := by
      rw [show header = other from headers, texts]
    exact ⟨congrArg₂ Outline.mk bodies (congrArg some sameParts), (List.cons.inj last).2⟩

end TypeDeclaration

/-! ## The whole front -/

namespace Front

/-- An XML declaration begins with a word that nothing else before the root element begins
with. -/
theorem declaration_append_inj {first second cs ds : List Char} (declared : IsDeclaration first)
    (declaredToo : IsDeclaration second) (undeclared : ¬ "<?xml ".toList <+: cs) (undeclaredToo : ¬ "<?xml ".toList <+: ds)
    (same : first ++ cs = second ++ ds) : first = second ∧ cs = ds := by
  have begins {inside : List Char} (spaced : inside.head? = some ' ') (rest : List Char) :
      "<?xml ".toList <+: "<?xml".toList ++ (inside ++ "?>".toList) ++ rest := by
    rcases List.head?_eq_some_iff.mp spaced with ⟨more, rfl⟩
    exact ⟨more ++ "?>".toList ++ rest, rfl⟩
  rcases declared with rfl | ⟨inside, tagless, spaced, rfl⟩ <;>
    rcases declaredToo with rfl | ⟨insideToo, taglessToo, spacedToo, rfl⟩
  · exact ⟨rfl, same⟩
  · rw [List.nil_append] at same
    exact absurd (begins spacedToo ds) (same ▸ undeclared)
  · rw [List.nil_append] at same
    exact absurd (begins spaced cs) (same ▸ undeclaredToo)
  · -- The question mark before the last sign is no sign itself.
    have level {inside : List Char} (tagless : Tagless inside) : Level (inside ++ ['?']) :=
      tagless.1.append (.of_plain (List.all_iff_forall_prop.mp (by decide)))
    have shape (inside rest : List Char) : "<?xml".toList ++ (inside ++ "?>".toList) ++ rest =
        "<?xml".toList ++ (inside ++ ['?'] ++ '>' :: rest) := by simp
    rw [shape, shape] at same
    rcases Level.append_inj ⟨'>', by decide, cs, rfl⟩ ⟨'>', by decide, ds, rfl⟩ (level tagless) (level taglessToo)
      (List.append_cancel_left same) with ⟨insides, behind⟩
    rw [List.append_cancel_right insides]
    exact ⟨rfl, (List.cons.inj behind).2⟩

/-- The mark of the byte order and the XML declaration are known from the whole. -/
theorem opening_append_inj {opening other cs ds rest others : List Char} {parts more : List FrontPart}
    (opens : IsOpening opening) (opensToo : IsOpening other) (divided : Divided false cs parts rest)
    (dividedToo : Divided false ds more others) (same : opening ++ cs = other ++ ds) : opening = other ∧ cs = ds := by
  have unmarked {declaration cs rest : List Char} {parts : List FrontPart} (declared : IsDeclaration declaration)
      (divided : Divided false cs parts rest) : (declaration ++ cs).head? ≠ some '\uFEFF' := by
    rcases declared with rfl | ⟨_, -, -, rfl⟩
    · exact divided.undeclared.1
    · exact nofun
  rcases opens with ⟨mark, declaration, rfl, marked, declared⟩
  rcases opensToo with ⟨otherMark, otherDeclaration, rfl, markedToo, declaredToo⟩
  rw [List.append_assoc, List.append_assoc] at same
  have declarations := declaration_append_inj declared declaredToo divided.undeclared.2 dividedToo.undeclared.2
  rcases marked with rfl | rfl <;> rcases markedToo with rfl | rfl
  · exact declarations same
  · have marked : (declaration ++ cs).head? = some '\uFEFF' := congrArg List.head? same
    exact absurd marked (unmarked declared divided)
  · have marked : (otherDeclaration ++ ds).head? = some '\uFEFF' := congrArg List.head? same.symm
    exact absurd marked (unmarked declaredToo dividedToo)
  · rcases declarations (List.cons.inj same).2 with ⟨rfl, behind⟩
    exact ⟨rfl, behind⟩

/-- A front but for the division of its blanks. -/
structure Outline where
  /-- Everything before the document type declaration. -/
  head : List Char
  before : List FrontPart
  /-- The document type declaration and what stands behind it. -/
  doctype : Option (TypeDeclaration.Outline × List FrontPart)

def outlineOf (found : TypeDeclaration × List FrontPart) : TypeDeclaration.Outline × List FrontPart :=
  (found.1.outline, FrontPart.solid found.2)

def outline (f : Front) : Outline :=
  ⟨f.head, FrontPart.solid f.before, f.doctype.map outlineOf⟩

variable {f g : Front}

theorem stops_tail (f : Front) {c : Char} (named : isNameChar c = true) (rest : List Char) :
    Stops false (f.tail ++ '<' :: c :: rest) := by
  rw [tail]
  cases f.doctype with
  | none => exact .root named rest
  | some found =>
      rw [Option.elim_some, List.append_assoc, TypeDeclaration.text_append]
      exact .doctype _

/-- Behind its head a front has one document type declaration or none. -/
theorem doctype_outline_eq (wellFormed : f.IsWellFormed) (wellFormedToo : g.IsWellFormed) {c d : Char}
    {rest others : List Char} (named : isNameChar c = true) (namedToo : isNameChar d = true)
    (same : f.tail ++ '<' :: c :: rest = g.tail ++ '<' :: d :: others) :
    f.doctype.map outlineOf = g.doctype.map outlineOf := by
  have tailOf {f : Front} {found : TypeDeclaration × List FrontPart} (declared : f.doctype = some found) (cs : List Char) :
      f.tail ++ cs = found.1.text ++ (FrontPart.textOf found.2 ++ cs) := by
    rw [tail, declared, Option.elim_some, List.append_assoc]
  have bare {f : Front} (undeclared : f.doctype = none) (cs : List Char) : f.tail ++ cs = cs := by
    rw [tail, undeclared, Option.elim_none, List.nil_append]
  have noKeyword {c : Char} (named : isNameChar c = true) (rest cs : List Char) (d : TypeDeclaration) :
      '<' :: c :: rest ≠ d.text ++ cs := by
    rw [TypeDeclaration.text_append]
    intro same
    rw [(List.cons.inj (List.cons.inj same).2).1] at named
    cases named.symm.trans (Scan.isNameChar_of_mem_marks '!' (by decide))
  cases declared : f.doctype with
  | none =>
      cases declaredToo : g.doctype with
      | none => rfl
      | some found =>
          rw [bare declared, tailOf declaredToo] at same
          exact absurd same (noKeyword named rest _ _)
  | some found =>
      cases declaredToo : g.doctype with
      | none =>
          rw [tailOf declared, bare declaredToo] at same
          exact absurd same.symm (noKeyword namedToo others _ _)
      | some foundToo =>
          rw [tailOf declared, tailOf declaredToo] at same
          have here := wellFormed.doctype found.1 found.2 declared
          have there := wellFormedToo.doctype foundToo.1 foundToo.2 declaredToo
          rcases TypeDeclaration.text_append_inj here.1 there.1 same with ⟨outlines, behind⟩
          have divided := Divided.textOf_append here.2 (.root named rest)
          have dividedToo := Divided.textOf_append there.2 (.root namedToo others)
          exact congrArg some (Prod.ext outlines ((behind ▸ divided).unique dividedToo).1)

/-- A text begins with one front only. -/
theorem outline_eq (wellFormed : f.IsWellFormed) (wellFormedToo : g.IsWellFormed) {c d : Char} {rest others : List Char}
    (named : isNameChar c = true) (namedToo : isNameChar d = true)
    (same : f.text ++ '<' :: c :: rest = g.text ++ '<' :: d :: others) : f.outline = g.outline := by
  have divided := Divided.textOf_append wellFormed.before (f.stops_tail named rest)
  have dividedToo := Divided.textOf_append wellFormedToo.before (g.stops_tail namedToo others)
  rw [text, text, List.append_assoc, List.append_assoc] at same
  have whole := same
  rw [head, head, List.append_assoc, List.append_assoc] at whole
  rcases opening_append_inj wellFormed.opening wellFormedToo.opening divided dividedToo whole with ⟨-, behind⟩
  rcases (behind ▸ divided).unique dividedToo with ⟨parts, tails⟩
  have heads : f.head = g.head := List.append_cancel_right (tails ▸ same)
  rw [outline, outline, heads, parts, doctype_outline_eq wellFormed wellFormedToo named namedToo tails]

end Front

end Xml
end SlimSvg
