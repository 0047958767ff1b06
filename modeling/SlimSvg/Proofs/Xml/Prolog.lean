import SlimSvg.Proofs.Xml.Marks

namespace SlimSvg
namespace Xml

/-!
# Reading what stands around the root element

Comments and instructions may stand before and behind the root element, and the two
declarations before it.  Each part is given by the data that is written, and a readable
part is read wherever it stands.
-/

/-! ## Finished nodes -/

/-- Whether nodes were found in a part of a text, one behind the other. -/
structure PlacedWithin (placed : List PlacedNode) (nodes : List Node) (first last : Nat) : Prop where
  nodes_eq : placed.map (·.node) = nodes
  ordered : (placed.map (·.offset)).Pairwise (· < ·)
  within : ∀ p ∈ placed, first ≤ p.offset ∧ p.offset < last

namespace PlacedWithin

variable {placed more : List PlacedNode} {nodes others : List Node} {first middle last : Nat}

theorem nil (first last : Nat) : PlacedWithin [] [] first last :=
  ⟨rfl, List.Pairwise.nil, nofun⟩

theorem single (n : Node) {o : Nat} (least : first ≤ o) (less : o < last) : PlacedWithin [⟨o, n⟩] [n] first last := by
  refine ⟨rfl, List.pairwise_singleton _ _, ?_⟩
  intro p listed
  rw [List.mem_singleton.mp listed]
  exact ⟨least, less⟩

theorem widen (found : PlacedWithin placed nodes first last) {start stop : Nat} (before : start ≤ first)
    (after : last ≤ stop) : PlacedWithin placed nodes start stop := by
  refine ⟨found.nodes_eq, found.ordered, fun p listed => ?_⟩
  have inside := found.within p listed
  exact ⟨Nat.le_trans before inside.1, Nat.lt_of_lt_of_le inside.2 after⟩

theorem append (found : PlacedWithin placed nodes first middle) (foundToo : PlacedWithin more others middle last)
    (start : first ≤ middle) (stop : middle ≤ last) :
    PlacedWithin (placed ++ more) (nodes ++ others) first last := by
  refine ⟨?_, ?_, ?_⟩
  · rw [List.map_append, found.nodes_eq, foundToo.nodes_eq]
  · rw [List.map_append, List.pairwise_append]
    refine ⟨found.ordered, foundToo.ordered, ?_⟩
    intro n listed m listedToo
    rcases List.mem_map.mp listed with ⟨p, member, rfl⟩
    rcases List.mem_map.mp listedToo with ⟨q, memberToo, rfl⟩
    exact Nat.lt_of_lt_of_le (found.within p member).2 (foundToo.within q memberToo).1
  · intro p listed
    rcases List.mem_append.mp listed with member | member
    · exact (found.widen (Nat.le_refl first) stop).within p member
    · exact (foundToo.widen start (Nat.le_refl last)).within p member

end PlacedWithin

/-- A builder that has passed a part of a document outside of the root element. -/
def Builder.past (b : Builder) (placed : List PlacedNode) (entities : Entities) : Builder :=
  { b with finished := placed.reverse ++ b.finished, afterText := false, entities := b.entities ++ entities }

theorem Builder.past_past (b : Builder) (placed more : List PlacedNode) (entities others : Entities) :
    (b.past placed entities).past more others = b.past (placed ++ more) (entities ++ others) := by
  rw [past, past, past, List.reverse_append, List.append_assoc, List.append_assoc]

theorem Builder.past_nil {b : Builder} (noText : b.afterText = false) : b.past [] [] = b := by
  rw [past, List.append_nil, ← noText]
  rfl

/-- Outside of the root element a node is finished at once. -/
theorem Builder.appendOther_outside {b : Builder} (outside : b.openElements = []) (n : Node) (o : Nat) :
    b.appendOther n o = b.past [⟨o, n⟩] [] := by
  rcases b with ⟨finished, _, tag, attributes, declared, afterText, entities, references⟩
  cases outside
  rw [past, List.append_nil]
  rfl

/-! ## Comments and instructions -/

/-- A part of a text with the blanks before it. -/
structure Spaced (α : Type) where
  gap : List Char
  part : α

/-- Remarks as they are written one after the other. -/
def remarksText (remarks : List (Spaced Remark)) : List Char :=
  remarks.flatMap fun r => r.gap ++ r.part.text

/-- Whether remarks can be read, and only blanks stand between them. -/
def areReadable (remarks : List (Spaced Remark)) : Bool :=
  remarks.all fun r => r.gap.all Text.isXmlSpace && r.part.isReadable

namespace Build

/-- A choice that depends on what comes next, where it does not. -/
theorem same_otherwise {α : Type} {word : String} {c : Cursor} (absent : word.toList.isPrefixOf c.rest = false)
    (x y : Build α) (b : Builder) : Same (do if ← Scan.looksAt word then x else y) b c y b c := by
  refine (gives_lift (Scan.gives_looksAt word c) b).bind_same.trans ?_
  rw [absent, if_neg Bool.false_ne_true]
  rfl

/-- A choice that depends on whether the text ends, where it does not. -/
theorem same_unlessAtEnd {α : Type} {c : Cursor} (more : c.rest.isEmpty = false) (x y : Build α) (b : Builder) :
    Same (do if ← Scan.atEnd then x else y) b c y b c := by
  refine (gives_lift (Scan.gives_atEnd c) b).bind_same.trans ?_
  rw [more, if_neg Bool.false_ne_true]
  rfl

/-- Whether neither a blank nor a remark begins a text. -/
structure NoRemark (cs : List Char) : Prop where
  solid : Scan.Ends Text.isXmlSpace cs
  noComment : "<!--".toList.isPrefixOf cs = false
  noInstruction : "<?".toList.isPrefixOf cs = false

/-- A remark is read by the loop for remarks. -/
theorem same_miscellaneous {r : Spaced Remark} (blank : ∀ c ∈ r.gap, Text.isXmlSpace c = true)
    (readable : r.part.isReadable = true) (bound : Nat) (b : Builder) (rest : List Char) (o : Nat) :
    Same (miscellaneous (bound + 1)) b ⟨r.gap ++ (r.part.text ++ rest), o⟩ (miscellaneous bound)
      (b.appendOther r.part.node (o + r.gap.length)) (.behind rest o (r.gap ++ r.part.text)) := by
  rw [miscellaneous, ← Cursor.behind_append]
  have read := gives_remark readable b rest (o + r.gap.length)
  rcases r with ⟨gap, part⟩
  cases part with
  | comment text =>
      refine (gives_lift (Scan.gives_skipSpaces blank (Scan.ends_cons (by decide) _) o) b).bind_same.trans ?_
      refine (gives_lift (Scan.gives_looksAt "<!--" _) b).bind_same.trans ?_
      exact read.bind_same
  | instruction name value =>
      refine (gives_lift (Scan.gives_skipSpaces blank (Scan.ends_cons (by decide) _) o) b).bind_same.trans ?_
      refine (gives_lift (Scan.gives_looksAt "<!--" _) b).bind_same.trans ?_
      refine (gives_lift (Scan.gives_looksAt "<?" _) b).bind_same.trans ?_
      exact read.bind_same

theorem gives_miscellaneous {remarks : List (Spaced Remark)} (readable : areReadable remarks = true)
    {gap tail : List Char} (blank : ∀ c ∈ gap, Text.isXmlSpace c = true) (ends : NoRemark tail) {bound : Nat}
    (enough : (remarksText remarks ++ (gap ++ tail)).length < bound) {b : Builder} (outside : b.openElements = [])
    (noText : b.afterText = false) (o : Nat) :
    ∃ placed, PlacedWithin placed (remarks.map (·.part.node)) o (o + (remarksText remarks).length) ∧
      (miscellaneous bound).Gives b ⟨remarksText remarks ++ (gap ++ tail), o⟩ () (b.past placed [])
        (.behind tail o (remarksText remarks ++ gap)) := by
  induction remarks generalizing b bound o with
  | nil =>
      obtain ⟨n, rfl⟩ : ∃ n, bound = n + 1 := ⟨bound - 1, by omega⟩
      refine ⟨[], PlacedWithin.nil _ _, ?_⟩
      rw [Builder.past_nil noText, miscellaneous]
      refine (gives_lift (Scan.gives_skipSpaces blank ends.solid o) b).bind ?_
      refine ((same_otherwise ends.noComment _ _ b).trans ?_).gives (gives_pure () b _)
      exact same_otherwise ends.noInstruction _ _ b
  | cons r rest inductionHypothesis =>
      obtain ⟨n, rfl⟩ : ∃ n, bound = n + 1 := ⟨bound - 1, by omega⟩
      rw [areReadable, List.all_cons, Bool.and_eq_true, Bool.and_eq_true, List.all_eq_true] at readable
      rcases readable with ⟨⟨gapBlank, readableHere⟩, readableRest⟩
      have shape : remarksText (r :: rest) = (r.gap ++ r.part.text) ++ remarksText rest := by
        rw [remarksText, List.flatMap_cons]
        rfl
      have positive := r.part.length_text_pos
      have same := same_miscellaneous gapBlank readableHere n b (remarksText rest ++ (gap ++ tail)) o
      have enoughRest : (remarksText rest ++ (gap ++ tail)).length < n := by
        rw [shape, List.append_assoc, List.length_append, List.length_append] at enough
        omega
      have appended := Builder.appendOther_outside outside r.part.node (o + r.gap.length)
      rw [appended] at same
      rcases inductionHypothesis readableRest enoughRest (b := b.past [⟨o + r.gap.length, r.part.node⟩] [])
        outside rfl (o + (r.gap ++ r.part.text).length) with ⟨placed, within, gives⟩
      refine ⟨⟨o + r.gap.length, r.part.node⟩ :: placed, ?_, ?_⟩
      · have here : PlacedWithin [⟨o + r.gap.length, r.part.node⟩] [r.part.node] o
            (o + (r.gap ++ r.part.text).length) :=
          .single _ (Nat.le_add_right _ _) (by rw [List.length_append]; omega)
        have both := here.append within (Nat.le_add_right _ _) (Nat.le_add_right _ _)
        rw [Nat.add_assoc, ← List.length_append, ← shape] at both
        exact both
      · rw [Builder.past_past, Cursor.behind_append] at gives
        rw [shape, List.append_assoc (r.gap ++ r.part.text), List.append_assoc (r.gap ++ r.part.text),
          List.append_assoc r.gap]
        exact same.gives gives

end Build

/-! ## The XML declaration -/

/-- An attribute of the XML declaration, as far as it is written there. -/
def declarationPart (name : String) : Option (Spaced Quoted) → List Char
  | none => []
  | some a => a.gap ++ (name.toList ++ ('=' :: a.part.text))

/-- The XML declaration.  The attributes behind the version may be missing. -/
structure XmlDeclaration where
  version : Quoted
  encoding : Option (Spaced Quoted)
  standalone : Option (Spaced Quoted)

namespace XmlDeclaration

/-- What is written behind the target. -/
def text (d : XmlDeclaration) : List Char :=
  "version".toList ++ ('=' :: d.version.text)
    ++ (declarationPart "encoding" d.encoding ++ declarationPart "standalone" d.standalone)

theorem text_ne_nil (d : XmlDeclaration) : d.text ≠ [] := by
  unfold text
  exact List.append_ne_nil_of_left_ne_nil (List.append_ne_nil_of_right_ne_nil _ (List.cons_ne_nil _ _)) _

theorem text_append (d : XmlDeclaration) (rest : List Char) :
    d.text ++ rest = "version".toList ++ ('=' :: (d.version.text ++
      (declarationPart "encoding" d.encoding ++ (declarationPart "standalone" d.standalone ++ rest)))) := by
  unfold text
  generalize "version".toList = word
  rw [List.append_assoc, List.append_assoc, List.append_assoc, List.cons_append]

end XmlDeclaration

theorem Quoted.ends_text {q : Quoted} (readable : q.isReadable = true) (rest : List Char) :
    Scan.Ends Text.isXmlSpace (q.text ++ rest) := by
  rcases (Quoted.isReadable_iff.mp readable).1 with same | same <;>
    rw [q.text_append, same] <;> exact Scan.ends_cons (by decide) _

/-- Whether a value can be read in a tag or a declaration. -/
def Quoted.isValue (q : Quoted) : Bool :=
  q.isReadable && q.value.all fun c => isXmlChar c && c != '<'

theorem Quoted.isValue_iff {q : Quoted} :
    q.isValue = true ↔ q.isReadable = true ∧ ∀ c ∈ q.value, isXmlChar c = true ∧ c ≠ '<' := by
  simp only [isValue, Bool.and_eq_true, List.all_eq_true, bne_iff_ne]

/-- Whether blanks stand before a readable part. -/
def Spaced.isReadable {α : Type} (p : α → Bool) (s : Spaced α) : Bool :=
  !s.gap.isEmpty && s.gap.all Text.isXmlSpace && p s.part

theorem Spaced.isReadable_iff {α : Type} {p : α → Bool} {s : Spaced α} :
    s.isReadable p = true ↔ s.gap ≠ [] ∧ (∀ c ∈ s.gap, Text.isXmlSpace c = true) ∧ p s.part = true := by
  simp only [isReadable, Bool.and_eq_true, Bool.not_eq_true', List.isEmpty_eq_false_iff, List.all_eq_true, ne_eq,
    and_assoc]

def XmlDeclaration.isReadable (d : XmlDeclaration) : Bool :=
  d.version.isValue && d.encoding.all (·.isReadable Quoted.isValue)
    && d.standalone.all (·.isReadable Quoted.isValue)

namespace Scan

theorem gives_declarationSpaces {gap after : List Char} (nonempty : gap ≠ [])
    (blank : ∀ c ∈ gap, Text.isXmlSpace c = true) (ends : Ends Text.isXmlSpace after) (o : Nat) :
    declarationSpaces.Gives ⟨gap ++ after, o⟩ () (.behind after o gap) := by
  rcases List.exists_cons_of_ne_nil nonempty with ⟨c, cs, rfl⟩
  rw [declarationSpaces]
  refine (gives_looksAtSpace _).bind ?_
  rw [show (((c :: cs ++ after).head?.map Text.isXmlSpace).getD false) = true from blank c List.mem_cons_self,
    if_pos rfl]
  exact gives_skipSpaces blank ends o

theorem gives_declarationSpaces_end (after : List Char) (o : Nat) :
    declarationSpaces.Gives ⟨"?>".toList ++ after, o⟩ () ⟨"?>".toList ++ after, o⟩ := by
  rw [declarationSpaces]
  exact (gives_looksAtSpace _).bind ((gives_looksAt "?>" _).bind (gives_pure _ _))

/-- An attribute of the declaration is read by its name. -/
theorem gives_declarationAttribute (name : String) (named : (QName.mk "" name).isReadable = true) {q : Quoted}
    (value : q.isValue = true) (rest : List Char) (o : Nat) :
    ∃ a, writtenAttribute.Gives ⟨name.toList ++ ('=' :: (q.text ++ rest)), o⟩ a
      (.behind rest o (name.toList ++ ('=' :: q.text))) := by
  rcases Quoted.isValue_iff.mp value with ⟨readable, chars⟩
  exact ⟨_, gives_writtenAttribute named readable chars rest o⟩

/-- The end of the declaration is read, behind the blanks before it. -/
theorem gives_declarationEnd {standalone : Option (Spaced Quoted)}
    (readable : standalone.all (·.isReadable Quoted.isValue) = true) (rest : List Char) (o : Nat) :
    ∃ middle, declarationSpaces.Gives ⟨declarationPart "standalone" standalone ++ ("?>".toList ++ rest), o⟩ () middle ∧
      "encoding".toList.isPrefixOf middle.rest = false ∧
      Gives (do
        if ← looksAt "standalone" then
          let _ ← writtenAttribute
        skipSpaces
        expectText "?>") middle () (.behind rest o (declarationPart "standalone" standalone ++ "?>".toList)) := by
  cases standalone with
  | none =>
      refine ⟨_, gives_declarationSpaces_end rest o, rfl, ?_⟩
      refine (gives_looksAt "standalone" _).bind ?_
      refine (gives_skipSpaces_nil (ends_cons (by decide) _) o).bind ?_
      exact gives_expectText "?>" rest o
  | some a =>
      rcases Spaced.isReadable_iff.mp readable with ⟨nonempty, blank, value⟩
      rcases gives_declarationAttribute "standalone" (by decide) value ("?>".toList ++ rest)
        (o + a.gap.length) with ⟨_, passes⟩
      have shape : declarationPart "standalone" (some a) ++ ("?>".toList ++ rest) =
          a.gap ++ ("standalone".toList ++ ('=' :: (a.part.text ++ ("?>".toList ++ rest)))) := by
        rw [declarationPart]
        simp only [List.append_assoc, List.cons_append]
      rw [shape]
      refine ⟨_, gives_declarationSpaces nonempty blank (ends_cons (by decide) _) o, rfl, ?_⟩
      refine (gives_looksAt "standalone" _).bind ?_
      refine passes.bind ?_
      refine (gives_skipSpaces_nil (ends_cons (by decide) _) _).bind ?_
      rw [declarationPart, List.append_assoc, ← Cursor.behind_append, ← Cursor.behind_append]
      exact gives_expectText "?>" rest _

theorem gives_declaration {d : XmlDeclaration} (readable : d.isReadable = true) (rest : List Char) (o : Nat) :
    declaration.Gives ⟨"<?xml ".toList ++ (d.text ++ ("?>".toList ++ rest)), o⟩ ()
      (.behind rest o ("<?xml ".toList ++ (d.text ++ "?>".toList))) := by
  rw [XmlDeclaration.isReadable, Bool.and_eq_true, Bool.and_eq_true] at readable
  rcases readable with ⟨⟨version, encodingReadable⟩, standalone⟩
  let start := o + 6 + ("version".toList ++ ('=' :: d.version.text)).length
  have place : ∀ last, Cursor.behind rest start last =
      .behind rest o ("<?xml".toList ++ [' '] ++ ("version".toList ++ ('=' :: (d.version.text ++ last)))) := by
    intro last
    rw [← Cursor.behind_append, Cursor.behind_append]
    rfl
  have opening : "<?xml ".toList = "<?xml".toList ++ [' '] := by decide
  rcases gives_declarationAttribute "version" (by decide) version
    (declarationPart "encoding" d.encoding ++ (declarationPart "standalone" d.standalone ++ ("?>".toList ++ rest)))
    (o + 6) with ⟨_, passes⟩
  rw [declaration, XmlDeclaration.text_append, XmlDeclaration.text_append, opening, ← place, List.append_assoc]
  refine (gives_skip (by decide) _ o).bind ?_
  refine (@gives_declarationSpaces [' '] _ (by decide) isXmlSpace_space (ends_cons (by decide) _) _).bind ?_
  refine (gives_looksAt "version" _).bind ?_
  refine passes.bind ?_
  cases encoding : d.encoding with
  | none =>
      rcases gives_declarationEnd standalone rest start with ⟨middle, spaces, other, ending⟩
      refine spaces.bind ?_
      refine (gives_looksAt "encoding" _).bind ?_
      rw [other]
      exact ending
  | some e =>
      rw [encoding] at encodingReadable
      rcases Spaced.isReadable_iff.mp encodingReadable with ⟨nonempty, blank, value⟩
      rcases gives_declarationAttribute "encoding" (by decide) value
        (declarationPart "standalone" d.standalone ++ ("?>".toList ++ rest)) (start + e.gap.length) with
        ⟨_, passesEncoding⟩
      rcases gives_declarationEnd standalone rest
        (start + e.gap.length + ("encoding".toList ++ ('=' :: e.part.text)).length) with ⟨middle, spaces, -, ending⟩
      have shape : ∀ last, declarationPart "encoding" (some e) ++ last =
          e.gap ++ ("encoding".toList ++ ('=' :: (e.part.text ++ last))) := by
        intro last
        rw [declarationPart]
        generalize "encoding".toList = word
        rw [List.append_assoc, List.append_assoc, List.cons_append]
      rw [shape, shape]
      refine (gives_declarationSpaces nonempty blank (ends_cons (by decide) _) start).bind ?_
      refine (gives_looksAt "encoding" _).bind ?_
      refine passesEncoding.bind ?_
      refine spaces.bind ?_
      rw [Cursor.behind_append, Cursor.behind_append, List.append_assoc "encoding".toList] at ending
      exact ending

end Scan

/-! ## Document type declarations -/

/-- The reference to another document, with the blanks before it. -/
structure ExternalId where
  gap : List Char
  publicId : Option (Spaced Quoted)
  systemId : Spaced Quoted

namespace ExternalId

def keyword (e : ExternalId) : List Char :=
  if e.publicId.isSome then "PUBLIC".toList else "SYSTEM".toList

/-- What is written behind the blanks. -/
def text (e : ExternalId) : List Char :=
  e.keyword ++ (e.publicId.elim [] (fun p => p.gap ++ p.part.text) ++ (e.systemId.gap ++ e.systemId.part.text))

theorem ends_text (e : ExternalId) (rest : List Char) : Scan.Ends Text.isXmlSpace (e.text ++ rest) := by
  rcases e with ⟨gap, publicId, systemId⟩
  cases publicId <;> exact Scan.ends_cons (by decide) _

def isReadable (e : ExternalId) : Bool :=
  e.gap.all Text.isXmlSpace && e.publicId.all (·.isReadable Quoted.isReadable)
    && e.systemId.isReadable Quoted.isReadable

end ExternalId

/-- A part of a document type declaration that stands between its brackets. -/
inductive SubsetPart where
  /-- An entity with its text. -/
  | entity (gap name : List Char) (value : Spaced Quoted) (after : List Char)
  /-- A declaration of which nothing is used. -/
  | unused (keyword : String) (body : List Char)
  | remark (r : Remark)

namespace SubsetPart

def text : SubsetPart → List Char
  | entity gap name value after =>
    "<!ENTITY".toList ++ (gap ++ (name ++ (value.gap ++ (value.part.text ++ (after ++ ['>'])))))
  | unused keyword body => keyword.toList ++ (body ++ ['>'])
  | remark r => r.text

def unusedKeywords : List String :=
  ["<!ELEMENT", "<!ATTLIST", "<!NOTATION"]

def isReadable : SubsetPart → Bool
  | entity gap name value after =>
    !gap.isEmpty && gap.all Text.isXmlSpace && name.head?.any isNameStart && name.all isNameChar
      && value.isReadable Quoted.isReadable && after.all Text.isXmlSpace
  | unused keyword body => unusedKeywords.contains keyword && !body.contains '>'
  | remark r => r.isReadable

theorem isPrefixOf_unused {keyword : String} (listed : keyword ∈ unusedKeywords) (cs : List Char) :
    ∀ word ∈ ["<!ENTITY", "<!--", "<?", "]"], word.toList.isPrefixOf (keyword.toList ++ cs) = false := by
  simp only [unusedKeywords, List.mem_cons, List.not_mem_nil, or_false] at listed
  rcases listed with rfl | rfl | rfl <;> intro word other <;>
    simp only [List.mem_cons, List.not_mem_nil, or_false] at other <;>
    rcases other with rfl | rfl | rfl | rfl <;> rfl

theorem notMem_unused {keyword : String} (listed : keyword ∈ unusedKeywords) : '>' ∉ keyword.toList := by
  simp only [unusedKeywords, List.mem_cons, List.not_mem_nil, or_false] at listed
  rcases listed with rfl | rfl | rfl <;> decide

theorem exists_front {part : SubsetPart} (readable : part.isReadable = true) : ∃ cs, part.text = '<' :: cs := by
  cases part with
  | entity gap name value after => exact ⟨_, rfl⟩
  | unused keyword body =>
      rw [isReadable, Bool.and_eq_true, List.contains_iff_mem] at readable
      have listed := readable.1
      simp only [unusedKeywords, List.mem_cons, List.not_mem_nil, or_false] at listed
      rcases listed with rfl | rfl | rfl <;> exact ⟨_, rfl⟩
  | remark r => cases r <;> exact ⟨_, rfl⟩

/-- The nodes that a part becomes. -/
def nodes : SubsetPart → List Node
  | remark r => [r.node]
  | _ => []

end SubsetPart

namespace Scan

theorem gives_externalId_none {c : Char} (noSystem : c ≠ 'S') (noPublic : c ≠ 'P') (cs : List Char) (o : Nat) :
    externalId.Gives ⟨c :: cs, o⟩ false ⟨c :: cs, o⟩ := by
  have absent : ∀ (d : Char) (ds : List Char), c ≠ d → (d :: ds).isPrefixOf (c :: cs) = false := by
    intro d ds other
    rw [List.isPrefixOf, beq_false_of_ne (Ne.symm other), Bool.false_and]
  rw [externalId]
  refine (gives_looksAt "SYSTEM" _).bind ?_
  refine (gives_looksAt "PUBLIC" _).bind ?_
  rw [show "SYSTEM".toList.isPrefixOf (c :: cs) = false from absent 'S' _ noSystem,
    show "PUBLIC".toList.isPrefixOf (c :: cs) = false from absent 'P' _ noPublic]
  exact gives_pure _ _

/-- Blanks and a quoted text behind them are read. -/
theorem gives_spacedQuoted {q : Spaced Quoted} (readable : q.isReadable Quoted.isReadable = true) (rest : List Char)
    (o : Nat) :
    ∃ middle, expectSpaces.Gives ⟨q.gap ++ (q.part.text ++ rest), o⟩ () middle ∧
      quotedText.Gives middle () (.behind rest o (q.gap ++ q.part.text)) := by
  rcases Spaced.isReadable_iff.mp readable with ⟨nonempty, blank, quoted⟩
  refine ⟨_, gives_expectSpaces nonempty blank (q.part.ends_text quoted rest) o, ?_⟩
  rw [← Cursor.behind_append]
  exact gives_quotedText quoted rest _

theorem gives_externalId {e : ExternalId} (readable : e.isReadable = true) (rest : List Char) (o : Nat) :
    externalId.Gives ⟨e.text ++ rest, o⟩ true (.behind rest o e.text) := by
  rcases e with ⟨gap, publicId, systemId⟩
  rw [ExternalId.isReadable, Bool.and_eq_true, Bool.and_eq_true] at readable
  rcases readable with ⟨⟨-, publicReadable⟩, systemReadable⟩
  rw [externalId]
  cases publicId with
  | none =>
      rcases gives_spacedQuoted systemReadable rest (o + 6) with ⟨middle, spaces, quoted⟩
      have shape : ExternalId.text ⟨gap, none, systemId⟩ ++ rest =
          "SYSTEM".toList ++ (systemId.gap ++ (systemId.part.text ++ rest)) := by
        unfold ExternalId.text
        rw [← List.append_assoc systemId.gap, ← List.append_assoc "SYSTEM".toList]
        rfl
      rw [shape]
      refine (gives_looksAt "SYSTEM" _).bind ?_
      refine (gives_looksAt "PUBLIC" _).bind ?_
      refine (gives_skip (by decide) _ o).bind ?_
      refine spaces.bind (quoted.bind ?_)
      change Gives (pure true) (.behind rest (o + "SYSTEM".toList.length) (systemId.gap ++ systemId.part.text)) true
        (.behind rest o ("SYSTEM".toList ++ (systemId.gap ++ systemId.part.text)))
      rw [Cursor.behind_append]
      exact gives_pure true _
  | some p =>
      rcases gives_spacedQuoted publicReadable (systemId.gap ++ (systemId.part.text ++ rest)) (o + 6) with
        ⟨middle, spaces, quoted⟩
      rcases gives_spacedQuoted systemReadable rest (o + 6 + (p.gap ++ p.part.text).length) with
        ⟨middleSystem, spacesSystem, quotedSystem⟩
      have shape : ExternalId.text ⟨gap, some p, systemId⟩ ++ rest =
          "PUBLIC".toList ++ (p.gap ++ (p.part.text ++ (systemId.gap ++ (systemId.part.text ++ rest)))) := by
        unfold ExternalId.text
        rw [← List.append_assoc systemId.gap, ← List.append_assoc p.gap, ← List.append_assoc (p.gap ++ p.part.text),
          ← List.append_assoc "PUBLIC".toList]
        rfl
      rw [shape]
      refine (gives_looksAt "SYSTEM" _).bind ?_
      refine (gives_looksAt "PUBLIC" _).bind ?_
      refine (gives_skip (by decide) _ o).bind ?_
      refine spaces.bind (quoted.bind ?_)
      refine spacesSystem.bind (quotedSystem.bind ?_)
      rw [Cursor.behind_append, List.append_assoc]
      change Gives (pure true) (.behind rest (o + "PUBLIC".toList.length)
          (p.gap ++ (p.part.text ++ (systemId.gap ++ systemId.part.text)))) true
        (.behind rest o ("PUBLIC".toList ++ (p.gap ++ p.part.text ++ (systemId.gap ++ systemId.part.text))))
      rw [Cursor.behind_append, List.append_assoc p.gap]
      exact gives_pure true _

theorem gives_entityText {q : Quoted} (readable : q.isReadable = true) (isGeneral : Bool) (rest : List Char) (o : Nat) :
    (entityText isGeneral).Gives ⟨q.text ++ rest, o⟩ (some ⟨q.value, o + 1⟩) (.behind rest o q.text) := by
  rcases Quoted.isReadable_iff.mp readable with ⟨isQuote, free⟩
  have quoted : (q.quote == '"' || q.quote == '\'') = true := by
    rcases isQuote with same | same <;> rw [same] <;> decide
  rw [entityText, q.text_append]
  refine (gives_peek q.quote _ o).bind ?_
  rw [if_pos quoted]
  refine (gives_skip_one q.quote _ o).bind ?_
  refine (gives_offset _).bind ?_
  refine (gives_takeWhile (q.run_value readable) (q.ends_quote rest) _).bind ?_
  refine (gives_expectChar q.quote rest _).bind ?_
  rw [← q.behind_text]
  exact gives_pure _ _

end Scan

namespace Build

/-- The declaration of an entity is read. -/
theorem gives_entityDeclaration {gap name after : List Char} {value : Spaced Quoted}
    (readable : (SubsetPart.entity gap name value after).isReadable = true) {b : Builder} (noText : b.afterText = false)
    (rest : List Char) (o : Nat) :
    ∃ cursor, entityDeclaration.Gives b ⟨(SubsetPart.entity gap name value after).text ++ rest, o⟩ ()
      (b.past [] [(String.ofList name, cursor)])
      (.behind rest o (SubsetPart.entity gap name value after).text) := by
  simp only [SubsetPart.isReadable, Bool.and_eq_true, Bool.not_eq_true', List.isEmpty_eq_false_iff, List.all_eq_true]
    at readable
  rcases readable with ⟨⟨⟨⟨⟨nonempty, blank⟩, start⟩, run⟩, valueReadable⟩, afterBlank⟩
  rcases Spaced.isReadable_iff.mp valueReadable with ⟨valueNonempty, valueBlank, quoted⟩
  cases name with
  | nil => cases start
  | cons c name =>
      have noParameter : "%".toList.isPrefixOf
          (c :: name ++ (value.gap ++ (value.part.text ++ (after ++ '>' :: rest)))) = false := by
        have other : '%' ≠ c := by
          rintro rfl
          have notStart : isNameStart '%' = false := by decide
          exact Bool.false_ne_true (notStart.symm.trans start)
        change ('%' == c && _) = false
        rw [beq_false_of_ne other, Bool.false_and]
      have solidName : Scan.Ends Text.isXmlSpace (c :: name ++ (value.gap ++ (value.part.text ++ (after ++ '>' :: rest)))) :=
        Scan.ends_cons (Scan.not_isXmlSpace (Scan.isNameChar_of_isNameStart start)) _
      have nameEnds := Scan.ends_isNameChar valueNonempty valueBlank (value.part.text ++ (after ++ '>' :: rest))
      have shape : (SubsetPart.entity gap (c :: name) value after).text ++ rest = "<!ENTITY".toList ++
          (gap ++ (c :: name ++ (value.gap ++ (value.part.text ++ (after ++ '>' :: rest))))) := by
        unfold SubsetPart.text
        generalize "<!ENTITY".toList = word
        simp only [List.append_assoc, List.cons_append, List.nil_append]
      refine ⟨⟨value.part.value, o + 8 + gap.length + (c :: name).length + value.gap.length + 1⟩, ?_⟩
      rw [entityDeclaration, shape]
      refine (gives_lift (Scan.gives_skip (by decide) _ o) b).bind ?_
      refine (gives_lift (Scan.gives_expectSpaces nonempty blank solidName _) b).bind ?_
      refine (gives_lift (Scan.gives_looksAt "%" _) b).bind ?_
      rw [show "%".toList.isPrefixOf (Cursor.behind (c :: name ++ (value.gap ++ (value.part.text ++
        (after ++ '>' :: rest)))) (o + "<!ENTITY".toList.length) gap).rest = false from noParameter,
        if_neg Bool.false_ne_true]
      refine (gives_lift (Scan.gives_name start run nameEnds _) b).bind ?_
      refine (gives_lift (Scan.gives_expectSpaces valueNonempty valueBlank (value.part.ends_text quoted _) _) b).bind ?_
      refine (gives_lift (Scan.gives_entityText quoted _ _ _) b).bind ?_
      refine (gives_modify _ b _).bind ?_
      refine (gives_lift (Scan.gives_skipSpaces afterBlank (Scan.ends_cons (by decide) _) _) _).bind ?_
      unfold SubsetPart.text
      rw [← Cursor.behind_append, ← Cursor.behind_append, ← Cursor.behind_append, ← Cursor.behind_append,
        ← Cursor.behind_append, ← Cursor.behind_append]
      rcases b with ⟨finished, openElements, tag, attributes, declared, _, entities, references⟩
      cases noText
      exact gives_lift (Scan.gives_expectChar '>' rest _) _

theorem gives_looksAtUnused {keyword : String} (listed : keyword ∈ SubsetPart.unusedKeywords) (body rest : List Char)
    (o : Nat) : looksAtUnused.Gives ⟨keyword.toList ++ body ++ rest, o⟩ true ⟨keyword.toList ++ body ++ rest, o⟩ := by
  simp only [SubsetPart.unusedKeywords, List.mem_cons, List.not_mem_nil, or_false] at listed
  rcases listed with rfl | rfl | rfl <;> rfl

/-- A part between the brackets is read by the loop for them. -/
theorem same_internalSubset {gap : List Char} {part : SubsetPart} (blank : ∀ c ∈ gap, Text.isXmlSpace c = true)
    (readable : part.isReadable = true) {b : Builder} (outside : b.openElements = []) (noText : b.afterText = false)
    (start bound : Nat) (rest : List Char) (o : Nat) :
    ∃ placed entities, PlacedWithin placed part.nodes o (o + (gap ++ part.text).length) ∧
      Same (internalSubset start (bound + 1)) b ⟨gap ++ (part.text ++ rest), o⟩ (internalSubset start bound)
        (b.past placed entities) (.behind rest o (gap ++ part.text)) := by
  have more : (gap ++ (part.text ++ rest)).isEmpty = false := by
    rcases part.exists_front readable with ⟨cs, same⟩
    rw [same]
    cases gap <;> rfl
  have solid : Scan.Ends Text.isXmlSpace (part.text ++ rest) := by
    rcases part.exists_front readable with ⟨cs, same⟩
    rw [same]
    exact Scan.ends_cons (by decide) _
  rw [internalSubset, ← Cursor.behind_append]
  cases part with
  | entity before name value after =>
      rcases gives_entityDeclaration readable noText rest (o + gap.length) with ⟨cursor, read⟩
      refine ⟨[], [(String.ofList name, cursor)], .nil _ _, ?_⟩
      refine (same_unlessAtEnd more _ _ b).trans ?_
      refine (gives_lift (Scan.gives_skipSpaces blank solid o) b).bind_same.trans ?_
      refine (gives_lift (Scan.gives_looksAt "<!ENTITY" _) b).bind_same.trans ?_
      exact read.bind_same
  | unused keyword body =>
      refine ⟨[], [], .nil _ _, ?_⟩
      refine (same_unlessAtEnd more _ _ b).trans ?_
      refine (gives_lift (Scan.gives_skipSpaces blank solid o) b).bind_same.trans ?_
      rw [SubsetPart.isReadable, Bool.and_eq_true, List.contains_iff_mem, Bool.not_eq_true', ← Bool.not_eq_true,
        List.contains_iff_mem] at readable
      rcases readable with ⟨listed, noEnd⟩
      have absent : ∀ word ∈ ["<!ENTITY", "<!--", "<?", "]"],
          word.toList.isPrefixOf ((SubsetPart.unused keyword body).text ++ rest) = false := by
        intro word asked
        have other := SubsetPart.isPrefixOf_unused listed (body ++ ['>'] ++ rest) word asked
        rw [← List.append_assoc] at other
        exact other
      refine (same_otherwise (absent "<!ENTITY" (by decide)) _ _ b).trans ?_
      refine (same_otherwise (absent "<!--" (by decide)) _ _ b).trans ?_
      refine (same_otherwise (absent "<?" (by decide)) _ _ b).trans ?_
      refine (same_otherwise (absent "]" (by decide)) _ _ b).trans ?_
      have run : ∀ c ∈ keyword.toList ++ body, (c != '>') = true := by
        intro c among
        rw [bne_iff_ne]
        rintro rfl
        rcases List.mem_append.mp among with inKeyword | inBody
        · exact SubsetPart.notMem_unused listed inKeyword
        · exact noEnd inBody
      have shape : (SubsetPart.unused keyword body).text = keyword.toList ++ body ++ ['>'] :=
        (List.append_assoc _ _ _).symm
      have ends : Scan.Ends (fun c => c != '>') ('>' :: rest) := by
        rintro _ ⟨⟩
        decide
      rw [shape, List.append_assoc (keyword.toList ++ body), ← Cursor.behind_append, Builder.past_nil noText]
      refine (gives_lift (gives_looksAtUnused listed body ('>' :: rest) _) b).bind_same.trans ?_
      refine (gives_lift (Scan.gives_takeWhile run ends _) b).bind_same.trans ?_
      refine (gives_lift (Scan.gives_atEnd _) b).bind_same.trans ?_
      exact (gives_lift (Scan.gives_skip_one '>' rest _) b).bind_same
  | remark r =>
      have read := gives_remark readable b rest (o + gap.length)
      rw [Builder.appendOther_outside outside] at read
      have found : PlacedWithin [⟨o + gap.length, r.node⟩] [r.node] o (o + (gap ++ r.text).length) := by
        refine .single r.node (Nat.le_add_right o _) ?_
        have positive := r.length_text_pos
        rw [List.length_append]
        omega
      refine ⟨[⟨o + gap.length, r.node⟩], [], found, ?_⟩
      refine (same_unlessAtEnd more _ _ b).trans ?_
      refine (gives_lift (Scan.gives_skipSpaces blank solid o) b).bind_same.trans ?_
      refine (gives_lift (Scan.gives_looksAt "<!ENTITY" _) b).bind_same.trans ?_
      cases r with
      | comment text =>
          refine (gives_lift (Scan.gives_looksAt "<!--" _) b).bind_same.trans ?_
          exact read.bind_same
      | instruction name value =>
          refine (gives_lift (Scan.gives_looksAt "<!--" _) b).bind_same.trans ?_
          refine (gives_lift (Scan.gives_looksAt "<?" _) b).bind_same.trans ?_
          exact read.bind_same

end Build

/-- The brackets of a document type declaration and what stands between them. -/
structure Subset where
  /-- The blanks before the opening bracket. -/
  before : List Char
  parts : List (Spaced SubsetPart)
  gap : List Char
  /-- The blanks behind the closing bracket. -/
  after : List Char

namespace Subset

def partsText (parts : List (Spaced SubsetPart)) : List Char :=
  parts.flatMap fun p => p.gap ++ p.part.text

def text (s : Subset) : List Char :=
  s.before ++ ('[' :: (partsText s.parts ++ (s.gap ++ (']' :: s.after))))

def isReadable (s : Subset) : Bool :=
  s.before.all Text.isXmlSpace && s.parts.all (fun p => p.gap.all Text.isXmlSpace && p.part.isReadable)
    && s.gap.all Text.isXmlSpace && s.after.all Text.isXmlSpace

def nodes (s : Subset) : List Node :=
  s.parts.flatMap (·.part.nodes)

end Subset

namespace Build

theorem gives_internalSubset {parts : List (Spaced SubsetPart)} {gap after : List Char}
    (readable : parts.all (fun p => p.gap.all Text.isXmlSpace && p.part.isReadable) = true)
    (gapBlank : ∀ c ∈ gap, Text.isXmlSpace c = true) (afterBlank : ∀ c ∈ after, Text.isXmlSpace c = true)
    {b : Builder} (outside : b.openElements = []) (noText : b.afterText = false) (start : Nat) (rest : List Char)
    {bound : Nat}
    (enough : (Subset.partsText parts ++ (gap ++ (']' :: (after ++ '>' :: rest)))).length < bound) (o : Nat) :
    ∃ placed entities,
      PlacedWithin placed (parts.flatMap (·.part.nodes)) o (o + (Subset.partsText parts).length) ∧
      (internalSubset start bound).Gives b
        ⟨Subset.partsText parts ++ (gap ++ (']' :: (after ++ '>' :: rest))), o⟩ () (b.past placed entities)
        (.behind rest o (Subset.partsText parts ++ (gap ++ (']' :: (after ++ ['>']))))) := by
  induction parts generalizing b bound o with
  | nil =>
      obtain ⟨n, rfl⟩ : ∃ n, bound = n + 1 := ⟨bound - 1, by omega⟩
      refine ⟨[], [], .nil _ _, ?_⟩
      have solid : Scan.Ends Text.isXmlSpace (']' :: (after ++ '>' :: rest)) := Scan.ends_cons (by decide) _
      have more : (gap ++ (']' :: (after ++ '>' :: rest))).isEmpty = false := by
        cases gap <;> rfl
      rw [show Subset.partsText [] = [] from rfl, List.nil_append, List.nil_append, Builder.past_nil noText,
        internalSubset]
      refine (same_unlessAtEnd more _ _ b).gives ?_
      refine (gives_lift (Scan.gives_skipSpaces gapBlank solid o) b).bind ?_
      refine (gives_lift (Scan.gives_looksAt "<!ENTITY" _) b).bind ?_
      refine (gives_lift (Scan.gives_looksAt "<!--" _) b).bind ?_
      refine (gives_lift (Scan.gives_looksAt "<?" _) b).bind ?_
      refine (gives_lift (Scan.gives_looksAt "]" _) b).bind ?_
      refine (gives_lift (Scan.gives_skip_one ']' _ _) b).bind ?_
      refine (gives_lift (Scan.gives_skipSpaces afterBlank (Scan.ends_cons (by decide) _) _) b).bind ?_
      refine (gives_lift (Scan.gives_peek '>' rest _) b).bind ?_
      have place : Cursor.behind rest (o + gap.length + [']'].length + after.length) ['>'] =
          .behind rest o (gap ++ (']' :: (after ++ ['>']))) := by
        rw [Cursor.behind_append, Cursor.behind_append, Cursor.behind_append]
        rfl
      rw [← place]
      exact gives_lift (Scan.gives_skip_one '>' rest _) b
  | cons p others inductionHypothesis =>
      rw [List.all_cons, Bool.and_eq_true, Bool.and_eq_true, List.all_eq_true] at readable
      rcases readable with ⟨⟨blank, readableHere⟩, readableRest⟩
      obtain ⟨n, rfl⟩ : ∃ n, bound = n + 1 := ⟨bound - 1, by omega⟩
      have shape : ∀ last, Subset.partsText (p :: others) ++ last =
          p.gap ++ (p.part.text ++ (Subset.partsText others ++ last)) := by
        intro last
        rw [Subset.partsText, List.flatMap_cons, List.append_assoc, List.append_assoc]
        rfl
      have enoughRest : (Subset.partsText others ++ (gap ++ (']' :: (after ++ '>' :: rest)))).length < n := by
        rcases p.part.exists_front readableHere with ⟨cs, front⟩
        rw [shape, front, List.length_append, List.length_append, List.length_cons] at enough
        omega
      rcases same_internalSubset blank readableHere outside noText start n
        (Subset.partsText others ++ (gap ++ (']' :: (after ++ '>' :: rest)))) o with ⟨placed, entities, found, same⟩
      rcases inductionHypothesis readableRest (b := b.past placed entities) outside rfl enoughRest
        (o + (p.gap ++ p.part.text).length) with ⟨more, moreEntities, foundToo, gives⟩
      refine ⟨placed ++ more, entities ++ moreEntities, ?_, ?_⟩
      · have whole := shape []
        rw [List.append_nil, List.append_nil, ← List.append_assoc] at whole
        rw [whole, @List.length_append _ (p.gap ++ p.part.text), ← Nat.add_assoc, List.flatMap_cons]
        exact found.append foundToo (Nat.le_add_right _ _) (Nat.le_add_right _ _)
      · rw [Builder.past_past, Cursor.behind_append, List.append_assoc] at gives
        rw [shape, shape]
        exact same.gives gives

end Build

/-- A document type declaration. -/
structure Doctype where
  name : List Char
  external : Option ExternalId
  subset : Option Subset

namespace Doctype

def externalText (d : Doctype) : List Char :=
  d.external.elim [] fun e => e.gap ++ e.text

def subsetText (d : Doctype) : List Char :=
  d.subset.elim [] Subset.text

/-- What is written between the keyword and the last sign. -/
def text (d : Doctype) : List Char :=
  d.name ++ (d.externalText ++ d.subsetText)

def isReadable (d : Doctype) : Bool :=
  d.name.head?.any isNameStart && d.name.all isNameChar
    && d.external.all (fun e => !e.gap.isEmpty && e.isReadable) && d.subset.all Subset.isReadable

/-- The nodes that stand between the brackets. -/
def nodes (d : Doctype) : List Node :=
  d.subset.elim [] Subset.nodes

end Doctype

namespace Build

/-- The brackets, if there are any, and the last sign are read. -/
theorem gives_doctypeEnd {subset : Option Subset} (readable : subset.all Subset.isReadable = true) {b : Builder}
    (outside : b.openElements = []) (noText : b.afterText = false) (rest : List Char) :
    ∃ gap c more, subset.elim [] Subset.text ++ '>' :: rest = gap ++ c :: more ∧
      (∀ d ∈ gap, Text.isXmlSpace d = true) ∧ (c = '[' ∨ c = '>') ∧
      ∀ start o, ∃ placed entities,
        PlacedWithin placed (subset.elim [] Subset.nodes) o (o + (subset.elim [] Subset.text ++ ['>']).length) ∧
        Gives (do
          let c ← Scan.peek
          if c == '[' then
            Scan.skip 1
            internalSubset start (← Scan.rest).length.succ
          else if c == '>' then Scan.skip 1
          else Scan.fail (.expectedWords "'[' or '>'" c)) b (.behind (c :: more) o gap) () (b.past placed entities)
          (.behind rest o (subset.elim [] Subset.text ++ ['>'])) := by
  cases subset with
  | none =>
      refine ⟨[], '>', rest, rfl, nofun, Or.inr rfl, fun start o => ⟨[], [], .nil _ _, ?_⟩⟩
      rw [Builder.past_nil noText]
      refine (gives_lift (Scan.gives_peek '>' rest _) b).bind ?_
      exact gives_lift (Scan.gives_skip_one '>' rest _) b
  | some s =>
      rw [Option.all_some, Subset.isReadable, Bool.and_eq_true, Bool.and_eq_true, Bool.and_eq_true] at readable
      rcases readable with ⟨⟨⟨beforeBlank, parts⟩, gapBlank⟩, afterBlank⟩
      let inner := Subset.partsText s.parts ++ (s.gap ++ (']' :: (s.after ++ '>' :: rest)))
      have shape : ∀ last, s.text ++ last =
          s.before ++ (['['] ++ (Subset.partsText s.parts ++ (s.gap ++ (']' :: (s.after ++ last))))) := by
        intro last
        rw [Subset.text, List.append_assoc, List.cons_append, List.append_assoc, List.append_assoc, List.cons_append]
        rfl
      refine ⟨s.before, '[', inner, shape _, List.all_eq_true.mp beforeBlank, Or.inl rfl, fun start o => ?_⟩
      rcases gives_internalSubset parts (List.all_eq_true.mp gapBlank) (List.all_eq_true.mp afterBlank) outside noText
        start rest (Nat.lt_succ_self _) (o + s.before.length + 1) with ⟨placed, entities, found, gives⟩
      refine ⟨placed, entities, found.widen (by omega) ?_, ?_⟩
      · rw [Option.elim_some, Subset.text]
        simp only [List.length_append, List.length_cons]
        omega
      refine (gives_lift (Scan.gives_peek '[' inner _) b).bind ?_
      refine (gives_lift (Scan.gives_skip_one '[' inner _) b).bind ?_
      refine (gives_lift (Scan.gives_rest _) b).bind ?_
      rw [Option.elim_some, shape, ← Cursor.behind_append, ← Cursor.behind_append]
      exact gives

/-- A document type declaration is read. -/
theorem gives_doctype {d : Doctype} (readable : d.isReadable = true) {b : Builder} (outside : b.openElements = [])
    (noText : b.afterText = false) (rest : List Char) (o : Nat) :
    ∃ placed entities,
      PlacedWithin placed d.nodes (o + 1) (o + ("<!DOCTYPE ".toList ++ (d.text ++ ['>'])).length) ∧
      doctype.Gives b ⟨"<!DOCTYPE ".toList ++ (d.text ++ '>' :: rest), o⟩ () (b.past placed entities)
        (.behind rest o ("<!DOCTYPE ".toList ++ (d.text ++ ['>']))) := by
  rcases d with ⟨name, external, subset⟩
  rw [Doctype.isReadable, Bool.and_eq_true, Bool.and_eq_true, Bool.and_eq_true] at readable
  rcases readable with ⟨⟨⟨start, run⟩, externalReadable⟩, subsetReadable⟩
  cases name with
  | nil => cases start
  | cons c name =>
      rcases @gives_doctypeEnd subset subsetReadable b outside noText rest with
        ⟨gap, last, more, endShape, blank, isEnd, ends⟩
      have lastEnds : isNameChar last = false ∧ Text.isXmlSpace last = false ∧ last ≠ 'S' ∧ last ≠ 'P' := by
        rcases isEnd with rfl | rfl <;> decide
      have gapEnds : Scan.Ends isNameChar (gap ++ last :: more) := by
        by_cases nonempty : gap = []
        · rw [nonempty]
          exact Scan.ends_cons lastEnds.1 more
        · exact Scan.ends_isNameChar nonempty blank _
      have solid : Scan.Ends Text.isXmlSpace (last :: more) := Scan.ends_cons lastEnds.2.1 more
      have solidName : ∀ after, Scan.Ends Text.isXmlSpace (c :: name ++ after) := fun after =>
        Scan.ends_cons (Scan.not_isXmlSpace (Scan.isNameChar_of_isNameStart start)) _
      have runName := List.all_eq_true.mp run
      have opening : "<!DOCTYPE ".toList = "<!DOCTYPE".toList ++ [' '] := by decide
      have shape : ∀ final, (Doctype.mk (c :: name) external subset).text ++ final =
          c :: name ++ ((Doctype.mk (c :: name) external subset).externalText ++
            (subset.elim [] Subset.text ++ final)) := by
        intro final
        unfold Doctype.text
        rw [List.append_assoc, List.append_assoc]
        rfl
      have spread : ("<!DOCTYPE ".toList ++ ((Doctype.mk (c :: name) external subset).text ++ ['>'])).length =
          10 + (c :: name).length + (Doctype.mk (c :: name) external subset).externalText.length +
            (subset.elim [] Subset.text ++ ['>']).length := by
        rw [shape, List.length_append, List.length_append, List.length_append, Nat.add_assoc, Nat.add_assoc]
        rfl
      rw [doctype, spread, opening, List.append_assoc, List.append_assoc, shape, shape, endShape]
      cases external with
      | none =>
          rcases ends o (o + 9 + 1 + (c :: name).length) with ⟨placed, entities, found, gives⟩
          refine ⟨placed, entities, found.widen (by omega) (by omega), ?_⟩
          refine (gives_lift (Scan.gives_offset _) b).bind ?_
          refine (gives_lift (Scan.gives_skip (by decide) _ o) b).bind ?_
          refine (gives_lift (@Scan.gives_expectSpaces [' '] _ (by decide) Scan.isXmlSpace_space (solidName _) _) b).bind ?_
          refine (gives_lift (Scan.gives_skipName start runName gapEnds _) b).bind ?_
          refine (gives_lift (Scan.gives_skipSpaces blank solid _) b).bind ?_
          refine (gives_lift (Scan.gives_externalId_none lastEnds.2.2.1 lastEnds.2.2.2 more _) b).bind ?_
          refine (gives_lift (Scan.gives_skipSpaces_nil solid _) b).bind ?_
          rw [← Cursor.behind_append, ← Cursor.behind_append, ← Cursor.behind_append]
          exact gives
      | some e =>
          rw [Option.all_some, Bool.and_eq_true, Bool.not_eq_true', List.isEmpty_eq_false_iff] at externalReadable
          rcases externalReadable with ⟨nonempty, readable⟩
          have beforeBlank : ∀ d ∈ e.gap, Text.isXmlSpace d = true := by
            rw [ExternalId.isReadable, Bool.and_eq_true, Bool.and_eq_true, List.all_eq_true] at readable
            exact readable.1.1
          have externalShape : ∀ final,
              (Doctype.mk (c :: name) (some e) subset).externalText ++ final = e.gap ++ (e.text ++ final) :=
            fun final => List.append_assoc e.gap e.text final
          rcases ends o (o + 9 + 1 + (c :: name).length + e.gap.length + e.text.length) with
            ⟨placed, entities, found, gives⟩
          have external : (Doctype.mk (c :: name) (some e) subset).externalText.length = e.gap.length + e.text.length :=
            List.length_append
          refine ⟨placed, entities, found.widen (by omega) (by omega), ?_⟩
          rw [externalShape, externalShape]
          refine (gives_lift (Scan.gives_offset _) b).bind ?_
          refine (gives_lift (Scan.gives_skip (by decide) _ o) b).bind ?_
          refine (gives_lift (@Scan.gives_expectSpaces [' '] _ (by decide) Scan.isXmlSpace_space (solidName _) _) b).bind ?_
          refine (gives_lift (Scan.gives_skipName start runName (Scan.ends_isNameChar nonempty beforeBlank _) _)
            b).bind ?_
          refine (gives_lift (Scan.gives_skipSpaces beforeBlank (e.ends_text _) _) b).bind ?_
          refine (gives_lift (Scan.gives_externalId readable _ _) b).bind ?_
          refine (gives_lift (Scan.gives_skipSpaces blank solid _) b).bind ?_
          rw [← Cursor.behind_append, ← Cursor.behind_append, ← Cursor.behind_append, ← Cursor.behind_append,
            ← Cursor.behind_append]
          exact gives

end Build

end Xml
end SlimSvg
