import SlimSvg.Proofs.Xml.Content
import SlimSvg.Proofs.Xml.Prolog

namespace SlimSvg
namespace Xml

/-!
# Reading a whole document

A manuscript lists the parts of a document in the order of writing: the declaration, the
document type, the root element, and the remarks between them.  If every part can be
read, so can the whole, and the nodes are found in the order and at the places of the
parts.
-/

structure Manuscript where
  declaration : Option XmlDeclaration
  /-- The remarks before the document type, or before the root element if there is none. -/
  before : List (Spaced Remark)
  /-- The document type, and the remarks behind it. -/
  doctype : Option (Spaced Doctype × List (Spaced Remark))
  gap : List Char
  name : Scan.QName
  attributes : List SpelledAttribute
  /-- What stands between the tags of the root element, unless one tag is all of it. -/
  content : Option (List Char)
  after : List (Spaced Remark)
  last : List Char

namespace Manuscript

def declarationText (m : Manuscript) : List Char :=
  m.declaration.elim [] fun d => "<?xml ".toList ++ (d.text ++ "?>".toList)

/-- The document type with the blanks before it. -/
def doctypeText (d : Spaced Doctype) : List Char :=
  d.gap ++ ("<!DOCTYPE ".toList ++ (d.part.text ++ ['>']))

def betweenText (m : Manuscript) : List Char :=
  m.doctype.elim [] fun (d, remarks) => doctypeText d ++ remarksText remarks

/-- Everything before the root element. -/
def front (m : Manuscript) : List Char :=
  m.declarationText ++ (remarksText m.before ++ (m.betweenText ++ m.gap))

def rootText (m : Manuscript) : List Char :=
  Build.tagText m.name m.attributes ++
    m.content.elim (Build.closing true) fun cs => Build.closing false ++ (cs ++ Build.endText m.name)

def text (m : Manuscript) : List Char :=
  m.front ++ (m.rootText ++ (remarksText m.after ++ m.last))

/-- The nodes that stand inside of the document type declaration. -/
def doctypeNodes (m : Manuscript) : List Node :=
  m.doctype.elim [] fun (d, _) => d.part.nodes

/-- The number of characters before the document type declaration. -/
def doctypeStart (m : Manuscript) : Nat :=
  (m.declarationText ++ (remarksText m.before ++ m.doctype.elim [] fun (d, _) => d.gap)).length

/-- The nodes between the document type declaration and the root element. -/
def betweenNodes (m : Manuscript) : List Node :=
  m.doctype.elim [] fun (_, remarks) => remarks.map (·.part.node)

/-- The number of characters before the remarks behind the document type. -/
def doctypeEnd (m : Manuscript) : Nat :=
  (m.declarationText ++ (remarksText m.before ++ m.doctype.elim [] fun (d, _) => doctypeText d)).length

/-- Whether everything but the content of the root element can be read. -/
structure Readable (m : Manuscript) : Prop where
  declaration : m.declaration.all (·.isReadable) = true
  before : areReadable m.before = true
  doctype : m.doctype.all (fun (d, remarks) =>
    d.gap.all Text.isXmlSpace && d.part.isReadable && areReadable remarks) = true
  gap : ∀ c ∈ m.gap, Text.isXmlSpace c = true
  tag : Build.ReadableTag [] m.name m.attributes
  after : areReadable m.after = true
  last : ∀ c ∈ m.last, Text.isXmlSpace c = true

end Manuscript

namespace Build

variable {isClosed : Bool} {P : List Item → Prop}

/-- The root element is read. -/
theorem gives_rootElement {m : Manuscript} (tagReadable : ReadableTag [] m.name m.attributes)
    (reads : ∀ cs, m.content = some cs → Reads isClosed (scope [] m.attributes) cs P)
    (empty : m.content = none → P []) {b : Builder} (outside : b.openElements = [])
    (noText : b.afterText = false) (noAttributes : b.attributes = []) (noDeclarations : b.declared = [])
    (rest : List Char) (o : Nat) :
    ∃ tag kids b', TagCameFrom tag [] m.name m.attributes ∧ P kids ∧
      b'.finished = ⟨o, Reads.elementOf tag kids⟩ :: b.finished ∧ b'.openElements = [] ∧ b'.afterText = false ∧
      rootElement.Gives b ⟨m.rootText ++ rest, o⟩ () b' (.behind rest o m.rootText) := by
  have outerEq : b.outerNamespaces = [] := by
    rw [Builder.outerNamespaces, outside]
  have pastEnd : ∀ more, m.rootText ++ more = tagText m.name m.attributes ++
      (m.content.elim (closing true) (fun cs => closing false ++ (cs ++ endText m.name)) ++ more) :=
    fun more => List.append_assoc _ _ more
  rw [← outerEq] at tagReadable
  unfold rootElement
  rw [pastEnd]
  unfold Manuscript.rootText
  cases inside : m.content with
  | none =>
      have gives := gives_startTag tagReadable noAttributes noDeclarations true rest o
      rw [outerEq] at gives
      let tag := tagOf [] m.name m.attributes
      have cameFrom : TagCameFrom tag [] m.name m.attributes := tagCameFrom_tagOf [] m.name tagReadable.readable
      let ended : Builder := { b.past [⟨o, Reads.elementOf tag []⟩] [] with
        tag := some ⟨m.name, o⟩, attributes := [], declared := [] }
      have appended : b.afterTag m.name tag o true = ended := by
        rcases b with ⟨finished, _, _, attributes, declared, _, entities, references⟩
        cases outside
        dsimp only [ended]
        rw [Builder.past, List.append_nil]
        rfl
      rw [appended] at gives
      refine ⟨tag, [], ended, cameFrom, empty inside, rfl, outside, rfl, ?_⟩
      exact gives.bind (gives_pure () ended _)
  | some cs =>
      have gives := gives_startTag tagReadable noAttributes noDeclarations false (cs ++ (endText m.name ++ rest)) o
      rw [outerEq] at gives
      let tag := tagOf [] m.name m.attributes
      have cameFrom : TagCameFrom tag [] m.name m.attributes := tagCameFrom_tagOf [] m.name tagReadable.readable
      have opened : b.afterTag m.name tag o false = b.fill ⟨tag, o, []⟩ [] .start (some ⟨m.name, o⟩) := by
        rw [Builder.afterTag, if_neg Bool.false_ne_true, Builder.fill, noAttributes, noDeclarations, outside]
        rfl
      rcases (reads cs inside).same_closed o [] ⟨m.name, o⟩
        cameFrom.namespaces_eq tagReadable.named (by rw [cameFrom.writtenPrefix_eq, cameFrom.localName_eq])
        noAttributes noDeclarations (expandContent entityDepth) 0
        (o + (tagText m.name m.attributes ++ closing false).length) (Nat.lt_succ_self _) with
        ⟨kids, holds, left, lastTag, -, closes⟩
      rw [opened] at gives
      let closed : Builder := { (b.fill ⟨tag, o, []⟩ [] (Children.start.addAll kids) (some lastTag)).closeInner with
        afterText := false }
      have ended : ∀ c, (content entityDepth (expandContent entityDepth) left 0).Gives closed c () closed c := by
        intro c
        cases left <;> exact gives_pure () closed c
      refine ⟨tag, kids, closed, cameFrom, holds, rfl, rfl, rfl, ?_⟩
      have shape : closing false ++ (cs ++ endText m.name) ++ rest = closing false ++ (cs ++ (endText m.name ++ rest)) := by
        rw [List.append_assoc, List.append_assoc]
      rw [Option.elim_some, shape]
      refine gives.bind ((gives_lift (Scan.gives_rest _) _).bind ?_)
      have place := Cursor.behind_append rest o (tagText m.name m.attributes ++ closing false) (cs ++ endText m.name)
      rw [← List.append_assoc (tagText m.name m.attributes), ← place]
      exact closes.gives (ended _)

/-! ## The order of the parts -/

/-- What is read from the root element on. -/
def rootPart (bound : Nat) : Build Unit := do
  Scan.skipSpaces
  if ← Scan.looksAt "<" then rootElement
  miscellaneous bound
  unless ← Scan.atEnd do Scan.fail .unknownToken

/-- What is read behind the XML declaration. -/
def body : Build Unit := do
  let bound := (← Scan.rest).length.succ
  miscellaneous bound
  Scan.skipSpaces
  if ← Scan.looksAt "<!DOCTYPE" then
    doctype
    miscellaneous bound
  rootPart bound

theorem document_eq : document = (do
    if (← Scan.rest).head? == some '\uFEFF' then Scan.skip 1
    if ← Scan.looksAt "<?xml " then Scan.declaration
    body) :=
  rfl

theorem noRemark_nil : NoRemark [] :=
  ⟨Scan.ends_nil _, rfl, rfl⟩

/-- A text that continues the sign of a tag by no name does not begin the root element. -/
theorem isPrefixOf_rootText {m : Manuscript} (named : m.name.isReadable = true) {d : Char} (mark : d ∈ Scan.marks)
    (ds rest : List Char) : ('<' :: d :: ds).isPrefixOf (m.rootText ++ rest) = false := by
  rcases Scan.QName.exists_front named with ⟨front, others, nameChars, start⟩
  have apart : d ≠ front := by
    rintro rfl
    exact Scan.notMem_marks (Scan.isNameChar_of_isNameStart start) mark
  have shape : ∃ more, m.rootText ++ rest = '<' :: front :: more := by
    rw [Manuscript.rootText, tagText, nameChars]
    exact ⟨_, rfl⟩
  rcases shape with ⟨more, shape⟩
  rw [shape, List.isPrefixOf, List.isPrefixOf, beq_false_of_ne apart, Bool.false_and, Bool.and_false]

/-- The root element begins with no remark. -/
theorem noRemark_rootText {m : Manuscript} (named : m.name.isReadable = true) (rest : List Char) :
    NoRemark (m.rootText ++ rest) :=
  ⟨Scan.ends_cons (by decide) _, isPrefixOf_rootText named (d := '!') (by decide) _ rest,
    isPrefixOf_rootText named (d := '?') (by decide) _ rest⟩

theorem gives_rootPart {m : Manuscript} (readable : m.Readable)
    (reads : ∀ cs, m.content = some cs → Reads isClosed (scope [] m.attributes) cs P)
    (empty : m.content = none → P []) {b : Builder} (outside : b.openElements = [])
    (noText : b.afterText = false) (noAttributes : b.attributes = []) (noDeclarations : b.declared = [])
    {bound : Nat} (enough : (remarksText m.after ++ m.last).length < bound) (o : Nat) :
    ∃ tag kids placed b', TagCameFrom tag [] m.name m.attributes ∧ P kids ∧
      PlacedWithin placed (m.after.map (·.part.node)) (o + m.rootText.length)
        (o + (m.rootText ++ remarksText m.after).length) ∧
      b'.finished = placed.reverse ++ ⟨o, Reads.elementOf tag kids⟩ :: b.finished ∧ b'.openElements = [] ∧
      ∃ c, (rootPart bound).Gives b ⟨m.rootText ++ (remarksText m.after ++ m.last), o⟩ () b' c := by
  rcases gives_rootElement readable.tag reads empty outside noText noAttributes noDeclarations
    (remarksText m.after ++ m.last) o with
    ⟨tag, kids, afterRoot, cameFrom, holds, finished, closed, stillNoText, gives⟩
  have nothing : m.last = m.last ++ [] := (List.append_nil _).symm
  rw [nothing] at enough
  rcases gives_miscellaneous readable.after readable.last noRemark_nil enough closed stillNoText
    (o + m.rootText.length) with ⟨placed, within, givesRemarks⟩
  refine ⟨tag, kids, placed, afterRoot.past placed [], cameFrom, holds, ?_, ?_, closed,
    .behind [] (o + m.rootText.length) (remarksText m.after ++ m.last), ?_⟩
  · rw [List.length_append, ← Nat.add_assoc]
    exact within
  · rw [Builder.past, finished]
  · have noRemark := noRemark_rootText readable.tag.named (remarksText m.after ++ m.last)
    have begins : "<".toList.isPrefixOf (m.rootText ++ (remarksText m.after ++ m.last)) = true := rfl
    rw [rootPart]
    refine (gives_lift (Scan.gives_skipSpaces_nil noRemark.solid o) b).bind ?_
    refine (gives_lift (Scan.gives_looksAt "<" _) b).bind ?_
    dsimp only
    rw [begins, if_pos rfl]
    rw [← nothing] at givesRemarks
    refine gives.bind (givesRemarks.bind ?_)
    exact (gives_lift (Scan.gives_atEnd _) _).bind (gives_pure () _ _)

end Build

/-- What is found where a manuscript is read, if the content of the root element is read
with some property. -/
structure Manuscript.Findings (m : Manuscript) (P : List Item → Prop) where
  before : List PlacedNode
  /-- The nodes inside of the document type declaration. -/
  inside : List PlacedNode
  between : List PlacedNode
  tag : StartTag
  kids : List Item
  after : List PlacedNode
  before_within : PlacedWithin before (m.before.map (·.part.node)) m.declarationText.length
    (m.declarationText ++ remarksText m.before).length
  inside_within : PlacedWithin inside m.doctypeNodes (m.doctypeStart + 1) m.doctypeEnd
  between_within : PlacedWithin between m.betweenNodes m.doctypeEnd m.front.length
  cameFrom : Build.TagCameFrom tag [] m.name m.attributes
  holds : P kids
  after_within : PlacedWithin after (m.after.map (·.part.node)) (m.front ++ m.rootText).length m.text.length

namespace Manuscript.Findings

variable {m : Manuscript} {P : List Item → Prop}

def root (f : m.Findings P) : PlacedNode :=
  ⟨m.front.length, Build.Reads.elementOf f.tag f.kids⟩

/-- All nodes in the order of the text. -/
def placed (f : m.Findings P) : List PlacedNode :=
  f.before ++ (f.inside ++ (f.between ++ f.root :: f.after))

theorem reverse_placed (f : m.Findings P) : f.placed.reverse =
    f.after.reverse ++ f.root :: (f.between.reverse ++ (f.inside.reverse ++ f.before.reverse)) := by
  simp only [placed, List.reverse_append, List.reverse_cons, List.append_assoc, List.cons_append, List.nil_append]

end Manuscript.Findings

namespace Manuscript

/-- Whether everything behind the XML declaration is read. -/
def GivesBody (P : List Item → Prop) (m : Manuscript) : Prop :=
  ∃ (f : m.Findings P) (b' : Builder), b'.finished = f.placed.reverse ∧ b'.openElements = [] ∧
    ∃ c, Build.body.Gives .start
      ⟨remarksText m.before ++ (m.betweenText ++ (m.gap ++ (m.rootText ++ (remarksText m.after ++ m.last)))),
        m.declarationText.length⟩ () b' c

variable (m : Manuscript)

theorem length_after_le : m.front.length + (m.rootText ++ remarksText m.after).length ≤ m.text.length := by
  rw [text, List.length_append, List.length_append, List.length_append, List.length_append]
  omega

theorem betweenText_of_no_doctype (bare : m.doctype = none) : m.betweenText = [] := by
  rw [betweenText, bare]
  rfl

theorem length_front_of_no_doctype (bare : m.doctype = none) :
    m.front.length = m.declarationText.length + (remarksText m.before ++ m.gap).length := by
  rw [front, m.betweenText_of_no_doctype bare, List.length_append]
  rfl

section Typed

variable {d : Spaced Doctype} {remarks : List (Spaced Remark)} (typed : m.doctype = some (d, remarks))

include typed

theorem betweenText_of_doctype : m.betweenText = doctypeText d ++ remarksText remarks := by
  rw [betweenText, typed]
  rfl

theorem doctypeEnd_of_doctype :
    m.doctypeEnd = m.declarationText.length + (remarksText m.before ++ d.gap).length +
      ("<!DOCTYPE ".toList ++ (d.part.text ++ ['>'])).length := by
  rw [doctypeEnd, typed]
  change (m.declarationText ++ (remarksText m.before ++
    (d.gap ++ ("<!DOCTYPE ".toList ++ (d.part.text ++ ['>']))))).length = _
  simp only [List.length_append]
  omega

theorem doctypeStart_of_doctype :
    m.doctypeStart = m.declarationText.length + (remarksText m.before ++ d.gap).length := by
  rw [doctypeStart, typed, List.length_append]
  rfl

theorem length_front_of_doctype : m.front.length = m.doctypeEnd + (remarksText remarks ++ m.gap).length := by
  rw [front, m.betweenText_of_doctype typed, doctypeEnd, typed, Option.elim_some]
  simp only [List.length_append]
  omega

end Typed

end Manuscript

namespace Build

variable {isClosed : Bool} {P : List Item → Prop}

/-- Everything behind the XML declaration is read if there is no document type. -/
theorem gives_body_of_no_doctype {m : Manuscript} (readable : m.Readable)
    (reads : ∀ cs, m.content = some cs → Reads isClosed (scope [] m.attributes) cs P)
    (empty : m.content = none → P []) (bare : m.doctype = none) : m.GivesBody P := by
  have rootRemark := noRemark_rootText readable.tag.named (remarksText m.after ++ m.last)
  have noDoctype : "<!DOCTYPE".toList.isPrefixOf (m.rootText ++ (remarksText m.after ++ m.last)) = false :=
    isPrefixOf_rootText readable.tag.named (d := '!') (by decide) _ _
  have frontEq := m.length_front_of_no_doctype bare
  rw [Manuscript.GivesBody, m.betweenText_of_no_doctype bare, List.nil_append]
  rcases gives_miscellaneous readable.before readable.gap rootRemark (Nat.lt_succ_self _) (b := .start) rfl rfl
    m.declarationText.length with ⟨before, beforeWithin, givesBefore⟩
  have enough : (remarksText m.after ++ m.last).length < (remarksText m.before ++ (m.gap ++ (m.rootText ++
      (remarksText m.after ++ m.last)))).length.succ := by
    simp only [List.length_append]
    omega
  rcases gives_rootPart readable reads empty (b := Builder.start.past before []) rfl rfl rfl rfl
    enough m.front.length with
    ⟨tag, kids, after, b', cameFrom, holds, afterWithin, finished, closed, c, givesRoot⟩
  let found : m.Findings P :=
    { before := before, inside := [], between := [], tag := tag, kids := kids, after := after
      before_within := by rw [List.length_append]; exact beforeWithin
      inside_within := by rw [Manuscript.doctypeNodes, bare]; exact .nil _ _
      between_within := by rw [Manuscript.betweenNodes, bare]; exact .nil _ _
      cameFrom := cameFrom
      holds := holds
      after_within := by
        rw [List.length_append]
        exact afterWithin.widen (Nat.le_refl _) m.length_after_le }
  refine ⟨found, b', ?_, closed, c, ?_⟩
  · rw [finished, found.reverse_placed]
    exact congrArg (after.reverse ++ ⟨m.front.length, Reads.elementOf tag kids⟩ :: ·) (List.append_nil _)
  · rw [body]
    refine (gives_lift (Scan.gives_rest _) _).bind ?_
    refine givesBefore.bind ?_
    refine (gives_lift (Scan.gives_skipSpaces_nil rootRemark.solid _) _).bind ?_
    refine (same_otherwise noDoctype _ _ _).gives ?_
    rw [frontEq] at givesRoot
    exact givesRoot

/-- Everything behind the XML declaration is read if there is a document type. -/
theorem gives_body_of_doctype {m : Manuscript} (readable : m.Readable)
    (reads : ∀ cs, m.content = some cs → Reads isClosed (scope [] m.attributes) cs P)
    (empty : m.content = none → P []) {d : Spaced Doctype} {remarks : List (Spaced Remark)}
    (typed : m.doctype = some (d, remarks)) : m.GivesBody P := by
  have doctypeReadable := readable.doctype
  rw [typed, Option.all_some, Bool.and_eq_true, Bool.and_eq_true] at doctypeReadable
  rcases doctypeReadable with ⟨⟨gapBlank, dReadable⟩, remarksReadable⟩
  have rootRemark := noRemark_rootText readable.tag.named (remarksText m.after ++ m.last)
  let behindDoctype := remarksText remarks ++ (m.gap ++ (m.rootText ++ (remarksText m.after ++ m.last)))
  have shape : m.betweenText ++ (m.gap ++ (m.rootText ++ (remarksText m.after ++ m.last))) =
      d.gap ++ ("<!DOCTYPE ".toList ++ (d.part.text ++ '>' :: behindDoctype)) := by
    rw [m.betweenText_of_doctype typed, Manuscript.doctypeText]
    generalize "<!DOCTYPE ".toList = word
    simp only [behindDoctype, List.append_assoc, List.cons_append, List.nil_append]
  have endEq := m.doctypeEnd_of_doctype typed
  have frontEq := m.length_front_of_doctype typed
  have noRemark : NoRemark ("<!DOCTYPE ".toList ++ (d.part.text ++ '>' :: behindDoctype)) :=
    ⟨Scan.ends_cons (by decide) _, rfl, rfl⟩
  rw [Manuscript.GivesBody, shape]
  rcases gives_miscellaneous readable.before (List.all_eq_true.mp gapBlank) noRemark (Nat.lt_succ_self _)
    (b := .start) rfl rfl m.declarationText.length with ⟨before, beforeWithin, givesBefore⟩
  rcases gives_doctype dReadable (b := Builder.start.past before []) rfl rfl behindDoctype
    (m.declarationText.length + (remarksText m.before ++ d.gap).length) with
    ⟨inside, entities, insideWithin, givesDoctype⟩
  rw [Builder.past_past] at givesDoctype
  let bound := (remarksText m.before ++ (d.gap ++ ("<!DOCTYPE ".toList ++
    (d.part.text ++ '>' :: behindDoctype)))).length.succ
  have enough : behindDoctype.length < bound := by
    simp only [bound, List.length_append, List.length_cons]
    omega
  rcases gives_miscellaneous remarksReadable readable.gap rootRemark enough
    (b := Builder.start.past (before ++ inside) ([] ++ entities)) rfl rfl m.doctypeEnd with
    ⟨others, othersWithin, givesOthers⟩
  rw [Builder.past_past] at givesOthers
  have shorter : (remarksText m.after ++ m.last).length < bound := by
    refine Nat.lt_of_le_of_lt ?_ enough
    simp only [behindDoctype, List.length_append]
    omega
  rcases gives_rootPart readable reads empty (b := Builder.start.past (before ++ inside ++ others)
    ([] ++ entities ++ [])) rfl rfl rfl rfl shorter m.front.length with
    ⟨tag, kids, after, b', cameFrom, holds, afterWithin, finished, closed, c, givesRoot⟩
  let found : m.Findings P :=
    { before := before, inside := inside, between := others, tag := tag, kids := kids, after := after
      before_within := by rw [List.length_append]; exact beforeWithin
      inside_within := by
        rw [Manuscript.doctypeNodes, typed, m.doctypeStart_of_doctype typed, endEq]
        exact insideWithin
      between_within := by
        rw [Manuscript.betweenNodes, typed]
        exact othersWithin.widen (Nat.le_refl _) (by rw [frontEq, List.length_append]; omega)
      cameFrom := cameFrom
      holds := holds
      after_within := by
        rw [List.length_append]
        exact afterWithin.widen (Nat.le_refl _) m.length_after_le }
  refine ⟨found, b', ?_, closed, c, ?_⟩
  · rw [finished, found.reverse_placed]
    refine congrArg (after.reverse ++ ⟨m.front.length, Reads.elementOf tag kids⟩ :: ·) ?_
    change (before ++ inside ++ others).reverse ++ [] = others.reverse ++ (inside.reverse ++ before.reverse)
    rw [List.append_nil, List.reverse_append, List.reverse_append]
  · rw [body]
    refine (gives_lift (Scan.gives_rest _) _).bind ?_
    refine givesBefore.bind ?_
    refine (gives_lift (Scan.gives_skipSpaces_nil noRemark.solid _) _).bind ?_
    refine (gives_lift (Scan.gives_looksAt "<!DOCTYPE" _) _).bind ?_
    rw [endEq] at givesOthers
    rw [frontEq, endEq] at givesRoot
    exact givesDoctype.bind (givesOthers.bind givesRoot)

/-- Everything behind the XML declaration is read. -/
theorem gives_body {m : Manuscript} (readable : m.Readable)
    (reads : ∀ cs, m.content = some cs → Reads isClosed (scope [] m.attributes) cs P)
    (empty : m.content = none → P []) : m.GivesBody P := by
  cases found : m.doctype with
  | none => exact gives_body_of_no_doctype readable reads empty found
  | some both => exact gives_body_of_doctype readable reads empty found

/-! ## The start of the text -/

/-- Behind blanks a tag begins only where it begins without them. -/
theorem isPrefixOf_gap {gap cs word : List Char} (blank : ∀ c ∈ gap, Text.isXmlSpace c = true)
    (absent : ('<' :: word).isPrefixOf cs = false) : ('<' :: word).isPrefixOf (gap ++ cs) = false := by
  cases gap with
  | nil => exact absent
  | cons c rest =>
      have other : '<' ≠ c := by
        rintro rfl
        exact absurd (blank _ List.mem_cons_self) (by decide)
      rw [List.cons_append, List.isPrefixOf, beq_false_of_ne other, Bool.false_and]

/-- Without a declaration no text begins like one. -/
theorem not_declaration_text {m : Manuscript} (readable : m.Readable) (none : m.declaration = none) {blank : Char}
    (noName : isNameChar blank = false) (noEnd : blank ≠ '?') :
    ("<?xml".toList ++ [blank]).isPrefixOf m.text = false := by
  have noRoot : ("<?xml".toList ++ [blank]).isPrefixOf (m.rootText ++ (remarksText m.after ++ m.last)) = false :=
    isPrefixOf_rootText readable.tag.named (d := '?') (by decide) _ _
  have shape : m.text =
      remarksText m.before ++ (m.betweenText ++ (m.gap ++ (m.rootText ++ (remarksText m.after ++ m.last)))) := by
    rw [Manuscript.text, Manuscript.front, Manuscript.declarationText, none]
    simp only [Option.elim_none, List.nil_append, List.append_assoc]
  rw [shape]
  cases before : m.before with
  | cons r rest =>
      have beforeReadable := readable.before
      rw [before, areReadable, List.all_cons, Bool.and_eq_true, Bool.and_eq_true] at beforeReadable
      rw [remarksText, List.flatMap_cons, List.append_assoc, List.append_assoc]
      exact isPrefixOf_gap (List.all_eq_true.mp beforeReadable.1.1) (r.part.not_declaration beforeReadable.1.2 noName noEnd _)
  | nil =>
      rw [show remarksText [] = [] from rfl, List.nil_append]
      cases doctypeEq : m.doctype with
      | none =>
          rw [Manuscript.betweenText, doctypeEq, Option.elim_none, List.nil_append]
          exact isPrefixOf_gap readable.gap noRoot
      | some both =>
          have doctypeReadable := readable.doctype
          rw [doctypeEq, Option.all_some, Bool.and_eq_true, Bool.and_eq_true] at doctypeReadable
          rw [Manuscript.betweenText, doctypeEq, Option.elim_some, List.append_assoc, Manuscript.doctypeText,
            List.append_assoc]
          exact isPrefixOf_gap (List.all_eq_true.mp doctypeReadable.1.1) rfl

theorem ends_remarksText {p : Char → Bool} (noBlank : ∀ c, Text.isXmlSpace c = true → p c = false)
    (noTag : p '<' = false) {remarks : List (Spaced Remark)} (readable : areReadable remarks = true) :
    Scan.Ends p (remarksText remarks) := by
  cases remarks with
  | nil => exact Scan.ends_nil p
  | cons r rest =>
      rw [areReadable, List.all_cons, Bool.and_eq_true, Bool.and_eq_true, List.all_eq_true] at readable
      rw [remarksText, List.flatMap_cons, List.append_assoc]
      refine Scan.ends_append (fun c front => noBlank c (readable.1.1 c (List.mem_of_mem_head? front))) ?_
      rcases r with ⟨gap, part⟩
      cases part <;> exact Scan.ends_cons noTag _

/-- Every text begins with a blank or a tag. -/
theorem ends_text {p : Char → Bool} (noBlank : ∀ c, Text.isXmlSpace c = true → p c = false)
    (noTag : p '<' = false) {m : Manuscript} (readable : m.Readable) : Scan.Ends p m.text := by
  have ofBlank : ∀ {gap : List Char}, (∀ c ∈ gap, Text.isXmlSpace c = true) → Scan.Ends p gap :=
    fun blank c front => noBlank c (blank c (List.mem_of_mem_head? front))
  have declaration : Scan.Ends p m.declarationText := by
    rw [Manuscript.declarationText]
    cases m.declaration with
    | none => exact Scan.ends_nil p
    | some d => exact Scan.ends_cons noTag _
  have between : Scan.Ends p m.betweenText := by
    have doctypeReadable := readable.doctype
    rw [Manuscript.betweenText]
    cases doctypeEq : m.doctype with
    | none => exact Scan.ends_nil p
    | some both =>
        rw [doctypeEq, Option.all_some, Bool.and_eq_true, Bool.and_eq_true, List.all_eq_true] at doctypeReadable
        exact Scan.ends_append (Scan.ends_append (ofBlank doctypeReadable.1.1) (Scan.ends_cons noTag _))
          (ends_remarksText noBlank noTag doctypeReadable.2)
  have front := Scan.ends_append declaration (Scan.ends_append (ends_remarksText noBlank noTag readable.before)
    (Scan.ends_append between (ofBlank readable.gap)))
  exact Scan.ends_append front (Scan.ends_cons noTag _)

theorem head?_text_ne {m : Manuscript} (readable : m.Readable) : (m.text.head? == some '\uFEFF') = false := by
  have ends : Scan.Ends (· == '\uFEFF') m.text := by
    refine ends_text ?_ (by decide) readable
    intro c blank
    rw [beq_eq_false_iff_ne]
    rintro rfl
    exact absurd blank (by decide)
  rw [beq_eq_false_iff_ne]
  exact fun front => absurd (ends _ front) (by decide)

end Build

/-- A manuscript with readable parts is read, and its nodes are found where it has them. -/
theorem read_text {isClosed : Bool} {P : List Item → Prop} {m : Manuscript} (readable : m.Readable)
    (reads : ∀ cs, m.content = some cs → Build.Reads isClosed (Build.scope [] m.attributes) cs P)
    (empty : m.content = none → P []) : ∃ f : m.Findings P, read m.text = .ok f.placed := by
  rcases Build.gives_body readable reads empty with ⟨f, b', finished, closed, c, givesBody⟩
  refine ⟨f, ?_⟩
  have gives : Build.document.Gives .start ⟨m.text, 0⟩ () b' c := by
    have shape : m.text = m.declarationText ++ (remarksText m.before ++ (m.betweenText ++ (m.gap ++
        (m.rootText ++ (remarksText m.after ++ m.last))))) := by
      rw [Manuscript.text, Manuscript.front]
      simp only [List.append_assoc]
    rw [Build.document_eq]
    refine (Build.gives_lift (Scan.gives_rest _) _).bind ?_
    dsimp only
    rw [Build.head?_text_ne readable, if_neg Bool.false_ne_true]
    cases declaration : m.declaration with
    | none =>
        have nothing : m.declarationText = [] := by
          rw [Manuscript.declarationText, declaration]
          rfl
        have noDeclaration : "<?xml ".toList.isPrefixOf m.text = false :=
          @Build.not_declaration_text m readable declaration ' ' (by decide) (by decide)
        refine (Build.same_otherwise noDeclaration _ _ _).gives ?_
        rw [nothing] at givesBody shape
        rw [shape]
        exact givesBody
    | some d =>
        have declarationReadable := readable.declaration
        rw [declaration] at declarationReadable
        have something : m.declarationText = "<?xml ".toList ++ (d.text ++ "?>".toList) := by
          rw [Manuscript.declarationText, declaration]
          rfl
        have begins : "<?xml ".toList.isPrefixOf m.text = true := by
          rw [shape, something, List.append_assoc]
          exact List.isPrefixOf_iff_prefix.mpr (List.prefix_append _ _)
        refine (Build.gives_lift (Scan.gives_looksAt "<?xml " _) _).bind ?_
        dsimp only
        rw [begins, if_pos rfl, shape, something, List.append_assoc, List.append_assoc]
        rw [something] at givesBody
        refine (Build.gives_lift (Scan.gives_declaration declarationReadable _ 0) _).bind ?_
        rw [Cursor.behind, Nat.zero_add]
        exact givesBody
  have isElement : (b'.finished.all fun placed => !placed.node.isElement) = false := by
    rw [finished, f.reverse_placed, List.all_append, List.all_cons]
    exact (congrArg _ (Bool.false_and _)).trans (Bool.and_false _)
  rw [Build.Gives] at gives
  rw [read, gives]
  change (do
    if (!b'.openElements.isEmpty) = true then throw ⟨.unclosedRoot, 0⟩
    if (b'.finished.all fun placed => !placed.node.isElement) = true then throw ⟨.noRoot, 0⟩
    return b'.finished.reverse : Except Fault (List PlacedNode)) = _
  rw [closed, isElement, finished, List.reverse_reverse]
  rfl

end Xml
end SlimSvg
