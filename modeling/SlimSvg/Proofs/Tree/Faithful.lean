import Mathlib.Data.List.Basic
import SlimSvg.Proofs.Xml.Manuscript
import SlimSvg.Tree.Reading
import SlimSvg.Tree.Written
import SlimSvg.Proofs.Tree.Reading
import SlimSvg.Proofs.Value.Shortest

namespace SlimSvg

/-!
# What is written can be read

The text of a document is accepted again if names are names, every prefix is declared
where it is used, no two attributes of an element come to one name, all characters may
stand in a document, and no comment, instruction or text holds its own end.  These
conditions concern the tree alone and hold for every way of breaking lines.
-/

/-! ## Escaped characters -/

namespace Written

/-- Whether some characters stand for one character in a text. -/
inductive Escapes (c : Char) : List Char → Prop
  | self (plain : c ≠ '&') : Escapes c [c]
  | reference (name : List Char) (closed : ';' ∉ name) (named : Xml.Piece.targetOf? name = some (.char c)) :
    Escapes c ('&' :: (name ++ [';']))

/-- Escaped character by character, a text spells itself. -/
theorem spells_flatMap {f : Char → List Char} (escapes : ∀ c, Escapes c (f c)) (s : List Char) :
    Xml.Spells (s.flatMap f) s := by
  induction s with
  | nil => exact .nil
  | cons c rest inductionHypothesis =>
      rw [List.flatMap_cons]
      have here := escapes c
      generalize f c = written at here
      cases here with
      | self plain => exact .char plain inductionHypothesis
      | reference name closed named =>
          rw [List.cons_append, List.append_assoc]
          exact .reference closed named inductionHypothesis

theorem escapes_attributeChar (c : Char) : Escapes c (attributeChar c) := by
  rw [attributeChar]
  split
  · next same =>
    rw [eq_of_beq same]
    exact .reference ['a', 'm', 'p'] (by decide) (by decide)
  · next plain =>
    split
    · next same =>
      rw [eq_of_beq same]
      exact .reference ['l', 't'] (by decide) (by decide)
    · split
      · next same =>
        rw [eq_of_beq same]
        exact .reference ['q', 'u', 'o', 't'] (by decide) (by decide)
      · exact .self fun same => plain (beq_iff_eq.mpr same)

theorem escapes_textChar (c : Char) : Escapes c (textChar c) := by
  rw [textChar]
  split
  · next same =>
    rw [eq_of_beq same]
    exact .reference ['a', 'm', 'p'] (by decide) (by decide)
  · next plain =>
    split
    · next same =>
      rw [eq_of_beq same]
      exact .reference ['l', 't'] (by decide) (by decide)
    · split
      · next same =>
        rw [eq_of_beq same]
        exact .reference ['g', 't'] (by decide) (by decide)
      · exact .self fun same => plain (beq_iff_eq.mpr same)

/-- An escaped attribute ends neither the tag nor the value. -/
theorem of_mem_attributeChar {c d : Char} (listed : d ∈ attributeChar c) (char : Xml.isXmlChar c = true) :
    Xml.isXmlChar d = true ∧ d ≠ '<' ∧ d ≠ '"' := by
  rw [attributeChar] at listed
  split at listed
  · have plain : ∀ d ∈ ['&', 'a', 'm', 'p', ';'], Xml.isXmlChar d = true ∧ d ≠ '<' ∧ d ≠ '"' :=
      List.all_iff_forall_prop.mp (by decide)
    exact plain d listed
  · split at listed
    · have plain : ∀ d ∈ ['&', 'l', 't', ';'], Xml.isXmlChar d = true ∧ d ≠ '<' ∧ d ≠ '"' :=
        List.all_iff_forall_prop.mp (by decide)
      exact plain d listed
    · next noTag =>
      split at listed
      · have plain : ∀ d ∈ ['&', 'q', 'u', 'o', 't', ';'], Xml.isXmlChar d = true ∧ d ≠ '<' ∧ d ≠ '"' :=
          List.all_iff_forall_prop.mp (by decide)
        exact plain d listed
      · next noQuote =>
        rw [List.mem_singleton.mp listed]
        exact ⟨char, fun same => noTag (beq_iff_eq.mpr same), fun same => noQuote (beq_iff_eq.mpr same)⟩

/-- An escaped text begins no tag, and no section ends in it. -/
theorem of_mem_textChar {c d : Char} (listed : d ∈ textChar c) (char : Xml.isXmlChar c = true) :
    Xml.isXmlChar d = true ∧ d ≠ '<' ∧ d ≠ '>' := by
  rw [textChar] at listed
  split at listed
  · have plain : ∀ d ∈ ['&', 'a', 'm', 'p', ';'], Xml.isXmlChar d = true ∧ d ≠ '<' ∧ d ≠ '>' :=
      List.all_iff_forall_prop.mp (by decide)
    exact plain d listed
  · split at listed
    · have plain : ∀ d ∈ ['&', 'l', 't', ';'], Xml.isXmlChar d = true ∧ d ≠ '<' ∧ d ≠ '>' :=
        List.all_iff_forall_prop.mp (by decide)
      exact plain d listed
    · next noTag =>
      split at listed
      · have plain : ∀ d ∈ ['&', 'g', 't', ';'], Xml.isXmlChar d = true ∧ d ≠ '<' ∧ d ≠ '>' :=
          List.all_iff_forall_prop.mp (by decide)
        exact plain d listed
      · next noEnd =>
        rw [List.mem_singleton.mp listed]
        exact ⟨char, fun same => noTag (beq_iff_eq.mpr same), fun same => noEnd (beq_iff_eq.mpr same)⟩

/-! ## Attributes -/

/-- A written name in its parts. -/
def nameParts (pre : Option String) (localName : String) : Xml.Scan.QName :=
  ⟨pre.getD "", localName⟩

theorem write_nameParts {pre : Option String} (nonempty : pre ≠ some "") (localName : String) :
    (nameParts pre localName).write = qualify pre localName := by
  cases pre with
  | none => rfl
  | some p =>
      have notEmpty : ¬ p.isEmpty = true := fun empty => nonempty (congrArg some (String.isEmpty_iff.mp empty))
      exact if_neg notEmpty

/-- An attribute with the text that is written for its value. -/
def spelled (pre : Option String) (localName value : String) : Xml.SpelledAttribute :=
  ⟨nameParts pre localName, value.toList.flatMap attributeChar, value.toList⟩

theorem toList_attributeText (pre : Option String) (nonempty : pre ≠ some "") (localName value : String) :
    (attributeText (qualify pre localName) value).toList = (spelled pre localName value).text := by
  rw [attributeText, ← write_nameParts nonempty]
  simp only [String.toList_append, escape, String.toList_ofList, Xml.SpelledAttribute.text, spelled,
    List.append_assoc]
  rfl

theorem spelled_readable {pre : Option String} {localName value : String}
    (named : (nameParts pre localName).isReadable = true) (chars : ∀ c ∈ value.toList, Xml.isXmlChar c = true) :
    (spelled pre localName value).Readable := by
  refine ⟨named, spells_flatMap escapes_attributeChar value.toList, ?_⟩
  intro d listed
  rcases List.mem_flatMap.mp listed with ⟨c, among, here⟩
  exact of_mem_attributeChar here (chars c among)

end Written

namespace ForeignAttribute

def spelled (a : ForeignAttribute) : Xml.SpelledAttribute :=
  Written.spelled a.pre a.localName a.value

end ForeignAttribute

namespace Element

/-- The attributes without a namespace, apart from a declaration. -/
def own (e : Element) : List Attribute :=
  e.attributes.items.filter (·.name != "xmlns")

/-- The declarations of prefixes. -/
def prefixes (e : Element) : List ForeignAttribute :=
  e.foreign.filter (·.isDeclaration)

/-- The attributes with a namespace that are no declarations. -/
def others (e : Element) : List ForeignAttribute :=
  e.foreign.filter fun a => !a.isDeclaration

/-- The declaration of the default namespace, as an attribute. -/
def spelledDefault (e : Element) : List Xml.SpelledAttribute :=
  ((e.attributeText? "xmlns").map (Written.spelled none "xmlns")).toList

/-- The attributes without a namespace. -/
def spelledOwn (e : Element) : List Xml.SpelledAttribute :=
  e.own.map fun a => Written.spelled none a.name a.value.text

/-- All attributes of an element in the order of writing. -/
def spelledAttributes (e : Element) : List Xml.SpelledAttribute :=
  e.spelledDefault ++ (e.prefixes.map (·.spelled) ++ (e.spelledOwn ++ e.others.map (·.spelled)))

end Element

namespace Written

theorem toList_attributes {e : Element} (nonempty : ∀ a ∈ e.foreign, a.pre ≠ some "") :
    (attributes e).toList = e.spelledAttributes.flatMap (·.text) := by
  have foreign : ∀ {as : List ForeignAttribute}, as ⊆ e.foreign →
      (as.map fun a => attributeText a.qualifiedName a.value).flatMap String.toList =
        (as.map (·.spelled)).flatMap (·.text) := by
    intro as among
    rw [List.flatMap_map, List.flatMap_map]
    apply List.flatMap_congr
    intro a listed
    exact toList_attributeText a.pre (nonempty a (among listed)) a.localName a.value
  have own : (e.own.map fun a => attributeText a.name a.value.text).flatMap String.toList =
      e.spelledOwn.flatMap (·.text) := by
    rw [Element.spelledOwn, List.flatMap_map, List.flatMap_map]
    apply List.flatMap_congr
    intro a _
    exact toList_attributeText none nofun a.name a.value.text
  have default : ((e.attributeText? "xmlns").map (attributeText "xmlns")).toList.flatMap String.toList =
      e.spelledDefault.flatMap (·.text) := by
    rw [Element.spelledDefault]
    cases e.attributeText? "xmlns" with
    | none => rfl
    | some value =>
        simp only [Option.map_some, Option.toList_some, List.flatMap_cons, List.flatMap_nil, List.append_nil]
        exact toList_attributeText none nofun "xmlns" value
  have prefixes := @foreign e.prefixes fun _ listed => (List.mem_filter.mp listed).1
  have others := @foreign e.others fun _ listed => (List.mem_filter.mp listed).1
  rw [attributes, List.partition_eq_filter_filter, String.toList_join]
  change List.flatMap String.toList (_ ++ e.prefixes.map _ ++ e.own.map _ ++ e.others.map _) = _
  rw [List.flatMap_append, List.flatMap_append, List.flatMap_append, default, prefixes, own, others,
    Element.spelledAttributes, List.flatMap_append, List.flatMap_append, List.flatMap_append, List.append_assoc,
    List.append_assoc]

end Written

/-! ## Elements -/

/-- Whether an attribute has no blanks but spaces. -/
def isSolid (s : List Char) : Bool :=
  s.all fun c => c != '\t' && c != '\n' && c != '\r'

namespace Element

/-- The name of an element in its parts. -/
def tagName (e : Element) : Xml.Scan.QName :=
  Written.nameParts e.pre e.name

/-- The namespaces in force inside of an element. -/
def scope (outer : Xml.Namespaces) (e : Element) : Xml.Namespaces :=
  Xml.Build.scope outer e.spelledAttributes

/-- Whether all names are names, all characters may stand in a document, and what is
declared may be. -/
def hasReadableNames (e : Element) : Bool :=
  e.pre != some "" && e.foreign.all (·.pre != some "") && e.tagName.isReadable && e.tagName.pre != "xmlns"
    && e.spelledAttributes.all fun a => a.name.isReadable && a.spelt.all Xml.isXmlChar
      && (!a.name.declares || isSolid a.spelt && Xml.isLawful a.name (String.ofList a.spelt))

/-- Whether no prefix is declared twice, every prefix is declared, and no two attributes
have one name. -/
def hasReadablePrefixes (outer : Xml.Namespaces) (e : Element) : Bool :=
  let others := Xml.Build.ordinary e.spelledAttributes
  decide ((e.spelledAttributes.filter fun a => a.name.pre == "xmlns").map (·.name.localName)).Nodup
    && (e.tagName.pre.isEmpty || ((e.scope outer).uri? (some e.tagName.pre)).isSome)
    && others.all (fun a => Xml.Build.isBound (e.scope outer) a.name.pre)
    && decide (others.map fun a => (Xml.Build.attributeUri? (e.scope outer) a.name.pre, a.name.localName)).Nodup

/-- Whether the tag of an element can be read where certain namespaces are in force. -/
def isWritable (outer : Xml.Namespaces) (e : Element) : Bool :=
  e.hasReadableNames && e.hasReadablePrefixes outer

theorem of_mem_spelledAttributes {e : Element} {a : Xml.SpelledAttribute} (listed : a ∈ e.spelledAttributes) :
    ∃ pre localName value, a = Written.spelled pre localName value := by
  simp only [spelledAttributes, spelledDefault, spelledOwn, List.mem_append, List.mem_map, Option.mem_toList,
    Option.map_eq_some_iff] at listed
  rcases listed with ⟨value, -, rfl⟩ | ⟨b, -, rfl⟩ | ⟨b, -, rfl⟩ | ⟨b, -, rfl⟩ <;> exact ⟨_, _, _, rfl⟩

theorem readableTag {outer : Xml.Namespaces} {e : Element} (writable : e.isWritable outer = true) :
    Xml.Build.ReadableTag outer e.tagName e.spelledAttributes := by
  simp only [isWritable, hasReadableNames, hasReadablePrefixes, Bool.and_eq_true, bne_iff_ne, List.all_eq_true,
    Bool.or_eq_true, Bool.not_eq_true', decide_eq_true_eq] at writable
  rcases writable with ⟨⟨⟨⟨⟨-, -⟩, named⟩, free⟩, attributes⟩, ⟨⟨distinct, known⟩, bound⟩, unrepeated⟩
  refine ⟨⟨?_, ?_, distinct⟩, named, free, known, bound, unrepeated⟩
  · intro a listed
    rcases of_mem_spelledAttributes listed with ⟨pre, localName, value, rfl⟩
    exact Written.spelled_readable (attributes _ listed).1.1 (attributes _ listed).1.2
  · intro a listed declares
    have lawful := ((attributes a listed).2.resolve_left (by rw [declares]; exact Bool.true_eq_false ▸ nofun))
    refine ⟨?_, lawful.2⟩
    intro c among
    have solid := List.all_eq_true.mp lawful.1 c among
    simp only [Bool.and_eq_true, bne_iff_ne, and_assoc] at solid
    exact solid

theorem toList_qualifiedName {outer : Xml.Namespaces} {e : Element} (writable : e.isWritable outer = true) :
    e.qualifiedName.toList = e.tagName.write.toList := by
  simp only [isWritable, hasReadableNames, Bool.and_eq_true, bne_iff_ne] at writable
  rw [tagName, Written.write_nameParts writable.1.1.1.1.1, qualifiedName]

/-- The tag of an element as characters, without its last sign. -/
theorem toList_tag {outer : Xml.Namespaces} {e : Element} (writable : e.isWritable outer = true) :
    ("<" ++ e.qualifiedName ++ Written.attributes e).toList =
      Xml.Build.tagText e.tagName e.spelledAttributes := by
  have nonempty : ∀ a ∈ e.foreign, a.pre ≠ some "" := by
    simp only [isWritable, hasReadableNames, Bool.and_eq_true, bne_iff_ne, List.all_eq_true] at writable
    exact writable.1.1.1.1.2
  rw [String.toList_append, String.toList_append, toList_qualifiedName writable, Written.toList_attributes nonempty]
  rfl

end Element

/-! ## Elements that are read as they are

Reading replaces the prefix of every name by the first one that is bound to its
namespace, leaves out declarations that repeat what is in force, and puts declarations
before all other attributes.  An element with which nothing of this happens is read as
what it was when it was written, if blanks other than spaces occur in no attribute: these
are written as they are and read as spaces.
-/

/-! ### Declared namespaces -/

namespace Xml.Namespaces

/-- Inside of an element all own declarations are in force, and some outer ones. -/
theorem exists_inherit (own outer : Namespaces) :
    ∃ kept, own.inherit outer = own ++ kept ∧ ∀ n ∈ kept, n ∈ outer := by
  rw [inherit]
  split
  · next empty =>
    rw [List.isEmpty_iff.mp empty]
    exact ⟨outer, rfl, fun _ listed => listed⟩
  · induction outer generalizing own with
    | nil => exact ⟨[], (List.append_nil own).symm, nofun⟩
    | cons n rest inductionHypothesis =>
        rw [List.foldl_cons]
        split
        · rcases inductionHypothesis own ‹_› with ⟨kept, same, among⟩
          exact ⟨kept, same, fun m listed => List.mem_cons_of_mem n (among m listed)⟩
        · have nonempty : ¬ (own ++ [n]).isEmpty = true := by
            rw [List.isEmpty_iff]
            exact List.append_ne_nil_of_right_ne_nil own nofun
          rcases inductionHypothesis (own ++ [n]) nonempty with ⟨kept, same, among⟩
          refine ⟨n :: kept, ?_, ?_⟩
          · rw [same, List.append_assoc, List.singleton_append]
          · intro m listed
            rcases List.mem_cons.mp listed with rfl | later
            · exact List.mem_cons_self
            · exact List.mem_cons_of_mem n (among m later)

end Xml.Namespaces

namespace Reading

/-- Declarations that repeat nothing are the new ones. -/
theorem newDeclarations_inherit {tag : Xml.StartTag} {own outer : Xml.Namespaces}
    (inForce : tag.namespaces = own.inherit outer)
    (new : ∀ n ∈ own, (n.uri != Vocabulary.xmlNamespace && !outer.contains n) = true) :
    newDeclarations tag outer = own := by
  rcases own.exists_inherit outer with ⟨kept, same, among⟩
  have noneKept : kept.filter (fun n => n.uri != Vocabulary.xmlNamespace && !outer.contains n) = [] := by
    rw [List.filter_eq_nil_iff]
    intro n listed
    rw [List.contains_iff_mem.mpr (among n listed), Bool.not_true, Bool.and_false]
    exact Bool.false_ne_true
  rw [newDeclarations, inForce, same, List.filter_append, List.filter_eq_self.mpr new, noneKept, List.append_nil]

end Reading

/-! ### Elements -/

namespace ForeignAttribute

/-- Whether reading gives an attribute that is no declaration its prefix, its namespace and
its value. -/
def isFaithful (namespaces : Xml.Namespaces) (a : ForeignAttribute) : Bool :=
  a.localName != "xmlns" && a.uri.isSome && Xml.Build.attributeUri? namespaces (a.pre.getD "") == a.uri
    && a.uri.bind namespaces.prefixOf? == a.pre && isSolid a.value.toList

end ForeignAttribute

namespace Element

/-- The namespaces that an element declares. -/
def declared (e : Element) : Xml.Namespaces :=
  ((e.attributeText? "xmlns").map fun uri => ⟨none, uri⟩).toList ++ e.prefixes.map fun a => ⟨some a.localName, a.value⟩

/-- The namespace that the prefix of an element is bound to. -/
def boundUri? (outer : Xml.Namespaces) (e : Element) : Option String :=
  (e.scope outer).uri? (if e.tagName.pre.isEmpty then none else some e.tagName.pre)

/-- Whether reading gives an element its prefix and its namespace. -/
def hasFaithfulName (outer : Xml.Namespaces) (e : Element) : Bool :=
  (e.boundUri? outer).bind (e.scope outer).prefixOf? == e.pre
    && (e.boundUri? outer).filter (· != Vocabulary.svgNamespace) == e.uri

/-- Whether declarations are new and stand before all other attributes. -/
def hasFaithfulDeclarations (outer : Xml.Namespaces) (e : Element) : Bool :=
  e.declared.all (fun n => n.uri != Vocabulary.xmlNamespace && !outer.contains n)
    && e.prefixes.all (·.uri == some Vocabulary.xmlnsNamespace)
    && e.attributes.items.tail.all (·.name != "xmlns") && e.prefixes ++ e.others == e.foreign

/-- Whether an element is read as it is where certain namespaces are in force. -/
def isFaithful (outer : Xml.Namespaces) (e : Element) : Bool :=
  e.hasFaithfulName outer && e.hasFaithfulDeclarations outer
    && e.own.all (fun a => isSolid a.value.text.toList) && e.others.all (·.isFaithful (e.scope outer))

end Element

namespace Element

/-- Whether blanks count in an element, given whether they count around it. -/
def keepsBlanks (e : Element) (outer : Bool) : Bool :=
  match (e.others.filter fun a => a.uri == some Vocabulary.xmlNamespace && a.localName == "space").getLast? with
  | some a => a.value == "preserve"
  | none => outer || Vocabulary.preservesBlanks e.name

end Element

namespace Reading

variable {namespaces : Xml.Namespaces}

theorem foldl_addDeclaration {added : List ForeignAttribute}
    (declares : ∀ a ∈ added, a.pre = some "xmlns" ∧ a.uri = some Vocabulary.xmlnsNamespace) (e : Element) :
    (added.map fun a => ⟨some a.localName, a.value⟩).foldl addDeclaration e =
      { e with foreign := e.foreign ++ added } := by
  induction added generalizing e with
  | nil => rw [List.append_nil]; rfl
  | cons a rest inductionHypothesis =>
      rcases a with ⟨pre, localName, uri, value⟩
      rcases declares _ List.mem_cons_self with ⟨rfl, rfl⟩
      rw [List.map_cons, List.foldl_cons, inductionHypothesis fun b listed => declares b (List.mem_cons_of_mem _ listed)]
      simp only [addDeclaration, List.append_assoc, List.singleton_append]

theorem foldl_addAttribute_own {added : List Attribute} {e : Element}
    (typed : ∀ a ∈ added, ∃ text, a.value = .ofAttribute e.name a.name text)
    (distinct : ((e.attributes.items ++ added).map (·.name)).Nodup) :
    (added.map fun a => ⟨none, a.name, a.value.text⟩).foldl (addAttribute namespaces) e =
      { e with attributes := ⟨e.attributes.items ++ added⟩ } := by
  induction added generalizing e with
  | nil => rw [List.append_nil]; rfl
  | cons a rest inductionHypothesis =>
      rcases a with ⟨name, value⟩
      rcases typed _ List.mem_cons_self with ⟨text, valueEq⟩
      dsimp only at valueEq
      subst valueEq
      have absent : e.attributes.has name = false := by
        rw [Attributes.has, List.any_eq_false]
        intro b listed same
        rw [List.map_append, List.nodup_append] at distinct
        exact distinct.2.2 _ (List.mem_map_of_mem listed) _ List.mem_cons_self (beq_iff_eq.mp same)
      have next : addAttribute namespaces e ⟨none, name, (AttributeValue.ofAttribute e.name name text).text⟩ =
          { e with attributes := ⟨e.attributes.items ++ [⟨name, .ofAttribute e.name name text⟩]⟩ } := by
        rw [AttributeValue.text_ofAttribute]
        simp only [addAttribute, Element.setAttribute, Attributes.insert, absent, Bool.false_eq_true, if_false]
      rw [List.map_cons, List.foldl_cons, next]
      rw [← List.singleton_append, ← List.append_assoc] at distinct
      have later := @inductionHypothesis
        { e with attributes := ⟨e.attributes.items ++ [⟨name, .ofAttribute e.name name text⟩]⟩ }
        (fun b listed => typed b (List.mem_cons_of_mem _ listed)) distinct
      rw [later]
      simp only [List.append_assoc, List.singleton_append]

theorem foldl_addAttribute_foreign {added : List ForeignAttribute}
    (faithful : ∀ a ∈ added, a.isFaithful namespaces = true) (e : Element) :
    (added.map fun a => ⟨Xml.Build.attributeUri? namespaces (a.pre.getD ""), a.localName, a.value⟩).foldl
        (addAttribute namespaces) e =
      { e with foreign := e.foreign ++ added } := by
  induction added generalizing e with
  | nil => rw [List.append_nil]; rfl
  | cons a rest inductionHypothesis =>
      rcases a with ⟨pre, localName, uri, value⟩
      have here := faithful _ List.mem_cons_self
      simp only [ForeignAttribute.isFaithful, Bool.and_eq_true, beq_iff_eq] at here
      rcases here with ⟨⟨⟨⟨-, known⟩, resolved⟩, found⟩, -⟩
      rcases Option.isSome_iff_exists.mp known with ⟨u, rfl⟩
      rw [List.map_cons, List.foldl_cons, resolved]
      have next : addAttribute namespaces e ⟨some u, localName, value⟩ =
          { e with foreign := e.foreign ++ [⟨pre, localName, some u, value⟩] } := by
        rw [← found]
        rfl
      rw [next, inductionHypothesis fun b listed => faithful b (List.mem_cons_of_mem _ listed)]
      simp only [List.append_assoc, List.singleton_append]

end Reading

namespace Element

variable {outer : Xml.Namespaces} {e : Element}

theorem of_mem_prefixes {a : ForeignAttribute} (listed : a ∈ e.prefixes) : a.pre = some "xmlns" :=
  eq_of_beq (List.mem_filter.mp listed).2

/-- The prefix of an attribute that is no declaration is another one. -/
theorem getD_pre_ne_of_mem_others {a : ForeignAttribute} (listed : a ∈ e.others) : a.pre.getD "" ≠ "xmlns" := by
  have other := (List.mem_filter.mp listed).2
  rw [ForeignAttribute.isDeclaration, Bool.not_eq_true', beq_eq_false_iff_ne] at other
  cases pre : a.pre with
  | none => exact by decide
  | some p => exact fun same => other (pre.trans (congrArg some same))

theorem declarations_spelledAttributes (faithful : e.isFaithful outer = true) :
    Xml.Build.declarations e.spelledAttributes = e.declared := by
  simp only [isFaithful, hasFaithfulDeclarations, declared, Bool.and_eq_true, List.all_eq_true, bne_iff_ne,
    List.mem_append, List.mem_map] at faithful
  rcases faithful with ⟨⟨⟨-, ⟨⟨new, -⟩, -⟩, -⟩, -⟩, foreign⟩
  have default : e.spelledDefault.filterMap (fun a => Xml.declaration? a.name (String.ofList a.spelt)) =
      ((e.attributeText? "xmlns").map fun uri => ⟨none, uri⟩).toList := by
    rw [spelledDefault]
    cases e.attributeText? "xmlns" with
    | none => rfl
    | some value =>
        change (Xml.declaration? ⟨"", "xmlns"⟩ (String.ofList value.toList)).toList = _
        rw [String.ofList_toList]
        rfl
  have prefixed : (e.prefixes.map (·.spelled)).filterMap
      (fun a => Xml.declaration? a.name (String.ofList a.spelt)) =
        e.prefixes.map fun a => ⟨some a.localName, a.value⟩ := by
    rw [List.filterMap_map, ← List.filterMap_eq_map]
    apply List.filterMap_congr
    intro a listed
    have other := (new ⟨some a.localName, a.value⟩ (Or.inr ⟨a, listed, rfl⟩)).1
    change Xml.declaration? ⟨a.pre.getD "", a.localName⟩ (String.ofList a.value.toList) = _
    rw [of_mem_prefixes listed, String.ofList_toList, Xml.declaration?, if_pos (by rfl), if_neg]
    · rfl
    · rw [beq_iff_eq]
      exact other
  have noOwn : e.spelledOwn.filterMap (fun a => Xml.declaration? a.name (String.ofList a.spelt)) = [] := by
    rw [spelledOwn, List.filterMap_map, List.filterMap_eq_nil_iff]
    intro a listed
    apply Xml.Build.declaration?_of_not_declares
    have other := (List.mem_filter.mp listed).2
    rw [bne, Bool.not_eq_true'] at other
    exact other
  have noForeign : (e.others.map (·.spelled)).filterMap
      (fun a => Xml.declaration? a.name (String.ofList a.spelt)) = [] := by
    rw [List.filterMap_map, List.filterMap_eq_nil_iff]
    intro a listed
    apply Xml.Build.declaration?_of_not_declares
    have other := foreign a listed
    simp only [ForeignAttribute.isFaithful, Bool.and_eq_true, bne_iff_ne] at other
    change (a.pre.getD "" == "xmlns" || a.localName == "xmlns") = false
    rw [beq_false_of_ne (getD_pre_ne_of_mem_others listed), beq_false_of_ne other.1.1.1.1]
    rfl
  rw [Xml.Build.declarations, spelledAttributes, List.filterMap_append, List.filterMap_append,
    List.filterMap_append, default, prefixed, noOwn, noForeign, List.append_nil, List.append_nil]
  rfl

theorem ordinary_spelledAttributes (faithful : e.isFaithful outer = true) :
    Xml.Build.ordinary e.spelledAttributes = e.spelledOwn ++ e.others.map (·.spelled) := by
  simp only [isFaithful, Bool.and_eq_true, List.all_eq_true] at faithful
  have default : Xml.Build.ordinary e.spelledDefault = [] := by
    rw [spelledDefault]
    cases e.attributeText? "xmlns" <;> rfl
  have prefixed : Xml.Build.ordinary (e.prefixes.map (·.spelled)) = [] := by
    rw [Xml.Build.ordinary, List.filter_eq_nil_iff]
    intro a listed
    rcases List.mem_map.mp listed with ⟨b, among, rfl⟩
    change ¬ (!(b.pre.getD "" == "xmlns" || _)) = true
    rw [of_mem_prefixes among]
    exact Bool.false_ne_true
  have own : Xml.Build.ordinary e.spelledOwn = e.spelledOwn := by
    rw [Xml.Build.ordinary, List.filter_eq_self]
    intro a listed
    rcases List.mem_map.mp listed with ⟨b, among, rfl⟩
    exact (List.mem_filter.mp among).2
  have others : Xml.Build.ordinary (e.others.map (·.spelled)) = e.others.map (·.spelled) := by
    rw [Xml.Build.ordinary, List.filter_eq_self]
    intro a listed
    rcases List.mem_map.mp listed with ⟨b, among, rfl⟩
    have named := faithful.2 b among
    simp only [ForeignAttribute.isFaithful, Bool.and_eq_true, bne_iff_ne] at named
    change (!(b.pre.getD "" == "xmlns" || b.localName == "xmlns")) = true
    rw [beq_false_of_ne (getD_pre_ne_of_mem_others among), beq_false_of_ne named.1.1.1.1]
    rfl
  rw [Xml.Build.ordinary] at default prefixed own others ⊢
  rw [spelledAttributes, List.filter_append, List.filter_append, List.filter_append, default, prefixed, own, others]
  rfl

theorem solid_of_isSolid {pre : Option String} {localName value : String} (solid : isSolid value.toList = true) :
    (Written.spelled pre localName value).Solid := by
  intro c among
  have here := List.all_eq_true.mp solid c among
  simp only [Bool.and_eq_true, bne_iff_ne, and_assoc] at here
  exact here

/-- The attributes of a faithful element are read as they are. -/
theorem attributes_of_cameFrom (faithful : e.isFaithful outer = true) {tag : Xml.StartTag}
    (cameFrom : Xml.Build.TagCameFrom tag outer e.tagName e.spelledAttributes) :
    tag.attributes = (e.own.map fun a => ⟨none, a.name, a.value.text⟩)
      ++ e.others.map fun a => ⟨Xml.Build.attributeUri? (e.scope outer) (a.pre.getD ""), a.localName, a.value⟩ := by
  have ordinary := ordinary_spelledAttributes faithful
  simp only [isFaithful, Bool.and_eq_true, List.all_eq_true] at faithful
  have solid : ∀ a ∈ Xml.Build.ordinary e.spelledAttributes, a.Solid := by
    intro a listed
    rw [ordinary, List.mem_append] at listed
    rcases listed with own | foreign
    · rcases List.mem_map.mp own with ⟨b, among, rfl⟩
      exact solid_of_isSolid (faithful.1.2 b among)
    · rcases List.mem_map.mp foreign with ⟨b, among, rfl⟩
      have here := faithful.2 b among
      rw [ForeignAttribute.isFaithful, Bool.and_eq_true] at here
      exact solid_of_isSolid here.2
  rw [cameFrom.attributes_eq solid, ordinary, List.map_append, spelledOwn, List.map_map, List.map_map]
  congr 1
  · apply List.map_congr_left
    intro a _
    change (⟨none, a.name, String.ofList a.value.text.toList⟩ : Xml.NamedValue) = _
    rw [String.ofList_toList]
  · apply List.map_congr_left
    intro a _
    change (⟨Xml.Build.attributeUri? (e.scope outer) (a.pre.getD ""), a.localName,
      String.ofList a.value.toList⟩ : Xml.NamedValue) = _
    rw [String.ofList_toList]

/-- A declaration of the default namespace stands first. -/
theorem items_eq (first : e.attributes.items.tail.all (·.name != "xmlns") = true) :
    e.attributes.items = ((e.attribute? "xmlns").map fun v => ⟨"xmlns", v⟩).toList ++ e.own := by
  rcases e with ⟨name, pre, uri, ⟨items⟩, foreign⟩
  cases items with
  | nil => rfl
  | cons a rest =>
      have ownRest : rest.filter (·.name != "xmlns") = rest := List.filter_eq_self.mpr (List.all_eq_true.mp first)
      have absent : rest.find? (·.name == "xmlns") = none := by
        rw [List.find?_eq_none]
        intro b listed same
        have other := List.all_eq_true.mp first b listed
        rw [bne, same] at other
        cases other
      rcases a with ⟨attributeName, value⟩
      change ⟨attributeName, value⟩ :: rest = (((List.find? (·.name == "xmlns") (⟨attributeName, value⟩ :: rest)).map
        (·.value)).map fun v => ⟨"xmlns", v⟩).toList ++ List.filter (·.name != "xmlns") (⟨attributeName, value⟩ :: rest)
      cases declares : attributeName == "xmlns" with
      | true =>
          rw [List.filter_cons, bne, declares, List.find?_cons, declares, eq_of_beq declares, Bool.not_true,
            if_neg Bool.false_ne_true, ownRest]
          rfl
      | false =>
          rw [List.filter_cons, bne, declares, List.find?_cons, declares, absent, Bool.not_false, if_pos rfl, ownRest]
          rfl

/-- A faithful element is read as it is. -/
theorem element_of_cameFrom (faithful : e.isFaithful outer = true) (typed : e.Typed) {tag : Xml.StartTag}
    (cameFrom : Xml.Build.TagCameFrom tag outer e.tagName e.spelledAttributes) : Reading.element tag outer = e := by
  have attributes := attributes_of_cameFrom faithful cameFrom
  have inForce : tag.namespaces = e.scope outer := cameFrom.namespaces_eq
  have declares : tag.namespaces = e.declared.inherit outer := by
    rw [inForce, scope, Xml.Build.scope, declarations_spelledAttributes faithful]
  have uriEq : tag.uri = e.boundUri? outer := cameFrom.uri_eq
  simp only [isFaithful, hasFaithfulName, hasFaithfulDeclarations, Bool.and_eq_true, List.all_eq_true,
    beq_iff_eq] at faithful
  rcases faithful with ⟨⟨⟨⟨preEq, elementUriEq⟩, ⟨⟨new, reserved⟩, first⟩, order⟩, -⟩, foreign⟩
  have fresh := Reading.newDeclarations_inherit declares fun n listed => by
    rw [Bool.and_eq_true]
    exact new n listed
  have items := items_eq (List.all_eq_true.mpr first)
  let bare : Element := ⟨e.name, e.pre, e.uri, .empty, []⟩
  have bareEq : ({ ofName tag.localName with
      pre := tag.uri.bind tag.namespaces.prefixOf?
      uri := tag.uri.filter (· != Vocabulary.svgNamespace) } : Element) = bare := by
    rw [cameFrom.localName_eq, uriEq, inForce, preEq, elementUriEq]
    rfl
  let defaulted : Element := { bare with attributes := ⟨((e.attribute? "xmlns").map fun v => ⟨"xmlns", v⟩).toList⟩ }
  have default : ((e.attributeText? "xmlns").map fun uri => ⟨none, uri⟩).toList.foldl Reading.addDeclaration bare =
      defaulted := by
    dsimp only [defaulted]
    rw [attributeText?]
    cases found : e.attribute? "xmlns" with
    | none => rfl
    | some v =>
        rcases typed.value_of_attribute? found with ⟨text, rfl⟩
        change bare.setAttribute "xmlns" (AttributeValue.ofAttribute e.name "xmlns" text).text = _
        rw [AttributeValue.text_ofAttribute]
        rfl
  have declared : (Reading.newDeclarations tag outer).foldl Reading.addDeclaration bare =
      { defaulted with foreign := e.prefixes } := by
    rw [fresh, Element.declared, List.foldl_append, default, Reading.foldl_addDeclaration]
    · rfl
    · exact fun a listed => ⟨of_mem_prefixes listed, reserved a listed⟩
  have own := @Reading.foldl_addAttribute_own (e.scope outer) e.own { defaulted with foreign := e.prefixes }
    (fun a listed => typed.value_eq a (List.mem_filter.mp listed).1)
    (by rw [← items]; exact typed.nodup_names)
  rw [Reading.element, bareEq, declared, inForce, attributes, List.foldl_append, own,
    Reading.foldl_addAttribute_foreign foreign, ← items, order]

/-- Whether blanks count in a faithful element is read as it was. -/
theorem keepsBlanks_of_cameFrom (faithful : e.isFaithful outer = true) {tag : Xml.StartTag}
    (cameFrom : Xml.Build.TagCameFrom tag outer e.tagName e.spelledAttributes) (keep : Bool) :
    Reading.keepsBlanks tag keep = e.keepsBlanks keep := by
  have attributes := attributes_of_cameFrom faithful cameFrom
  simp only [isFaithful, Bool.and_eq_true, List.all_eq_true] at faithful
  let isSpace (a : Xml.NamedValue) : Bool := a.uri == some Vocabulary.xmlNamespace && a.localName == "space"
  let named (a : ForeignAttribute) : Xml.NamedValue := ⟨a.uri, a.localName, a.value⟩
  have own : (e.own.map fun a => ⟨none, a.name, a.value.text⟩).filter isSpace = [] := by
    rw [List.filter_eq_nil_iff]
    intro a listed
    rcases List.mem_map.mp listed with ⟨b, -, rfl⟩
    exact Bool.false_ne_true
  have others : (e.others.map fun a => ⟨Xml.Build.attributeUri? (e.scope outer) (a.pre.getD ""), a.localName, a.value⟩)
      = e.others.map named := by
    apply List.map_congr_left
    intro a listed
    have here := faithful.2 a listed
    simp only [ForeignAttribute.isFaithful, Bool.and_eq_true, beq_iff_eq] at here
    rw [here.1.1.2]
  have spaces : tag.attributes.filter isSpace = (e.others.filter (isSpace ∘ named)).map named := by
    rw [attributes, List.filter_append, own, others, List.nil_append, List.filter_map]
  let isForeignSpace (a : ForeignAttribute) : Bool := a.uri == some Vocabulary.xmlNamespace && a.localName == "space"
  have lastSpace : (tag.attributes.filter isSpace).getLast? = (e.others.filter isForeignSpace).getLast?.map named := by
    rw [spaces, List.getLast?_map]
    rfl
  rw [Reading.keepsBlanks, Element.keepsBlanks, lastSpace, cameFrom.localName_eq]
  cases (e.others.filter isForeignSpace).getLast? with
  | none => rfl
  | some a => rfl

end Element

end SlimSvg
