import SlimSvg.Proofs.Xml.Marks

namespace SlimSvg
namespace Xml

/-!
# Reading tags

The attributes of a start tag are read one after the other.  Declarations of namespaces
and ordinary attributes are collected apart, and prefixes are resolved at the end of the
tag.  Whether a tag is accepted depends on the names in it and on the declared
namespaces, and on no other value.
-/

/-- A readable name begins like a name. -/
theorem Scan.QName.exists_front {q : Scan.QName} (readable : q.isReadable = true) :
    ∃ c cs, q.write.toList = c :: cs ∧ isNameStart c = true := by
  rw [isReadable, Bool.and_eq_true, Bool.or_eq_true] at readable
  have front : ∀ {chars : List Char}, Scan.isPlainName chars = true →
      ∃ c cs, chars = c :: cs ∧ isNameStart c = true := by
    intro chars named
    rcases Scan.isPlainName_iff.mp named with ⟨nonempty, start, -⟩
    rcases List.exists_cons_of_ne_nil nonempty with ⟨c, cs, same⟩
    exact ⟨c, cs, same, start c (by rw [same]; rfl)⟩
  by_cases bare : q.pre.isEmpty = true
  · rw [Scan.toList_write_of_bare bare]
    exact front readable.2
  · rcases front (readable.1.resolve_left bare) with ⟨c, cs, same, start⟩
    rw [Scan.toList_write_of_prefixed bare, same]
    exact ⟨c, cs ++ ':' :: q.localName.toList, rfl, start⟩

/-! ## Written attributes -/

/-- An attribute as it is written: its name, the text between the quotation marks, and
what this text spells. -/
structure SpelledAttribute where
  name : Scan.QName
  written : List Char
  spelt : List Char

namespace SpelledAttribute

/-- The attribute with the blank before it. -/
def text (a : SpelledAttribute) : List Char :=
  ' ' :: (a.name.write.toList ++ ('=' :: '"' :: (a.written ++ ['"'])))

/-- Whether an attribute can be read. -/
structure Readable (a : SpelledAttribute) : Prop where
  name : a.name.isReadable = true
  spells : Spells a.written a.spelt
  chars : ∀ c ∈ a.written, isXmlChar c = true ∧ c ≠ '<' ∧ c ≠ '"'

/-- Whether an attribute has no blanks but spaces, so that it is read as it is spelt. -/
def Solid (a : SpelledAttribute) : Prop :=
  ∀ c ∈ a.spelt, c ≠ '\t' ∧ c ≠ '\n' ∧ c ≠ '\r'

/-- What an attribute is read as. -/
def value (a : SpelledAttribute) : String :=
  String.ofList (attributeValue a.written)

theorem value_of_solid {a : SpelledAttribute} (readable : a.Readable) (solid : a.Solid) :
    a.value = String.ofList a.spelt :=
  congrArg String.ofList (readable.spells.attributeValue_eq solid)

end SpelledAttribute

theorem gives_spelledAttribute {a : SpelledAttribute} (readable : a.Readable) (rest : List Char) (o : Nat) :
    Scan.writtenAttribute.Gives ⟨a.name.write.toList ++ ('=' :: '"' :: (a.written ++ '"' :: rest)), o⟩
      (a.name, ⟨a.written, o + a.name.write.toList.length + 2⟩)
      (.behind rest o (a.name.write.toList ++ ('=' :: '"' :: (a.written ++ ['"'])))) := by
  have quoted : (Quoted.mk '"' a.written).isReadable = true :=
    Quoted.isReadable_iff.mpr ⟨Or.inr rfl, fun listed => (readable.chars _ listed).2.2 rfl⟩
  rw [← (Quoted.mk '"' a.written).text_append]
  exact Scan.gives_writtenAttribute readable.name quoted
    (fun c listed => ⟨(readable.chars c listed).1, (readable.chars c listed).2.1⟩) rest o

/-! ## Declarations and attributes -/

/-- Whether a name declares a prefix or the default namespace. -/
def Scan.QName.declares (q : Scan.QName) : Bool :=
  q.pre == "xmlns" || q.localName == "xmlns"

/-- The namespace that an attribute declares, if any.  The prefix `xml` is never declared. -/
def declaration? (q : Scan.QName) (value : String) : Option Namespace :=
  if q.pre == "xmlns" then
    if value == Vocabulary.xmlNamespace then none else some ⟨some q.localName, value⟩
  else if q.localName == "xmlns" then some ⟨none, value⟩
  else none

/-- Whether an attribute declares nothing that is reserved. -/
def isLawful (q : Scan.QName) (value : String) : Bool :=
  if q.pre == "xmlns" then
    value != Vocabulary.xmlnsNamespace && (q.localName == "xml") == (value == Vocabulary.xmlNamespace)
  else if q.localName == "xmlns" then
    value != Vocabulary.xmlNamespace && value != Vocabulary.xmlnsNamespace
  else true

/-- A builder that has read one more attribute. -/
def Builder.withAttribute (b : Builder) (q : Scan.QName) (value : String) (offset : Nat) : Builder :=
  if q.declares then { b with declared := b.declared ++ (declaration? q value).toList }
  else { b with attributes := b.attributes ++ [⟨q, value, offset⟩] }

/-- A builder that has read a start tag, which may be the whole element. -/
def Builder.afterTag (b : Builder) (name : Scan.QName) (tag : StartTag) (offset : Nat) (isEmpty : Bool) : Builder :=
  let b : Builder := { b with tag := some ⟨name, offset⟩, attributes := [], declared := [], afterText := false }
  if isEmpty then b.appendOther (.element tag []) offset
  else { b with openElements := ⟨tag, offset, []⟩ :: b.openElements }

namespace Build

theorem gives_addAttribute {q : Scan.QName} {value : String} (lawful : isLawful q value = true) {b : Builder}
    (fresh : q.pre = "xmlns" → b.declared.declares (some q.localName) = false) (o : Nat) (c : Cursor) :
    (addAttribute q value o).Gives b c () (b.withAttribute q value o) c := by
  rw [addAttribute]
  refine (gives_get b c).bind ?_
  dsimp only
  by_cases declaresPrefix : (q.pre == "xmlns") = true
  · have unbound := fresh (beq_iff_eq.mp declaresPrefix)
    rw [isLawful, if_pos declaresPrefix, Bool.and_eq_true, bne, Bool.not_eq_true', beq_iff_eq] at lawful
    rcases lawful with ⟨free, agree⟩
    rw [if_pos declaresPrefix, free, agree, unbound, Builder.withAttribute, Scan.QName.declares, declaresPrefix,
      declaration?, if_pos declaresPrefix]
    cases isXml : value == Vocabulary.xmlNamespace with
    | true =>
        change Gives (pure ()) b c () { b with declared := b.declared ++ [] } c
        rw [List.append_nil]
        exact gives_pure () b c
    | false => exact gives_modify _ b c
  · rw [if_neg declaresPrefix, Builder.withAttribute, Scan.QName.declares, declaration?, if_neg declaresPrefix]
    rw [isLawful, if_neg declaresPrefix] at lawful
    rw [Bool.not_eq_true] at declaresPrefix
    by_cases declaresDefault : (q.localName == "xmlns") = true
    · rw [if_pos declaresDefault, Bool.and_eq_true, bne, bne, Bool.not_eq_true', Bool.not_eq_true'] at lawful
      rw [if_pos declaresDefault, lawful.1, lawful.2, declaresPrefix, declaresDefault]
      exact gives_modify _ b c
    · rw [if_neg declaresDefault]
      rw [Bool.not_eq_true] at declaresDefault
      rw [declaresPrefix, declaresDefault]
      exact gives_modify _ b c

/-- One attribute is read. -/
theorem same_attribute {a : SpelledAttribute} (readable : a.Readable)
    (lawful : a.name.declares = true → a.Solid ∧ isLawful a.name (String.ofList a.spelt) = true) {b : Builder}
    (fresh : a.name.pre = "xmlns" → b.declared.declares (some a.name.localName) = false)
    (bound : Nat) (rest : List Char) (o : Nat) :
    Same (attributes entityDepth (bound + 1)) b ⟨a.text ++ rest, o⟩
      (attributes entityDepth bound) (b.withAttribute a.name a.value (o + 1)) (.behind rest o a.text) := by
  have lawfulValue : isLawful a.name a.value = true := by
    by_cases declares : a.name.declares = true
    · rw [SpelledAttribute.value_of_solid readable (lawful declares).1]
      exact (lawful declares).2
    · rw [Scan.QName.declares, Bool.or_eq_true, not_or] at declares
      rw [isLawful, if_neg declares.1, if_neg declares.2]
  rcases Scan.QName.exists_front readable.name with ⟨front, others, nameChars, start⟩
  have apart := Scan.notMem_marks (Scan.isNameChar_of_isNameStart start)
  have apartMarks : front ≠ '/' ∧ front ≠ '>' := by
    simp only [Scan.marks, List.mem_cons, not_or] at apart
    exact ⟨apart.2.2.2.2.1, apart.2.2.2.2.2.1⟩
  have shape : a.text ++ rest =
      [' '] ++ (a.name.write.toList ++ ('=' :: '"' :: (a.written ++ '"' :: rest))) := by
    rw [SpelledAttribute.text]
    simp only [List.cons_append, List.nil_append, List.append_assoc]
  have ends : Scan.Ends Text.isXmlSpace (a.name.write.toList ++ ('=' :: '"' :: (a.written ++ '"' :: rest))) := by
    rw [nameChars]
    exact Scan.ends_cons (Scan.not_isXmlSpace (Scan.isNameChar_of_isNameStart start)) _
  rw [attributes, shape]
  refine (gives_lift (Scan.gives_atEnd _) b).bind_same.trans ?_
  refine (gives_lift (Scan.gives_looksAtSpace _) b).bind_same.trans ?_
  refine (gives_lift (@Scan.gives_skipSpaces [' '] _ Scan.isXmlSpace_space ends o) b).bind_same.trans ?_
  refine (gives_lift (Scan.gives_offset _) b).bind_same.trans ?_
  have peeked : Scan.peek.Gives
      (.behind (a.name.write.toList ++ ('=' :: '"' :: (a.written ++ '"' :: rest))) o [' ']) front
      (.behind (a.name.write.toList ++ ('=' :: '"' :: (a.written ++ '"' :: rest))) o [' ']) := by
    rw [nameChars]
    exact Scan.gives_peek _ _ _
  refine (gives_lift peeked b).bind_same.trans ?_
  split
  · exact absurd rfl apartMarks.1
  · exact absurd rfl apartMarks.2
  · have spaced : ((([' '] ++ (a.name.write.toList ++ ('=' :: '"' :: (a.written ++ '"' :: rest)))).head?.map
        Text.isXmlSpace).getD false) = true := rfl
    dsimp only
    rw [if_pos spaced]
    refine (gives_lift (gives_spelledAttribute readable rest (o + 1)) b).bind_same.trans ?_
    refine (gives_get b _).bind_same.trans ?_
    have unexpanded : attributeChars b.entities (decide (entityDepth < entityDepth))
        (expandAttribute b.entities entityDepth)
        (Piece.cut (o + 1 + a.name.write.toList.length + 2) a.written) b.references =
          .ok (attributeValue a.written, b.references) :=
      readable.spells.attributeChars_cut _ _ _ _
    dsimp only
    rw [unexpanded]
    refine (gives_pure (attributeValue a.written, b.references) b _).bind_same.trans ?_
    refine (gives_modify _ b _).bind_same.trans ?_
    refine (gives_addAttribute lawfulValue fresh _ _).bind_same.trans ?_
    have place : Cursor.behind rest (o + 1) (a.name.write.toList ++ ('=' :: '"' :: (a.written ++ ['"']))) =
        .behind rest o a.text :=
      Cursor.behind_append rest o [' '] _
    rw [place]
    rfl

/-! ## Lists of attributes -/

/-- The declarations among some attributes. -/
def declarations (attrs : List SpelledAttribute) : Namespaces :=
  attrs.filterMap fun a => declaration? a.name (String.ofList a.spelt)

theorem declarations_cons (a : SpelledAttribute) (rest : List SpelledAttribute) :
    declarations (a :: rest) = (declaration? a.name (String.ofList a.spelt)).toList ++ declarations rest := by
  rw [declarations, List.filterMap_cons]
  cases declaration? a.name (String.ofList a.spelt) <;> rfl

/-- The attributes that are no declarations. -/
def ordinary (attrs : List SpelledAttribute) : List SpelledAttribute :=
  attrs.filter fun a => !a.name.declares

/-- Whether attributes that are not resolved yet came from some written ones. -/
structure CameFrom (pending : List PendingAttribute) (attrs : List SpelledAttribute) : Prop where
  names : pending.map (·.name) = attrs.map (·.name)
  values : pending.map (·.value) = attrs.map (·.value)

/-- Whether some attributes can be read in one tag, as far as declarations go. -/
structure Declarable (attrs : List SpelledAttribute) : Prop where
  readable : ∀ a ∈ attrs, a.Readable
  lawful : ∀ a ∈ attrs, a.name.declares = true → a.Solid ∧ isLawful a.name (String.ofList a.spelt) = true
  distinct : ((attrs.filter fun a => a.name.pre == "xmlns").map (·.name.localName)).Nodup

theorem declaration?_of_not_declares {q : Scan.QName} (none : q.declares = false) (value : String) :
    declaration? q value = Option.none := by
  rw [Scan.QName.declares, Bool.or_eq_false_iff] at none
  rw [declaration?, none.1, none.2]
  rfl

theorem declares_append (first second : Namespaces) (pre : Option String) :
    Namespaces.declares (first ++ second) pre = (first.declares pre || second.declares pre) :=
  List.any_append

/-- A declaration of one prefix declares no other one. -/
theorem declares_declaration? {q : Scan.QName} {value other : String}
    (different : q.pre = "xmlns" → q.localName ≠ other) :
    Namespaces.declares (declaration? q value).toList (some other) = false := by
  rw [declaration?]
  split
  · next declaresPrefix =>
    split
    · rfl
    · have apart := different (beq_iff_eq.mp declaresPrefix)
      rw [Option.toList_some, Namespaces.declares, List.any_cons, List.any_nil, Bool.or_false,
        beq_eq_false_iff_ne]
      exact fun same => apart (Option.some.inj same)
  · split <;> rfl

theorem same_attributes {attrs : List SpelledAttribute} (declarable : Declarable attrs) {b : Builder}
    (fresh : ∀ a ∈ attrs, a.name.pre = "xmlns" → b.declared.declares (some a.name.localName) = false)
    (tail : List Char) {bound : Nat} (enough : (attrs.flatMap (·.text) ++ tail).length < bound) (o : Nat) :
    ∃ pending bound', CameFrom pending (ordinary attrs) ∧ tail.length < bound' ∧
      Same (attributes entityDepth bound) b ⟨attrs.flatMap (·.text) ++ tail, o⟩
        (attributes entityDepth bound')
        { b with declared := b.declared ++ declarations attrs, attributes := b.attributes ++ pending }
        (.behind tail o (attrs.flatMap (·.text))) := by
  induction attrs generalizing b bound o with
  | nil =>
      refine ⟨[], bound, ⟨rfl, rfl⟩, enough, ?_⟩
      rw [declarations, List.filterMap_nil, List.append_nil, List.append_nil]
      rfl
  | cons a rest inductionHypothesis =>
      rw [List.flatMap_cons, List.append_assoc] at enough ⊢
      obtain ⟨n, rfl⟩ : ∃ n, bound = n + 1 := ⟨bound - 1, by omega⟩
      have lawful := declarable.lawful a List.mem_cons_self
      have same := same_attribute (declarable.readable a List.mem_cons_self) lawful
        (fresh a List.mem_cons_self) n (rest.flatMap (·.text) ++ tail) o
      have declarableRest : Declarable rest := by
        refine ⟨fun d listed => declarable.readable d (List.mem_cons_of_mem a listed),
          fun d listed => declarable.lawful d (List.mem_cons_of_mem a listed), ?_⟩
        exact declarable.distinct.sublist (((List.sublist_cons_self a rest).filter _).map _)
      have enoughRest : (rest.flatMap (·.text) ++ tail).length < n := by
        have positive : 0 < a.text.length := Nat.succ_pos _
        rw [List.length_append] at enough
        omega
      have later := @inductionHypothesis declarableRest (b.withAttribute a.name a.value (o + 1))
      rw [← Cursor.behind_append]
      by_cases declares : a.name.declares = true
      · have next : b.withAttribute a.name a.value (o + 1) =
            { b with declared := b.declared ++ (declaration? a.name (String.ofList a.spelt)).toList } := by
          rw [Builder.withAttribute, if_pos declares,
            SpelledAttribute.value_of_solid (declarable.readable a List.mem_cons_self) (lawful declares).1]
        rw [next] at same later
        have freshRest : ∀ d ∈ rest, d.name.pre = "xmlns" →
            (b.declared ++ (declaration? a.name (String.ofList a.spelt)).toList).declares
              (some d.name.localName) = false := by
          intro d listed declaresPrefix
          rw [declares_append, fresh d (List.mem_cons_of_mem a listed) declaresPrefix, Bool.false_or]
          apply declares_declaration?
          intro alsoPrefix equal
          have distinct := declarable.distinct
          rw [List.filter_cons, if_pos (beq_iff_eq.mpr alsoPrefix), List.map_cons, List.nodup_cons] at distinct
          exact distinct.1 (List.mem_map.mpr ⟨d, List.mem_filter.mpr ⟨listed, beq_iff_eq.mpr declaresPrefix⟩,
            equal.symm⟩)
        rcases later freshRest enoughRest (o + a.text.length) with ⟨pending, bound', cameFrom, remaining, sameRest⟩
        refine ⟨pending, bound', ?_, remaining, same.trans ?_⟩
        · rw [ordinary, List.filter_cons_of_neg (by rw [declares]; exact Bool.false_ne_true)]
          exact cameFrom
        · rw [declarations_cons, ← List.append_assoc]
          exact sameRest
      · have next : b.withAttribute a.name a.value (o + 1) =
            { b with attributes := b.attributes ++ [⟨a.name, a.value, o + 1⟩] } := by
          rw [Builder.withAttribute, if_neg declares]
        rw [next] at same later
        rcases later (fun d listed => fresh d (List.mem_cons_of_mem a listed)) enoughRest
          (o + a.text.length) with ⟨pending, bound', cameFrom, remaining, sameRest⟩
        rw [Bool.not_eq_true] at declares
        refine ⟨⟨a.name, a.value, o + 1⟩ :: pending, bound', ⟨?_, ?_⟩, remaining, same.trans ?_⟩
        · rw [ordinary, List.filter_cons_of_pos (by rw [declares]; rfl), List.map_cons, List.map_cons]
          exact congrArg (a.name :: ·) cameFrom.names
        · rw [ordinary, List.filter_cons_of_pos (by rw [declares]; rfl), List.map_cons, List.map_cons]
          exact congrArg (a.value :: ·) cameFrom.values
        · have nothing := declaration?_of_not_declares declares (String.ofList a.spelt)
          rw [declarations_cons, nothing, Option.toList_none, List.nil_append]
          rw [List.append_assoc] at sameRest
          exact sameRest

/-! ## Resolving prefixes -/

/-- The namespace of an attribute with a prefix. -/
def attributeUri? (namespaces : Namespaces) (pre : String) : Option String :=
  if pre == "xml" then some Vocabulary.xmlNamespace
  else if pre.isEmpty then none
  else namespaces.uri? (some pre)

/-- Whether the prefix of an attribute can be resolved. -/
def isBound (namespaces : Namespaces) (pre : String) : Bool :=
  pre == "xml" || pre.isEmpty || (namespaces.uri? (some pre)).isSome

/-- An attribute with its prefix resolved. -/
def resolved (namespaces : Namespaces) (a : PendingAttribute) : NamedValue :=
  ⟨attributeUri? namespaces a.name.pre, a.name.localName, a.value⟩

theorem gives_resolve {namespaces : Namespaces} {pre : String}
    (bound : pre.isEmpty = true ∨ (namespaces.uri? (some pre)).isSome = true) (o : Nat) (b : Builder) (c : Cursor) :
    (resolve namespaces pre o).Gives b c (namespaces.uri? (if pre.isEmpty then none else some pre)) b c := by
  rw [resolve]
  by_cases empty : pre.isEmpty = true
  · rw [if_pos empty, if_pos empty]
    exact gives_pure _ b c
  · rcases Option.isSome_iff_exists.mp (bound.resolve_left empty) with ⟨uri, found⟩
    rw [if_neg empty, if_neg empty, found]
    exact gives_pure _ b c

theorem gives_resolveAttributes {namespaces : Namespaces} {pending : List PendingAttribute}
    (bound : ∀ a ∈ pending, isBound namespaces a.name.pre = true) (done : List NamedValue)
    (distinct : ((done.reverse ++ pending.map (resolved namespaces)).map fun d => (d.uri, d.localName)).Nodup)
    (b : Builder) (c : Cursor) :
    (resolveAttributes namespaces done pending).Gives b c
      (done.reverse ++ pending.map (resolved namespaces)) b c := by
  induction pending generalizing done with
  | nil =>
      rw [resolveAttributes, List.map_nil, List.append_nil]
      exact gives_pure _ b c
  | cons a rest inductionHypothesis =>
      have here := bound a List.mem_cons_self
      have unique : (done.any fun d => d.uri == attributeUri? namespaces a.name.pre &&
          d.localName == a.name.localName) = false := by
        rw [List.any_eq_false]
        intro d listed same
        rw [Bool.and_eq_true, beq_iff_eq, beq_iff_eq] at same
        rw [List.map_append, List.nodup_append, List.map_cons] at distinct
        refine distinct.2.2 _ (List.mem_map_of_mem (List.mem_reverse.mpr listed)) _ List.mem_cons_self ?_
        exact Prod.ext same.1 same.2
      have later := inductionHypothesis (fun d listed => bound d (List.mem_cons_of_mem a listed))
        (resolved namespaces a :: done)
      rw [List.reverse_cons, List.append_assoc, List.singleton_append] at later
      rw [List.map_cons] at distinct ⊢
      have accepted : ∀ uri, uri = attributeUri? namespaces a.name.pre →
          ((if (done.any fun d => d.uri == uri && d.localName == a.name.localName) = true then do
              Scan.failAt a.offset (.duplicateAttribute a.name.localName)
              resolveAttributes namespaces (⟨uri, a.name.localName, a.value⟩ :: done) rest
            else resolveAttributes namespaces (⟨uri, a.name.localName, a.value⟩ :: done) rest).Gives b c
              (done.reverse ++ resolved namespaces a :: rest.map (resolved namespaces)) b c) := by
        rintro _ rfl
        rw [if_neg (by rw [unique]; exact Bool.false_ne_true)]
        exact later distinct
      rw [isBound, Bool.or_eq_true, Bool.or_eq_true] at here
      rw [attributeUri?] at accepted
      rw [resolveAttributes]
      by_cases isXml : (a.name.pre == "xml") = true
      · rw [if_pos isXml] at accepted ⊢
        exact (gives_pure _ b c).bind (accepted _ rfl)
      · rw [if_neg isXml] at accepted ⊢
        by_cases empty : a.name.pre.isEmpty = true
        · rw [if_pos empty] at accepted ⊢
          exact (gives_pure _ b c).bind (accepted _ rfl)
        · have found := here.resolve_left fun either => either.elim isXml empty
          have resolves := gives_resolve (Or.inr found) a.offset b c
          rw [if_neg empty] at accepted resolves ⊢
          exact resolves.bind (accepted _ rfl)

/-! ## Start tags -/

/-- The namespaces in force in a tag. -/
def scope (outer : Namespaces) (attrs : List SpelledAttribute) : Namespaces :=
  (declarations attrs).inherit outer

/-- Whether a start tag can be read where certain namespaces are in force. -/
structure ReadableTag (outer : Namespaces) (name : Scan.QName) (attrs : List SpelledAttribute) : Prop
    extends Declarable attrs where
  named : name.isReadable = true
  free : name.pre ≠ "xmlns"
  known : name.pre.isEmpty = true ∨ ((scope outer attrs).uri? (some name.pre)).isSome = true
  bound : ∀ a ∈ ordinary attrs, isBound (scope outer attrs) a.name.pre = true
  unrepeated :
    ((ordinary attrs).map fun a => (attributeUri? (scope outer attrs) a.name.pre, a.name.localName)).Nodup

/-- The text of a start tag without its last sign. -/
def tagText (name : Scan.QName) (attrs : List SpelledAttribute) : List Char :=
  '<' :: (name.write.toList ++ attrs.flatMap (·.text))

/-- Whether a start tag came from a written one. -/
structure TagCameFrom (tag : StartTag) (outer : Namespaces) (name : Scan.QName)
    (attrs : List SpelledAttribute) : Prop where
  writtenPrefix_eq : tag.writtenPrefix = name.pre
  localName_eq : tag.localName = name.localName
  uri_eq : tag.uri = (scope outer attrs).uri? (if name.pre.isEmpty then none else some name.pre)
  namespaces_eq : tag.namespaces = scope outer attrs
  attributes_read : tag.attributes = (ordinary attrs).map fun a =>
    ⟨attributeUri? (scope outer attrs) a.name.pre, a.name.localName, a.value⟩
  attributes_eq : (∀ a ∈ ordinary attrs, a.Solid) → tag.attributes = (ordinary attrs).map fun a =>
    ⟨attributeUri? (scope outer attrs) a.name.pre, a.name.localName, String.ofList a.spelt⟩

/-- What a written start tag is read as. -/
def tagOf (outer : Namespaces) (name : Scan.QName) (attrs : List SpelledAttribute) : StartTag where
  writtenPrefix := name.pre
  localName := name.localName
  uri := (scope outer attrs).uri? (if name.pre.isEmpty then none else some name.pre)
  namespaces := scope outer attrs
  attributes := (ordinary attrs).map fun a =>
    ⟨attributeUri? (scope outer attrs) a.name.pre, a.name.localName, a.value⟩

theorem tagCameFrom_tagOf (outer : Namespaces) (name : Scan.QName) {attrs : List SpelledAttribute}
    (readable : ∀ a ∈ attrs, a.Readable) : TagCameFrom (tagOf outer name attrs) outer name attrs := by
  refine ⟨rfl, rfl, rfl, rfl, rfl, fun solid => ?_⟩
  apply List.map_congr_left
  intro a listed
  rw [SpelledAttribute.value_of_solid (readable a (List.mem_filter.mp listed).1) (solid a listed)]

namespace TagCameFrom

variable {tag : StartTag} {outer : Namespaces} {name : Scan.QName} {attrs : List SpelledAttribute}

/-- A written start tag is read in one way. -/
theorem eq_tagOf (cameFrom : TagCameFrom tag outer name attrs) : tag = tagOf outer name attrs := by
  rcases tag with ⟨writtenPrefix, localName, uri, namespaces, attributes⟩
  rcases cameFrom with ⟨rfl, rfl, rfl, rfl, rfl, -⟩
  rfl

theorem attributeNames_eq (cameFrom : TagCameFrom tag outer name attrs) :
    tag.attributes.map (fun a => (a.uri, a.localName)) =
      (ordinary attrs).map fun a => (attributeUri? (scope outer attrs) a.name.pre, a.name.localName) := by
  rw [cameFrom.attributes_read, List.map_map]
  rfl

end TagCameFrom

theorem gives_takeAttributes {b : Builder} (namespaces : Namespaces)
    (same : namespaces = b.declared.inherit b.outerNamespaces)
    (bound : ∀ a ∈ b.attributes, isBound namespaces a.name.pre = true)
    (distinct : ((b.attributes.map (resolved namespaces)).map fun d => (d.uri, d.localName)).Nodup) (c : Cursor) :
    takeAttributes.Gives b c (namespaces, b.attributes.map (resolved namespaces))
      { b with attributes := [], declared := [] } c := by
  rw [takeAttributes]
  refine (gives_get b c).bind ?_
  dsimp only
  rw [← same]
  refine (gives_resolveAttributes bound [] distinct b c).bind ?_
  exact (gives_modify _ b c).bind (gives_pure _ _ c)

/-- The end of a start tag, after its attributes. -/
theorem gives_endTag {name : Scan.QName} {attrs : List SpelledAttribute} {outer : Namespaces} {b : Builder}
    (readable : ReadableTag outer name attrs) (outerEq : b.outerNamespaces = outer) {o : Nat}
    (tagged : b.tag = some ⟨name, o⟩) (afterTag : b.afterText = false)
    (declared : b.declared = declarations attrs) (cameFrom : CameFrom b.attributes (ordinary attrs))
    (isEmpty : Bool) (c : Cursor) :
    (endTag isEmpty).Gives b c () (b.afterTag name (tagOf outer name attrs) o isEmpty) c := by
  rcases b with ⟨finished, openElements, _, attributes, _, _, entities, references⟩
  cases tagged
  cases afterTag
  cases declared
  have named : ∀ (f : Scan.QName → Option String × String),
      attributes.map (fun a => f a.name) = (ordinary attrs).map fun a => f a.name := by
    intro f
    have mapped := congrArg (List.map f) cameFrom.names
    rw [List.map_map, List.map_map] at mapped
    exact mapped
  have bound : ∀ a ∈ attributes, isBound (scope outer attrs) a.name.pre = true := by
    intro a listed
    have among : a.name ∈ (ordinary attrs).map (·.name) := cameFrom.names ▸ List.mem_map_of_mem listed
    rcases List.mem_map.mp among with ⟨d, ordinaryListed, same⟩
    rw [← same]
    exact readable.bound d ordinaryListed
  have names : (attributes.map (resolved (scope outer attrs))).map (fun d => (d.uri, d.localName)) =
      (ordinary attrs).map fun a => (attributeUri? (scope outer attrs) a.name.pre, a.name.localName) := by
    rw [List.map_map]
    exact named fun q => (attributeUri? (scope outer attrs) q.pre, q.localName)
  have distinct : ((attributes.map (resolved (scope outer attrs))).map fun d => (d.uri, d.localName)).Nodup := by
    rw [names]
    exact readable.unrepeated
  let named (q : Scan.QName) (value : String) : NamedValue :=
    ⟨attributeUri? (scope outer attrs) q.pre, q.localName, value⟩
  have attributesEq : attributes.map (resolved (scope outer attrs)) = (tagOf outer name attrs).attributes := by
    have both : List.zipWith named (attributes.map (·.name)) (attributes.map (·.value)) =
        List.zipWith named ((ordinary attrs).map (·.name)) ((ordinary attrs).map (·.value)) := by
      rw [cameFrom.names, cameFrom.values]
    rw [List.zipWith_map, List.zipWith_map, List.zipWith_self, List.zipWith_self] at both
    exact both
  have taken := @gives_takeAttributes
    ⟨finished, openElements, some ⟨name, o⟩, attributes, declarations attrs, false, entities, references⟩
    (scope outer attrs) (congrArg (Namespaces.inherit (declarations attrs)) outerEq.symm) bound distinct c
  rw [attributesEq] at taken
  rw [endTag]
  refine (gives_get _ c).bind ?_
  refine taken.bind ?_
  refine (gives_resolve readable.known (o + 1) _ c).bind ?_
  let closed : Builder := ⟨finished, openElements, some ⟨name, o⟩, [], [], false, entities, references⟩
  cases isEmpty with
  | true => exact gives_modify (fun b => b.appendOther (.element (tagOf outer name attrs) []) o) closed c
  | false =>
      exact gives_modify (fun b => { b with openElements := ⟨tagOf outer name attrs, o, []⟩ :: b.openElements })
        closed c

/-- The text that ends a start tag, which may end the element too. -/
def closing (isEmpty : Bool) : List Char :=
  if isEmpty then ['/', '>'] else ['>']

/-- What is read behind the attributes of a start tag. -/
theorem gives_attributes_closing {bound : Nat} {isEmpty : Bool} {rest : List Char}
    (enough : (closing isEmpty ++ rest).length < bound) {b ended : Builder} {o : Nat}
    (gives : (endTag isEmpty).Gives b (.behind rest o (closing isEmpty)) () ended (.behind rest o (closing isEmpty))) :
    (attributes entityDepth bound).Gives b ⟨closing isEmpty ++ rest, o⟩ (!isEmpty) ended
      (.behind rest o (closing isEmpty)) := by
  obtain ⟨n, rfl⟩ : ∃ n, bound = n + 1 := ⟨bound - 1, by omega⟩
  have ends : Scan.Ends Text.isXmlSpace (closing isEmpty ++ rest) := by
    cases isEmpty <;> exact Scan.ends_cons (by decide) _
  rw [attributes]
  refine (gives_lift (Scan.gives_atEnd _) b).bind ?_
  have more : (closing isEmpty ++ rest).isEmpty = false := by
    cases isEmpty <;> rfl
  dsimp only
  rw [more, if_neg Bool.false_ne_true]
  refine (gives_lift (Scan.gives_looksAtSpace _) b).bind ?_
  refine (gives_lift (Scan.gives_skipSpaces_nil ends o) b).bind ?_
  refine (gives_lift (Scan.gives_offset _) b).bind ?_
  cases isEmpty with
  | true =>
      refine (gives_lift (Scan.gives_peek '/' ('>' :: rest) o) b).bind ?_
      refine (gives_lift (Scan.gives_skip_one '/' _ o) b).bind ?_
      refine (gives_lift (Scan.gives_expectChar '>' rest _) b).bind ?_
      exact gives.bind (gives_pure _ _ _)
  | false =>
      refine (gives_lift (Scan.gives_peek '>' rest o) b).bind ?_
      refine (gives_lift (Scan.gives_skip_one '>' _ o) b).bind ?_
      exact gives.bind (gives_pure _ _ _)

/-- A start tag is read. -/
theorem gives_startTag {name : Scan.QName} {attrs : List SpelledAttribute} {b : Builder}
    (readable : ReadableTag b.outerNamespaces name attrs) (noAttributes : b.attributes = [])
    (noDeclarations : b.declared = []) (isEmpty : Bool) (rest : List Char) (o : Nat) :
    (startTag entityDepth).Gives b ⟨tagText name attrs ++ (closing isEmpty ++ rest), o⟩ (!isEmpty)
      (b.afterTag name (tagOf b.outerNamespaces name attrs) o isEmpty)
      (.behind rest o (tagText name attrs ++ closing isEmpty)) := by
  have ends : Scan.Ends isNameChar (attrs.flatMap (·.text) ++ (closing isEmpty ++ rest)) := by
    cases attrs with
    | nil => cases isEmpty <;> exact Scan.ends_cons (by decide) _
    | cons a others => exact Scan.ends_cons (by decide) _
  let begun : Builder := { b with tag := some ⟨name, o⟩, afterText := false }
  have fresh : ∀ a ∈ attrs, a.name.pre = "xmlns" → begun.declared.declares (some a.name.localName) = false := by
    intro a _ _
    change b.declared.declares _ = false
    rw [noDeclarations]
    rfl
  rcases same_attributes readable.toDeclarable fresh (closing isEmpty ++ rest) (Nat.lt_succ_self _)
    (o + 1 + name.write.toList.length) with ⟨pending, bound, cameFrom, remaining, same⟩
  rw [show begun.attributes = [] from noAttributes, show begun.declared = [] from noDeclarations] at same
  let read : Builder := { begun with declared := declarations attrs, attributes := pending }
  have ended := gives_endTag (b := read) readable rfl rfl rfl rfl cameFrom isEmpty
    (.behind rest (o + 1 + name.write.toList.length + (attrs.flatMap (·.text)).length) (closing isEmpty))
  have place : Cursor.behind rest (o + 1 + name.write.toList.length + (attrs.flatMap (·.text)).length)
      (closing isEmpty) = .behind rest o (tagText name attrs ++ closing isEmpty) := by
    simp only [Cursor.behind, tagText, List.length_append, List.length_cons, Cursor.mk.injEq, true_and]
    omega
  have nameText : tagText name attrs ++ (closing isEmpty ++ rest) =
      ['<'] ++ (name.write.toList ++ (attrs.flatMap (·.text) ++ (closing isEmpty ++ rest))) := by
    rw [tagText, List.cons_append, List.append_assoc]
    rfl
  have tagBegun : ∀ c, (beginTag name o).Gives b c () begun c := by
    intro c
    rw [beginTag, if_neg (by rw [beq_iff_eq]; exact readable.free)]
    exact gives_modify _ b c
  have closes := gives_attributes_closing remaining ended
  rw [place] at closes
  rw [startTag, nameText]
  refine (gives_lift (Scan.gives_offset _) b).bind ?_
  refine (gives_lift (Scan.gives_skip_one '<' _ o) b).bind ?_
  refine (gives_lift (Scan.gives_qualifiedName readable.named ends _) b).bind ?_
  refine (tagBegun _).bind ?_
  refine (gives_lift (Scan.gives_rest _) begun).bind ?_
  exact same.gives closes

/-! ## End tags -/

/-- The text of an end tag. -/
def endText (name : Scan.QName) : List Char :=
  '<' :: '/' :: (name.write.toList ++ ['>'])

/-- The end tag of the innermost element is read. -/
theorem gives_endTagText {name : Scan.QName} (readable : name.isReadable = true) {b : Builder}
    {inner : OpenElement} {outer : List OpenElement} (opened : b.openElements = inner :: outer)
    (named : name = ⟨inner.tag.writtenPrefix, inner.tag.localName⟩) (tagged : b.tag.isSome = true)
    (noAttributes : b.attributes = []) (noDeclarations : b.declared = []) (rest : List Char) (o : Nat) :
    endTagText.Gives b ⟨endText name ++ rest, o⟩ () { b.closeInner with afterText := false }
      (.behind rest o (endText name)) := by
  have closes : ∀ c, (closeTag name o).Gives b c () { b.closeInner with afterText := false } c := by
    intro c
    have clean : { b with attributes := [], declared := [] } = b := by
      rw [← noAttributes, ← noDeclarations]
    have taken := gives_takeAttributes (b := b) _ rfl (by rw [noAttributes]; exact nofun)
      (by rw [noAttributes]; exact List.nodup_nil) c
    rw [clean] at taken
    have notNone : b.tag.isNone = false := by rw [← Option.not_isSome, tagged]; rfl
    rw [closeTag]
    refine (gives_get b c).bind ?_
    rw [notNone, if_neg Bool.false_ne_true]
    refine taken.bind ((gives_get b c).bind ?_)
    rw [opened]
    dsimp only
    rw [← named, bne_self_eq_false, if_neg Bool.false_ne_true]
    exact gives_modify _ b c
  have shape : endText name ++ rest = ['<', '/'] ++ (name.write.toList ++ '>' :: rest) := by
    rw [endText, List.cons_append, List.cons_append, List.append_assoc]
    rfl
  have place : Cursor.behind rest (o + 2 + name.write.toList.length) ['>'] = .behind rest o (endText name) := by
    simp only [Cursor.behind, endText, List.length_append, List.length_cons, List.length_nil, Cursor.mk.injEq,
      true_and]
    omega
  rw [endTagText, shape]
  refine (gives_lift (Scan.gives_offset _) b).bind ?_
  refine (gives_lift (@Scan.gives_skip 2 ['<', '/'] rfl _ o) b).bind ?_
  refine (gives_lift (Scan.gives_qualifiedName readable (Scan.ends_cons (by decide) _) _) b).bind ?_
  refine (gives_lift (Scan.gives_skipSpaces_nil (Scan.ends_cons (by decide) _) _) b).bind ?_
  refine (gives_lift (Scan.gives_expectChar '>' rest _) b).bind ?_
  rw [← place]
  exact closes _

end Build

end Xml
end SlimSvg
