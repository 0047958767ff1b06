import SlimSvg.Proofs.Cleanup.Ids
import SlimSvg.Proofs.Css.Compounds
import SlimSvg.Proofs.Css.Sheets
import SlimSvg.Proofs.Css.WriteBack
import SlimSvg.Proofs.Tree.Reading
import SlimSvg.Proofs.Value.RenamedReferences
import SlimSvg.Proofs.Value.Shortest

namespace SlimSvg
namespace Cleanup

/-!
# Renamed ids mean what they meant

Ids are renamed in elements, in links and in selectors by one plan, which joins no ids
that were apart.  So an element has the new id that a compound asks for exactly if it had
the old one.  Links are renamed in the texts of all attributes, and a compound that tests
such a text may not accept the new one: only tests of `id` itself keep the plugin away.
-/

/-! ## Texts of links -/

namespace Link

/-- The text of a typed attribute with the new names. -/
def newText (map : String → Option String) (name text : String) : String :=
  (if name == "href" then renameLink? map text else Reference.renameIn? map text).getD text

section Rename

variable {map : String → Option String} {e : Element}

theorem name_renameInAttribute (element : String) (a : Attribute) :
    (renameInAttribute map element a).name = a.name := by
  rw [renameInAttribute]
  split <;> rfl

theorem text_renameInAttribute (element : String) (a : Attribute) :
    (renameInAttribute map element a).value.text = newText map a.name a.value.text := by
  rw [renameInAttribute, newText]
  split
  · next text found =>
    rw [found, AttributeValue.text_ofAttribute]
    rfl
  · next none =>
    rw [none]
    rfl

theorem attributeText?_rename (name : String) :
    (rename map e).attributeText? name = (e.attributeText? name).map (newText map name) := by
  rw [Element.attributeText?, Element.attributeText?, Element.attribute?, Element.attribute?, Attributes.get?,
    Attributes.get?]
  change Option.map _ (Option.map _ ((e.attributes.items.map (renameInAttribute map e.name)).find? _)) = _
  have named : ((fun a : Attribute => a.name == name) ∘ renameInAttribute map e.name) = fun a => a.name == name :=
    funext fun a => congrArg (· == name) (name_renameInAttribute e.name a)
  rw [List.find?_map, named]
  cases found : e.attributes.items.find? (·.name == name) with
  | none => rfl
  | some a =>
      have chosen : (a.name == name) = true := by
        have passed := List.find?_some found
        exact passed
      change some (renameInAttribute map e.name a).value.text = some (newText map name a.value.text)
      rw [text_renameInAttribute, beq_iff_eq.mp chosen]

theorem qualifiedName_renameInForeign (a : ForeignAttribute) :
    (renameInForeign map a).qualifiedName = a.qualifiedName := by
  rw [renameInForeign]
  split
  · split <;> rfl
  · rfl

theorem foreignAttribute?_rename (name : String) :
    (rename map e).foreignAttribute? name = (e.foreignAttribute? name).map (renameInForeign map) := by
  have named : ((fun a : ForeignAttribute => a.qualifiedName == name) ∘ renameInForeign map) =
      fun a => a.qualifiedName == name :=
    funext fun a => congrArg (· == name) (qualifiedName_renameInForeign a)
  rw [Element.foreignAttribute?, Element.foreignAttribute?]
  change (e.foreign.map (renameInForeign map)).find? _ = _
  rw [List.find?_map, named]

/-- An attribute that an element has is there after a renaming, and no other one. -/
theorem isSome_anyAttribute?_rename (name : String) :
    ((rename map e).anyAttribute? name).isSome = (e.anyAttribute? name).isSome := by
  rw [Element.anyAttribute?, Element.anyAttribute?, attributeText?_rename, foreignAttribute?_rename]
  cases e.attributeText? name with
  | some text => rfl
  | none => cases e.foreignAttribute? name <;> rfl

/-- Whether the text of an attribute stays when links are renamed. -/
def Leaves (map : String → Option String) (e : Element) (name : String) : Prop :=
  (rename map e).anyAttribute? name = e.anyAttribute? name

instance (map : String → Option String) (e : Element) (name : String) : Decidable (Leaves map e name) :=
  inferInstanceAs (Decidable (_ = _))

theorem Leaves.attributeText?_eq {name : String} (leaves : Leaves map e name) :
    (e.attributeText? name).map (newText map name) = e.attributeText? name := by
  rw [Leaves, Element.anyAttribute?, Element.anyAttribute?, attributeText?_rename] at leaves
  cases typed : e.attributeText? name with
  | none => rfl
  | some text =>
      rw [typed] at leaves
      exact leaves

/-- Without a parenthesis there is no reference in a text. -/
theorem idsIn_eq_nil {text : String} (absent : '(' ∉ text.toList) : Reference.idsIn text = [] := by
  rw [Reference.idsIn]
  generalize text.toList = cs at absent
  fun_induction ReferenceSpan.cut cs with
  | case1 => rfl
  | case6 c cs _ inductionHypothesis => exact inductionHypothesis fun listed => absent (List.mem_cons_of_mem c listed)
  | _ => exact absurd (by simp) absent

theorem newText_of_plain {name text : String} (other : name ≠ "href") (plain : '(' ∉ text.toList) :
    newText map name text = text := by
  have noLink : (name == "href") = false := beq_false_of_ne other
  rw [newText, noLink, Reference.renameIn?, idsIn_eq_nil plain]
  rfl

theorem renameLink?_none (text : String) : renameLink? (fun _ => none) text = none := by
  rw [renameLink?]
  cases localId? text <;> rfl

theorem renameIn?_none (text : String) : Reference.renameIn? (fun _ => none) text = none := by
  rw [Reference.renameIn?, if_neg]
  rw [List.any_eq_true]
  rintro ⟨id, -, impossible⟩
  cases impossible

/-- Without new names links stay as they are. -/
theorem rename_none (e : Element) : rename (fun _ => none) e = e := by
  have typed : renameInAttribute (fun _ => none) e.name = id := by
    funext a
    rw [renameInAttribute, renameLink?_none, renameIn?_none, ite_self]
    rfl
  have foreign : renameInForeign (fun _ => none) = id := by
    funext a
    rw [renameInForeign, renameLink?_none, ite_self]
    rfl
  rw [rename, typed, foreign, List.map_id, List.map_id]

end Rename

end Link

namespace IdPlan

/-! ## Elements after the plan -/

section EditElement

variable {plan : IdPlan} {e : Element}

theorem attribute?_editElement_of_ne {name : String} (different : name ≠ "id") :
    (plan.editElement e).attribute? name = e.attribute? name := by
  rw [editElement]
  split
  · rfl
  · split
    · exact Element.attribute?_removeAttribute_of_ne e different
    · split
      · rfl
      · exact Element.attribute?_setAttribute_of_ne e _ different

theorem name_editElement : (plan.editElement e).name = e.name := by
  rw [editElement]
  split
  · rfl
  · split
    · rfl
    · split <;> rfl

theorem foreign_editElement : (plan.editElement e).foreign = e.foreign := by
  rw [editElement]
  split
  · rfl
  · split
    · rfl
    · split <;> rfl

theorem attributeText?_editElement_of_ne {name : String} (different : name ≠ "id") :
    (plan.editElement e).attributeText? name = e.attributeText? name :=
  congrArg (Option.map _) (attribute?_editElement_of_ne different)

theorem foreignAttribute?_editElement (name : String) :
    (plan.editElement e).foreignAttribute? name = e.foreignAttribute? name :=
  congrArg (List.find? _) foreign_editElement

end EditElement

/-- What becomes of an element: it gets its new id, and its links lead to new ids. -/
def changed (plan : IdPlan) (e : Element) : Element :=
  Link.rename plan.newName? (plan.editElement e)

section Changed

variable {policy : IdPolicy} {census : IdCensus} {e : Element}

/-- Apart from the id an attribute has the text that renaming the links gives it. -/
theorem anyAttribute?_changed {plan : IdPlan} {name : String} (different : name ≠ "id") :
    (plan.changed e).anyAttribute? name = (Link.rename plan.newName? e).anyAttribute? name := by
  rw [changed, Element.anyAttribute?, Element.anyAttribute?, Link.attributeText?_rename, Link.attributeText?_rename,
    Link.foreignAttribute?_rename, Link.foreignAttribute?_rename, attributeText?_editElement_of_ne different,
    foreignAttribute?_editElement]

theorem classes_changed {plan : IdPlan} (leaves : Link.Leaves plan.newName? e "class") :
    (plan.changed e).classes = e.classes := by
  have same := leaves.attributeText?_eq
  rw [Element.classes, Element.classes, changed, Link.attributeText?_rename,
    attributeText?_editElement_of_ne (by decide), same]

/-- A new name is no link. -/
theorem newText_of_newName? {id new : String} (named : (make policy census).newName? id = some new)
    (map : String → Option String) : Link.newText map "id" new = new := by
  have drawn := drawn_of_newName? named
  rw [IdCensus.drawn] at drawn
  split at drawn
  · rcases ShortName.exists_number_of_mem_assign drawn with ⟨n, -, nth, -⟩
    refine Link.newText_of_plain (by decide) fun listed => ?_
    change new = _ at nth
    rw [nth, ShortName.nth, String.toList_ofList] at listed
    rcases ShortName.exists_letter_of_mem_letters n listed with ⟨i, inside, same⟩
    have letters : ∀ i < ShortName.letterCount, ShortName.letter i ≠ '(' := by decide
    exact letters i inside same.symm
  · cases drawn

/-- An element has the id of the plan afterwards. -/
theorem id?_changed (distinct : (e.attributes.items.map (·.name)).Nodup)
    (leaves : Link.Leaves (make policy census).newName? e "id") :
    ((make policy census).changed e).id? = e.id?.bind (make policy census).newId? := by
  have edited := (make policy census).id?_editElement distinct
  rw [Element.id?] at edited
  rw [Element.id?, changed, Link.attributeText?_rename, edited]
  have same := leaves.attributeText?_eq
  rw [Element.id?]
  cases had : e.attributeText? "id" with
  | none => rfl
  | some id =>
      rw [had] at same
      have stays : Link.newText (make policy census).newName? "id" id = id := Option.some.inj same
      rw [Option.bind_some, newId?]
      split
      · rfl
      · cases named : (make policy census).newName? id with
        | none => exact congrArg some stays
        | some new => exact congrArg some (newText_of_newName? named _)

/-- The id of an element is the new name of an id that selectors ask for exactly if it was
that id. -/
theorem newId?_eq_newName_iff {id old : String} (asked : id ∈ census.references) (carried : old ∈ census.carried) :
    (make policy census).newId? old = some (((make policy census).newName? id).getD id) ↔ old = id := by
  have becomes : (make policy census).newId? id = some (((make policy census).newName? id).getD id) := by
    have present : ((make policy census).newId? id).isSome := newId?_isSome_of_referenced asked
    rw [newId?] at present ⊢
    split
    · next removed =>
      rw [if_pos removed] at present
      cases present
    · rfl
  constructor
  · intro same
    by_cases known : id ∈ census.carried
    · exact eq_of_newId?_eq carried known same becomes
    · have unnamed : (make policy census).newName? id = none := by
        cases named : (make policy census).newName? id with
        | none => rfl
        | some new =>
            exact absurd (IdCensus.mem_drawing.mp (IdCensus.mem_drawing_of_drawn (drawn_of_newName? named))).1 known
      rw [unnamed, Option.getD_none] at same
      exact absurd same (newId?_ne_of_dangling asked known carried)
  · rintro rfl
    exact becomes

end Changed

/-! ## Compounds after the plan -/

section Compounds

variable {policy : IdPolicy} {census : IdCensus} {e : Element}

/-- The attribute whose text a test looks at. -/
def readText? : Css.SimpleSelector → Option String
  | .className _ => some "class"
  | .idName _ => some "id"
  | .attributeTest t => if t.operator = .present then none else some t.name
  | _ => none

/-- Whether renaming the links of an element changes no text that a compound tests. -/
def LeavesTexts (plan : IdPlan) (e : Element) (c : Css.Compound) : Prop :=
  ∀ t ∈ c.tests, ∀ name ∈ readText? t, Link.Leaves plan.newName? e name

instance (plan : IdPlan) (e : Element) (c : Css.Compound) : Decidable (plan.LeavesTexts e c) :=
  inferInstanceAs (Decidable (∀ t ∈ c.tests, ∀ name ∈ readText? t, Link.Leaves plan.newName? e name))

/-- A renamed test says of a changed element what the test said of the element. -/
theorem accepts_renameId (typed : e.Typed) (carried : ∀ id, e.id? = some id → id ∈ census.carried)
    {t : Css.SimpleSelector} (asked : ∀ id, t = .idName id → id ∈ census.references)
    (free : ∀ test, t = .attributeTest test → test.name ≠ "id")
    (leaves : ∀ name ∈ readText? t, Link.Leaves (make policy census).newName? e name) :
    let plan := make policy census
    (t.renameId plan.newName?).accepts (plan.changed e) = t.accepts e := by
  intro plan
  cases t with
  | universal => rfl
  | typeName name => exact congrArg (· == name) name_editElement
  | className name =>
      change (plan.changed e).hasClass name = e.hasClass name
      rw [Element.hasClass, classes_changed (leaves "class" rfl), Element.hasClass]
  | idName id =>
      have becomes := id?_changed typed.nodup_names (leaves "id" rfl)
      rw [Bool.eq_iff_iff]
      change ((plan.changed e).id? == some ((plan.newName? id).getD id)) = true ↔ (e.id? == some id) = true
      rw [beq_iff_eq, beq_iff_eq, becomes]
      cases had : e.id? with
      | none => exact iff_of_false (Option.some_ne_none _).symm (Option.some_ne_none _).symm
      | some old =>
          rw [Option.bind_some, newId?_eq_newName_iff (asked id rfl) (carried old had), Option.some_inj]
  | attributeTest test =>
      have text : (plan.changed e).anyAttribute? test.name =
          (Link.rename plan.newName? e).anyAttribute? test.name :=
        anyAttribute?_changed (free test rfl)
      change Css.SimpleSelector.accepts (.attributeTest test) _ = _
      rw [Css.SimpleSelector.accepts, Css.SimpleSelector.accepts, text]
      by_cases present : test.operator = .present
      · have accepted (text : String) : test.accepts text = true := by
          rw [Css.AttributeTest.accepts, present]
        have same := @Link.isSome_anyAttribute?_rename plan.newName? e test.name
        cases renamed : (Link.rename plan.newName? e).anyAttribute? test.name with
        | none =>
            rw [renamed] at same
            have absent : e.anyAttribute? test.name = none := by
              rw [← Option.not_isSome_iff_eq_none, ← same]
              exact Bool.false_ne_true
            rw [absent]
        | some text =>
            rw [renamed] at same
            rcases Option.isSome_iff_exists.mp same.symm with ⟨old, had⟩
            rw [had]
            exact (accepted text).trans (accepted old).symm
      · have stays : Link.Leaves plan.newName? e test.name := by
          refine leaves test.name ?_
          rw [readText?, if_neg present]
          rfl
        rw [stays]
  | pseudoClass name args => rfl
  | pseudoElement name args => rfl

theorem newName?_of_isEmpty {plan : IdPlan} (none : plan.renamed.isEmpty = true) :
    plan.newName? = fun _ => Option.none := by
  funext name
  rw [newName?, List.isEmpty_iff.mp none]
  rfl

/-- Without new names selectors stay as they are. -/
theorem renameIds_of_isEmpty {plan : IdPlan} (none : plan.renamed.isEmpty = true) (c : Css.Compound) :
    c.renameIds plan.newName? = c := by
  rw [newName?_of_isEmpty none]
  cases c with
  | mk combinator tests =>
      refine congrArg (Css.Compound.mk combinator) (Css.mapNested_eq_self (fun t => ?_) tests)
      cases t <;> rfl

theorem allCompounds_apply (plan : IdPlan) (styles : Css.Styles) (doc : Document) :
    (Css.Derived.rules (plan.apply styles doc).1.sheets).map (·.selector.allCompounds) =
      (Css.Derived.rules styles.sheets).map fun r =>
        r.selector.allCompounds.map (.renameIds plan.newName?) := by
  rw [apply]
  split
  · next none =>
    have same : Css.Compound.renameIds plan.newName? = id := funext (renameIds_of_isEmpty none)
    simp only [same, List.map_id]
  · rw [Css.Styles.rules_writeBack, Css.Styles.renameIds, Css.Styles.rules_mapRules, List.map_map]
    exact List.map_congr_left fun r _ =>
      r.selector.allCompounds_mapTests (Css.changesNames_renameId plan.newName?)

theorem element?_apply {P : Element → Prop} {plan : IdPlan} {styles : Css.Styles} {doc : Document}
    (grown : doc.Grown P) (held : ∀ sheet ∈ styles.sheets, doc.isElement sheet.element)
    {node : NodeId} (listed : node ∈ doc.elements) :
    (plan.apply styles doc).2.element? node = (doc.element? node).map plan.changed := by
  have shape : Document.SameShape doc (doc.mapElements plan.editElement) :=
    Document.sameShape_mapElements plan.editElement
  have edited : (doc.mapElements plan.editElement).element? node = (doc.element? node).map plan.editElement := by
    rw [Document.element?_mapElements plan.editElement grown, if_pos listed]
  have editedGrown := shape.grown (Q := fun _ => True) grown fun _ => True.intro
  rw [apply]
  split
  · next none =>
    have same : plan.changed = plan.editElement := by
      funext e
      rw [changed, newName?_of_isEmpty none, Link.rename_none]
    rw [same]
    exact edited
  · let linked := (doc.mapElements plan.editElement).mapElements (Link.rename plan.newName?)
    have linkedShape : Document.SameShape doc linked := shape.trans (Document.sameShape_mapElements _)
    have linkedGrown := linkedShape.grown (Q := fun _ => True) grown fun _ => True.intro
    have stillHeld : ∀ sheet ∈ (styles.renameIds plan.newName?).sheets, linked.isElement sheet.element := by
      intro sheet renamed
      rcases List.mem_map.mp renamed with ⟨old, among, same⟩
      rw [linkedShape.isElement_eq, ← same]
      exact held old among
    rw [(Css.Styles.trimmed_writeBack _ linkedGrown stillHeld).element?_eq,
      Document.element?_mapElements _ editedGrown, shape.elements_eq, if_pos listed, edited, Option.map_map]
    rfl

end Compounds

/-- What is planned for a document.  Nothing is planned for definitions that are for use
from outside. -/
def ofDocument (policy : IdPolicy) (styles : Css.Styles) (doc : Document) : IdPlan :=
  if isSpriteSheet doc then ⟨[], []⟩ else make policy (.ofDocument styles doc)

end IdPlan

theorem mem_carried {styles : Css.Styles} {doc : Document} {node : NodeId} (listed : node ∈ doc.elements)
    {e : Element} (found : doc.element? node = some e) {id : String} (had : e.id? = some id) :
    id ∈ (IdCensus.ofDocument styles doc).carried :=
  List.mem_filterMap.mpr ⟨e, List.mem_filterMap.mpr ⟨node, listed, found⟩, had⟩

/-- If ids are renamed or taken away, the compounds of all rules are renamed, also those
inside of pseudo-classes, and every compound accepts an element before exactly if the
renamed one accepts it afterwards, unless it tests the text of an attribute with a link to
a renamed id. -/
theorem cleanupIds_keeps_compounds {text : String} {title path : Option String} {pass : Nat}
    {doc : Document} {parameters : Parameters} {edit : DocumentEdit}
    (parsed : Document.read text title = .ok doc)
    (prepared : cleanupIds.prepare ⟨pass, path, .ofDocument doc⟩ parameters = some edit) :
    ∃ styles out, Css.Styles.ofDocument doc = .ok styles ∧ edit doc = .ok out ∧
      let plan := IdPlan.ofDocument (.ofParameters parameters) styles doc
      (Css.Derived.rules (out.newStyles.getD styles).sheets).map (·.selector.allCompounds) =
          (Css.Derived.rules styles.sheets).map (fun r =>
            r.selector.allCompounds.map (.renameIds plan.newName?)) ∧
        ∀ node ∈ doc.elements, ∀ e, doc.element? node = some e →
          ∀ r ∈ Css.Derived.rules styles.sheets, ∀ c ∈ r.selector.allCompounds, plan.LeavesTexts e c →
            (c.renameIds plan.newName?).accepts out.document node = c.accepts doc node := by
  have grown := Document.grown_of_read parsed
  rcases Option.bind_eq_some_iff.mp prepared with ⟨styles, still, prepared⟩
  rcases Option.ite_none_left_eq_some.mp still with ⟨-, trusted⟩
  have collected := Summary.ofDocument_of_reliableStyles? trusted
  rcases Option.ite_none_left_eq_some.mp prepared with ⟨untested, same⟩
  have held : ∀ sheet ∈ styles.sheets, doc.isElement sheet.element := by
    intro sheet listed
    rcases Css.Styles.exists_sheetOf_of_ofDocument collected sheet listed with ⟨e, -, found, -⟩
    exact Document.isElement_of_element? found
  by_cases sprites : isSpriteSheet doc = true
  · have result : edit doc = .ok { document := doc } := by
      rw [← Option.some.inj same, cleanIds, if_pos sprites]
    refine ⟨styles, _, collected, result, ?_⟩
    have unplanned : IdPlan.ofDocument (.ofParameters parameters) styles doc = ⟨[], []⟩ := if_pos sprites
    rw [unplanned]
    have stays : ∀ c : Css.Compound, c.renameIds (IdPlan.newName? ⟨[], []⟩) = c := IdPlan.renameIds_of_isEmpty rfl
    refine ⟨?_, fun node _ e _ r _ c _ _ => by rw [stays]⟩
    have none : (Css.Compound.renameIds (IdPlan.newName? ⟨[], []⟩)) = id := funext stays
    simp only [none, List.map_id]
    rfl
  · let plan := IdPlan.make (.ofParameters parameters) (.ofDocument styles doc)
    have planned : IdPlan.ofDocument (.ofParameters parameters) styles doc = plan := if_neg sprites
    have result : edit doc = .ok
        { document := (plan.apply styles doc).2
          newStyles := some (plan.apply styles doc).1
          warnings := (IdCensus.ofDocument styles doc).warnings } := by
      rw [← Option.some.inj same, cleanIds, if_neg sprites]
    refine ⟨styles, _, collected, result, ?_⟩
    rw [planned]
    refine ⟨plan.allCompounds_apply styles doc, ?_⟩
    intro node inTree e found r ruled c listed leaves
    rw [Css.Compound.accepts, Css.Compound.accepts, IdPlan.element?_apply grown held inTree, found]
    apply Css.all_mapNested
    intro t tested
    refine IdPlan.accepts_renameId (grown.element_fits found) (fun id => mem_carried inTree found) ?_ ?_ (leaves t tested)
    · intro id asks
      refine List.mem_append_right _ ?_
      change id ∈ styles.derived.ids
      rw [styles.derived_eq]
      exact Css.Derived.mem_ids ruled listed (asks ▸ tested)
    · intro test asks sameName
      apply untested
      rw [← sameName]
      exact Css.Styles.testsAttribute_of_tested ruled listed (asks ▸ tested)

/-- Here `abc` becomes `a` in the element, in the link to it and inside of the pseudo-class. -/
theorem renamed_id_is_still_tested :
    ∃ doc edit styles out,
      Document.read "<svg><style>:is(#abc){fill:red}</style><g id='abc'/><use href='#abc'/></svg>" none = .ok doc ∧
      cleanupIds.prepare ⟨1, none, .ofDocument doc⟩ .empty = some edit ∧
      Css.Styles.ofDocument doc = .ok styles ∧ edit doc = .ok out ∧
      ∃ r ∈ Css.Derived.rules styles.sheets, ∃ c ∈ r.selector.allCompounds,
        let plan := IdPlan.ofDocument (.ofParameters .empty) styles doc
        plan.newName? "abc" = some "a" ∧ (c.renameIds plan.newName?).accepts out.document ⟨4⟩ = true := by
  have computed : ((Document.read
      "<svg><style>:is(#abc){fill:red}</style><g id='abc'/><use href='#abc'/></svg>"
      none).toOption.bind fun doc =>
        (cleanupIds.prepare ⟨1, none, .ofDocument doc⟩ .empty).bind fun _ =>
          (Css.Styles.ofDocument doc).toOption.bind fun styles => (doc.element? ⟨4⟩).bind fun e =>
            (Css.Derived.rules styles.sheets).head?.bind fun r => r.selector.allCompounds.getLast?.map fun c =>
              let plan := IdPlan.ofDocument (.ofParameters .empty) styles doc
              decide (plan.newName? "abc" = some "a" ∧ c.accepts doc ⟨4⟩ = true ∧ ⟨4⟩ ∈ doc.elements ∧
                plan.LeavesTexts e c)) = some true := by
    decide +kernel
  rcases Option.bind_eq_some_iff.mp computed with ⟨doc, parsed, computed⟩
  rcases Option.bind_eq_some_iff.mp computed with ⟨edit, prepared, computed⟩
  rcases Option.bind_eq_some_iff.mp computed with ⟨styles, collected, computed⟩
  rcases Option.bind_eq_some_iff.mp computed with ⟨e, found, computed⟩
  rcases Option.bind_eq_some_iff.mp computed with ⟨r, first, computed⟩
  rcases Option.map_eq_some_iff.mp computed with ⟨c, compound, known⟩
  rw [toOption_eq_some] at parsed collected
  rcases of_decide_eq_true known with ⟨named, accepted, inTree, leaves⟩
  rcases cleanupIds_keeps_compounds parsed prepared with ⟨others, out, same, ran, -, kept⟩
  have stylesEq : styles = others := Except.ok.inj (collected.symm.trans same)
  have ruled := List.mem_of_mem_head? first
  have listed := List.mem_of_mem_getLast? compound
  refine ⟨doc, edit, styles, out, parsed, prepared, collected, ran, r, ruled, c, listed, named, ?_⟩
  rw [stylesEq] at ruled leaves ⊢
  exact (kept ⟨4⟩ inTree e found r ruled c listed leaves).trans accepted

/-- The link of the second element gets the new name `a`, which its rule does not ask for. -/
theorem test_of_renamed_link_fails :
    ∃ doc edit styles out,
      Document.read "<svg><style>[href='#abc']{fill:red}</style><g id='abc'/><use href='#abc'/></svg>" none =
        .ok doc ∧
      cleanupIds.prepare ⟨1, none, .ofDocument doc⟩ .empty = some edit ∧
      Css.Styles.ofDocument doc = .ok styles ∧ edit doc = .ok out ∧
      ∃ r ∈ Css.Derived.rules styles.sheets, ∃ c ∈ r.selector.allCompounds,
        let plan := IdPlan.ofDocument (.ofParameters .empty) styles doc
        c.accepts doc ⟨5⟩ = true ∧ (c.renameIds plan.newName?).accepts out.document ⟨5⟩ = false := by
  have computed : ((Document.read
      "<svg><style>[href='#abc']{fill:red}</style><g id='abc'/><use href='#abc'/></svg>"
      none).toOption.bind fun doc =>
        (cleanupIds.prepare ⟨1, none, .ofDocument doc⟩ .empty).bind fun edit =>
          (Css.Styles.ofDocument doc).toOption.bind fun styles => (edit doc).toOption.bind fun out =>
            (Css.Derived.rules styles.sheets).head?.bind fun r => r.selector.allCompounds.head?.map fun c =>
              let plan := IdPlan.ofDocument (.ofParameters .empty) styles doc
              (c.accepts doc ⟨5⟩, (c.renameIds plan.newName?).accepts out.document ⟨5⟩)) = some (true, false) := by
    decide +kernel
  rcases Option.bind_eq_some_iff.mp computed with ⟨doc, parsed, computed⟩
  rcases Option.bind_eq_some_iff.mp computed with ⟨edit, prepared, computed⟩
  rcases Option.bind_eq_some_iff.mp computed with ⟨styles, collected, computed⟩
  rcases Option.bind_eq_some_iff.mp computed with ⟨out, ran, computed⟩
  rcases Option.bind_eq_some_iff.mp computed with ⟨r, first, computed⟩
  rcases Option.map_eq_some_iff.mp computed with ⟨c, compound, accepted⟩
  rw [toOption_eq_some] at parsed collected ran
  exact ⟨doc, edit, styles, out, parsed, prepared, collected, ran, r, List.mem_of_mem_head? first, c,
    List.mem_of_mem_head? compound, (Prod.mk.inj accepted).1, (Prod.mk.inj accepted).2⟩

end Cleanup
end SlimSvg
