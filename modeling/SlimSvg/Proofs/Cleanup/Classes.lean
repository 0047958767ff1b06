import SlimSvg.Cleanup.Classes
import SlimSvg.Proofs.Cleanup.ShortName
import SlimSvg.Proofs.Css.Compounds
import SlimSvg.Proofs.Css.Matching
import SlimSvg.Proofs.Css.Sheets
import SlimSvg.Proofs.Css.WriteBack
import SlimSvg.Proofs.Lookup
import SlimSvg.Proofs.Text.Words
import SlimSvg.Proofs.Tree.Attributes
import SlimSvg.Proofs.Tree.Reading

namespace SlimSvg
namespace Cleanup

/-!
# Renamed classes mean what they meant

Selectors and elements are renamed by one plan.  A name that was drawn is none of
those that stay, neither on elements nor in selectors, and it was drawn once.  So
an element has the new name of a class that selectors ask for exactly if it had the
old one, and every compound says of the element what it said before.
-/

/-! ## The plan -/

namespace ClassPlan

section Make

variable {policy : ClassPolicy} {selected carried : List String} {name : String}

/-- The classes that get short names. -/
def drawing (policy : ClassPolicy) (selected carried : List String) : List String :=
  carried.filter fun c => selected.contains c && !policy.preserve.contains c

/-- The names that are not given to other classes. -/
def takenNames (policy : ClassPolicy) (selected carried : List String) : List String :=
  (selected ++ policy.preserve).filter (!(drawing policy selected carried).contains ·) ++
    if policy.removeUnused then []
    else carried.filter fun c => !(selected.contains c || policy.preserve.contains c)

theorem mem_kept_make :
    name ∈ (make policy selected carried).kept ↔
      name ∈ carried ∧
        (name ∈ selected ∨ name ∈ policy.preserve ∨ policy.removeUnused = false) := by
  simp [make, or_assoc]

/-- A class that selectors ask for or that elements keep has its name for itself,
or a name is drawn for it. -/
theorem mem_takenNames (known : name ∈ selected ∨ name ∈ (make policy selected carried).kept)
    (undrawn : name ∉ drawing policy selected carried) :
    name ∈ takenNames policy selected carried := by
  have asked : name ∈ selected ∨ name ∈ policy.preserve →
      name ∈ takenNames policy selected carried := by
    intro listed
    apply List.mem_append_left
    rw [List.mem_filter, List.mem_append]
    exact ⟨listed, by simpa using undrawn⟩
  by_cases matters : name ∈ selected ∨ name ∈ policy.preserve
  · exact asked matters
  · rcases known with inSelector | kept
    · exact asked (Or.inl inSelector)
    · rcases mem_kept_make.mp kept with ⟨onElement, why⟩
      have unused : policy.removeUnused = false := by
        rcases why with inSelector | preserved | unused
        · exact absurd (Or.inl inSelector) matters
        · exact absurd (Or.inr preserved) matters
        · exact unused
      apply List.mem_append_right
      rw [unused]
      simpa using ⟨onElement, not_or.mp matters⟩

theorem taken_or_drawn (known : name ∈ selected ∨ name ∈ (make policy selected carried).kept) :
    let plan := make policy selected carried
    (plan.newName? name = none ∧ name ∈ takenNames policy selected carried) ∨
      ∃ new, plan.newName? name = some new ∧ (name, new) ∈ plan.renamed := by
  intro plan
  cases named : plan.newName? name with
  | some new => exact Or.inr ⟨new, rfl, mem_of_lookup_eq_some named⟩
  | none =>
      refine Or.inl ⟨rfl, mem_takenNames known ?_⟩
      intro drawn
      rw [← ShortName.map_fst_assign (takenNames policy selected carried) 0
        (drawing policy selected carried)] at drawn
      rcases List.mem_map.mp drawn with ⟨⟨old, new⟩, assigned, same⟩
      have found : (plan.newName? old).isSome := lookup_isSome_of_mem assigned
      change old = name at same
      rw [same, named] at found
      cases found

/-- No two classes that selectors ask for or that elements keep become one. -/
theorem eq_of_newName_eq {other : String}
    (known : name ∈ selected ∨ name ∈ (make policy selected carried).kept)
    (otherKnown : other ∈ selected ∨ other ∈ (make policy selected carried).kept)
    (same : ((make policy selected carried).newName? name).getD name =
      ((make policy selected carried).newName? other).getD other) : name = other := by
  have free : ∀ {old new : String}, (old, new) ∈ (make policy selected carried).renamed →
      new ∉ takenNames policy selected carried := fun assigned =>
    ShortName.notMem_taken_of_mem_assign assigned
  rcases taken_or_drawn known with ⟨stays, taken⟩ | ⟨new, becomes, drawn⟩
  · rcases taken_or_drawn otherKnown with ⟨otherStays, -⟩ | ⟨otherNew, otherBecomes, otherDrawn⟩
    · rw [stays, otherStays] at same
      exact same
    · rw [stays, otherBecomes, Option.getD_none, Option.getD_some] at same
      exact absurd (same ▸ taken) (free otherDrawn)
  · rcases taken_or_drawn otherKnown with ⟨otherStays, taken⟩ | ⟨otherNew, otherBecomes, otherDrawn⟩
    · rw [becomes, otherStays, Option.getD_none, Option.getD_some] at same
      exact absurd (same ▸ taken) (free drawn)
    · rw [becomes, otherBecomes, Option.getD_some, Option.getD_some] at same
      have distinct := ShortName.nodup_map_snd_assign (takenNames policy selected carried) 0
        (drawing policy selected carried)
      exact congrArg Prod.fst (List.inj_on_of_nodup_map distinct drawn otherDrawn same)

/-- An element has the new name of a class that selectors ask for exactly if it had
the old one. -/
theorem mem_newClasses_iff {classes : List String} (asked : name ∈ selected)
    (met : ∀ c ∈ classes, c ∈ carried) :
    ((make policy selected carried).newName? name).getD name ∈
        (make policy selected carried).newClasses classes ↔ name ∈ classes := by
  rw [newClasses, List.mem_map]
  constructor
  · rintro ⟨other, kept, same⟩
    rw [List.mem_filter, List.contains_iff_mem] at kept
    rw [← eq_of_newName_eq (Or.inr kept.2) (Or.inl asked) same]
    exact kept.1
  · intro listed
    refine ⟨name, ?_, rfl⟩
    rw [List.mem_filter, List.contains_iff_mem, mem_kept_make]
    exact ⟨listed, met name listed, Or.inl asked⟩

theorem isWord_nth (n : Nat) : Text.IsWord (ShortName.nth n) := by
  rw [Text.IsWord, ShortName.nth, String.toList_ofList]
  refine ⟨ShortName.letters_ne_nil n, ?_⟩
  intro c listed
  rcases ShortName.exists_letter_of_mem_letters n listed with ⟨i, inside, same⟩
  have solid : ∀ i < ShortName.letterCount, Text.isCssSpace (ShortName.letter i) = false := by
    decide
  rw [same]
  exact solid i inside

/-- New classes can be written one behind the other. -/
theorem isWord_of_mem_newClasses {classes : List String} (solid : ∀ c ∈ classes, Text.IsWord c) :
    ∀ c ∈ (make policy selected carried).newClasses classes, Text.IsWord c := by
  intro c listed
  rcases List.mem_map.mp listed with ⟨old, kept, same⟩
  cases named : (make policy selected carried).newName? old with
  | none =>
      rw [named] at same
      rw [← same]
      exact solid old (List.mem_filter.mp kept).1
  | some new =>
      rw [named] at same
      rcases ShortName.exists_number_of_mem_assign (mem_of_lookup_eq_some named) with ⟨n, -, nth, -⟩
      change new = _ at nth
      rw [← same, Option.getD_some, nth]
      exact isWord_nth n

end Make

/-! ## Elements after the plan -/

section EditElement

variable {plan : ClassPlan} {e : Element}

theorem attribute?_editElement_of_ne {name : String} (different : name ≠ "class") :
    (plan.editElement e).attribute? name = e.attribute? name := by
  rw [editElement]
  split
  · rfl
  · split
    · exact Element.attribute?_removeAttribute_of_ne e different
    · exact Element.attribute?_setAttribute_of_ne e _ different

theorem name_editElement : (plan.editElement e).name = e.name := by
  rw [editElement]
  split
  · rfl
  · split <;> rfl

theorem foreign_editElement : (plan.editElement e).foreign = e.foreign := by
  rw [editElement]
  split
  · rfl
  · split <;> rfl

/-- What is written into the attribute is read as the new classes. -/
theorem classes_editElement (distinct : (e.attributes.items.map (·.name)).Nodup)
    (solid : ∀ c ∈ plan.newClasses e.classes, Text.IsWord c) :
    (plan.editElement e).classes = plan.newClasses e.classes := by
  rw [editElement]
  split
  · next absent =>
    have missing : e.attribute? "class" = none := by
      rw [Element.hasAttribute, Attributes.has_eq_isSome_get?] at absent
      rw [Element.attribute?]
      simpa using absent
    rw [Element.classes, Element.attributeText?, missing]
    rfl
  · split
    · next nothing =>
      rw [nothing, Element.classes, Element.attributeText?,
        Element.attribute?_removeAttribute_self distinct]
      rfl
    · rw [Element.classes, Element.attributeText?, Element.attribute?_setAttribute_self]
      exact Text.words_intercalate solid

end EditElement

end ClassPlan

/-! ## Compounds after the plan -/

/-- The classes of every element of a tree are carried. -/
theorem mem_carriedClasses {doc : Document} {node : NodeId} (listed : node ∈ doc.elements)
    {e : Element} (found : doc.element? node = some e) :
    ∀ c ∈ e.classes, c ∈ carriedClasses doc := by
  intro c among
  apply List.mem_eraseDups.mpr
  exact List.mem_flatMap.mpr ⟨e, List.mem_filterMap.mpr ⟨node, listed, found⟩, among⟩

namespace ClassPlan

variable {policy : ClassPolicy} {selected carried : List String} {e : Element}

/-- A renamed test says of a changed element what the test said of the element. -/
theorem accepts_renameClass (typed : e.Typed) (met : ∀ c ∈ e.classes, c ∈ carried)
    {t : Css.SimpleSelector} (asked : ∀ name, t = .className name → name ∈ selected)
    (free : ∀ test, t = .attributeTest test → test.name ≠ "class") :
    let plan := make policy selected carried
    (t.renameClass plan.newName?).accepts (plan.editElement e) = t.accepts e := by
  intro plan
  have solid : ∀ c ∈ e.classes, Text.IsWord c := fun c listed => Text.isWord_of_mem_words listed
  cases t with
  | universal => rfl
  | typeName name => exact congrArg (· == name) name_editElement
  | className name =>
      have newSolid : ∀ c ∈ plan.newClasses e.classes, Text.IsWord c := isWord_of_mem_newClasses solid
      have classesEq := classes_editElement typed.nodup_names newSolid
      rw [Bool.eq_iff_iff, Css.SimpleSelector.accepts_iff, Css.SimpleSelector.accepts_iff]
      change _ ∈ (plan.editElement e).classes ↔ name ∈ e.classes
      rw [classesEq]
      exact mem_newClasses_iff (asked name rfl) met
  | idName id =>
      have same : (plan.editElement e).id? = e.id? :=
        congrArg (Option.map _) (attribute?_editElement_of_ne (by decide))
      exact congrArg (· == some id) same
  | attributeTest test =>
      have same : (plan.editElement e).anyAttribute? test.name = e.anyAttribute? test.name := by
        simp only [Element.anyAttribute?, Element.attributeText?, Element.foreignAttribute?,
          attribute?_editElement_of_ne (free test rfl), foreign_editElement]
      change Css.SimpleSelector.accepts (.attributeTest test) _ = _
      simp only [Css.SimpleSelector.accepts, same]
  | pseudoClass name args => rfl
  | pseudoElement name args => rfl

/-- Without new names selectors stay as they are. -/
theorem renameClasses_of_isEmpty {plan : ClassPlan} (none : plan.renamed.isEmpty = true)
    (c : Css.Compound) : c.renameClasses plan.newName? = c := by
  have unnamed : plan.newName? = fun _ => Option.none := by
    funext name
    rw [newName?, List.isEmpty_iff.mp none]
    rfl
  rw [unnamed]
  cases c with
  | mk combinator tests =>
      refine congrArg (Css.Compound.mk combinator) (Css.mapNested_eq_self (fun t => ?_) tests)
      cases t <;> rfl

theorem allCompounds_apply (plan : ClassPlan) (styles : Css.Styles) (doc : Document) :
    (Css.Derived.rules (plan.apply styles doc).1.sheets).map (·.selector.allCompounds) =
      (Css.Derived.rules styles.sheets).map fun r =>
        r.selector.allCompounds.map (.renameClasses plan.newName?) := by
  rw [apply]
  split
  · next none =>
    have same : (Css.Compound.renameClasses plan.newName?) = id :=
      funext (renameClasses_of_isEmpty none)
    simp only [same, List.map_id]
  · rw [Css.Styles.rules_writeBack]
    change (Css.Derived.rules (styles.mapRules
      (Css.Rule.mapTests (.renameClass plan.newName?))).sheets).map _ = _
    rw [Css.Styles.rules_mapRules, List.map_map]
    exact List.map_congr_left fun r _ =>
      r.selector.allCompounds_mapTests (Css.changesNames_renameClass plan.newName?)

theorem element?_apply {P : Element → Prop} {plan : ClassPlan} {styles : Css.Styles} {doc : Document}
    (grown : doc.Grown P) (held : ∀ sheet ∈ styles.sheets, doc.isElement sheet.element)
    {node : NodeId} (listed : node ∈ doc.elements) :
    (plan.apply styles doc).2.element? node = (doc.element? node).map plan.editElement := by
  have changed : (doc.mapElements plan.editElement).element? node =
      (doc.element? node).map plan.editElement := by
    rw [Document.element?_mapElements plan.editElement grown, if_pos listed]
  rw [apply]
  split
  · exact changed
  · have shape : Document.SameShape doc (doc.mapElements plan.editElement) :=
      Document.sameShape_mapElements plan.editElement
    have stillGrown := shape.grown (Q := fun _ => True) grown fun _ => True.intro
    have stillHeld : ∀ sheet ∈ (styles.renameClasses plan.newName?).sheets,
        (doc.mapElements plan.editElement).isElement sheet.element := by
      intro sheet renamed
      rcases List.mem_map.mp renamed with ⟨old, among, same⟩
      rw [shape.isElement_eq, ← same]
      exact held old among
    rw [(Css.Styles.trimmed_writeBack _ stillGrown stillHeld).element?_eq, changed]

end ClassPlan

/-- If classes are renamed or taken away, the compounds of all rules are renamed,
also those inside of pseudo-classes, and every compound accepts an element before
exactly if the renamed one accepts it afterwards. -/
theorem minifyClassNames_keeps_compounds {text : String} {title path : Option String} {pass : Nat}
    {doc : Document} {parameters : Parameters} {edit : DocumentEdit}
    (parsed : Document.read text title = .ok doc)
    (prepared : minifyClassNames.prepare ⟨pass, path, .ofDocument doc⟩ parameters = some edit) :
    ∃ styles out changed, Css.Styles.ofDocument doc = .ok styles ∧ edit doc = .ok out ∧
      out.newStyles = some changed ∧
      let plan := ClassPlan.make (.ofParameters parameters) styles.derived.classes (carriedClasses doc)
      (Css.Derived.rules changed.sheets).map (·.selector.allCompounds) =
          (Css.Derived.rules styles.sheets).map (fun r =>
            r.selector.allCompounds.map (.renameClasses plan.newName?)) ∧
        ∀ node ∈ doc.elements, ∀ r ∈ Css.Derived.rules styles.sheets,
          ∀ c ∈ r.selector.allCompounds,
            (c.renameClasses plan.newName?).accepts out.document node = c.accepts doc node := by
  have grown := Document.grown_of_read parsed
  rcases Option.bind_eq_some_iff.mp prepared with ⟨styles, trusted, prepared⟩
  have collected := Summary.ofDocument_of_reliableStyles? trusted
  rcases Option.ite_none_left_eq_some.mp prepared with ⟨untested, same⟩
  let plan := ClassPlan.make (.ofParameters parameters) styles.derived.classes (carriedClasses doc)
  have result : edit doc =
      .ok { document := (plan.apply styles doc).2, newStyles := some (plan.apply styles doc).1 } := by
    rw [← Option.some.inj same]
    rfl
  have held : ∀ sheet ∈ styles.sheets, doc.isElement sheet.element := by
    intro sheet listed
    rcases Css.Styles.exists_sheetOf_of_ofDocument collected sheet listed with ⟨e, -, found, -⟩
    exact Document.isElement_of_element? found
  refine ⟨styles, _, _, collected, result, rfl, plan.allCompounds_apply styles doc, ?_⟩
  intro node inTree r ruled c listed
  rw [Css.Compound.accepts, Css.Compound.accepts, ClassPlan.element?_apply grown held inTree]
  cases found : doc.element? node with
  | none => rfl
  | some e =>
      apply Css.all_mapNested
      intro t tested
      apply ClassPlan.accepts_renameClass (grown.element_fits found)
        (mem_carriedClasses inTree found)
      · intro name asks
        rw [styles.derived_eq]
        exact Css.Derived.mem_classes ruled listed (asks ▸ tested)
      · intro test asks sameName
        apply untested
        rw [Css.Styles.testsAttribute, List.contains_iff_mem, styles.derived_eq, ← sameName]
        exact Css.Derived.mem_attributeNames ruled listed (asks ▸ tested)

/-- Here `long` becomes `a`, while `a` becomes `b`. -/
theorem renamed_compound_still_accepts :
    ∃ doc edit styles out,
      Document.read "<svg><style>.long\x7bfill:red\x7d:not(.a)\x7bx:y\x7d</style><g class='long a'/></svg>"
        none = .ok doc ∧
      minifyClassNames.prepare ⟨1, none, .ofDocument doc⟩ .empty = some edit ∧
      Css.Styles.ofDocument doc = .ok styles ∧ edit doc = .ok out ∧
      ∃ r ∈ Css.Derived.rules styles.sheets, ∃ c ∈ r.selector.allCompounds,
        let plan := ClassPlan.make (.ofParameters .empty) styles.derived.classes (carriedClasses doc)
        (c.renameClasses plan.newName?).accepts out.document ⟨4⟩ = true := by
  have computed : ((Document.read
      "<svg><style>.long\x7bfill:red\x7d:not(.a)\x7bx:y\x7d</style><g class='long a'/></svg>"
      none).toOption.bind fun doc =>
        (minifyClassNames.prepare ⟨1, none, .ofDocument doc⟩ .empty).bind fun _ =>
          (Css.Styles.ofDocument doc).toOption.bind fun styles =>
            (Css.Derived.rules styles.sheets).head?.bind fun r =>
              r.selector.allCompounds.head?.map fun c =>
                c.accepts doc ⟨4⟩ && doc.elements.contains ⟨4⟩) = some true := by
    decide +kernel
  rcases Option.bind_eq_some_iff.mp computed with ⟨doc, parsed, computed⟩
  rcases Option.bind_eq_some_iff.mp computed with ⟨edit, prepared, computed⟩
  rcases Option.bind_eq_some_iff.mp computed with ⟨styles, collected, computed⟩
  rcases Option.bind_eq_some_iff.mp computed with ⟨r, first, computed⟩
  rcases Option.map_eq_some_iff.mp computed with ⟨c, compound, accepted⟩
  rw [toOption_eq_some] at parsed collected
  rw [Bool.and_eq_true, List.contains_iff_mem] at accepted
  rcases minifyClassNames_keeps_compounds parsed prepared with
    ⟨others, out, changed, same, ran, -, -, kept⟩
  have stylesEq : styles = others := Except.ok.inj (collected.symm.trans same)
  have ruled := List.mem_of_mem_head? first
  have listed := List.mem_of_mem_head? compound
  refine ⟨doc, edit, styles, out, parsed, prepared, collected, ran, r, ruled, c, listed, ?_⟩
  rw [stylesEq] at ruled ⊢
  exact (kept ⟨4⟩ accepted.2 r ruled c listed).trans accepted.1

end Cleanup
end SlimSvg
