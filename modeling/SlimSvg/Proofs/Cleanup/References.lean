import SlimSvg.Proofs.Cleanup.Survivors

namespace SlimSvg
namespace Cleanup

/-!
# References to what was hidden

Hidden elements go one after the other, each with all that stands below it.  What refers
to what is found out once, before the first of them goes, so an element counts as referred
to even if what refers to it goes too.  An element with such an id is never below one that
goes: at that moment it would still be found there.  Since no new references come up on the
way, those that are left lead to the same elements as before.

Of a sheet, only the declarations of its rules are searched for `url(#id)`.  The text of an
`@font-face` block is kept as it is and never looked into, so a font that a block names by
its id can go.
-/

section Carriers

variable {doc : Document} {ids : List String} {node : NodeId} {e : Element} {id : String}

/-- What stands below an element is found there by its id. -/
theorem holdsId_of_inside (tree : doc.IsTree) {upper : NodeId} (element : doc.isElement upper)
    (inside : node = upper ∨ doc.Above upper node) (found : doc.element? node = some e)
    (named : e.id? = some id) (referenced : id ∈ ids) : holdsId doc ids upper = true := by
  have present : upper.index < doc.nodes.size := Document.index_lt_of_isElement element
  refine List.any_eq_true.mpr ⟨e, List.mem_filterMap.mpr ⟨node, ?_, found⟩, ?_⟩
  · exact (Document.mem_descendants tree present).mpr inside
  · rw [named]
    exact List.contains_iff_mem.mpr referenced

/-- One element that goes takes no element along that is referred to. -/
theorem isAttached_takeUnreferenced (tree : doc.IsTree) {hidden : NodeId} (element : doc.isElement hidden)
    (attached : doc.isAttached node = true) (found : doc.element? node = some e)
    (named : e.id? = some id) (referenced : id ∈ ids) :
    (takeUnreferenced ids doc hidden).isAttached node = true := by
  rw [takeUnreferenced]
  split
  · exact attached
  · next free =>
    apply Document.isAttached_detach_of_notMem tree attached
    intro around
    have inside : node = hidden ∨ doc.Above hidden node := by
      rcases (Document.mem_ancestors tree).mp around with same | above
      · exact Or.inl same.symm
      · exact Or.inr above
    exact free (holdsId_of_inside tree element inside found named referenced)

theorem isAttached_foldl_takeUnreferenced (tree : doc.IsTree) {hidden : List NodeId}
    (elements : ∀ node ∈ hidden, doc.isElement node) (attached : doc.isAttached node = true)
    (found : doc.element? node = some e) (named : e.id? = some id) (referenced : id ∈ ids) :
    (hidden.foldl (takeUnreferenced ids) doc).isAttached node = true := by
  induction hidden generalizing doc with
  | nil => exact attached
  | cons first rest inductionHypothesis =>
      have element := elements first List.mem_cons_self
      have culled : doc.Culled (takeUnreferenced ids doc first) := culled_takeUnreferenced tree element
      refine inductionHypothesis culled.tree (fun later listed => ?_)
        (isAttached_takeUnreferenced tree element attached found named referenced)
        ((culled.element?_eq node).trans found)
      rw [culled.isElement_eq]
      exact elements later (List.mem_cons_of_mem first listed)

/-- Taking elements out brings up no new references. -/
theorem Link.mem_idsOf_of_culled {other : Document} (tree : doc.IsTree) (culled : doc.Culled other)
    (listed : id ∈ idsOf other) : id ∈ idsOf doc := by
  obtain ⟨e, among, refers⟩ := List.mem_flatMap.mp listed
  obtain ⟨node, reached, found⟩ := List.mem_filterMap.mp among
  rw [culled.elements_eq tree] at reached
  rw [culled.element?_eq] at found
  exact List.mem_flatMap.mpr ⟨e, List.mem_filterMap.mpr ⟨node, (List.mem_filter.mp reached).1, found⟩, refers⟩

end Carriers

/-- An id counts as referred to by the sheets if a declaration of a rule has a link to it. -/
theorem mem_referencedIds {s : Css.Styles} {id : String} :
    id ∈ s.derived.referencedIds ↔
      ∃ r ∈ Css.Derived.rules s.sheets, ∃ entry ∈ r.declarations.items, id ∈ Reference.idsIn entry.2.value := by
  rw [s.derived_eq, Css.Derived.ofSheets]
  simp only [List.mem_eraseDups, List.mem_flatMap]

/-- Taking hidden elements away breaks no reference.  Whenever the plugin acts on a
document, it succeeds, and afterwards every id to which an element that is left or a
declaration in a rule of the sheets refers is carried by all the elements that carried it in
the document before. -/
theorem references_lead_where_they_led {situation : Situation} {p : Parameters} {doc : Document}
    (tree : doc.IsTree) {edit : DocumentEdit} (prepared : removeHiddenElements.prepare situation p = some edit) :
    ∃ s outcome, situation.summary.stillStyles? = some s ∧ edit doc = .ok outcome ∧
      ∀ id, (id ∈ Link.idsOf outcome.document ∨
          ∃ r ∈ Css.Derived.rules s.sheets, ∃ entry ∈ r.declarations.items, id ∈ Reference.idsIn entry.2.value) →
        ∀ node e, doc.isAttached node = true → doc.element? node = some e → e.id? = some id →
          outcome.document.isAttached node = true ∧ outcome.document.element? node = some e := by
  obtain ⟨s, still, prepared⟩ := Option.bind_eq_some_iff.mp prepared
  obtain ⟨-, same⟩ := Option.ite_none_left_eq_some.mp prepared
  obtain ⟨outcome, hidden, edited, elements, gone⟩ := exists_hidden_gone tree (p := p) still
  rw [Option.some.inj same] at edited
  have culled : doc.Culled outcome.document := gone ▸ culled_foldl_takeUnreferenced tree elements
  refine ⟨s, outcome, still, edited, ?_⟩
  intro id refers node e attached found named
  have referenced : id ∈ Link.idsOf doc ++ s.derived.referencedIds := by
    rcases refers with byElement | bySheet
    · exact List.mem_append_left _ (Link.mem_idsOf_of_culled tree culled byElement)
    · exact List.mem_append_right _ (mem_referencedIds.mpr bySheet)
  refine ⟨?_, (culled.element?_eq node).trans found⟩
  rw [gone]
  exact isAttached_foldl_takeUnreferenced tree elements attached found named referenced

/-- Of two hidden groups the one goes to whose outline nothing refers. -/
theorem hidden_outline_in_use_stays :
    ∃ doc e edit outcome,
      Document.read
          "<svg><g display='none'><path id='p'/></g><g display='none'><path id='q'/></g><use href='#p'/></svg>" none =
        .ok doc ∧
      removeHiddenElements.prepare ⟨1, none, .ofDocument doc⟩ .empty = some edit ∧ edit doc = .ok outcome ∧
      outcome.document.isAttached ⟨5⟩ = false ∧ "p" ∈ Link.idsOf outcome.document ∧
      doc.isAttached ⟨3⟩ = true ∧ doc.element? ⟨3⟩ = some e ∧ e.id? = some "p" ∧
      outcome.document.isAttached ⟨3⟩ = true ∧ outcome.document.element? ⟨3⟩ = some e := by
  have computed : ((Document.read
      "<svg><g display='none'><path id='p'/></g><g display='none'><path id='q'/></g><use href='#p'/></svg>"
      none).toOption.bind fun doc =>
        (removeHiddenElements.prepare ⟨1, none, .ofDocument doc⟩ .empty).bind fun edit =>
          (edit doc).toOption.bind fun outcome => (doc.element? ⟨3⟩).map fun e =>
            (doc.isAttached ⟨3⟩ && !outcome.document.isAttached ⟨5⟩ && (Link.idsOf outcome.document).contains "p",
              e.id?)) = some (true, some "p") := by
    decide +kernel
  rcases Option.bind_eq_some_iff.mp computed with ⟨doc, parsed, computed⟩
  rcases Option.bind_eq_some_iff.mp computed with ⟨edit, prepared, computed⟩
  rcases Option.bind_eq_some_iff.mp computed with ⟨outcome, ran, computed⟩
  rcases Option.map_eq_some_iff.mp computed with ⟨e, found, computed⟩
  rw [toOption_eq_some] at parsed ran
  rcases Prod.mk.inj computed with ⟨facts, named⟩
  rw [Bool.and_eq_true, Bool.and_eq_true, Bool.not_eq_true', List.contains_iff_mem] at facts
  rcases facts with ⟨⟨attached, gone⟩, refers⟩
  rcases references_lead_where_they_led (Document.grown_of_read parsed).isTree prepared with
    ⟨s, other, -, edited, kept⟩
  have sameOutcome : other = outcome := Except.ok.inj (edited.symm.trans ran)
  rw [sameOutcome] at kept
  exact ⟨doc, e, edit, outcome, parsed, prepared, ran, gone, refers, attached, found, named,
    kept "p" (Or.inl refers) ⟨3⟩ e attached found named⟩

/-- The sheet takes its font from an element in a hidden group, but says so in an
`@font-face` block.  The group goes, and nothing carries the id any more. -/
theorem font_of_face_is_lost :
    ∃ doc s e edit outcome,
      Document.read
          "<svg><style>@font-face\x7bfont-family:f;src:url(#f)\x7d</style><g display='none'><font id='f'/></g></svg>"
          none = .ok doc ∧
      Css.Styles.ofDocument doc = .ok s ∧
      removeHiddenElements.prepare ⟨1, none, .ofDocument doc⟩ .empty = some edit ∧ edit doc = .ok outcome ∧
      (∃ sheet ∈ s.sheets, outcome.document.isAttached sheet.element = true ∧
        ∃ set ∈ sheet.sets, ∃ face ∈ set.fontFaces, "f" ∈ Reference.idsIn face) ∧
      doc.isAttached ⟨5⟩ = true ∧ doc.element? ⟨5⟩ = some e ∧ e.id? = some "f" ∧
      ∀ left ∈ outcome.document.elements.filterMap outcome.document.element?, left.id? ≠ some "f" := by
  have computed : ((Document.read
      "<svg><style>@font-face\x7bfont-family:f;src:url(#f)\x7d</style><g display='none'><font id='f'/></g></svg>"
      none).toOption.bind fun doc => (Css.Styles.ofDocument doc).toOption.bind fun s =>
        (removeHiddenElements.prepare ⟨1, none, .ofDocument doc⟩ .empty).bind fun edit =>
          (edit doc).toOption.bind fun outcome => (doc.element? ⟨5⟩).map fun e =>
            (s.sheets.any (fun sheet => outcome.document.isAttached sheet.element
                && sheet.sets.any fun set => set.fontFaces.any fun face => (Reference.idsIn face).contains "f")
              && doc.isAttached ⟨5⟩
              && (outcome.document.elements.filterMap outcome.document.element?).all (fun left => left.id? != some "f"),
              e.id?)) = some (true, some "f") := by
    decide +kernel
  rcases Option.bind_eq_some_iff.mp computed with ⟨doc, parsed, computed⟩
  rcases Option.bind_eq_some_iff.mp computed with ⟨s, collected, computed⟩
  rcases Option.bind_eq_some_iff.mp computed with ⟨edit, prepared, computed⟩
  rcases Option.bind_eq_some_iff.mp computed with ⟨outcome, ran, computed⟩
  rcases Option.map_eq_some_iff.mp computed with ⟨e, found, computed⟩
  rw [toOption_eq_some] at parsed collected ran
  rcases Prod.mk.inj computed with ⟨facts, named⟩
  simp only [Bool.and_eq_true, List.any_eq_true, List.all_eq_true, List.contains_iff_mem, bne_iff_ne] at facts
  rcases facts with ⟨⟨refers, attached⟩, gone⟩
  exact ⟨doc, s, e, edit, outcome, parsed, collected, prepared, ran, refers, attached, found, named, gone⟩

end Cleanup
end SlimSvg
