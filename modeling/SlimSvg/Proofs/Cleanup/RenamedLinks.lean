import SlimSvg.Proofs.Cleanup.RenamedIds

namespace SlimSvg
namespace Cleanup

/-!
# Links are collected as they are renamed

The ids to which an element refers are collected by one walk through its attributes and
renamed by another one.  The two agree on every attribute but `href`: there the collector
counts the link and what stands in `url()`, and the renaming looks at the link alone.
-/

/-! ## Lists put together -/

theorem length_flatMap_le {α β : Type} {first second : α → List β} {items : List α}
    (shorter : ∀ a ∈ items, (first a).length ≤ (second a).length) :
    (items.flatMap first).length ≤ (items.flatMap second).length := by
  induction items with
  | nil => exact le_rfl
  | cons a items inductionHypothesis =>
      rw [List.forall_mem_cons] at shorter
      rw [List.flatMap_cons, List.flatMap_cons, List.length_append, List.length_append]
      exact Nat.add_le_add shorter.1 (inductionHypothesis shorter.2)

/-- If no part of a list is longer than the part that it is compared with, two lists put
together are equal only if all parts are. -/
theorem flatMap_eq_flatMap_iff {α β : Type} {first second : α → List β} {items : List α}
    (shorter : ∀ a ∈ items, (first a).length ≤ (second a).length) :
    items.flatMap first = items.flatMap second ↔ ∀ a ∈ items, first a = second a := by
  induction items with
  | nil => exact iff_of_true rfl (List.forall_mem_nil _)
  | cons a items inductionHypothesis =>
      have here := shorter a List.mem_cons_self
      have others : ∀ b ∈ items, (first b).length ≤ (second b).length :=
        fun b listed => shorter b (List.mem_cons_of_mem a listed)
      rw [List.flatMap_cons, List.flatMap_cons, List.forall_mem_cons, ← inductionHypothesis others]
      constructor
      · intro same
        have lengths := congrArg List.length same
        have rest := length_flatMap_le others
        rw [List.length_append, List.length_append] at lengths
        exact List.append_inj same (by omega)
      · rintro ⟨same, sameRest⟩
        rw [same, sameRest]

namespace Link

/-- The name of an id after a renaming. -/
def renamedId (map : String → Option String) (id : String) : String :=
  (map id).getD id

/-- Whether renaming the link in a text does right by the references in it: they are not
overwritten with it, and none of them had to be renamed itself. -/
def SparesReferences (map : String → Option String) (text : String) : Prop :=
  ∀ id ∈ Reference.idsIn text, renameLink? map text = none ∧ renamedId map id = id

instance (map : String → Option String) (text : String) : Decidable (SparesReferences map text) :=
  inferInstanceAs (Decidable (∀ id ∈ Reference.idsIn text, _))

/-- The ids in the text of a typed attribute. -/
def idsInText (name text : String) : List String :=
  (if name == "href" then (localId? text).toList else []) ++ Reference.idsIn text

section Rename

variable {map : String → Option String} {name text new : String}

/-! ## The link in a text -/

/-- A link to a new id has that id. -/
theorem localId?_link (lettered : Reference.IsLettered new) : localId? ("#" ++ new) = some new := by
  have chars : ("#" ++ new).toList = '#' :: new.toList := String.toList_append
  have solid : ∀ c ∈ ("#" ++ new).toList, Text.isWhiteSpace c = false := by
    rw [chars, List.forall_mem_cons]
    exact ⟨rfl, fun c listed => Reference.not_isWhiteSpace_of_isAlpha (lettered.2 c listed)⟩
  have trimmed : Text.trimChars ("#" ++ new).toList = '#' :: new.toList := by
    rw [← Text.toList_trim, Text.trim_of_solid solid, chars]
  have nonempty : ¬ new.toList.isEmpty = true := fun empty => lettered.1 (List.isEmpty_iff.mp empty)
  rw [localId?, trimmed]
  change (if new.toList.isEmpty then none else some (String.ofList new.toList)) = some new
  rw [if_neg nonempty, String.ofList_toList]

/-- A link to a new id is no other reference. -/
theorem idsIn_link (lettered : Reference.IsLettered new) : Reference.idsIn ("#" ++ new) = [] := by
  apply idsIn_eq_nil
  have chars : ("#" ++ new).toList = '#' :: new.toList := String.toList_append
  rw [chars, List.mem_cons, not_or]
  exact ⟨by decide, fun listed => absurd (lettered.2 _ listed) (by decide)⟩

theorem renameLink?_eq_some (renamed : renameLink? map text = some new) :
    ∃ id newId, localId? text = some id ∧ map id = some newId ∧ new = "#" ++ newId := by
  rcases Option.bind_eq_some_iff.mp renamed with ⟨id, link, renamed⟩
  rcases Option.bind_eq_some_iff.mp renamed with ⟨newId, given, same⟩
  exact ⟨id, newId, link, given, (Option.some.inj same).symm⟩

theorem renamedId_of_renameLink?_eq_none (kept : renameLink? map text = none) :
    (localId? text).toList.map (renamedId map) = (localId? text).toList := by
  cases link : localId? text with
  | none => rfl
  | some id =>
      rw [renameLink?, link] at kept
      have unknown : map id = none := by
        cases given : map id with
        | none => rfl
        | some newId => rw [Option.bind_eq_bind, Option.bind_some, given] at kept; cases kept
      rw [Option.toList_some, List.map_singleton, renamedId, unknown, Option.getD_none]

/-- A text that gets another link has that link only. -/
theorem idsInText_of_renameLink? (lettered : ∀ id new, map id = some new → Reference.IsLettered new)
    (renamed : renameLink? map text = some new) :
    ∃ id ∈ localId? text, idsInText "href" new = [renamedId map id] := by
  rcases renameLink?_eq_some renamed with ⟨id, newId, link, given, rfl⟩
  have name : renamedId map id = newId := by rw [renamedId, given, Option.getD_some]
  refine ⟨id, link, ?_⟩
  change (localId? ("#" ++ newId)).toList ++ Reference.idsIn ("#" ++ newId) = _
  rw [localId?_link (lettered id newId given), idsIn_link (lettered id newId given), name]
  rfl

/-! ## Attributes -/

/-- Everywhere but in `href` the references that are counted are the ones that are renamed. -/
theorem idsInText_newText_of_other (lettered : ∀ id new, map id = some new → Reference.IsLettered new)
    (other : name ≠ "href") :
    idsInText name (newText map name text) = (idsInText name text).map (renamedId map) := by
  rw [idsInText, idsInText, newText, beq_false_of_ne other]
  exact Reference.idsIn_of_toList lettered (Reference.toList_getD_renameIn? map text)

/-- In `href` they are the same ones if no other reference stands beside the link. -/
theorem idsInText_newText_href (lettered : ∀ id new, map id = some new → Reference.IsLettered new) :
    idsInText "href" (newText map "href" text) = (idsInText "href" text).map (renamedId map) ↔
      SparesReferences map text := by
  change idsInText "href" ((renameLink? map text).getD text) =
    ((localId? text).toList ++ Reference.idsIn text).map (renamedId map) ↔ _
  rw [List.map_append, SparesReferences]
  cases renamed : renameLink? map text with
  | some new =>
      rcases idsInText_of_renameLink? lettered renamed with ⟨id, link, ids⟩
      rw [Option.getD_some, ids, Option.mem_def.mp link]
      change [renamedId map id] = renamedId map id :: (Reference.idsIn text).map (renamedId map) ↔ _
      rw [List.cons_eq_cons, eq_comm (a := []), List.map_eq_nil_iff, List.eq_nil_iff_forall_not_mem]
      simp only [true_and, reduceCtorEq, false_and, imp_false]
  | none =>
      rw [Option.getD_none, renamedId_of_renameLink?_eq_none renamed]
      change (localId? text).toList ++ Reference.idsIn text = _ ↔ _
      rw [List.append_cancel_left_eq, eq_comm]
      conv_lhs => rw [← List.map_id (Reference.idsIn text), List.map_map, List.map_inj_left]
      simp only [true_and, Function.comp_apply, id_eq]

/-- No reference is found that was not there before. -/
theorem length_idsInText_newText_le (lettered : ∀ id new, map id = some new → Reference.IsLettered new)
    (name text : String) :
    (idsInText name (newText map name text)).length ≤ ((idsInText name text).map (renamedId map)).length := by
  by_cases other : name = "href"
  · subst other
    rw [List.length_map]
    change (idsInText "href" ((renameLink? map text).getD text)).length ≤ _
    cases renamed : renameLink? map text with
    | none => exact le_rfl
    | some new =>
        rcases idsInText_of_renameLink? lettered renamed with ⟨id, link, ids⟩
        rw [Option.getD_some, ids]
        change 1 ≤ ((localId? text).toList ++ Reference.idsIn text).length
        rw [Option.mem_def.mp link, List.length_append]
        exact Nat.le_add_right 1 _
  · rw [idsInText_newText_of_other lettered other]

theorem idsInAttribute_eq (a : Attribute) : idsInAttribute a = idsInText a.name a.value.text :=
  rfl

theorem idsInAttribute_rename (element : String) (a : Attribute) :
    idsInAttribute (renameInAttribute map element a) = idsInText a.name (newText map a.name a.value.text) := by
  rw [idsInAttribute_eq, name_renameInAttribute, text_renameInAttribute]

/-- Whether the references of a typed attribute are renamed as they are counted. -/
theorem idsInAttribute_rename_eq_iff (lettered : ∀ id new, map id = some new → Reference.IsLettered new)
    (element : String) (a : Attribute) :
    idsInAttribute (renameInAttribute map element a) = (idsInAttribute a).map (renamedId map) ↔
      (a.name = "href" → SparesReferences map a.value.text) := by
  rw [idsInAttribute_rename, idsInAttribute_eq]
  by_cases link : a.name = "href"
  · rw [link, idsInText_newText_href lettered]
    exact ⟨fun spared _ => spared, fun always => always rfl⟩
  · exact iff_of_true (idsInText_newText_of_other lettered link) fun named => absurd named link

/-- Links from other namespaces are renamed as they are counted. -/
theorem idsInForeign_rename (lettered : ∀ id new, map id = some new → Reference.IsLettered new)
    (a : ForeignAttribute) : idsInForeign (renameInForeign map a) = (idsInForeign a).map (renamedId map) := by
  rw [renameInForeign]
  split
  · next link =>
    have counted : idsInForeign a = (localId? a.value).toList := if_pos link
    rw [counted]
    split
    · next new renamed =>
      rcases renameLink?_eq_some renamed with ⟨id, newId, had, given, rfl⟩
      have stays : idsInForeign { a with value := "#" ++ newId } = (localId? ("#" ++ newId)).toList := if_pos link
      rw [stays, localId?_link (lettered id newId given), had, Option.toList_some, Option.toList_some,
        List.map_singleton, renamedId, given, Option.getD_some]
    · next kept => rw [counted, renamedId_of_renameLink?_eq_none kept]
  · next other =>
    rw [idsInForeign, if_neg other]
    rfl

/-! ## Attributes without a known id -/

theorem renameLink?_eq_none (unknown : ∀ id ∈ localId? text, map id = none) : renameLink? map text = none := by
  rw [renameLink?]
  cases link : localId? text with
  | none => rfl
  | some id =>
      rw [Option.bind_eq_bind, Option.bind_some, unknown id link]
      rfl

theorem renameInAttribute_eq_self (element : String) {a : Attribute}
    (unknown : ∀ id ∈ idsInAttribute a, map id = none) : renameInAttribute map element a = a := by
  have kept : (if a.name == "href" then renameLink? map a.value.text
      else Reference.renameIn? map a.value.text) = none := by
    split
    · next link =>
      refine renameLink?_eq_none fun id had => unknown id (List.mem_append_left _ ?_)
      rw [if_pos link]
      exact Option.mem_toList.mpr had
    · exact Reference.renameIn?_eq_none_iff.mpr fun id listed => unknown id (List.mem_append_right _ listed)
  rw [renameInAttribute, kept]

theorem renameInForeign_eq_self {a : ForeignAttribute} (unknown : ∀ id ∈ idsInForeign a, map id = none) :
    renameInForeign map a = a := by
  rw [renameInForeign]
  split
  · next link =>
    have kept : renameLink? map a.value = none := by
      refine renameLink?_eq_none fun id had => unknown id ?_
      rw [idsInForeign, if_pos link]
      exact Option.mem_toList.mpr had
    rw [kept]
  · rfl

/-! ## Elements -/

/-- The references of an element are renamed as they are counted, unless some `href` has
a `url()` in it: that one is counted, and overwritten with the link or left as it is.
Attributes in which no known id is counted stay. -/
theorem ids_rename_eq_iff (lettered : ∀ id new, map id = some new → Reference.IsLettered new) (e : Element) :
    (ids (rename map e) = (ids e).map (renamedId map) ↔
      ∀ a ∈ e.attributes.items, a.name = "href" → SparesReferences map a.value.text) ∧
    (∀ (i : Nat) a, e.attributes.items[i]? = some a → (∀ id ∈ idsInAttribute a, map id = none) →
      (rename map e).attributes.items[i]? = some a) ∧
    ∀ (i : Nat) a, e.foreign[i]? = some a → (∀ id ∈ idsInForeign a, map id = none) →
      (rename map e).foreign[i]? = some a := by
  refine ⟨?_, fun i a found unknown => ?_, fun i a found unknown => ?_⟩
  · have foreign : (e.foreign.map (renameInForeign map)).flatMap idsInForeign =
        (e.foreign.flatMap idsInForeign).map (renamedId map) := by
      rw [List.flatMap_map, List.map_flatMap]
      exact congrArg (e.foreign.flatMap ·) (funext (idsInForeign_rename lettered))
    have shorter : ∀ a ∈ e.attributes.items,
        (idsInAttribute (renameInAttribute map e.name a)).length ≤ ((idsInAttribute a).map (renamedId map)).length := by
      intro a _
      rw [idsInAttribute_rename, idsInAttribute_eq]
      exact length_idsInText_newText_le lettered a.name a.value.text
    change (e.attributes.items.map (renameInAttribute map e.name)).flatMap idsInAttribute ++
      (e.foreign.map (renameInForeign map)).flatMap idsInForeign = _ ↔ _
    rw [foreign, ids, List.map_append, List.append_cancel_right_eq, List.flatMap_map, List.map_flatMap,
      flatMap_eq_flatMap_iff shorter]
    exact forall₂_congr fun a _ => idsInAttribute_rename_eq_iff lettered e.name a
  · change (e.attributes.items.map (renameInAttribute map e.name))[i]? = some a
    rw [List.getElem?_map, found, Option.map_some, renameInAttribute_eq_self e.name unknown]
  · change (e.foreign.map (renameInForeign map))[i]? = some a
    rw [List.getElem?_map, found, Option.map_some, renameInForeign_eq_self unknown]

end Rename

/-- All four forms of a link get the new id; `class` has none and stays. -/
theorem all_links_get_the_new_id :
    let map := fun id => [("long", "a")].lookup id
    let written := fun name text => Attribute.mk name (.ofAttribute "use" name text)
    let e : Element :=
      { Element.ofName "use" with
        attributes := ⟨[written "href" " #long ", written "fill" "url( '#long') red",
          written "class" "#long", written "style" "a:url(#far) url(#long)"]⟩
        foreign := [⟨some "xlink", "href", some Vocabulary.xlinkNamespace, "#long"⟩] }
    (∀ id new, map id = some new → Reference.IsLettered new) ∧
      ids (rename map e) = ["a", "a", "far", "a", "a"] ∧
      (rename map e).attributes.items[2]? = some (written "class" "#long") := by
  intro map written e
  have lettered : ∀ id new, map id = some new → Reference.IsLettered new := by
    intro id new given
    have all : ∀ entry ∈ [("long", "a")], Reference.IsLettered entry.2 := by decide
    exact all (id, new) (mem_of_lookup_eq_some given)
  have counted : ids e = ["long", "long", "far", "long", "long"] := by decide +kernel
  have spared : ∀ a ∈ e.attributes.items, a.name = "href" → SparesReferences map a.value.text := by decide +kernel
  rcases ids_rename_eq_iff lettered e with ⟨renamed, kept, -⟩
  refine ⟨lettered, ?_, kept 2 _ rfl ?_⟩
  · rw [renamed.mpr spared, counted]
    rfl
  · have none : idsInAttribute (written "class" "#long") = [] := by decide +kernel
    rw [none]
    exact List.forall_mem_nil _

/-- The `url()` in `href` is counted, so the path keeps an id, and it is not renamed with it. -/
theorem reference_in_href_is_not_renamed :
    ∃ doc edit styles out e,
      Document.read "<svg><path id='long'/><use href='url(#long)'/></svg>" none = .ok doc ∧
      cleanupIds.prepare ⟨1, none, .ofDocument doc⟩ .empty = some edit ∧
      Css.Styles.ofDocument doc = .ok styles ∧ edit doc = .ok out ∧ doc.element? ⟨3⟩ = some e ∧
      let plan := IdPlan.ofDocument (.ofParameters .empty) styles doc
      plan.newName? "long" = some "a" ∧ (out.document.element? ⟨2⟩).bind (·.id?) = some "a" ∧
        (ids e).map (renamedId plan.newName?) = ["a"] ∧ ids (rename plan.newName? e) = ["long"] ∧
        (out.document.element? ⟨3⟩).map ids = some ["long"] := by
  have computed : ((Document.read "<svg><path id='long'/><use href='url(#long)'/></svg>"
      none).toOption.bind fun doc =>
        (cleanupIds.prepare ⟨1, none, .ofDocument doc⟩ .empty).bind fun edit =>
          (Css.Styles.ofDocument doc).toOption.bind fun styles => (edit doc).toOption.bind fun out =>
            (doc.element? ⟨3⟩).map fun e =>
              let plan := IdPlan.ofDocument (.ofParameters .empty) styles doc
              decide (plan.newName? "long" = some "a" ∧ (out.document.element? ⟨2⟩).bind (·.id?) = some "a" ∧
                (ids e).map (renamedId plan.newName?) = ["a"] ∧ ids (rename plan.newName? e) = ["long"] ∧
                (out.document.element? ⟨3⟩).map ids = some ["long"])) = some true := by
    decide +kernel
  rcases Option.bind_eq_some_iff.mp computed with ⟨doc, parsed, computed⟩
  rcases Option.bind_eq_some_iff.mp computed with ⟨edit, prepared, computed⟩
  rcases Option.bind_eq_some_iff.mp computed with ⟨styles, collected, computed⟩
  rcases Option.bind_eq_some_iff.mp computed with ⟨out, ran, computed⟩
  rcases Option.map_eq_some_iff.mp computed with ⟨e, found, known⟩
  rw [toOption_eq_some] at parsed collected ran
  exact ⟨doc, edit, styles, out, e, parsed, prepared, collected, ran, found, of_decide_eq_true known⟩

end Link

end Cleanup
end SlimSvg
