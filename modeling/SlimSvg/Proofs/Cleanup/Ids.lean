import Mathlib.Data.List.Nodup
import SlimSvg.Cleanup.Ids
import SlimSvg.Proofs.Cleanup.ShortName
import SlimSvg.Proofs.Lookup
import SlimSvg.Proofs.Tree.Attributes

namespace SlimSvg
namespace Cleanup

/-!
# A plan for ids joins nothing that was apart

An id that elements have goes away, keeps a name that is not given to others, or
gets a name that was drawn.  Drawn names are different from each other, from the
names that stay and from those of links that lead nowhere.  So no two ids become
one, and no link that led nowhere leads to an element afterwards.
-/

namespace IdCensus

variable {census : IdCensus} {policy : IdPolicy} {id : String}

theorem isReferenced_iff : census.isReferenced id = true ↔ id ∈ census.references := by
  simp [isReferenced, references, or_assoc]

theorem isFixed_iff :
    census.isFixed policy id = true ↔
      policy.preserves id = true ∨ 1 < census.carried.count id := by
  simp [isFixed, isRepeated]

/-- The ids that get short names. -/
def drawing (census : IdCensus) (policy : IdPolicy) : List String :=
  (census.carried.filter (!census.isFixed policy ·)).filter census.isReferenced

/-- The ids with the names that are drawn for them. -/
def drawn (census : IdCensus) (policy : IdPolicy) : List (String × String) :=
  if policy.shorten then
    ShortName.assign (census.takenNames policy) 0 (census.drawing policy)
  else []

theorem mem_drawing :
    id ∈ census.drawing policy ↔
      id ∈ census.carried ∧ census.isFixed policy id = false ∧ census.isReferenced id = true := by
  simp only [drawing, List.mem_filter, Bool.not_eq_true', and_assoc]

theorem notMem_takenNames_of_drawn {new : String} (member : (id, new) ∈ census.drawn policy) :
    new ∉ census.takenNames policy := by
  rw [drawn] at member
  split at member
  · exact ShortName.notMem_taken_of_mem_assign member
  · cases member

theorem mem_drawing_of_drawn {new : String} (member : (id, new) ∈ census.drawn policy) :
    id ∈ census.drawing policy := by
  rw [drawn] at member
  split at member
  · have listed := List.mem_map_of_mem (f := Prod.fst) member
    rw [ShortName.map_fst_assign] at listed
    exact listed
  · cases member

/-- A name is drawn for one id only. -/
theorem eq_of_drawn {other new : String} (first : (id, new) ∈ census.drawn policy)
    (second : (other, new) ∈ census.drawn policy) : id = other := by
  rw [drawn] at first second
  split at first
  · next shorten =>
    rw [if_pos shorten] at second
    have distinct := ShortName.nodup_map_snd_assign (census.takenNames policy) 0
      (census.drawing policy)
    exact congrArg Prod.fst (List.inj_on_of_nodup_map distinct first second rfl)
  · cases first

end IdCensus

namespace IdPlan

variable {census : IdCensus} {policy : IdPolicy} {id new : String}

theorem removed_make :
    (make policy census).removed =
      if policy.remove then
        (census.carried.filter (!census.isFixed policy ·)).filter (!census.isReferenced ·)
      else [] :=
  rfl

theorem renamed_make :
    (make policy census).renamed = (census.drawn policy).filter fun (old, new) => new != old :=
  rfl

theorem mem_removed_make :
    id ∈ (make policy census).removed ↔
      policy.remove = true ∧ id ∈ census.carried ∧ census.isFixed policy id = false ∧
        census.isReferenced id = false := by
  rw [removed_make]
  cases policy.remove <;>
    simp only [if_true, Bool.false_eq_true, if_false, List.not_mem_nil, List.mem_filter,
      Bool.not_eq_true', and_assoc, true_and, false_and]

theorem drawn_of_newName? (renamed : (make policy census).newName? id = some new) :
    (id, new) ∈ census.drawn policy := by
  rw [newName?, renamed_make] at renamed
  exact List.mem_of_mem_filter (mem_of_lookup_eq_some renamed)

/-- An id for which no new name is known keeps a taken name, or drew its own one. -/
theorem taken_or_drawn_of_newName?_eq_none (carried : id ∈ census.carried)
    (stays : id ∉ (make policy census).removed)
    (unnamed : (make policy census).newName? id = none) :
    id ∈ census.takenNames policy ∨ (id, id) ∈ census.drawn policy := by
  by_cases kept : census.isKept policy id = true
  · left
    rw [IdCensus.takenNames]
    exact List.mem_append_right _ (List.mem_filter.mpr ⟨carried, kept⟩)
  · -- What is neither kept nor removed draws a name, and only its own is no new one.
    right
    simp only [IdCensus.isKept, Bool.or_eq_true, Bool.and_eq_true, Bool.not_eq_true', not_or,
      Bool.not_eq_true] at kept
    have loose : census.isFixed policy id = false := kept.1.1
    have referenced : census.isReferenced id = true := by
      by_contra unreferenced
      rw [Bool.not_eq_true] at unreferenced
      have remove : policy.remove = true := by
        by_contra keeps
        exact kept.2 ⟨unreferenced, Bool.not_eq_true _ ▸ keeps⟩
      exact stays (mem_removed_make.mpr ⟨remove, carried, loose, unreferenced⟩)
    have shorten : policy.shorten = true := by
      by_contra keeps
      exact kept.1.2 ⟨referenced, Bool.not_eq_true _ ▸ keeps⟩
    have drawing : id ∈ census.drawing policy := IdCensus.mem_drawing.mpr ⟨carried, loose, referenced⟩
    have assigned : ∃ new, (id, new) ∈ census.drawn policy := by
      rw [IdCensus.drawn, if_pos shorten]
      rw [← ShortName.map_fst_assign (census.takenNames policy) 0 (census.drawing policy)] at drawing
      rcases List.mem_map.mp drawing with ⟨⟨old, new⟩, member, same⟩
      exact ⟨new, same ▸ member⟩
    rcases assigned with ⟨new, member⟩
    by_cases same : new = id
    · rw [same] at member
      exact member
    · have renamed : (id, new) ∈ (make policy census).renamed := by
        rw [renamed_make]
        exact List.mem_filter.mpr ⟨member, bne_iff_ne.mpr same⟩
      have found := lookup_isSome_of_mem renamed
      rw [show (make policy census).renamed.lookup id = none from unnamed] at found
      cases found

/-- The new id of an element is a taken name that it had before, or it was drawn. -/
theorem taken_or_drawn (carried : id ∈ census.carried)
    (becomes : (make policy census).newId? id = some new) :
    (new = id ∧ id ∈ census.takenNames policy) ∨ (id, new) ∈ census.drawn policy := by
  rw [newId?] at becomes
  split at becomes
  · cases becomes
  · next stays =>
    rw [List.contains_iff_mem] at stays
    cases named : (make policy census).newName? id with
    | some other =>
        rw [named] at becomes
        rw [← Option.some.inj becomes]
        exact Or.inr (drawn_of_newName? named)
    | none =>
        rw [named] at becomes
        rw [← Option.some.inj becomes]
        rcases taken_or_drawn_of_newName?_eq_none carried stays named with taken | drawn
        · exact Or.inl ⟨rfl, taken⟩
        · exact Or.inr drawn

/-- Different ids stay different. -/
theorem eq_of_newId?_eq {other : String} (carried : id ∈ census.carried)
    (otherCarried : other ∈ census.carried) (becomes : (make policy census).newId? id = some new)
    (otherBecomes : (make policy census).newId? other = some new) : id = other := by
  rcases taken_or_drawn carried becomes with ⟨same, taken⟩ | drawn
  · rcases taken_or_drawn otherCarried otherBecomes with ⟨otherSame, -⟩ | otherDrawn
    · exact same.symm.trans otherSame
    · rw [← same] at taken
      exact absurd taken (IdCensus.notMem_takenNames_of_drawn otherDrawn)
  · rcases taken_or_drawn otherCarried otherBecomes with ⟨otherSame, taken⟩ | otherDrawn
    · rw [← otherSame] at taken
      exact absurd taken (IdCensus.notMem_takenNames_of_drawn drawn)
    · exact IdCensus.eq_of_drawn drawn otherDrawn

/-- A link that leads nowhere leads nowhere afterwards. -/
theorem newId?_ne_of_dangling {missing : String} (referenced : missing ∈ census.references)
    (absent : missing ∉ census.carried) (carried : id ∈ census.carried) :
    (make policy census).newId? id ≠ some missing := by
  intro becomes
  have taken : missing ∈ census.takenNames policy := by
    rw [IdCensus.takenNames]
    refine List.mem_append_left _ (List.mem_filter.mpr ⟨referenced, ?_⟩)
    simpa using absent
  rcases taken_or_drawn carried becomes with ⟨same, -⟩ | drawn
  · rw [same] at absent
    exact absent carried
  · exact IdCensus.notMem_takenNames_of_drawn drawn taken

theorem newId?_isSome_of_referenced (referenced : id ∈ census.references) :
    ((make policy census).newId? id).isSome := by
  have stays : (make policy census).removed.contains id = false := by
    rw [← Bool.not_eq_true, List.contains_iff_mem, mem_removed_make]
    intro goes
    rw [IdCensus.isReferenced_iff.mpr referenced] at goes
    exact Bool.noConfusion goes.2.2.2
  rw [newId?, stays]
  rfl

theorem newId?_eq_self_of_fixed (fixed : census.isFixed policy id = true) :
    (make policy census).newId? id = some id := by
  have stays : (make policy census).removed.contains id = false := by
    rw [← Bool.not_eq_true, List.contains_iff_mem, mem_removed_make, fixed]
    exact fun goes => Bool.noConfusion goes.2.2.1
  have unnamed : (make policy census).newName? id = none := by
    cases named : (make policy census).newName? id with
    | none => rfl
    | some other =>
        have drawing := IdCensus.mem_drawing.mp (IdCensus.mem_drawing_of_drawn (drawn_of_newName? named))
        rw [fixed] at drawing
        exact Bool.noConfusion drawing.2.1
  rw [newId?, stays, unnamed]
  rfl

/-- An element gets the new id, or none. -/
theorem id?_editElement (plan : IdPlan) {e : Element}
    (distinct : (e.attributes.items.map (·.name)).Nodup) :
    (plan.editElement e).id? = e.id?.bind plan.newId? := by
  rw [editElement]
  cases had : e.id? with
  | none => exact had
  | some id =>
      rw [Option.bind_some]
      dsimp only
      cases becomes : plan.newId? id with
      | none =>
          rw [Element.id?, Element.attributeText?, Element.attribute?_removeAttribute_self distinct]
          rfl
      | some new =>
          dsimp only
          split
          · next same => rw [had, eq_of_beq same]
          · rw [Element.id?, Element.attributeText?, Element.attribute?_setAttribute_self]
            rfl

/-- Whatever ids nodes have and whatever refers to them: elements get the ids of the
plan, and every search for a name ends at the first free one; nodes with different ids
have different ids afterwards or one of them has none; an id that is referred to and
that no node has is given to no node; an id that is referred to is not taken away, and
preserved and repeated ids stay. -/
theorem newId?_make_keeps_apart (policy : IdPolicy) (nodes : List (NodeId × String))
    (linked declared selected : List String) :
    let census : IdCensus := ⟨nodes.map (·.2), linked, declared, selected⟩
    let plan := make policy census
    let taken := census.takenNames policy
    (∀ e : Element, (e.attributes.items.map (·.name)).Nodup →
        (plan.editElement e).id? = e.id?.bind plan.newId?) ∧
      (∀ n, ShortName.FirstFree taken n (ShortName.freeFrom taken taken.length n)) ∧
      (∀ a ∈ nodes, ∀ b ∈ nodes, a.2 ≠ b.2 →
        plan.newId? a.2 = none ∨ plan.newId? b.2 = none ∨ plan.newId? a.2 ≠ plan.newId? b.2) ∧
      (∀ id ∈ linked ++ declared ++ selected, (∀ a ∈ nodes, a.2 ≠ id) →
        ∀ a ∈ nodes, plan.newId? a.2 ≠ some id) ∧
      (∀ a ∈ nodes, a.2 ∈ linked ++ declared ++ selected → plan.newId? a.2 ≠ none) ∧
      ∀ a ∈ nodes, policy.preserves a.2 = true ∨ 1 < (nodes.map (·.2)).count a.2 →
        plan.newId? a.2 = some a.2 := by
  intro census plan taken
  have carried : ∀ a ∈ nodes, a.2 ∈ census.carried := fun a listed => List.mem_map_of_mem listed
  refine ⟨fun _ => plan.id?_editElement, ShortName.firstFree_freeFrom taken, ?_, ?_, ?_, ?_⟩
  · intro a aListed b bListed different
    cases becomes : plan.newId? a.2 with
    | none => exact Or.inl rfl
    | some new =>
        right
        right
        intro same
        exact different (eq_of_newId?_eq (carried a aListed) (carried b bListed) becomes same.symm)
  · intro id referenced absent a listed
    have dangling : id ∉ census.carried := by
      intro present
      rcases List.mem_map.mp present with ⟨b, bListed, same⟩
      exact absent b bListed same
    exact newId?_ne_of_dangling referenced dangling (carried a listed)
  · intro a _ referenced
    exact Option.isSome_iff_ne_none.mp (newId?_isSome_of_referenced referenced)
  · intro a _ fixed
    exact newId?_eq_self_of_fixed (IdCensus.isFixed_iff.mpr fixed)

/-- The name `a` leads nowhere and is passed over, so the id gets the next one. -/
theorem dangling_name_is_not_drawn :
    let nodes : List (NodeId × String) := [(⟨1⟩, "unused"), (⟨2⟩, "long")]
    let plan := make ⟨true, true, [], []⟩ ⟨nodes.map (·.2), ["long", "a"], [], []⟩
    plan.newId? "long" = some "b" ∧ plan.newId? "long" ≠ some "a" := by
  intro nodes plan
  have apart := newId?_make_keeps_apart ⟨true, true, [], []⟩ nodes ["long", "a"] [] []
  refine ⟨by decide +kernel, ?_⟩
  exact apart.2.2.2.1 "a" (by decide) (by decide) (⟨2⟩, "long") (by decide)

end IdPlan

end Cleanup
end SlimSvg
