import SlimSvg.Proofs.Lookup
import SlimSvg.Proofs.Value.SteadyValues

namespace SlimSvg
namespace Declarations

open DeclarationScan (Entry)

/-!
# Filling a block

A block that is filled by the cascade is known from the declarations alone.  Its properties
are those that were declared, in the order in which they first appeared, and each of them
has its last important declaration, or just its last one if none is important.  Whatever is
done to the block afterwards, no property is declared twice.
-/

/-- Add declarations one after the other. -/
def cascadeAll (block : Declarations) (entries : List Entry) : Declarations :=
  entries.foldl (fun block entry => block.cascade entry.name entry.value entry.important) block

theorem cascadeAll_concat (block : Declarations) (entries : List Entry) (entry : Entry) :
    block.cascadeAll (entries ++ [entry]) =
      (block.cascadeAll entries).cascade entry.name entry.value entry.important :=
  List.foldl_concat _ _ _ _

/-! ## One declaration -/

section Declare

variable {block : Declarations} {name : String}

theorem has_iff : block.has name = true ↔ name ∈ block.items.map (·.1) := by
  simp only [has, List.any_eq_true, List.mem_map, beq_iff_eq]

theorem lookup_updateFirst (change : Declaration → Declaration) (items : List (String × Declaration))
    (asked : String) :
    (updateFirst name change items).lookup asked =
      if asked = name then (items.lookup asked).map change else items.lookup asked := by
  induction items with
  | nil => exact (ite_self none).symm
  | cons item rest inductionHypothesis =>
      obtain ⟨other, d⟩ := item
      rw [updateFirst]
      by_cases here : other = name
      · subst here
        rw [if_pos (beq_self_eq_true other)]
        by_cases same : asked = other
        · subst same
          rw [if_pos rfl, List.lookup_cons_self, List.lookup_cons_self, Option.map_some]
        · rw [if_neg same, lookup_cons_of_ne same, lookup_cons_of_ne same]
      · rw [if_neg (beq_eq_false_iff_ne.mpr here ▸ Bool.false_ne_true)]
        by_cases same : asked = other
        · subst same
          rw [if_neg here, List.lookup_cons_self, List.lookup_cons_self]
        · rw [lookup_cons_of_ne same, lookup_cons_of_ne same, inductionHypothesis]

/-- A property that is declared gets a changed declaration, one that is not a new one. -/
theorem get?_declare (new : Declaration) (change : Declaration → Declaration) (asked : String) :
    (block.declare name new change).get? asked =
      if asked = name then some ((block.get? name).elim new change) else block.get? asked := by
  rw [declare]
  split
  · next declared =>
    rw [get?, lookup_updateFirst]
    split
    · next same =>
      subst same
      rcases List.mem_map.mp (has_iff.mp declared) with ⟨⟨other, d⟩, listed, rfl⟩
      rcases Option.isSome_iff_exists.mp (lookup_isSome_of_mem listed) with ⟨old, found⟩
      rw [get?, found]
      rfl
    · rfl
  · next absent =>
    rw [has_iff] at absent
    rw [get?, List.lookup_append]
    split
    · next same =>
      subst same
      rw [get?, lookup_eq_none_of_notMem absent, List.lookup_cons_self]
      rfl
    · next other =>
      rw [lookup_cons_of_ne other, List.lookup_nil, Option.or_none]
      rfl

/-- A property keeps its place, and a new one is put behind the others. -/
theorem names_declare (new : Declaration) (change : Declaration → Declaration) :
    (block.declare name new change).items.map (·.1) =
      if name ∈ block.items.map (·.1) then block.items.map (·.1) else block.items.map (·.1) ++ [name] := by
  rw [declare]
  split
  · next declared => rw [if_pos (has_iff.mp declared), map_fst_updateFirst]
  · next absent => rw [if_neg fun listed => absent (has_iff.mpr listed), List.map_append, List.map_singleton]

end Declare

/-! ## The declaration that wins -/

/-- What an entry declares. -/
def declared (entry : Entry) : Declaration :=
  ⟨entry.value, entry.important⟩

/-- The last important declaration of a property, or its last one if none is important. -/
def winner? (entries : List Entry) (name : String) : Option Declaration :=
  let own := entries.filter (·.name == name)
  ((own.filter (·.important)).getLast?.or own.getLast?).map declared

theorem winner?_concat (entries : List Entry) (entry : Entry) (name : String) :
    winner? (entries ++ [entry]) name =
      if name = entry.name then
        some ((winner? entries name).elim (declared entry) fun old =>
          if old.important && !entry.important then old else declared entry)
      else winner? entries name := by
  split
  · next same =>
    subst same
    have own : (entries ++ [entry]).filter (·.name == entry.name) =
        entries.filter (·.name == entry.name) ++ [entry] := by
      rw [List.filter_append, List.filter_singleton, beq_self_eq_true]
      rfl
    rw [winner?, winner?, own]
    generalize entries.filter (·.name == entry.name) = earlier
    rw [List.filter_append, List.filter_singleton]
    cases marked : entry.important with
    | true =>
        -- An important entry wins against everything before it.
        have kept (old : Declaration) : (if old.important && !true then old else declared entry) = declared entry := by
          rw [Bool.not_true, Bool.and_false]
          rfl
        simp only [cond_true, List.getLast?_append, List.getLast?_singleton, Option.some_or, Option.map_some, kept]
        cases _ : (((earlier.filter (·.important)).getLast?.or earlier.getLast?).map declared) <;> rfl
    | false =>
        rw [cond_false, List.append_nil, List.getLast?_append, List.getLast?_singleton, Option.some_or]
        cases important : (earlier.filter (·.important)).getLast? with
        | some old =>
            have oldMarked := (List.mem_filter.mp (List.mem_of_getLast? important)).2
            rw [Option.some_or, Option.some_or, Option.map_some]
            change _ = some (if old.important && !false then declared old else declared entry)
            rw [oldMarked]
            rfl
        | none =>
            rw [Option.none_or, Option.none_or, Option.map_some]
            cases last : earlier.getLast? with
            | none => rfl
            | some old =>
                have noneMarked := List.getLast?_eq_none_iff.mp important
                have oldPlain : old.important = false := by
                  rw [← Bool.not_eq_true]
                  exact List.filter_eq_nil_iff.mp noneMarked old (List.mem_of_getLast? last)
                rw [Option.map_some]
                change _ = some (if old.important && !false then declared old else declared entry)
                rw [oldPlain]
                rfl
  · next other =>
    have foreign : (entry.name == name) = false := beq_false_of_ne (Ne.symm other)
    have own : (entries ++ [entry]).filter (·.name == name) = entries.filter (·.name == name) := by
      rw [List.filter_append, List.filter_singleton, foreign]
      exact List.append_nil _
    rw [winner?, winner?, own]

/-! ## All declarations -/

section CascadeAll

variable (entries : List Entry)

/-- The properties of a block stand in the order in which they first appeared. -/
theorem names_cascadeAll : (empty.cascadeAll entries).items.map (·.1) = (entries.map (·.name)).eraseDups := by
  induction entries using List.reverseRecOn with
  | nil => rfl
  | append_singleton entries entry inductionHypothesis =>
      rw [cascadeAll_concat, cascade, names_declare, inductionHypothesis, List.map_append, List.map_singleton,
        eraseDups_concat]
      exact if_congr List.mem_eraseDups rfl rfl

/-- Every property of a block has the declaration that wins. -/
theorem get?_cascadeAll (name : String) : (empty.cascadeAll entries).get? name = winner? entries name := by
  induction entries using List.reverseRecOn with
  | nil => rfl
  | append_singleton entries entry inductionHypothesis =>
      rw [cascadeAll_concat, cascade, get?_declare, winner?_concat]
      split
      · next same =>
        subst same
        rw [inductionHypothesis]
        rfl
      · exact inductionHypothesis

theorem distinct_cascadeAll {block : Declarations} (distinct : block.Distinct) :
    (block.cascadeAll entries).Distinct := by
  induction entries using List.reverseRecOn with
  | nil => exact distinct
  | append_singleton entries entry inductionHypothesis =>
      rw [cascadeAll_concat]
      exact inductionHypothesis.declare _ _ _

end CascadeAll

/-! ## Edits -/

/-- What can be done to a block.  As properties are distinct, some test of them leaves any part
of a block that is to be kept. -/
inductive Edit where
  | cascade (name value : String) (important : Bool)
  | insert (name value : String) (important : Bool)
  | remove (name : String)
  | retain (keep : String → Declaration → Bool)
  | modify (name : String) (change : Declaration → Declaration)
  | minifyValues

def Edit.apply (block : Declarations) : Edit → Declarations
  | cascade name value important => block.cascade name value important
  | insert name value important => block.insert name value important
  | remove name => block.remove name
  | retain keep => block.retain keep
  | modify name change => block.modify name change
  | minifyValues => block.minifyValues

/-- No edit declares a property twice. -/
theorem Distinct.edit {block : Declarations} (distinct : block.Distinct) (edit : Edit) :
    (edit.apply block).Distinct := by
  cases edit with
  | cascade name value important => exact distinct.declare name _ _
  | insert name value important => exact distinct.declare name _ _
  | remove name => exact distinct.sublist (List.eraseP_sublist.map _)
  | retain keep => exact distinct.sublist (List.filter_sublist.map _)
  | modify name change =>
      rw [Edit.apply, modify, Distinct, map_fst_updateFirst]
      exact distinct
  | minifyValues => exact distinct_minifyValues distinct

theorem Distinct.edits {block : Declarations} (distinct : block.Distinct) (edits : List Edit) :
    (edits.foldl Edit.apply block).Distinct := by
  induction edits generalizing block with
  | nil => exact distinct
  | cons edit rest inductionHypothesis => exact inductionHypothesis (distinct.edit edit)

/-- A block that is filled from nothing lists every declared property once, by first
appearance, with the declaration that wins; and no edits declare a property twice. -/
theorem filled_block_lists_winners (entries : List Entry) (edits : List Edit) :
    let block := empty.cascadeAll entries
    block.Distinct ∧ block.items.map (·.1) = (entries.map (·.name)).eraseDups ∧
      (∀ name, block.get? name = winner? entries name) ∧ (edits.foldl Edit.apply block).Distinct := by
  have distinct : (empty.cascadeAll entries).Distinct := distinct_cascadeAll entries List.nodup_nil
  exact ⟨distinct, names_cascadeAll entries, get?_cascadeAll entries, distinct.edits edits⟩

example : (empty.cascadeAll [⟨"a", "1", true⟩, ⟨"b", "2", false⟩, ⟨"a", "3", false⟩]).items =
    [("a", ⟨"1", true⟩), ("b", ⟨"2", false⟩)] := by decide

end Declarations
end SlimSvg
