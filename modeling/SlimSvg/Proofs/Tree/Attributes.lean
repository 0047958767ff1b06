import Mathlib.Data.List.Nodup
import SlimSvg.Tree.Element

namespace SlimSvg

/-!
# Attributes after an edit

An edit of one attribute is not seen by those who ask for another one.  Removing
takes away the first attribute of a name; where names occur once, none is left.
-/

namespace Attributes

variable {attributes : Attributes} {name other : String}

theorem find?_name_cons (name : String) (a : Attribute) (rest : List Attribute) :
    (a :: rest).find? (·.name == name) =
      if a.name = name then some a else rest.find? (·.name == name) := by
  rw [List.find?_cons]
  by_cases same : a.name = name
  · rw [if_pos same, beq_iff_eq.mpr same]
  · rw [if_neg same, beq_false_of_ne same]

theorem eraseP_name_cons (name : String) (a : Attribute) (rest : List Attribute) :
    (a :: rest).eraseP (·.name == name) =
      if a.name = name then rest else a :: rest.eraseP (·.name == name) := by
  rw [List.eraseP_cons]
  by_cases same : a.name = name
  · rw [if_pos same, beq_iff_eq.mpr same]
    rfl
  · rw [if_neg same, beq_false_of_ne same]
    rfl

theorem has_eq_isSome_get? (attributes : Attributes) (name : String) :
    attributes.has name = (attributes.get? name).isSome := by
  rw [has, get?, Option.isSome_map, List.isSome_find?]

theorem find?_replaceFirst_self (value : AttributeValue) {items : List Attribute}
    (present : (items.any (·.name == name)) = true) :
    ((replaceFirst name value items).find? (·.name == name)).map (·.value) = some value := by
  induction items with
  | nil => cases present
  | cons a rest inductionHypothesis =>
      rw [replaceFirst]
      split
      · next here =>
        rw [find?_name_cons, if_pos (eq_of_beq here)]
        rfl
      · next further =>
        rw [List.any_cons, Bool.eq_false_iff.mpr further, Bool.false_or] at present
        rw [find?_name_cons, if_neg fun same => further (beq_iff_eq.mpr same)]
        exact inductionHypothesis present

theorem find?_replaceFirst_of_ne (value : AttributeValue) (different : other ≠ name)
    (items : List Attribute) :
    (replaceFirst name value items).find? (·.name == other) = items.find? (·.name == other) := by
  induction items with
  | nil => rfl
  | cons a rest inductionHypothesis =>
      rw [replaceFirst]
      split
      · next here =>
        have stranger : a.name ≠ other := fun same => different (same.symm.trans (eq_of_beq here))
        rw [find?_name_cons, find?_name_cons, if_neg stranger, if_neg stranger]
      · rw [find?_name_cons, find?_name_cons, inductionHypothesis]

theorem get?_insert_self (attributes : Attributes) (name : String) (value : AttributeValue) :
    (attributes.insert name value).get? name = some value := by
  rw [insert]
  split
  · next present => exact find?_replaceFirst_self value present
  · next absent =>
    have missing : attributes.items.find? (·.name == name) = none := by
      rw [List.find?_eq_none]
      intro a listed same
      exact absent (List.any_eq_true.mpr ⟨a, listed, same⟩)
    rw [get?, List.find?_append, missing, Option.none_or, find?_name_cons, if_pos rfl]
    rfl

theorem get?_insert_of_ne (attributes : Attributes) (value : AttributeValue)
    (different : other ≠ name) : (attributes.insert name value).get? other = attributes.get? other := by
  rw [insert]
  split
  · rw [get?, find?_replaceFirst_of_ne value different, get?]
  · rw [get?, List.find?_append, find?_name_cons, if_neg (Ne.symm different), List.find?_nil,
      Option.or_none, get?]

theorem get?_remove_of_ne (attributes : Attributes) (different : other ≠ name) :
    (attributes.remove name).get? other = attributes.get? other := by
  have found : (attributes.items.eraseP (·.name == name)).find? (·.name == other) =
      attributes.items.find? (·.name == other) := by
    induction attributes.items with
    | nil => rfl
    | cons a rest inductionHypothesis =>
        by_cases here : a.name = name
        · have stranger : a.name ≠ other := fun same => different (same.symm.trans here)
          rw [eraseP_name_cons, if_pos here, find?_name_cons, if_neg stranger]
        · rw [eraseP_name_cons, if_neg here, find?_name_cons, find?_name_cons, inductionHypothesis]
  rw [remove, get?, found, get?]

theorem get?_remove_self (distinct : (attributes.items.map (·.name)).Nodup) :
    (attributes.remove name).get? name = none := by
  have missing : (attributes.items.eraseP (·.name == name)).find? (·.name == name) = none := by
    generalize attributes.items = items at distinct
    induction items with
    | nil => rfl
    | cons a rest inductionHypothesis =>
        rcases List.nodup_cons.mp distinct with ⟨once, further⟩
        rw [eraseP_name_cons]
        split
        · next here =>
          rw [List.find?_eq_none]
          intro b listed same
          exact once (List.mem_map.mpr ⟨b, listed, (eq_of_beq same).trans here.symm⟩)
        · next behind =>
          rw [find?_name_cons, if_neg behind]
          exact inductionHypothesis further
  rw [remove, get?, missing, Option.map_none]

/-- An attribute that is kept under its name is found as before. -/
theorem get?_retain_of_kept {keep : Attribute → Bool}
    (kept : ∀ a ∈ attributes.items, a.name = name → keep a = true) :
    (attributes.retain keep).get? name = attributes.get? name := by
  have found : (attributes.items.filter keep).find? (·.name == name) =
      attributes.items.find? (·.name == name) := by
    generalize attributes.items = items at kept
    induction items with
    | nil => rfl
    | cons a rest inductionHypothesis =>
        have later := inductionHypothesis fun b listed => kept b (List.mem_cons_of_mem a listed)
        by_cases keeps : keep a = true
        · rw [List.filter_cons_of_pos keeps, find?_name_cons, find?_name_cons, later]
        · have stranger : a.name ≠ name := fun same => keeps (kept a List.mem_cons_self same)
          rw [List.filter_cons_of_neg keeps, find?_name_cons, if_neg stranger, later]
  rw [retain, get?, found, get?]

/-- A name of which all attributes are dropped is not found any more. -/
theorem get?_retain_of_all_dropped {keep : Attribute → Bool}
    (dropped : ∀ a ∈ attributes.items, a.name = name → keep a = false) :
    (attributes.retain keep).get? name = none := by
  rw [retain, get?, Option.map_eq_none_iff, List.find?_eq_none]
  intro a kept same
  rcases List.mem_filter.mp kept with ⟨among, keeps⟩
  rw [dropped a among (eq_of_beq same)] at keeps
  cases keeps

/-- An attribute that is dropped is not found any more. -/
theorem get?_retain_of_dropped {keep : Attribute → Bool} (distinct : (attributes.items.map (·.name)).Nodup)
    {a : Attribute} (listed : a ∈ attributes.items) (dropped : keep a = false) :
    (attributes.retain keep).get? a.name = none := by
  apply get?_retain_of_all_dropped
  intro b among same
  have equal : b = a := List.inj_on_of_nodup_map distinct among listed same
  rw [equal]
  exact dropped

/-- A listed attribute is found by its name. -/
theorem get?_of_mem (distinct : (attributes.items.map (·.name)).Nodup) {a : Attribute}
    (listed : a ∈ attributes.items) : attributes.get? a.name = some a.value := by
  cases found : attributes.items.find? (·.name == a.name) with
  | none =>
      rw [List.find?_eq_none] at found
      exact absurd (beq_self_eq_true a.name) (found a listed)
  | some b =>
      have named : (b.name == a.name) = true := List.find?_some (p := fun c : Attribute => c.name == a.name) found
      have same := List.inj_on_of_nodup_map distinct (List.mem_of_find?_eq_some found) listed
        (eq_of_beq named)
      rw [get?, found, same]
      rfl

end Attributes

namespace Element

variable {e : Element} {name other : String}

theorem attribute?_setAttribute_self (e : Element) (name text : String) :
    (e.setAttribute name text).attribute? name = some (.ofAttribute e.name name text) :=
  Attributes.get?_insert_self e.attributes name _

theorem attribute?_setAttribute_of_ne (e : Element) (text : String) (different : other ≠ name) :
    (e.setAttribute name text).attribute? other = e.attribute? other :=
  Attributes.get?_insert_of_ne e.attributes _ different

theorem attribute?_removeAttribute_self (distinct : (e.attributes.items.map (·.name)).Nodup) :
    (e.removeAttribute name).attribute? name = none :=
  Attributes.get?_remove_self distinct

theorem attribute?_removeAttribute_of_ne (e : Element) (different : other ≠ name) :
    (e.removeAttribute name).attribute? other = e.attribute? other :=
  Attributes.get?_remove_of_ne e.attributes different

end Element

end SlimSvg
