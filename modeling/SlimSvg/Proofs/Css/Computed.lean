import SlimSvg.Css.Computed
import SlimSvg.Proofs.Lookup

namespace SlimSvg
namespace Css

/-!
# Looking up and inheriting properties

What a style says of one property follows from what was set for this property
alone, and what it inherits follows from what the parent says of it.
-/

namespace ComputedStyle

/-- Every property is set at most once. -/
def Distinct (style : ComputedStyle) : Prop :=
  (style.entries.map (·.1)).Nodup

/-! ## Setting -/

theorem get?_set_self (style : ComputedStyle) (name : String) (value : ComputedValue) :
    (style.set name value).get? name = some value :=
  List.lookup_cons_self

theorem get?_set_of_ne (style : ComputedStyle) {name other : String} (value : ComputedValue)
    (different : other ≠ name) : (style.set name value).get? other = style.get? other := by
  have kept : (style.remove name).get? other = _ := lookup_filter (· != name) other style.entries
  rw [if_pos (bne_iff_ne.mpr different)] at kept
  exact (lookup_cons_of_ne different value _).trans kept

theorem distinct_empty : empty.Distinct := List.nodup_nil

theorem Distinct.set {style : ComputedStyle} (distinct : style.Distinct) (name : String)
    (value : ComputedValue) : (style.set name value).Distinct := by
  refine List.nodup_cons.mpr ⟨?_, distinct.sublist (List.filter_sublist.map _)⟩
  intro listed
  obtain ⟨entry, kept, same⟩ := List.mem_map.mp listed
  exact bne_iff_ne.mp (List.mem_filter.mp kept).2 same

/-! ## Inheriting -/

theorem entries_resolveExplicit_cons (n : String) (v : ComputedValue)
    (rest : List (String × ComputedValue)) (parent : ComputedStyle) :
    (resolveExplicit ⟨(n, v) :: rest⟩ parent).entries =
      ((if asksParent v then parent.get? n else some v).map fun w => (n, w)).toList ++
        (resolveExplicit ⟨rest⟩ parent).entries := by
  simp only [resolveExplicit, List.filterMap_cons]
  cases asksParent v with
  | false => rfl
  | true => cases parent.get? n <;> rfl

theorem get?_resolveExplicit {style : ComputedStyle} (distinct : style.Distinct)
    (parent : ComputedStyle) (name : String) :
    (style.resolveExplicit parent).get? name =
      (style.get? name).bind fun v => if asksParent v then parent.get? name else some v := by
  obtain ⟨entries⟩ := style
  -- An entry that asks in vain is dropped, and no later entry of its name takes its place.
  induction entries with
  | nil => rfl
  | cons entry rest inductionHypothesis =>
      obtain ⟨n, v⟩ := entry
      obtain ⟨absent, distinctRest⟩ := List.nodup_cons.mp distinct
      have later := inductionHypothesis distinctRest
      rw [get?] at later
      rw [get?, get?, entries_resolveExplicit_cons]
      by_cases same : name = n
      · subst same
        rw [get?, lookup_eq_none_of_notMem absent] at later
        rw [List.lookup_cons_self, Option.bind_some]
        cases (if asksParent v then parent.get? name else some v) with
        | none => exact later
        | some w => exact List.lookup_cons_self
      · rw [lookup_cons_of_ne same, List.lookup_append, later]
        cases (if asksParent v then parent.get? n else some v) with
        | none => rfl
        | some w =>
            have other : [(n, w)].lookup name = none := lookup_cons_of_ne same w []
            rw [Option.map_some, Option.toList_some, other]
            rfl

/-- What a style says of a property after inheriting. -/
theorem get?_inheritFrom {style : ComputedStyle} (distinct : style.Distinct)
    (parent : ComputedStyle) (name : String) :
    (style.inheritFrom parent).get? name =
      match style.get? name with
      | some v => if asksParent v then parent.get? name else some v
      | none => if Vocabulary.isInheritable name then parent.get? name else none := by
  have own := get?_resolveExplicit distinct parent name
  have inherited := lookup_filter
    (fun n => Vocabulary.isInheritable n && !(style.resolveExplicit parent).has n) name
    parent.entries
  have together : (style.inheritFrom parent).get? name =
      ((style.resolveExplicit parent).get? name).or _ := List.lookup_append
  rw [together, inherited, has, own]
  cases style.get? name with
  | none =>
      rw [Option.bind_none, Option.isSome_none, Bool.not_false, Bool.and_true]
      rfl
  | some v =>
      rw [Option.bind_some]
      cases answer : (if asksParent v then parent.get? name else some v) with
      | some w => exact answer.symm
      | none =>
          -- Only a question to the parent stays without an answer.
          have unset : parent.get? name = none := by
            split at answer
            · exact answer
            · cases answer
          rw [Option.none_or, show parent.entries.lookup name = none from unset, ite_self]
          exact answer.symm

end ComputedStyle

end Css
end SlimSvg
