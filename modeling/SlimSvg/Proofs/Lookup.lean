import Mathlib.Data.List.Induction
import Mathlib.Data.List.Nodup

namespace SlimSvg

/-!
# Lists of names with values

The first entry of a name counts.  Where every name occurs once, it is the only
one.
-/

variable {β : Type}

theorem lookup_cons_of_ne {name other : String} (different : name ≠ other) (value : β)
    (rest : List (String × β)) : ((other, value) :: rest).lookup name = rest.lookup name := by
  rw [List.lookup_cons, beq_false_of_ne different]

theorem lookup_eq_none_of_notMem {name : String} {entries : List (String × β)}
    (absent : name ∉ entries.map (·.1)) : entries.lookup name = none := by
  rw [List.lookup_eq_none_iff]
  intro entry listed
  apply bne_iff_ne.mpr
  intro same
  exact absent (List.mem_map.mpr ⟨entry, listed, same.symm⟩)

theorem mem_of_lookup_eq_some {name : String} {value : β} {entries : List (String × β)}
    (found : entries.lookup name = some value) : (name, value) ∈ entries := by
  rcases List.lookup_eq_some_iff.mp found with ⟨before, after, split, -⟩
  rw [split]
  exact List.mem_append_right _ List.mem_cons_self

theorem lookup_isSome_of_mem {name : String} {value : β} {entries : List (String × β)}
    (listed : (name, value) ∈ entries) : (entries.lookup name).isSome := by
  rw [List.lookup_isSome_iff]
  exact ⟨(name, value), listed, beq_self_eq_true name⟩

/-- Where every name occurs once, each entry is found. -/
theorem lookup_eq_some_of_mem {name : String} {value : β} {entries : List (String × β)}
    (distinct : (entries.map (·.1)).Nodup) (listed : (name, value) ∈ entries) :
    entries.lookup name = some value := by
  rcases Option.isSome_iff_exists.mp (lookup_isSome_of_mem listed) with ⟨other, found⟩
  have same := List.inj_on_of_nodup_map distinct (mem_of_lookup_eq_some found) listed rfl
  exact found.trans (congrArg (fun entry => some entry.2) same)

/-- A name that is not there yet can be put at the end. -/
theorem nodup_map_append_singleton {α : Type} {key : α → String} {items : List α} {new : α}
    (distinct : (items.map key).Nodup) (absent : ¬ (items.any fun a => key a == key new) = true) :
    ((items ++ [new]).map key).Nodup := by
  rw [List.map_append]
  refine List.nodup_append.mpr ⟨distinct, List.pairwise_singleton _ _, ?_⟩
  intro name listed other last same
  obtain ⟨a, member, named⟩ := List.mem_map.mp listed
  apply absent
  rw [List.any_eq_true]
  refine ⟨a, member, beq_iff_eq.mpr ?_⟩
  rw [named, same, List.mem_singleton.mp last]

/-- A filter on names either changes nothing for a name or leaves nothing of it. -/
theorem lookup_filter (keep : String → Bool) (name : String) (entries : List (String × β)) :
    (entries.filter fun (n, _) => keep n).lookup name =
      if keep name then entries.lookup name else none := by
  induction entries with
  | nil => exact (ite_self none).symm
  | cons entry rest inductionHypothesis =>
      obtain ⟨other, value⟩ := entry
      have step : ((other, value) :: rest).filter (fun (n, _) => keep n) =
          if keep other then (other, value) :: rest.filter (fun (n, _) => keep n)
          else rest.filter (fun (n, _) => keep n) := List.filter_cons
      rw [step]
      by_cases same : name = other
      · subst same
        cases kept : keep name with
        | true => exact List.lookup_cons_self.trans List.lookup_cons_self.symm
        | false => exact inductionHypothesis.trans (by rw [kept]; rfl)
      · rw [lookup_cons_of_ne same, ← inductionHypothesis]
        split
        · exact lookup_cons_of_ne same value _
        · rfl

/-! ## Lists without repetitions -/

section Repetitions

variable {α : Type} [DecidableEq α]

theorem eraseDups_concat (items : List α) (new : α) :
    (items ++ [new]).eraseDups = if new ∈ items then items.eraseDups else items.eraseDups ++ [new] := by
  rw [List.eraseDups_append]
  split
  · next known =>
    have gone : [new].removeAll items = [] := by simpa [List.removeAll] using known
    rw [gone]
    exact List.append_nil _
  · next unknown =>
    have stays : [new].removeAll items = [new] := by simpa [List.removeAll] using unknown
    rw [stays]
    rfl

theorem nodup_eraseDups (items : List α) : items.eraseDups.Nodup := by
  induction items using List.reverseRecOn with
  | nil => exact List.nodup_nil
  | append_singleton items new inductionHypothesis =>
      rw [eraseDups_concat]
      split
      · exact inductionHypothesis
      · next unknown =>
        refine List.nodup_append.mpr ⟨inductionHypothesis, List.nodup_singleton _, ?_⟩
        intro item listed other last same
        rw [same, List.mem_singleton.mp last] at listed
        exact unknown (List.mem_eraseDups.mp listed)

end Repetitions

end SlimSvg
