import Mathlib.Data.List.Induction
import Mathlib.Data.List.Nodup
import SlimSvg.Optimize.Config
import SlimSvg.Proofs.Attempt

namespace SlimSvg
namespace Optimize

/-!
# The plugins that run

A configuration lists plugins in three places, and further names are put behind the main
ones.  A name is put there only if neither the plugins before the main ones nor the main
ones have it.  The plugins behind the main ones are not asked, so a name that stands among
them and is enabled runs twice.  Apart from that every plugin that is listed or enabled, and
not disabled, runs once and in its place.
-/

namespace PluginRef

/-- A plugin that is found has the name it was asked for by. -/
theorem name_of_resolve {r : PluginRef} {plugin : Plugin} (found : r.resolve = .ok plugin) : plugin.name = r.name := by
  cases r with
  | custom given => rw [← Except.ok.inj found, name]
  | named asked =>
      rw [resolve] at found
      split at found
      · next first known =>
        rw [← Except.ok.inj found, name]
        have same := List.find?_some (p := fun plugin : Plugin => plugin.name == asked) known
        exact beq_iff_eq.mp same
      · cases found

end PluginRef

namespace Config

/-- All plugins that are listed, in the order of the three lists. -/
def listed (config : Config) : List PluginRef :=
  config.pre ++ config.main ++ config.post

/-- Whether a plugin may run. -/
def permits (config : Config) (r : PluginRef) : Bool :=
  !config.disable.contains r.name

/-! ## Enabled names -/

theorem enableIn_of_mem {refs : List PluginRef} {name : String} (known : name ∈ refs.map PluginRef.name) :
    enableIn refs name = refs := by
  obtain ⟨r, among, same⟩ := List.mem_map.mp known
  have found : (refs.any fun r => r.name == name) = true := List.any_eq_true.mpr ⟨r, among, beq_iff_eq.mpr same⟩
  exact if_pos found

theorem enableIn_of_notMem {refs : List PluginRef} {name : String} (unknown : name ∉ refs.map PluginRef.name) :
    enableIn refs name = refs ++ [.named name] := by
  have missing : ¬(refs.any fun r => r.name == name) = true := by
    intro found
    obtain ⟨r, among, same⟩ := List.any_eq_true.mp found
    exact unknown (List.mem_map.mpr ⟨r, among, beq_iff_eq.mp same⟩)
  exact if_neg missing

/-- Enabling puts the names that are new behind a list, each of them once. -/
theorem exists_foldl_enableIn (refs : List PluginRef) (enable : List String) :
    ∃ added : List String, enable.foldl enableIn refs = refs ++ added.map PluginRef.named ∧ added.Nodup ∧
      ∀ name, name ∈ added ↔ name ∈ enable ∧ name ∉ refs.map PluginRef.name := by
  induction enable using List.reverseRecOn with
  | nil => exact ⟨[], by simp, List.nodup_nil, by simp⟩
  | append_singleton enable last inductionHypothesis =>
      obtain ⟨added, foldEq, distinct, mem_added⟩ := inductionHypothesis
      rw [List.foldl_append, foldEq]
      change ∃ more, enableIn (refs ++ added.map PluginRef.named) last = _ ∧ _
      have names : (refs ++ added.map PluginRef.named).map PluginRef.name = refs.map PluginRef.name ++ added := by
        simp [Function.comp_def, PluginRef.name]
      by_cases known : last ∈ refs.map PluginRef.name ++ added
      · refine ⟨added, enableIn_of_mem (names ▸ known), distinct, fun name => ?_⟩
        rw [mem_added, List.mem_append, List.mem_singleton]
        constructor
        · exact fun ⟨asked, new⟩ => ⟨Or.inl asked, new⟩
        · rintro ⟨asked | rfl, new⟩
          · exact ⟨asked, new⟩
          · exact (mem_added name).mp ((List.mem_append.mp known).resolve_left new)
      · rw [List.mem_append, not_or] at known
        refine ⟨added ++ [last], ?_, ?_, fun name => ?_⟩
        · rw [enableIn_of_notMem (by simpa [names] using known)]
          simp
        · exact List.nodup_append.mpr ⟨distinct, List.nodup_singleton last, by
            rintro a among b here rfl
            exact known.2 (List.mem_singleton.mp here ▸ among)⟩
        · simp only [List.mem_append, List.mem_singleton, mem_added]
          constructor
          · rintro (⟨asked, new⟩ | rfl)
            · exact ⟨Or.inl asked, new⟩
            · exact ⟨Or.inr rfl, known.1⟩
          · rintro ⟨asked | rfl, new⟩
            · exact Or.inl ⟨asked, new⟩
            · exact Or.inr rfl

/-- The plugins that run: those of the lists with the new names before the last list. -/
theorem exists_refs_eq (config : Config) :
    ∃ added : List String,
      config.refs = (config.pre ++ config.main ++ added.map PluginRef.named ++ config.post).filter config.permits ∧
        added.Nodup ∧ ∀ name, name ∈ added ↔ name ∈ config.enable ∧ name ∉ (config.pre ++ config.main).map PluginRef.name := by
  obtain ⟨added, foldEq, distinct, mem_added⟩ := exists_foldl_enableIn (config.pre ++ config.main) config.enable
  exact ⟨added, by rw [refs, foldEq]; rfl, distinct, mem_added⟩

/-! ## The steps of a pass -/

variable {config : Config} {steps : List Step}

/-- The plugins of the steps are those that are meant, in their order. -/
theorem mapM_resolve_of_steps (found : config.steps = .ok steps) :
    config.refs.mapM PluginRef.resolve = .ok (steps.map (·.plugin)) := by
  rw [Config.steps] at found
  generalize config.refs = refs at found
  induction refs generalizing steps with
  | nil =>
      rw [List.mapM_nil, pure_eq_ok] at found
      rw [← found]
      rfl
  | cons r rest inductionHypothesis =>
      rw [List.mapM_cons, bind_eq_ok] at found
      obtain ⟨first, resolved, found⟩ := found
      obtain ⟨plugin, resolved, same⟩ := bind_eq_ok.mp resolved
      obtain ⟨others, later, sameToo⟩ := bind_eq_ok.mp found
      rw [← pure_eq_ok.mp sameToo, ← pure_eq_ok.mp same, List.mapM_cons, resolved, inductionHypothesis later]
      rfl

theorem names_of_mapM_resolve {refs : List PluginRef} {plugins : List Plugin}
    (resolved : refs.mapM PluginRef.resolve = .ok plugins) : plugins.map (·.name) = refs.map PluginRef.name :=
  map_eq_of_mapM_eq_ok resolved (·.name) fun _ _ => PluginRef.name_of_resolve

/-- What is meant by a part of a list is a part of what is meant by all of it. -/
theorem exists_sublist_of_mapM_resolve {part refs : List PluginRef} (among : part.Sublist refs) {plugins : List Plugin}
    (resolved : refs.mapM PluginRef.resolve = .ok plugins) :
    ∃ kept, part.mapM PluginRef.resolve = .ok kept ∧ kept.Sublist plugins := by
  induction among generalizing plugins with
  | slnil => exact ⟨plugins, resolved, .refl _⟩
  | cons r _ inductionHypothesis =>
      rw [List.mapM_cons, bind_eq_ok] at resolved
      obtain ⟨first, -, resolved⟩ := resolved
      obtain ⟨others, later, same⟩ := bind_eq_ok.mp resolved
      obtain ⟨kept, found, within⟩ := inductionHypothesis later
      rw [← pure_eq_ok.mp same]
      exact ⟨kept, found, within.cons first⟩
  | cons_cons r _ inductionHypothesis =>
      rw [List.mapM_cons, bind_eq_ok] at resolved
      obtain ⟨first, here, resolved⟩ := resolved
      obtain ⟨others, later, same⟩ := bind_eq_ok.mp resolved
      obtain ⟨kept, found, within⟩ := inductionHypothesis later
      rw [← pure_eq_ok.mp same]
      refine ⟨first :: kept, ?_, within.cons_cons first⟩
      rw [List.mapM_cons, here, found]
      rfl

/-- The names of the steps: those of the lists and the new ones, without the disabled. -/
theorem exists_names_eq (found : config.steps = .ok steps) :
    ∃ added : List String,
      steps.map (·.plugin.name) = ((config.pre ++ config.main).map PluginRef.name ++ added ++ config.post.map PluginRef.name).filter
        (fun name => !config.disable.contains name) ∧
      added.Nodup ∧ ∀ name, name ∈ added ↔ name ∈ config.enable ∧ name ∉ (config.pre ++ config.main).map PluginRef.name := by
  obtain ⟨added, refsEq, distinct, mem_added⟩ := config.exists_refs_eq
  refine ⟨added, ?_, distinct, mem_added⟩
  have names := names_of_mapM_resolve (mapM_resolve_of_steps found)
  rw [List.map_map] at names
  refine names.trans ?_
  have unnamed : (added.map PluginRef.named).map PluginRef.name = added := by simp [Function.comp_def, PluginRef.name]
  have parts : (config.pre ++ config.main ++ added.map PluginRef.named ++ config.post).map PluginRef.name =
      (config.pre ++ config.main).map PluginRef.name ++ added ++ config.post.map PluginRef.name := by
    rw [List.map_append, List.map_append, unnamed]
  rw [refsEq, ← parts, List.filter_map]
  rfl

/-- Where no name is listed twice, a pass runs every plugin that is listed or enabled and
not disabled, and no other one, and those that are listed in their order.  It runs each of
them once, unless one is enabled that stands behind the main ones already. -/
theorem steps_line_up (distinct : (config.listed.map PluginRef.name).Nodup) (found : config.steps = .ok steps) :
    ((steps.map (·.plugin.name)).Nodup ↔
        ∀ name ∈ config.enable, name ∈ config.post.map PluginRef.name → name ∈ config.disable) ∧
      (∀ name, name ∈ steps.map (·.plugin.name) ↔
        (name ∈ config.listed.map PluginRef.name ∨ name ∈ config.enable) ∧ name ∉ config.disable) ∧
      ∃ kept, (config.listed.filter config.permits).mapM PluginRef.resolve = .ok kept ∧
        kept.Sublist (steps.map (·.plugin)) := by
  obtain ⟨added, namesEq, addedDistinct, mem_added⟩ := exists_names_eq found
  rw [listed, List.map_append] at distinct
  obtain ⟨frontDistinct, postDistinct, apart⟩ := List.nodup_append.mp distinct
  refine ⟨?_, fun name => ?_, ?_⟩
  · rw [namesEq]
    constructor
    · intro once name asked behind
      by_contra enabled
      -- The name is new before the last list, and so stands there and in the last list.
      have new : name ∈ added := (mem_added name).mpr ⟨asked, fun before => apart name before name behind rfl⟩
      rw [List.filter_append] at once
      exact (List.nodup_append.mp once).2.2 name (by simp [new, enabled]) name (by simp_all) rfl
    · intro guarded
      rw [List.filter_append, List.filter_append]
      refine List.nodup_append.mpr ⟨List.nodup_append.mpr ⟨frontDistinct.filter _, addedDistinct.filter _, ?_⟩,
        postDistinct.filter _, ?_⟩
      · rintro name front other new rfl
        exact ((mem_added name).mp (List.mem_filter.mp new).1).2 (List.mem_filter.mp front).1
      · rintro name before other behind rfl
        have enabled : name ∉ config.disable := by simpa using (List.mem_filter.mp behind).2
        rcases List.mem_append.mp before with front | new
        · exact apart name (List.mem_filter.mp front).1 name (List.mem_filter.mp behind).1 rfl
        · have asked := ((mem_added name).mp (List.mem_filter.mp new).1).1
          exact enabled (guarded name asked (List.mem_filter.mp behind).1)
  · have split : name ∈ config.listed.map PluginRef.name ↔
        name ∈ (config.pre ++ config.main).map PluginRef.name ∨ name ∈ config.post.map PluginRef.name := by
      rw [listed, List.map_append, List.mem_append]
    rw [namesEq, List.mem_filter, List.mem_append, List.mem_append, mem_added, split]
    simp only [Bool.not_eq_true', List.contains_eq_mem, decide_eq_false_iff_not, and_congr_left_iff]
    intro _
    by_cases front : name ∈ (config.pre ++ config.main).map PluginRef.name
    · simp only [front, true_or]
    · simp only [front, false_or, not_false_eq_true, and_true]
      exact or_comm
  · obtain ⟨others, refsEq, -⟩ := config.exists_refs_eq
    refine exists_sublist_of_mapM_resolve ?_ (mapM_resolve_of_steps found)
    rw [refsEq, listed]
    exact List.Sublist.filter _ (List.Sublist.append (List.sublist_append_left _ _) (.refl _))

/-- A plugin is enabled that is listed already, another one is enabled that is not, and one
is disabled. -/
theorem enabled_plugins_run_once :
    ∃ (config : Config) (steps : List Step), (config.listed.map PluginRef.name).Nodup ∧ config.steps = .ok steps ∧
      steps.map (·.plugin.name) = ["removeComments", "removeDoctype", "minifyClassNames", "removeEmptyContainers"] ∧
        (steps.map (·.plugin.name)).Nodup := by
  let config : Config :=
    { pre := [.named "removeComments"]
      main := [.named "removeDoctype", .named "mergeStyles"]
      post := [.named "removeEmptyContainers"]
      enable := ["minifyClassNames", "removeDoctype"]
      disable := ["mergeStyles"] }
  have names : config.steps.toOption.map (·.map (·.plugin.name)) =
      some ["removeComments", "removeDoctype", "minifyClassNames", "removeEmptyContainers"] := by
    decide +kernel
  obtain ⟨steps, found, namesEq⟩ := Option.map_eq_some_iff.mp names
  have distinct : (config.listed.map PluginRef.name).Nodup := by decide
  have resolved := toOption_eq_some.mp found
  exact ⟨config, steps, distinct, resolved, namesEq, (steps_line_up distinct resolved).1.mpr (by decide)⟩

/-- A plugin that stands behind the main ones is enabled too, and runs twice. -/
theorem enabled_plugin_runs_twice :
    ∃ (config : Config) (steps : List Step), (config.listed.map PluginRef.name).Nodup ∧ config.steps = .ok steps ∧
      steps.map (·.plugin.name) = ["removeComments", "removeComments"] := by
  let config : Config := { main := [], post := [.named "removeComments"], enable := ["removeComments"] }
  have names : config.steps.toOption.map (·.map (·.plugin.name)) = some ["removeComments", "removeComments"] := by
    decide +kernel
  obtain ⟨steps, found, namesEq⟩ := Option.map_eq_some_iff.mp names
  exact ⟨config, steps, by decide, toOption_eq_some.mp found, namesEq⟩

end Config

end Optimize
end SlimSvg
