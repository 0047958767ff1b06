import SlimSvg.Proofs.Cleanup.Classes
import SlimSvg.Proofs.Cleanup.RenamedIds
import SlimSvg.Proofs.Lookup

namespace SlimSvg

/-!
# Renaming what was renamed

Names are drawn in the order of their numbers, and nothing but taken names is passed over.
After a plan was carried out, what was taken is taken still, and the names that were drawn are
drawn in the same order: each of them meets itself again, unless it became one that stays, and
then it is passed over.  So a second plan changes nothing.
-/

section KeepsApart

variable {α β : Type} [DecidableEq α] [DecidableEq β] {become : α → Option β} {items : List α}

/-- Whether different items stay different. -/
def KeepsApart (become : α → Option β) (items : List α) : Prop :=
  ∀ a ∈ items, ∀ b ∈ items, ∀ new, become a = some new → become b = some new → a = b

theorem KeepsApart.count_filterMap (apart : KeepsApart become items) {a : α} {new : β} (listed : a ∈ items)
    (becomes : become a = some new) : (items.filterMap become).count new = items.count a := by
  rw [List.count_eq_countP, List.count_eq_countP, List.countP_filterMap]
  refine List.countP_congr fun b other => ?_
  rw [beq_iff_eq]
  constructor
  · intro chosen
    cases named : become b with
    | none => rw [named] at chosen; cases chosen
    | some name =>
        rw [named] at chosen
        have same : name = new := beq_iff_eq.mp chosen
        exact apart b other a listed new (same ▸ named) becomes
  · rintro rfl
    rw [becomes]
    exact beq_self_eq_true new

theorem KeepsApart.eraseDups_filterMap (apart : KeepsApart become items) :
    (items.filterMap become).eraseDups = items.eraseDups.filterMap become := by
  induction items using List.reverseRecOn with
  | nil => rfl
  | append_singleton items last inductionHypothesis =>
      have inner : KeepsApart become items := fun a aListed b bListed =>
        apart a (List.mem_append_left _ aListed) b (List.mem_append_left _ bListed)
      have lastListed : last ∈ items ++ [last] := List.mem_append_right _ List.mem_cons_self
      rw [eraseDups_concat, List.filterMap_append]
      cases named : become last with
      | none =>
          have nothing : [last].filterMap become = [] := by rw [List.filterMap_cons, named]; rfl
          rw [nothing, List.append_nil, inductionHypothesis inner]
          split
          · rfl
          · rw [List.filterMap_append, nothing, List.append_nil]
      | some new =>
          have one : [last].filterMap become = [new] := by rw [List.filterMap_cons, named]; rfl
          have knownIff : new ∈ items.filterMap become ↔ last ∈ items := by
            rw [List.mem_filterMap]
            constructor
            · rintro ⟨a, listed, becomes⟩
              rw [← apart a (List.mem_append_left _ listed) last lastListed new becomes named]
              exact listed
            · exact fun listed => ⟨last, listed, named⟩
          rw [one, eraseDups_concat, inductionHypothesis inner]
          by_cases known : last ∈ items
          · rw [if_pos (knownIff.mpr known), if_pos known]
          · rw [if_neg (knownIff.not.mpr known), if_neg known, List.filterMap_append, one]

end KeepsApart

namespace Cleanup

namespace ShortName

theorem FirstFree.eq {taken : List String} {n m k : Nat} (first : FirstFree taken n m)
    (other : FirstFree taken n k) : m = k := by
  rcases Nat.lt_trichotomy m k with before | same | behind
  · exact absurd (other.first m first.le before) first.free
  · exact same
  · exact absurd (first.first k other.le behind) other.free

/-- Names that were drawn are given to themselves, even if more names are taken by then, among
them some of those that were drawn. -/
theorem assign_drawn {taken later : List String} (grown : taken ⊆ later) (old : List String) {k n : Nat}
    (start : k ≤ n) (passed : ∀ i, k ≤ i → i < n → nth i ∈ later) :
    let names := ((assign taken n old).map (·.2)).filter (!later.contains ·)
    assign later k names = names.map fun name => (name, name) := by
  induction old generalizing k n with
  | nil => rfl
  | cons name rest inductionHypothesis =>
      have search := firstFree_freeFrom taken n
      rw [assign]
      generalize freeFrom taken taken.length n = m at search ⊢
      -- Before the name that is drawn first all names are taken.
      have before : ∀ i, k ≤ i → i < m → nth i ∈ later := by
        intro i above below
        rcases Nat.lt_or_ge i n with early | late
        · exact passed i above early
        · exact grown (search.first i late below)
      intro names
      by_cases occupied : nth m ∈ later
      · have skipped : names = ((assign taken (m + 1) rest).map (·.2)).filter (!later.contains ·) := by
          change List.filter _ (nth m :: _) = _
          rw [List.filter_cons_of_neg (by simpa using occupied)]
        rw [skipped]
        refine inductionHypothesis (by have := search.le; omega) fun i above below => ?_
        rcases Nat.lt_or_ge i m with early | late
        · exact before i above early
        · have here : i = m := by omega
          rw [here]
          exact occupied
      · have again : names = nth m :: ((assign taken (m + 1) rest).map (·.2)).filter (!later.contains ·) := by
          change List.filter _ (nth m :: _) = _
          rw [List.filter_cons_of_pos (by simpa using occupied)]
        have first : FirstFree later k m := ⟨Nat.le_trans start search.le, occupied, before⟩
        rw [again, assign, (firstFree_freeFrom later k).eq first, List.map_cons]
        refine congrArg ((nth m, nth m) :: ·) (inductionHypothesis (Nat.le_refl _) fun i above below => ?_)
        exact absurd below (Nat.not_lt_of_le above)

/-- The same from the first name on. -/
theorem assign_again {taken later : List String} (grown : taken ⊆ later) (old : List String) :
    let names := ((assign taken 0 old).map (·.2)).filter (!later.contains ·)
    assign later 0 names = names.map fun name => (name, name) :=
  assign_drawn grown old (Nat.le_refl 0) fun _ _ below => absurd below (Nat.not_lt_zero _)

end ShortName

/-! ## Ids -/

/-- The name that a plan gives to what it mentions. -/
def IdPlan.nameAfter (plan : IdPlan) (id : String) : String :=
  (plan.newName? id).getD id

/-- The ids of a document whose ids were changed by a plan, and what refers to them. -/
def IdCensus.after (census : IdCensus) (plan : IdPlan) : IdCensus where
  carried := census.carried.filterMap plan.newId?
  linked := census.linked.map plan.nameAfter
  declared := census.declared.map plan.nameAfter
  selected := census.selected.map plan.nameAfter

namespace IdCensus

variable {policy : IdPolicy} {census : IdCensus} {id : String}

/-- Where names are drawn, the name of an id with references must not be given exactly if the
id is fixed. -/
theorem mem_takenNames_iff (shorten : policy.shorten = true) (carried : id ∈ census.carried)
    (referenced : census.isReferenced id = true) :
    id ∈ census.takenNames policy ↔ census.isFixed policy id = true := by
  have kept : census.isKept policy id = census.isFixed policy id := by
    rw [isKept, referenced, shorten, Bool.not_true, Bool.and_false, Bool.false_and, Bool.or_false,
      Bool.or_false]
  rw [takenNames, List.mem_append, List.mem_filter, List.mem_filter, kept]
  constructor
  · rintro (⟨-, absent⟩ | ⟨-, fixed⟩)
    · exact absurd carried (by simpa using absent)
    · exact fixed
  · exact fun fixed => Or.inr ⟨carried, fixed⟩

theorem nodup_drawing : (census.drawing policy).Nodup := by
  rw [List.nodup_iff_count_le_one]
  intro id
  by_cases drawing : id ∈ census.drawing policy
  · have loose := (mem_drawing.mp drawing).2.1
    rw [← Bool.not_eq_true, isFixed_iff, not_or, Nat.not_lt] at loose
    exact Nat.le_trans (List.Sublist.count_le id (List.filter_sublist.trans List.filter_sublist)) loose.2
  · rw [List.count_eq_zero.mpr drawing]
    exact Nat.zero_le 1

end IdCensus

namespace IdPlan

section After

variable {policy : IdPolicy} {census : IdCensus} {id new : String}

theorem references_after (plan : IdPlan) :
    (census.after plan).references = census.references.map plan.nameAfter := by
  simp only [IdCensus.references, IdCensus.after, List.map_append]

theorem keepsApart_newId? : KeepsApart (make policy census).newId? census.carried :=
  fun _ aCarried _ bCarried _ aBecomes bBecomes => eq_of_newId?_eq aCarried bCarried aBecomes bBecomes

theorem newId?_eq_some_iff :
    (make policy census).newId? id = some new ↔
      id ∉ (make policy census).removed ∧ (make policy census).nameAfter id = new := by
  rw [newId?, nameAfter]
  split
  · next goes => exact iff_of_false (Option.some_ne_none _).symm fun stays => stays.1 (List.contains_iff_mem.mp goes)
  · next stays =>
    exact ⟨fun same => ⟨fun goes => stays (List.contains_iff_mem.mpr goes), Option.some.inj same⟩,
      fun both => congrArg some both.2⟩

theorem mem_carried_after (carried : id ∈ census.carried) (becomes : (make policy census).newId? id = some new) :
    new ∈ (census.after (make policy census)).carried :=
  List.mem_filterMap.mpr ⟨id, carried, becomes⟩

/-- Something refers to an id afterwards exactly if it did before. -/
theorem isReferenced_after (carried : id ∈ census.carried) (becomes : (make policy census).newId? id = some new) :
    (census.after (make policy census)).isReferenced new = census.isReferenced id := by
  rw [Bool.eq_iff_iff, IdCensus.isReferenced_iff, IdCensus.isReferenced_iff, references_after, List.mem_map]
  constructor
  · rintro ⟨other, referenced, rfl⟩
    rw [(newId?_eq_newName_iff referenced carried).mp becomes]
    exact referenced
  · exact fun referenced => ⟨id, referenced, (newId?_eq_some_iff.mp becomes).2⟩

theorem isRepeated_after (carried : id ∈ census.carried) (becomes : (make policy census).newId? id = some new) :
    (census.after (make policy census)).isRepeated new = census.isRepeated id :=
  congrArg (fun n => decide (n > 1)) (keepsApart_newId?.count_filterMap carried becomes)

theorem newName?_eq_none_of_undrawn (undrawn : id ∉ census.drawing policy) :
    (make policy census).newName? id = none := by
  cases named : (make policy census).newName? id with
  | none => rfl
  | some other => exact absurd (IdCensus.mem_drawing_of_drawn (drawn_of_newName? named)) undrawn

theorem newName?_eq_none_of_plain (keeps : policy.shorten = false) : (make policy census).newName? id = none := by
  cases named : (make policy census).newName? id with
  | none => rfl
  | some other =>
      have drawn := drawn_of_newName? named
      rw [IdCensus.drawn, keeps] at drawn
      cases drawn

/-- An id that is fixed stays, and it is fixed afterwards. -/
theorem isFixed_after (carried : id ∈ census.carried) (fixed : census.isFixed policy id = true) :
    (census.after (make policy census)).isFixed policy id = true := by
  rw [IdCensus.isFixed, isRepeated_after carried (newId?_eq_self_of_fixed fixed)]
  exact fixed

/-- An id that is kept for sure stays, and it is kept for sure afterwards. -/
theorem isKept_after (carried : id ∈ census.carried) (kept : census.isKept policy id = true) :
    (make policy census).newId? id = some id ∧ (census.after (make policy census)).isKept policy id = true := by
  by_cases fixed : census.isFixed policy id = true
  · refine ⟨newId?_eq_self_of_fixed fixed, ?_⟩
    rw [IdCensus.isKept, isFixed_after carried fixed]
    rfl
  · rw [Bool.not_eq_true] at fixed
    -- What is kept without being fixed is neither removed nor given a name.
    have stays : id ∉ (make policy census).removed ∧ (make policy census).newName? id = none := by
      rw [mem_removed_make]
      rw [IdCensus.isKept, fixed, Bool.false_or, Bool.or_eq_true, Bool.and_eq_true, Bool.and_eq_true,
        Bool.not_eq_true', Bool.not_eq_true', Bool.not_eq_true'] at kept
      rcases kept with ⟨referenced, keeps⟩ | ⟨unreferenced, keeps⟩
      · exact ⟨fun goes => Bool.noConfusion (referenced.symm.trans goes.2.2.2), newName?_eq_none_of_plain keeps⟩
      · refine ⟨fun goes => Bool.noConfusion (keeps.symm.trans goes.1), newName?_eq_none_of_undrawn ?_⟩
        exact fun drawing => Bool.noConfusion (unreferenced.symm.trans (IdCensus.mem_drawing.mp drawing).2.2)
    have becomes : (make policy census).newId? id = some id :=
      newId?_eq_some_iff.mpr ⟨stays.1, by rw [nameAfter, stays.2]; rfl⟩
    refine ⟨becomes, ?_⟩
    rw [IdCensus.isKept, IdCensus.isFixed, isRepeated_after carried becomes, isReferenced_after carried becomes]
    exact kept

/-- Names that must not be given must not be given afterwards. -/
theorem takenNames_after : census.takenNames policy ⊆ (census.after (make policy census)).takenNames policy := by
  intro name taken
  rw [IdCensus.takenNames, List.mem_append, List.mem_filter, List.mem_filter] at taken ⊢
  rcases taken with ⟨referenced, absent⟩ | ⟨carried, kept⟩
  · left
    have dangling : name ∉ census.carried := by simpa using absent
    have unnamed : (make policy census).nameAfter name = name := by
      rw [nameAfter, newName?_eq_none_of_undrawn fun drawing => dangling (IdCensus.mem_drawing.mp drawing).1]
      rfl
    refine ⟨references_after _ ▸ List.mem_map.mpr ⟨name, referenced, unnamed⟩, ?_⟩
    rw [Bool.not_eq_true', ← Bool.not_eq_true, List.contains_iff_mem]
    intro present
    rcases List.mem_filterMap.mp present with ⟨id, carried, becomes⟩
    exact newId?_ne_of_dangling referenced dangling carried becomes
  · right
    exact ⟨mem_carried_after carried (isKept_after carried kept).1, (isKept_after carried kept).2⟩

/-- An id for which a name is drawn becomes it. -/
theorem newId?_of_drawn (drawn : (id, new) ∈ census.drawn policy) : (make policy census).newId? id = some new := by
  have drawing := IdCensus.mem_drawing_of_drawn drawn
  rcases IdCensus.mem_drawing.mp drawing with ⟨carried, loose, referenced⟩
  have stays : ((make policy census).newId? id).isSome :=
    newId?_isSome_of_referenced (IdCensus.isReferenced_iff.mp referenced)
  rcases Option.isSome_iff_exists.mp stays with ⟨other, becomes⟩
  rw [becomes]
  rw [IdCensus.drawn] at drawn
  split at drawn
  · next shorten =>
    rcases taken_or_drawn carried becomes with ⟨-, taken⟩ | otherDrawn
    · rw [IdCensus.mem_takenNames_iff shorten carried referenced, loose] at taken
      cases taken
    · rw [IdCensus.drawn, if_pos shorten] at otherDrawn
      have keys : ((ShortName.assign (census.takenNames policy) 0 (census.drawing policy)).map (·.1)).Nodup :=
        (ShortName.map_fst_assign _ 0 _).symm ▸ IdCensus.nodup_drawing
      exact congrArg (fun pair => some pair.2) (List.inj_on_of_nodup_map keys otherDrawn drawn rfl)
  · cases drawn

theorem map_snd_drawn (shorten : policy.shorten = true) :
    (census.drawn policy).map (·.2) = (census.drawing policy).filterMap (make policy census).newId? := by
  have olds : census.drawing policy = (census.drawn policy).map (·.1) := by
    rw [IdCensus.drawn, if_pos shorten]
    exact (ShortName.map_fst_assign _ 0 _).symm
  rw [olds, List.filterMap_map, ← List.filterMap_eq_map]
  exact List.filterMap_congr fun _ drawn => (newId?_of_drawn drawn).symm

/-- The ids that draw names afterwards are the names that were drawn, apart from those that
must not be given any more. -/
theorem drawing_after (shorten : policy.shorten = true) :
    (census.after (make policy census)).drawing policy =
      ((census.drawn policy).map (·.2)).filter
        (!((census.after (make policy census)).takenNames policy).contains ·) := by
  rw [map_snd_drawn shorten, IdCensus.drawing, IdCensus.drawing, List.filter_filter, List.filter_filter,
    List.filter_filterMap, List.filterMap_filter]
  change List.filter _ (census.carried.filterMap _) = _
  rw [List.filter_filterMap]
  refine List.filterMap_congr fun id carried => ?_
  cases becomes : (make policy census).newId? id with
  | none => exact (ite_self none).symm
  | some new =>
      rw [Option.filter_some, Option.filter_some, isReferenced_after carried becomes]
      cases referenced : census.isReferenced id with
      | false => rfl
      | true =>
          have again := IdCensus.mem_takenNames_iff shorten (mem_carried_after carried becomes)
            ((isReferenced_after carried becomes).trans referenced)
          cases fixed : census.isFixed policy id with
          | true =>
              have same : id = new := Option.some.inj ((newId?_eq_self_of_fixed fixed).symm.trans becomes)
              rw [← same, isFixed_after carried fixed]
              rfl
          | false =>
              rw [← List.contains_iff_mem, ← Bool.eq_iff_iff] at again
              rw [again]
              rfl

/-- Once a plan was carried out, there is nothing left to plan. -/
theorem make_after : make policy (census.after (make policy census)) = ⟨[], []⟩ := by
  have removed : (make policy (census.after (make policy census))).removed = [] := by
    rw [List.eq_nil_iff_forall_not_mem]
    intro new goes
    rcases mem_removed_make.mp goes with ⟨remove, carriedAfter, loose, unreferenced⟩
    rcases List.mem_filterMap.mp carriedAfter with ⟨id, carried, becomes⟩
    rw [isReferenced_after carried becomes] at unreferenced
    cases fixed : census.isFixed policy id with
    | true =>
        have same : id = new := Option.some.inj ((newId?_eq_self_of_fixed fixed).symm.trans becomes)
        rw [← same, isFixed_after carried fixed] at loose
        cases loose
    | false =>
        exact (newId?_eq_some_iff.mp becomes).1 (mem_removed_make.mpr ⟨remove, carried, fixed, unreferenced⟩)
  have renamed : (make policy (census.after (make policy census))).renamed = [] := by
    rw [renamed_make, IdCensus.drawn]
    split
    · next shorten =>
      rw [drawing_after shorten, IdCensus.drawn, if_pos shorten,
        ShortName.assign_again takenNames_after (census.drawing policy), List.filter_eq_nil_iff]
      intro pair listed
      rcases List.mem_map.mp listed with ⟨name, -, rfl⟩
      simp
    · rfl
  cases planned : make policy (census.after (make policy census)) with
  | mk gone given =>
      rw [planned] at removed renamed
      rw [← show gone = [] from removed, ← show given = [] from renamed]

end After

end IdPlan

/-! ## Classes -/

/-- The classes of elements in the order in which they are met. -/
def metClasses (lists : List (List String)) : List String :=
  lists.flatten.eraseDups

namespace ClassPlan

/-- The name that a plan gives to a class. -/
def nameAfter (plan : ClassPlan) (name : String) : String :=
  (plan.newName? name).getD name

/-- The class that a class of an element becomes, if any. -/
def newClass? (plan : ClassPlan) (name : String) : Option String :=
  if plan.kept.contains name then some (plan.nameAfter name) else none

theorem newClasses_eq (plan : ClassPlan) (classes : List String) :
    plan.newClasses classes = classes.filterMap plan.newClass? := by
  rw [newClasses, ← List.filterMap_eq_map, List.filterMap_filter]
  rfl

section After

variable {policy : ClassPolicy} {selected carried : List String} {name new : String}

theorem newClass?_eq_some_iff {plan : ClassPlan} :
    plan.newClass? name = some new ↔ name ∈ plan.kept ∧ plan.nameAfter name = new := by
  rw [newClass?]
  split
  · next kept =>
    exact ⟨fun same => ⟨List.contains_iff_mem.mp kept, Option.some.inj same⟩, fun both => congrArg some both.2⟩
  · next goes => exact iff_of_false (Option.some_ne_none _).symm fun both => goes (List.contains_iff_mem.mpr both.1)

theorem keepsApart_newClass? (items : List String) : KeepsApart (make policy selected carried).newClass? items := by
  intro name _ other _ new becomes otherBecomes
  rcases newClass?_eq_some_iff.mp becomes with ⟨kept, named⟩
  rcases newClass?_eq_some_iff.mp otherBecomes with ⟨otherKept, otherNamed⟩
  exact eq_of_newName_eq (Or.inr kept) (Or.inr otherKept) (named.trans otherNamed.symm)

/-- The classes that are met afterwards are what those become that were met. -/
theorem metClasses_after (lists : List (List String)) :
    metClasses (lists.map (make policy selected carried).newClasses) =
      (metClasses lists).filterMap (make policy selected carried).newClass? := by
  have each : lists.map (make policy selected carried).newClasses =
      lists.map (List.filterMap (make policy selected carried).newClass?) :=
    List.map_congr_left fun classes _ => newClasses_eq _ classes
  rw [metClasses, metClasses, each, ← List.filterMap_flatten, (keepsApart_newClass? _).eraseDups_filterMap]

theorem nameAfter_of_undrawn (undrawn : name ∉ drawing policy selected carried) :
    (make policy selected carried).nameAfter name = name := by
  have unnamed : (make policy selected carried).newName? name = none := by
    refine lookup_eq_none_of_notMem ?_
    change name ∉ (ShortName.assign _ 0 (drawing policy selected carried)).map (·.1)
    rw [ShortName.map_fst_assign]
    exact undrawn
  rw [nameAfter, unnamed]
  rfl

theorem mem_drawing :
    name ∈ drawing policy selected carried ↔ name ∈ carried ∧ name ∈ selected ∧ name ∉ policy.preserve := by
  simp [drawing]

/-- The classes that selectors ask for after the plan. -/
def selectedAfter (policy : ClassPolicy) (selected carried : List String) : List String :=
  selected.map (make policy selected carried).nameAfter

/-- The classes that elements have after the plan. -/
def carriedAfter (policy : ClassPolicy) (selected carried : List String) : List String :=
  carried.filterMap (make policy selected carried).newClass?

theorem mem_selected_after (known : name ∈ (make policy selected carried).kept) :
    (make policy selected carried).nameAfter name ∈ selectedAfter policy selected carried ↔ name ∈ selected := by
  rw [selectedAfter, List.mem_map]
  constructor
  · rintro ⟨other, asked, same⟩
    rw [← eq_of_newName_eq (Or.inl asked) (Or.inr known) same]
    exact asked
  · exact fun asked => ⟨name, asked, rfl⟩

theorem contains_selectedAfter (known : name ∈ (make policy selected carried).kept) :
    (selectedAfter policy selected carried).contains ((make policy selected carried).nameAfter name) =
      selected.contains name := by
  rw [Bool.eq_iff_iff, List.contains_iff_mem, List.contains_iff_mem, mem_selected_after known]

theorem notMem_takenNames (drawing : name ∈ drawing policy selected carried) :
    name ∉ takenNames policy selected carried := by
  rw [takenNames, List.mem_append, not_or]
  constructor
  · rw [List.mem_filter]
    exact fun both => absurd drawing (by simpa using both.2)
  · split
    · exact List.not_mem_nil
    · rw [List.mem_filter]
      exact fun both => by simp [(mem_drawing.mp drawing).2.1] at both

theorem mem_takenNames_of_preserved (preserved : name ∈ policy.preserve) :
    name ∈ takenNames policy selected carried := by
  refine List.mem_append_left _ (List.mem_filter.mpr ⟨List.mem_append_right _ preserved, ?_⟩)
  rw [Bool.not_eq_true', ← Bool.not_eq_true, List.contains_iff_mem]
  exact fun drawing => (mem_drawing.mp drawing).2.2 preserved

theorem mem_renamed (drawing : name ∈ drawing policy selected carried) :
    (name, (make policy selected carried).nameAfter name) ∈ (make policy selected carried).renamed := by
  rcases @taken_or_drawn policy selected carried name (Or.inl (mem_drawing.mp drawing).2.1) with
    ⟨-, taken⟩ | ⟨new, becomes, given⟩
  · exact absurd taken (notMem_takenNames drawing)
  · rw [nameAfter, becomes]
    exact given

theorem nameAfter_notMem_takenNames (drawing : name ∈ drawing policy selected carried) :
    (make policy selected carried).nameAfter name ∉ takenNames policy selected carried :=
  ShortName.notMem_taken_of_mem_assign (mem_renamed drawing)

/-- The new name of a class is preserved exactly if the class is. -/
theorem mem_preserve_after :
    (make policy selected carried).nameAfter name ∈ policy.preserve ↔ name ∈ policy.preserve := by
  by_cases drawing : name ∈ drawing policy selected carried
  · refine iff_of_false (fun preserved => ?_) (mem_drawing.mp drawing).2.2
    exact nameAfter_notMem_takenNames drawing (mem_takenNames_of_preserved preserved)
  · rw [nameAfter_of_undrawn drawing]

theorem newClass?_of_renamed (distinct : carried.Nodup)
    (given : (name, new) ∈ (make policy selected carried).renamed) :
    (make policy selected carried).newClass? name = some new := by
  have fst : (make policy selected carried).renamed.map (·.1) = drawing policy selected carried :=
    ShortName.map_fst_assign _ 0 _
  have keys : ((make policy selected carried).renamed.map (·.1)).Nodup := by
    rw [fst]
    exact distinct.filter _
  have drawing : name ∈ drawing policy selected carried := fst ▸ List.mem_map_of_mem (f := (·.1)) given
  have facts := mem_drawing.mp drawing
  have becomes : (make policy selected carried).newName? name = some new := lookup_eq_some_of_mem keys given
  refine newClass?_eq_some_iff.mpr ⟨mem_kept_make.mpr ⟨facts.1, Or.inl facts.2.1⟩, ?_⟩
  rw [nameAfter, becomes]
  rfl

/-- The classes that are given short names afterwards are the names that were given. -/
theorem drawing_after (distinct : carried.Nodup) :
    drawing policy (selectedAfter policy selected carried) (carriedAfter policy selected carried) =
      (make policy selected carried).renamed.map (·.2) := by
  have given : (make policy selected carried).renamed.map (·.2) =
      (drawing policy selected carried).filterMap (make policy selected carried).newClass? := by
    have olds : drawing policy selected carried = (make policy selected carried).renamed.map (·.1) :=
      (ShortName.map_fst_assign _ 0 _).symm
    rw [olds, List.filterMap_map, ← List.filterMap_eq_map]
    exact List.filterMap_congr fun _ listed => (newClass?_of_renamed distinct listed).symm
  rw [given, drawing, drawing, carriedAfter, List.filter_filterMap, List.filterMap_filter]
  refine List.filterMap_congr fun name _ => ?_
  cases becomes : (make policy selected carried).newClass? name with
  | none => exact (ite_self none).symm
  | some new =>
      rcases newClass?_eq_some_iff.mp becomes with ⟨kept, rfl⟩
      have preserved : policy.preserve.contains ((make policy selected carried).nameAfter name) =
          policy.preserve.contains name := by
        rw [Bool.eq_iff_iff, List.contains_iff_mem, List.contains_iff_mem, mem_preserve_after]
      rw [Option.filter_some, contains_selectedAfter kept, preserved]

/-- Names that are not given are not given afterwards. -/
theorem takenNames_after (distinct : carried.Nodup) :
    takenNames policy selected carried ⊆
      takenNames policy (selectedAfter policy selected carried) (carriedAfter policy selected carried) := by
  intro name taken
  have undrawn : name ∉ drawing policy selected carried := fun drawing => notMem_takenNames drawing taken
  have stays := nameAfter_of_undrawn undrawn
  have ungiven : name ∉ drawing policy (selectedAfter policy selected carried)
      (carriedAfter policy selected carried) := by
    rw [drawing_after distinct, List.mem_map]
    rintro ⟨pair, given, rfl⟩
    exact ShortName.notMem_taken_of_mem_assign given taken
  rw [takenNames, List.mem_append] at taken
  rcases taken with known | unused
  · refine List.mem_append_left _ (List.mem_filter.mpr ⟨?_, by simpa using ungiven⟩)
    rcases List.mem_append.mp (List.mem_filter.mp known).1 with asked | preserved
    · exact List.mem_append_left _ (List.mem_map.mpr ⟨name, asked, stays⟩)
    · exact List.mem_append_right _ preserved
  · split at unused
    · cases unused
    · next keeps =>
      rcases List.mem_filter.mp unused with ⟨met, unasked⟩
      have kept : name ∈ (make policy selected carried).kept :=
        mem_kept_make.mpr ⟨met, Or.inr (Or.inr (Bool.not_eq_true _ ▸ keeps))⟩
      refine List.mem_append_right _ ?_
      rw [if_neg keeps, List.mem_filter]
      refine ⟨List.mem_filterMap.mpr ⟨name, met, newClass?_eq_some_iff.mpr ⟨kept, stays⟩⟩, ?_⟩
      have same := contains_selectedAfter kept
      rw [stays] at same
      rw [same]
      exact unasked

theorem kept_after :
    (make policy (selectedAfter policy selected carried) (carriedAfter policy selected carried)).kept =
      carriedAfter policy selected carried := by
  refine List.filter_eq_self.mpr fun new listed => (List.mem_filter.mp (mem_kept_make.mpr ⟨listed, ?_⟩)).2
  rcases List.mem_filterMap.mp listed with ⟨name, -, becomes⟩
  rcases newClass?_eq_some_iff.mp becomes with ⟨kept, rfl⟩
  exact (mem_kept_make.mp kept).2.imp (mem_selected_after kept).mpr (Or.imp_left mem_preserve_after.mpr)

/-- Every class that is given a name afterwards is given its own. -/
theorem renamed_after (distinct : carried.Nodup) :
    (make policy (selectedAfter policy selected carried) (carriedAfter policy selected carried)).renamed =
      ((make policy selected carried).renamed.map (·.2)).map fun name => (name, name) := by
  let later := takenNames policy (selectedAfter policy selected carried) (carriedAfter policy selected carried)
  have free : ((make policy selected carried).renamed.map (·.2)).filter (!later.contains ·) =
      (make policy selected carried).renamed.map (·.2) := by
    refine List.filter_eq_self.mpr fun name given => ?_
    rw [← drawing_after distinct] at given
    rw [Bool.not_eq_true', ← Bool.not_eq_true, List.contains_iff_mem]
    exact notMem_takenNames given
  have grown : takenNames policy selected carried ⊆ later := takenNames_after distinct
  have again := ShortName.assign_again grown (drawing policy selected carried)
  change ShortName.assign later 0 (((make policy selected carried).renamed.map (·.2)).filter _) =
    (((make policy selected carried).renamed.map (·.2)).filter _).map _ at again
  rw [free, ← drawing_after distinct] at again
  rw [← drawing_after distinct]
  exact again

end After

end ClassPlan

/-- After the ids and all that refers to them were renamed, or the classes of elements and
selectors, a second plan for them changes nothing: there is no id to rename or to remove, every
class is given its own name, and all elements keep theirs. -/
theorem renaming_is_canonical (idPolicy : IdPolicy) (census : IdCensus) (classPolicy : ClassPolicy)
    (selected : List String) (lists : List (List String)) :
    IdPlan.make idPolicy (census.after (IdPlan.make idPolicy census)) = ⟨[], []⟩ ∧
      let plan := ClassPlan.make classPolicy selected (metClasses lists)
      let newLists := lists.map plan.newClasses
      let again := ClassPlan.make classPolicy (selected.map plan.nameAfter) (metClasses newLists)
      (∀ name, again.nameAfter name = name) ∧ again.kept = metClasses newLists ∧
        newLists.map again.newClasses = newLists := by
  refine ⟨IdPlan.make_after, ?_⟩
  intro plan newLists again
  have met : metClasses newLists = (metClasses lists).filterMap plan.newClass? := ClassPlan.metClasses_after lists
  have renamed : again.renamed = (plan.renamed.map (·.2)).map fun name => (name, name) := by
    change (ClassPlan.make _ _ (metClasses newLists)).renamed = _
    rw [met]
    exact ClassPlan.renamed_after (nodup_eraseDups _)
  have kept : again.kept = metClasses newLists := by
    change (ClassPlan.make _ _ (metClasses newLists)).kept = _
    rw [met]
    exact ClassPlan.kept_after
  have stays (name : String) : again.nameAfter name = name := by
    rw [ClassPlan.nameAfter]
    cases named : again.newName? name with
    | none => rfl
    | some new =>
        have given : (name, new) ∈ again.renamed := mem_of_lookup_eq_some named
        rw [renamed] at given
        rcases List.mem_map.mp given with ⟨other, -, same⟩
        rw [Option.getD_some]
        exact (congrArg Prod.snd same).symm.trans (congrArg Prod.fst same)
  have unchanged : ∀ classes ∈ newLists, again.newClasses classes = classes := by
    intro classes listed
    rw [ClassPlan.newClasses_eq]
    refine (List.filterMap_congr fun name among => ?_).trans List.filterMap_some
    refine ClassPlan.newClass?_eq_some_iff.mpr ⟨?_, stays name⟩
    rw [kept, metClasses, List.mem_eraseDups]
    exact List.mem_flatten.mpr ⟨classes, listed, among⟩
  exact ⟨stays, kept, (List.map_congr_left unchanged).trans (List.map_id _)⟩

end Cleanup
end SlimSvg
