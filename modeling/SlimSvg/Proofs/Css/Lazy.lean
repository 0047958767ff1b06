import SlimSvg.Proofs.Css.Settled

namespace SlimSvg
namespace Css

/-!
# Sheets that are looked through when asked

What is derived from sheets need not be computed before someone asks.  The sheets here
keep it in a place that is empty at first.  A question fills the place.  Where rules are
deleted or renamed the place is emptied at the end; the larger changes leave that to writing
back, with which they end, and some return before it because there is nothing to change.
Whoever asks cannot tell these sheets from sheets that derive everything at every change,
because between two steps the place never holds what was derived from other sheets.
-/

/-- Sheets in document order, with what is derived from them if someone has asked. -/
structure LazyStyles where
  sheets : List Sheet
  derived? : Option Derived

/-! ## Steps -/

/-- A question or a change.  Whether a rule is deleted may depend on everything that was
seen before it, and so on its place. -/
inductive StyleStep where
  | query
  | deleteRules (drop : Nat → Nat → Nat → Rule → Bool)
  | writeRules (doc : Document)
  | renameClasses (map : String → Option String)
  | renameIds (map : String → Option String)
  | merge (doc : Document)
  | minify (doc : Document) (removeUnused : Bool)
  | addText (doc : Document) (css : String)

namespace Styles

/-- Delete the rules with a property, which may ask for the number of the sheet, of the set
in it and of the rule in that. -/
def deleteRulesAt (s : Styles) (drop : Nat → Nat → Nat → Rule → Bool) : Styles :=
  ofSheets (s.sheets.mapIdx fun i sheet =>
    { sheet with
      sets := sheet.sets.mapIdx fun j set =>
        { set with rules := (set.rules.zipIdx.filter fun (r, k) => !drop i j k r).map (·.1) } })

/-- The sheets behind a step. -/
def after (s : Styles) : StyleStep → Styles
  | .query => s
  | .deleteRules drop => s.deleteRulesAt drop
  | .writeRules doc => (s.writeBack doc).1
  | .renameClasses map => s.renameClasses map
  | .renameIds map => s.renameIds map
  | .merge doc => (s.merge doc).2.1
  | .minify doc removeUnused => (s.minify doc removeUnused).1
  | .addText doc css =>
    match s.addText doc css with
    | .error _ => s
    | .ok (later, _) => later

end Styles

namespace LazyStyles

/-- What is derived from the sheets, and the sheets behind the question. -/
def derived (s : LazyStyles) : Derived × LazyStyles :=
  match s.derived? with
  | some known => (known, s)
  | none => (.ofSheets s.sheets, ⟨s.sheets, some (.ofSheets s.sheets)⟩)

/-- The sheets of a document.  Whether ids are selected is asked at once. -/
def ofDocument (doc : Document) : Except CssError LazyStyles :=
  (Styles.ofDocument doc).map fun s => (LazyStyles.mk s.sheets none).derived.2

/-- Forget what was derived. -/
def forget (s : LazyStyles) : LazyStyles :=
  { s with derived? := none }

/-- Change the sheets alone; what was derived from the old ones is still there. -/
def edit (s : LazyStyles) (change : Styles → Styles) : LazyStyles :=
  { s with sheets := (change (.ofSheets s.sheets)).sheets }

def deleteRules (s : LazyStyles) (drop : Nat → Nat → Nat → Rule → Bool) : LazyStyles :=
  (s.edit (·.deleteRulesAt drop)).forget

/-- Drop the sheets without text.  Where the others are written is up to the document. -/
def writeBack (s : LazyStyles) : LazyStyles :=
  forget { s with sheets := s.sheets.filter fun sheet => !(writeSheet sheet.sets).isEmpty }

def renameClasses (s : LazyStyles) (map : String → Option String) : LazyStyles :=
  (s.edit (·.renameClasses map)).forget

def renameIds (s : LazyStyles) (map : String → Option String) : LazyStyles :=
  (s.edit (·.renameIds map)).forget

/-- Move all rules into the first style element, if there is more than one. -/
def merge (s : LazyStyles) : LazyStyles :=
  match s.sheets with
  | first :: _ :: _ =>
    writeBack { s with sheets := [⟨first.element, (s.sheets.flatMap (·.sets)).map Styles.asBlock⟩] }
  | _ => s

/-- Minify the values of declarations and drop rules without declarations, and,
if asked to, rules that cannot select anything. -/
def minify (s : LazyStyles) (doc : Document) (removeUnused : Bool) : LazyStyles :=
  let used := Styles.usedNames doc
  let keep (r : Rule) : Bool :=
    !r.declarations.isEmpty && (!removeUnused || used.maySelect r.selector)
  writeBack (s.edit (·.mapSets fun set =>
    { set with
      rules :=
        (set.rules.map fun r => { r with declarations := r.declarations.minifyValues }).filter keep }))

/-- Add rules that weigh more than all others of their kind.  A text that cannot be read
changes nothing, and neither does one for which there is no place. -/
def addText (s : LazyStyles) (doc : Document) (css : String) : LazyStyles :=
  match readSheet css none with
  | .error _ => s
  | .ok sets =>
    match s.sheets.getLast?.filter (Styles.isPlain doc) with
    | some last =>
      writeBack { s with sheets := s.sheets.dropLast ++ [{ last with sets := last.sets ++ sets }] }
    | none =>
      match (Styles.ofSheets s.sheets).newPlace? doc with
      | none => s
      | some (parent, index) =>
        let element := (doc.insertAt parent index (.element (.ofName "style"))).1
        writeBack { s with sheets := s.sheets ++ [⟨element, sets⟩] }

/-- The sheets behind a step. -/
def after (s : LazyStyles) : StyleStep → LazyStyles
  | .query => s.derived.2
  | .deleteRules drop => s.deleteRules drop
  | .writeRules _ => s.writeBack
  | .renameClasses map => s.renameClasses map
  | .renameIds map => s.renameIds map
  | .merge _ => s.merge
  | .minify doc removeUnused => s.minify doc removeUnused
  | .addText doc css => s.addText doc css

/-- The sheets behind some steps. -/
def run (s : LazyStyles) (steps : List StyleStep) : LazyStyles :=
  steps.foldl after s

end LazyStyles

/-! ## What a step keeps -/

namespace Styles

variable {s : Styles}

theorem mapIdx_of_anywhere {α β : Type} (f : α → β) (items : List α) :
    items.mapIdx (fun _ item => f item) = items.map f := by
  rw [List.mapIdx_eq_zipIdx_map]
  change items.zipIdx.map (f ∘ Prod.fst) = _
  rw [← List.map_map, List.zipIdx_map_fst]

/-- A property that asks for no place deletes the same rules everywhere. -/
theorem deleteRulesAt_of_anywhere (s : Styles) (drop : Rule → Bool) :
    s.deleteRulesAt (fun _ _ _ r => drop r) = s.deleteRules drop := by
  have inSet (rules : List Rule) :
      (rules.zipIdx.filter fun (r, _) => !drop r).map (·.1) = rules.filter fun r => !drop r := by
    change (rules.zipIdx.filter ((fun r => !drop r) ∘ Prod.fst)).map Prod.fst = _
    rw [← List.filter_map, List.zipIdx_map_fst]
  rw [deleteRulesAt, deleteRules, mapSets]
  simp only [mapIdx_of_anywhere, inSet]

theorem settled_deleteRulesAt (settled : SheetsSettled s.sheets) (drop : Nat → Nat → Nat → Rule → Bool) :
    SheetsSettled (s.deleteRulesAt drop).sheets := by
  intro sheet listed set inSheet r inSet
  rcases List.mem_mapIdx.mp listed with ⟨i, inside, same⟩
  rw [← same] at inSheet
  rcases List.mem_mapIdx.mp inSheet with ⟨j, insideSheet, sameSet⟩
  rw [← sameSet] at inSet ⊢
  rcases List.mem_map.mp inSet with ⟨⟨old, k⟩, among, sameRule⟩
  have kept := List.fst_mem_of_mem_zipIdx (List.mem_filter.mp among).1
  rw [← sameRule]
  exact settled _ (List.getElem_mem inside) _ (List.getElem_mem insideSheet) old kept

theorem settled_after (settled : SheetsSettled s.sheets) (step : StyleStep) : SheetsSettled (s.after step).sheets := by
  cases step with
  | query => exact settled
  | deleteRules drop => exact settled_deleteRulesAt settled drop
  | writeRules doc => exact settled_writeBack settled doc
  | renameClasses map => exact settled_renameClasses settled map
  | renameIds map => exact settled_renameIds settled map
  | merge doc => exact settled_merge settled doc
  | minify doc removeUnused => exact settled_minify settled doc removeUnused
  | addText doc css =>
      rw [after]
      split
      · exact settled
      · next later grown added => exact settled_addText settled added

end Styles

namespace LazyStyles

variable {s : LazyStyles}

/-- Whether nothing is kept that was derived from other sheets. -/
def Fresh (s : LazyStyles) : Prop :=
  s.derived? = none ∨ s.derived? = some (.ofSheets s.sheets)

theorem sheets_derived (s : LazyStyles) : s.derived.2.sheets = s.sheets := by
  rw [derived]
  split
  · rfl
  · rfl

theorem Fresh.derived_eq (fresh : s.Fresh) : s.derived.1 = .ofSheets s.sheets := by
  rw [derived]
  rcases fresh with empty | current
  · rw [empty]
  · rw [current]

theorem Fresh.derived (fresh : s.Fresh) : s.derived.2.Fresh := by
  rw [LazyStyles.derived]
  rcases fresh with empty | current
  · rw [empty]
    exact .inr rfl
  · rw [current]
    exact .inr current

theorem Fresh.writeBack (s : LazyStyles) : s.writeBack.Fresh :=
  .inl rfl

theorem Fresh.merge (fresh : s.Fresh) : s.merge.Fresh := by
  rw [LazyStyles.merge]
  split
  · exact .writeBack _
  · exact fresh

theorem Fresh.addText (fresh : s.Fresh) (doc : Document) (css : String) : (s.addText doc css).Fresh := by
  rw [LazyStyles.addText]
  split
  · exact fresh
  · split
    · exact .writeBack _
    · split
      · exact fresh
      · exact .writeBack _

theorem Fresh.after (fresh : s.Fresh) (step : StyleStep) : (s.after step).Fresh := by
  cases step with
  | query => exact fresh.derived
  | deleteRules drop => exact .inl rfl
  | writeRules doc => exact .writeBack s
  | renameClasses map => exact .inl rfl
  | renameIds map => exact .inl rfl
  | merge doc => exact fresh.merge
  | minify doc removeUnused => exact .writeBack _
  | addText doc css => exact fresh.addText doc css

theorem sheets_merge (s : LazyStyles) (doc : Document) :
    s.merge.sheets = ((Styles.ofSheets s.sheets).merge doc).2.1.sheets := by
  obtain ⟨sheets, known⟩ := s
  match sheets with
  | [] => rfl
  | [_] => rfl
  | _ :: _ :: _ => rfl

theorem sheets_addText (s : LazyStyles) (doc : Document) (css : String) :
    (s.addText doc css).sheets = ((Styles.ofSheets s.sheets).after (.addText doc css)).sheets := by
  have kept : (Styles.ofSheets s.sheets).sheets = s.sheets := rfl
  rw [Styles.after, Styles.addText, addText, kept]
  dsimp only [bind, Except.bind]
  cases readSheet css none with
  | error fault => rfl
  | ok sets =>
      cases s.sheets.getLast?.filter (Styles.isPlain doc) with
      | some last => rfl
      | none =>
          cases (Styles.ofSheets s.sheets).newPlace? doc with
          | none => rfl
          | some place => rfl

/-- A step leaves the same sheets whether something is kept or not. -/
theorem sheets_after (s : LazyStyles) (step : StyleStep) :
    (s.after step).sheets = ((Styles.ofSheets s.sheets).after step).sheets := by
  cases step with
  | query => exact s.sheets_derived
  | deleteRules drop => rfl
  | writeRules doc => rfl
  | renameClasses map => rfl
  | renameIds map => rfl
  | merge doc => exact s.sheets_merge doc
  | minify doc removeUnused => rfl
  | addText doc css => exact s.sheets_addText doc css

/-- What is kept after some steps belongs to the sheets that changes at once would leave. -/
theorem Fresh.run (fresh : s.Fresh) (steps : List StyleStep) :
    (s.run steps).Fresh ∧ Styles.ofSheets (s.run steps).sheets = steps.foldl Styles.after (.ofSheets s.sheets) := by
  induction steps generalizing s with
  | nil => exact ⟨fresh, rfl⟩
  | cons step rest inductionHypothesis =>
      have further := inductionHypothesis (fresh.after step)
      rw [sheets_after, Styles.ofSheets_sheets] at further
      exact further

end LazyStyles

theorem Styles.settled_foldl_after {s : Styles} (settled : SheetsSettled s.sheets) (steps : List StyleStep) :
    SheetsSettled (steps.foldl Styles.after s).sheets := by
  induction steps generalizing s with
  | nil => exact settled
  | cons step rest inductionHypothesis => exact inductionHypothesis (Styles.settled_after settled step)

namespace LazyStyles

/-- After any questions and changes, nothing is kept that was derived from other sheets, so
every answer is that of sheets that derive everything at every change.  And whatever the
rules remember of their selectors and of their media is still true. -/
theorem answers_stay_current {doc : Document} {s : LazyStyles} (built : ofDocument doc = .ok s)
    (steps : List StyleStep) :
    let later := s.run steps
    (later.derived? = none ∨ later.derived? = some (.ofSheets later.sheets)) ∧
      (∃ eager, Styles.ofDocument doc = .ok eager ∧
        (steps.foldl Styles.after eager).sheets = later.sheets ∧
        (steps.foldl Styles.after eager).derived = later.derived.1) ∧
      ∀ sheet ∈ later.sheets, ∀ set ∈ sheet.sets, ∀ r ∈ set.rules, r.Settled set.media.isSome := by
  intro later
  rcases map_eq_ok.mp built with ⟨eager, collected, same⟩
  have empty : (LazyStyles.mk eager.sheets none).Fresh := .inl rfl
  have begun : s.Fresh := same ▸ empty.derived
  have sheetsEq : s.sheets = eager.sheets := by
    rw [← same]
    exact sheets_derived _
  rcases begun.run steps with ⟨fresh, tracked⟩
  rw [sheetsEq, Styles.ofSheets_sheets] at tracked
  refine ⟨fresh, ⟨eager, collected, ?_, ?_⟩, ?_⟩
  · rw [← tracked]
    rfl
  · rw [← tracked, fresh.derived_eq]
    rfl
  · have settled := Styles.settled_foldl_after (Styles.settled_ofDocument collected) steps
    rw [← tracked] at settled
    exact settled

/-- A new name deep inside of a selector is found after the sheets were asked for the old
one, and a rule for print keeps its media in the sheet that it is moved to. -/
theorem renamed_class_is_found :
    let rename (name : String) : Option String := if name == "b" then some "x" else none
    ∃ doc s, Document.read
        "<svg><style>.a:not(.b){fill:red}</style><style media=\"print\">.a{fill:blue}</style></svg>" none = .ok doc ∧
      ofDocument doc = .ok s ∧
      let later := s.run [.query, .renameClasses rename, .query, .merge doc]
      s.derived.1.classes = ["a", "b"] ∧ later.derived.1.classes = ["a", "x"] ∧
        (later.derived? = none ∨ later.derived? = some (.ofSheets later.sheets)) ∧
        later.sheets.map (·.sets.map fun set => (set.media, set.rules.map (·.inMedia))) =
          [[(none, [false]), (some "print", [true])]] ∧
        ∀ sheet ∈ later.sheets, ∀ set ∈ sheet.sets, ∀ r ∈ set.rules, r.Settled set.media.isSome := by
  intro rename
  let summary (doc : Document) (s : LazyStyles) : List (List String) × List (List (Option String × List Bool)) :=
    let later := s.run [.query, .renameClasses rename, .query, .merge doc]
    ([s.derived.1.classes, later.derived.1.classes],
      later.sheets.map (·.sets.map fun set => (set.media, set.rules.map (·.inMedia))))
  have shown : (Document.read
      "<svg><style>.a:not(.b){fill:red}</style><style media=\"print\">.a{fill:blue}</style></svg>"
      none).toOption.bind (fun doc => (ofDocument doc).toOption.map (summary doc)) =
        some ([["a", "b"], ["a", "x"]], [[(none, [false]), (some "print", [true])]]) := by
    decide +kernel
  rcases Option.bind_eq_some_iff.mp shown with ⟨doc, parsed, shown⟩
  rcases Option.map_eq_some_iff.mp shown with ⟨s, built, same⟩
  rw [toOption_eq_some] at parsed built
  rcases Prod.mk.inj same with ⟨names, sets⟩
  rcases List.cons.inj names with ⟨classes, renamed⟩
  rcases answers_stay_current built [.query, .renameClasses rename, .query, .merge doc] with ⟨fresh, -, settled⟩
  exact ⟨doc, s, parsed, built, classes, (List.cons.inj renamed).1, fresh, sets, settled⟩

end LazyStyles
end Css
end SlimSvg
