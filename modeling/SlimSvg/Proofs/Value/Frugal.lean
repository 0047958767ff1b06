import SlimSvg.Proofs.Value.BlockText
import SlimSvg.Proofs.Value.Surcharge

namespace SlimSvg

/-!
# Values that can be shortened

A value that was read is frugal: its shortest text takes no more room than its text.  An
edit drops the texts of a value, and then both are the same, so every value stays frugal
whatever is done with it.  Only for blocks of declarations this needs a count: their
entries are pieces of the text, and a property that is declared twice is written once.
-/

open Written

/-! ## Blocks of declarations -/

namespace DeclarationScan

/-- What escaping costs in the name and the value of an entry. -/
def Entry.cost (entry : Entry) : Nat :=
  surcharge entry.name.toList + surcharge entry.value.toList

theorem sum_cost_scanEntries_le (bound : Nat) (cs : List Char) :
    ((scanEntries bound cs).map Entry.cost).sum ≤ surcharge cs := by
  induction bound generalizing cs with
  | zero => exact Nat.zero_le _
  | succ bound inductionHypothesis =>
      rw [scanEntries]
      split
      · exact Nat.zero_le _
      · exact Nat.zero_le _
      · next begun skipped =>
        split
        · exact Nat.zero_le _
        · next entry rest scanned =>
          have pieces := (scanEntry?_spec scanned).trans (suffix_of_skipBlank? skipped).sublist
          have counted := surcharge_le_of_sublist pieces
          rw [surcharge_append, surcharge_append] at counted
          have later := inductionHypothesis rest
          rw [List.map_cons, List.sum_cons, Entry.cost]
          omega

end DeclarationScan

namespace Declarations

/-- What escaping costs in the names and values of a block. -/
def cost (block : Declarations) : Nat :=
  (block.items.map fun item => surcharge item.1.toList + surcharge item.2.value.toList).sum

theorem cost_cons (item : String × Declaration) (rest : List (String × Declaration)) :
    cost ⟨item :: rest⟩ = surcharge item.1.toList + surcharge item.2.value.toList + cost ⟨rest⟩ :=
  List.sum_cons

theorem cost_updateFirst_le {name : String} {f : Declaration → Declaration} (more : Nat)
    (changed : ∀ d, surcharge (f d).value.toList ≤ surcharge d.value.toList + more)
    (items : List (String × Declaration)) : cost ⟨updateFirst name f items⟩ ≤ cost ⟨items⟩ + more := by
  induction items with
  | nil => exact Nat.zero_le _
  | cons item rest inductionHypothesis =>
      rcases item with ⟨n, d⟩
      have here := changed d
      rw [updateFirst, cost_cons]
      split
      · rw [cost_cons]
        dsimp only
        omega
      · rw [cost_cons]
        omega

theorem cost_cascade_le (block : Declarations) (entry : DeclarationScan.Entry) :
    (block.cascade entry.name entry.value entry.important).cost ≤ block.cost + entry.cost := by
  rw [cascade, declare, DeclarationScan.Entry.cost]
  split
  · refine Nat.le_trans (cost_updateFirst_le (surcharge entry.value.toList) ?_ block.items) ?_
    · intro old
      split
      · exact Nat.le_add_right _ _
      · exact Nat.le_add_left _ _
    · change block.cost + _ ≤ _
      omega
  · rw [cost, List.map_append, List.sum_append, List.map_singleton, List.sum_singleton]
    exact Nat.le_refl _

theorem cost_foldl_cascade_le (entries : List DeclarationScan.Entry) (block : Declarations) :
    (entries.foldl (fun block entry => block.cascade entry.name entry.value entry.important) block).cost ≤
      block.cost + (entries.map DeclarationScan.Entry.cost).sum := by
  induction entries generalizing block with
  | nil => exact Nat.le_add_right _ _
  | cons entry rest inductionHypothesis =>
      have first := cost_cascade_le block entry
      have later := inductionHypothesis (block.cascade entry.name entry.value entry.important)
      rw [List.foldl_cons, List.map_cons, List.sum_cons]
      omega

theorem cost_read_le (s : String) : (read s).cost ≤ surcharge s.toList := by
  have folded := cost_foldl_cascade_le (DeclarationScan.scanEntries s.toList.length s.toList) empty
  have entries := DeclarationScan.sum_cost_scanEntries_le s.toList.length s.toList
  have nothing : empty.cost = 0 := rfl
  change (List.foldl _ empty _).cost ≤ _
  omega

theorem surcharge_writeItem (name : String) (d : Declaration) :
    surcharge (writeItem name d).toList = surcharge name.toList + surcharge (Text.trim d.value).toList := by
  have marks : ∀ mark ∈ [":", "!important", ""], surcharge mark.toList = 0 := by decide
  have mark : surcharge (if d.important then "!important" else "").toList = 0 := by
    split
    · exact marks _ (by simp)
    · exact marks _ (by simp)
  rw [writeItem, String.toList_append, String.toList_append, String.toList_append, surcharge_append, surcharge_append,
    surcharge_append, mark, marks ":" (by simp), Nat.add_zero, Nat.add_zero]

theorem surcharge_write_le (block : Declarations) : surcharge block.write.toList ≤ block.cost := by
  rw [write, writeBlock, surcharge_intercalate (by decide), minifyValues, mapValues, cost, List.map_map, List.map_map]
  refine List.sum_le_sum fun item _ => ?_
  rcases item with ⟨name, d⟩
  change surcharge (writeItem name { d with value := (PropertyValue.ofText name d.value).minified }).toList ≤ _
  rw [surcharge_writeItem]
  exact Nat.add_le_add_left ((Text.within_trim _).trans (PropertyValue.within_minified name d.value)).surcharge_le _

theorem sparing : TextForm.Sparing Declarations := by
  intro s block found
  rw [← Option.some.inj (show some (read s) = some block from found)]
  exact Nat.le_trans (surcharge_write_le (read s)) (cost_read_le s)

end Declarations

/-! ## Frugal values -/

namespace Cached

variable {α : Type} [TextForm α]

/-- Minifying makes the shortest text the text. -/
theorem minified_minify (v : Cached α) : v.minify.minified = v.minified := by
  rcases v with ⟨source, reading, _ | shortest⟩ <;> rfl

end Cached

namespace AttributeValue

/-- Whether the shortest text of a value takes no more room than its text. -/
def Frugal (v : AttributeValue) : Prop :=
  Within v.minified v.text

theorem text_minify (v : AttributeValue) : v.minify.text = v.minified := by
  cases v with
  | property v => cases v <;> rfl
  | _ => rfl

theorem minified_minify (v : AttributeValue) : v.minify.minified = v.minify.text := by
  cases v with
  | property v =>
      cases v with
      | generic s => exact Text.trim_trim s
      | _ => exact Cached.minified_minify _
  | _ => exact Cached.minified_minify _

theorem frugal_minify (v : AttributeValue) : v.minify.Frugal := by
  rw [Frugal, minified_minify]
  exact .refl _

theorem frugal_ofProperty (name text : String) : (ofProperty name text).Frugal := by
  change Within (PropertyValue.ofText name text).minified (PropertyValue.ofText name text).text
  rw [PropertyValue.text_ofText]
  exact PropertyValue.within_minified name text

/-- Every value that was read is frugal. -/
theorem frugal_ofAttribute (element name text : String) : (ofAttribute element name text).Frugal := by
  have ofProperty := frugal_ofProperty name text
  have ofGeneric : (property (.generic text)).Frugal := Text.within_trim text
  have ofClasses : (classList (.ofText text)).Frugal := Cached.within_minified ClassList.sparing text
  have ofStyle : (style (.ofText text)).Frugal := Cached.within_minified Declarations.sparing text
  have ofReference : (property (.url (.ofText text))).Frugal := Cached.within_minified Reference.sparing text
  have ofNumber : (property (.number (.ofText text))).Frugal := Cached.within_minified Numeral.sparing text
  have ofPercentage : (percentage (.ofText text)).Frugal := Cached.within_minified Percentage.sparing text
  have ofTransform : (property (.transform (.ofText text))).Frugal :=
    Cached.within_minified TransformList.sparing text
  have ofPath : (pathData (.ofText text)).Frugal := Cached.within_minified PathData.sparing text
  have ofLength : (property (.lengthPercentage (.ofText text))).Frugal := Cached.within_minified Length.sparing text
  have ofOffset : (stopOffset (.ofText text)).Frugal := Cached.within_minified Fraction.sparing text
  unfold ofAttribute
  split
  all_goals first
    | with_reducible assumption
    | split
  all_goals with_reducible assumption

end AttributeValue

end SlimSvg
