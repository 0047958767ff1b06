import SlimSvg.Plugin.Summary
import SlimSvg.Proofs.Attempt
import SlimSvg.Proofs.Value.BlockText

namespace SlimSvg
namespace Css

/-!
# Rules that were read

Whatever the at-rules and blocks of a sheet are, each rule in it was made from
one selector and the text of one block.
-/

/-- Whether a rule is what reading makes of a selector and the text of a block. -/
def Rule.WasRead (r : Rule) : Prop :=
  ∃ selector block inMedia, r = .ofSelector selector (.read block) inMedia

theorem Rule.WasRead.distinct {r : Rule} (read : r.WasRead) : r.declarations.Distinct := by
  obtain ⟨selector, block, inMedia, same⟩ := read
  rw [same]
  exact Declarations.distinct_read block

/-- Whether all rules of some sets have a property, which may ask whether the set of the
rule has a media query. -/
def AllRules (P : Bool → Rule → Prop) (sets : List RuleSet) : Prop :=
  ∀ set ∈ sets, ∀ r ∈ set.rules, P set.media.isSome r

/-- Whether the text before a block and the text of the block hold no sign at which reading
a rule stops. -/
def IsRuleText (start block : List Char) : Prop :=
  (¬ start.any (fun c => c == ';' || c == '\x7d') = true) ∧ ¬ block.contains '\x7b' = true

/-- Whether a property holds of every rule that is made of a selector in a list and the
text of a block. -/
def HoldsOfRead (P : Bool → Rule → Prop) : Prop :=
  ∀ start selectors selector block inMedia, IsRuleText start block → Selector.readList start = .ok selectors →
    selector ∈ selectors → P inMedia (.ofSelector selector (.read (String.ofList block)) inMedia)

theorem holdsOfRead_wasRead : HoldsOfRead fun _ r => r.WasRead :=
  fun _ _ selector block inMedia _ _ _ => ⟨selector, String.ofList block, inMedia, rfl⟩

namespace SheetText

variable {P : Bool → Rule → Prop}

theorem holds_of_rule (made : HoldsOfRead P) {inMedia : Bool} {cs rest : List Char} {here : List Rule}
    (read : rule inMedia cs = .ok (here, rest)) : ∀ r ∈ here, P inMedia r := by
  rw [rule] at read
  obtain ⟨⟨start, afterStart⟩, -, read⟩ := bind_eq_ok.mp read
  obtain ⟨unended, read⟩ := unless_refused_eq_ok.mp read
  obtain ⟨⟨block, afterBlock⟩, -, read⟩ := bind_eq_ok.mp read
  obtain ⟨unnested, read⟩ := unless_refused_eq_ok.mp read
  obtain ⟨selectors, selectorsRead, read⟩ := bind_eq_ok.mp read
  rw [← (Prod.mk.inj (pure_eq_ok.mp read)).1]
  intro r listed
  obtain ⟨selector, among, same⟩ := List.mem_map.mp listed
  rw [← same]
  exact made start selectors selector block inMedia ⟨unended, unnested⟩ selectorsRead among

theorem holds_of_rules (made : HoldsOfRead P) {inMedia : Bool} {bound : Nat} {cs : List Char}
    {found : List Rule} (read : rules inMedia bound cs = .ok found) : ∀ r ∈ found, P inMedia r := by
  induction bound generalizing cs found with
  | zero =>
      rw [← Except.ok.inj read]
      exact List.forall_mem_nil _
  | succ bound inductionHypothesis =>
      rw [rules] at read
      split at read
      · rw [← Except.ok.inj read]
        exact List.forall_mem_nil _
      · cases read
      · cases read
      · obtain ⟨⟨here, rest⟩, hereRead, read⟩ := bind_eq_ok.mp read
        obtain ⟨others, othersRead, same⟩ := bind_eq_ok.mp read
        rw [← pure_eq_ok.mp same]
        intro r listed
        rcases List.mem_append.mp listed with first | later
        · exact holds_of_rule made hereRead r first
        · exact inductionHypothesis othersRead r later

theorem allRules_unlessEmpty {current : RuleSet} (holds : ∀ r ∈ current.rules, P current.media.isSome r) :
    AllRules P (unlessEmpty current) := by
  rw [unlessEmpty]
  split
  · exact List.forall_mem_nil _
  · intro set listed
    rw [List.mem_singleton.mp listed]
    exact holds

theorem allRules_of_sets (made : HoldsOfRead P) {media : Option String} {bound : Nat} {current : RuleSet}
    {cs : List Char} {found : List RuleSet} (media_eq : current.media = media)
    (sofar : ∀ r ∈ current.rules, P media.isSome r) (read : sets media bound current cs = .ok found) :
    AllRules P found := by
  -- The set that is being filled is carried along, so its rules are known at every step.
  induction bound generalizing current cs found with
  | zero =>
      rw [← Except.ok.inj read]
      exact allRules_unlessEmpty (media_eq ▸ sofar)
  | succ bound inductionHypothesis =>
      rw [sets] at read
      split at read
      · rw [← Except.ok.inj read]
        exact allRules_unlessEmpty (media_eq ▸ sofar)
      · dsimp only at read
        split at read
        · obtain ⟨-, read⟩ := unless_refused_eq_ok.mp read
          obtain ⟨⟨query, afterQuery⟩, -, read⟩ := bind_eq_ok.mp read
          dsimp only at read
          obtain ⟨⟨block, afterBlock⟩, -, read⟩ := bind_eq_ok.mp read
          dsimp only at read
          obtain ⟨inner, innerRead, read⟩ := bind_eq_ok.mp read
          obtain ⟨others, othersRead, same⟩ := bind_eq_ok.mp read
          have next_media : (if current.isEmpty then current else .ofMedia media).media = media := by
            split
            · exact media_eq
            · rfl
          have next : ∀ r ∈ (if current.isEmpty then current else .ofMedia media).rules,
              P media.isSome r := by
            split
            · exact sofar
            · exact List.forall_mem_nil _
          rw [← pure_eq_ok.mp same]
          intro set listed
          rcases List.mem_append.mp listed with before | behind
          · exact allRules_unlessEmpty (media_eq ▸ sofar) set before
          · rcases List.mem_cons.mp behind with block | later
            · rw [block]
              exact holds_of_rules made innerRead
            · exact inductionHypothesis next_media next othersRead set later
        · obtain ⟨⟨_, afterName⟩, -, read⟩ := bind_eq_ok.mp read
          dsimp only at read
          obtain ⟨⟨face, afterFace⟩, -, read⟩ := bind_eq_ok.mp read
          exact inductionHypothesis (by exact media_eq) (by exact sofar) read
        · obtain ⟨⟨_, afterCharset⟩, -, read⟩ := bind_eq_ok.mp read
          exact inductionHypothesis media_eq sofar read
        · cases read
      · cases read
      · obtain ⟨⟨here, rest⟩, hereRead, read⟩ := bind_eq_ok.mp read
        refine inductionHypothesis (by exact media_eq) ?_ read
        intro r listed
        rcases List.mem_append.mp listed with old | new
        · exact sofar r old
        · exact holds_of_rule made hereRead r new

end SheetText

theorem allRules_of_readSheet {P : Bool → Rule → Prop} (made : HoldsOfRead P) {text : String}
    {media : Option String} {found : List RuleSet} (read : readSheet text media = .ok found) : AllRules P found := by
  have begun : (RuleSet.ofMedia (media.bind mediaQuery?)).media = media.bind mediaQuery? := rfl
  exact SheetText.allRules_of_sets made begun (List.forall_mem_nil _) read

namespace Styles

/-- What is derived adds nothing to the sheets. -/
theorem ofSheets_sheets (s : Styles) : ofSheets s.sheets = s := by
  rcases s with ⟨sheets, derived, rfl⟩
  rfl

/-- A sheet remembers the element that it was read from. -/
theorem element_of_sheetOf {doc : Document} {node : NodeId} {e : Element} {sheet : Sheet}
    (made : sheetOf doc node e = .ok sheet) : sheet.element = node := by
  rw [sheetOf] at made
  rcases unless_refused_eq_ok.mp made with ⟨-, later⟩
  rcases bind_eq_ok.mp later with ⟨sets, -, result⟩
  rw [← pure_eq_ok.mp result]

/-- The sheets of a document are read one after the other. -/
theorem exists_sheets_of_ofDocument {doc : Document} {s : Styles} (collected : ofDocument doc = .ok s) :
    ∃ sheets, s.sheets = sheets ∧
      ((doc.elements.filterMap fun n => (doc.element? n).map fun e => (n, e)).filter
        fun (_, e) => isStyleElement e).mapM (fun (n, e) => sheetOf doc n e) = .ok sheets := by
  rw [ofDocument] at collected
  obtain ⟨sheets, sheetsRead, collected⟩ := bind_eq_ok.mp collected
  refine ⟨sheets, ?_, sheetsRead⟩
  dsimp only at collected
  split at collected
  · split at collected
    · cases collected
    · rw [← pure_eq_ok.mp collected]
      rfl
  · rw [← pure_eq_ok.mp collected]
    rfl

/-- Every sheet of a document was read from a style element of its tree. -/
theorem exists_sheetOf_of_ofDocument {doc : Document} {s : Styles}
    (collected : ofDocument doc = .ok s) :
    ∀ sheet ∈ s.sheets, ∃ e, sheet.element ∈ doc.elements ∧
      doc.element? sheet.element = some e ∧ isStyleElement e = true ∧
      sheetOf doc sheet.element e = .ok sheet := by
  rcases exists_sheets_of_ofDocument collected with ⟨sheets, sheetsEq, sheetsRead⟩
  intro sheet listed
  rw [sheetsEq] at listed
  rcases exists_of_mem_of_mapM_eq_ok sheetsRead listed with ⟨⟨node, e⟩, among, made⟩
  rcases List.mem_filter.mp among with ⟨inTree, styled⟩
  rcases List.mem_filterMap.mp inTree with ⟨other, otherListed, found⟩
  rcases Option.map_eq_some_iff.mp found with ⟨held, heldFound, same⟩
  have nodeEq : sheet.element = node := element_of_sheetOf made
  rcases Prod.mk.inj same with ⟨otherEq, heldEq⟩
  rw [otherEq, heldEq] at heldFound
  rw [otherEq] at otherListed
  rw [nodeEq]
  exact ⟨e, otherListed, heldFound, styled, made⟩

/-- What holds of every rule that is read holds of the rules of a document. -/
theorem allRules_of_ofDocument {P : Bool → Rule → Prop} (made : HoldsOfRead P) {doc : Document} {s : Styles}
    (collected : ofDocument doc = .ok s) : ∀ sheet ∈ s.sheets, AllRules P sheet.sets := by
  intro sheet listed
  rcases exists_sheetOf_of_ofDocument collected sheet listed with ⟨e, -, -, -, sheetMade⟩
  rw [sheetOf] at sheetMade
  obtain ⟨-, sheetMade⟩ := unless_refused_eq_ok.mp sheetMade
  obtain ⟨sets, setsRead, same⟩ := bind_eq_ok.mp sheetMade
  rw [← pure_eq_ok.mp same]
  exact allRules_of_readSheet made setsRead

theorem exists_holds_of_ofDocument {P : Bool → Rule → Prop} (made : HoldsOfRead P) {doc : Document} {s : Styles}
    (collected : ofDocument doc = .ok s) : ∀ r ∈ Derived.rules s.sheets, ∃ inMedia, P inMedia r := by
  intro r listed
  obtain ⟨set, setListed, inSet⟩ := List.mem_flatMap.mp listed
  obtain ⟨sheet, sheetListed, inSheet⟩ := List.mem_flatMap.mp setListed
  exact ⟨_, allRules_of_ofDocument made collected sheet sheetListed set inSheet r inSet⟩

/-- Every rule of the sheets of a document was read. -/
theorem wasRead_of_ofDocument {doc : Document} {s : Styles} (collected : ofDocument doc = .ok s) :
    ∀ r ∈ Derived.rules s.sheets, r.WasRead := by
  intro r listed
  obtain ⟨-, read⟩ := exists_holds_of_ofDocument holdsOfRead_wasRead collected r listed
  exact read

end Styles

end Css

/-- Styles that a summary trusts are those of the document. -/
theorem Summary.ofDocument_of_reliableStyles? {doc : Document} {styles : Css.Styles}
    (trusted : (Summary.ofDocument doc).reliableStyles? = some styles) :
    Css.Styles.ofDocument doc = .ok styles := by
  rw [reliableStyles?] at trusted
  split at trusted
  · cases trusted
  · exact toOption_eq_some.mp trusted

theorem Summary.ofDocument_of_stillStyles? {doc : Document} {styles : Css.Styles}
    (still : (Summary.ofDocument doc).stillStyles? = some styles) : Css.Styles.ofDocument doc = .ok styles := by
  rw [stillStyles?] at still
  split at still
  · cases still
  · exact ofDocument_of_reliableStyles? still

end SlimSvg
