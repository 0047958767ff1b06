import Mathlib.Data.List.Infix
import SlimSvg.Proofs.Attempt
import SlimSvg.Proofs.Lookup
import SlimSvg.Proofs.Text.Trim
import SlimSvg.Value.Declarations

namespace SlimSvg

/-!
# Declaration blocks as they are read

Reading a block only cuts its text: what remains behind a piece is an end of the text, and
names and values are pieces of it.  So no opening brace gets into a block that was read
from a text without one.  The cascade inside of a block leaves one declaration for each
property.
-/

namespace DeclarationScan

/-! ## What remains of a text -/

theorem suffix_of_skipBlank? {cs rest : List Char} (skipped : skipBlank? cs = some rest) : rest <:+ cs := by
  fun_induction skipBlank? cs with
  | case1 cs later front before after cut inductionHypothesis =>
      have behind : after <:+ '/' :: '*' :: later := by
        rw [Text.eq_append_of_cut? cut]
        exact ((List.suffix_append _ _).trans (List.suffix_cons _ _)).trans (List.suffix_cons _ _)
      exact (inductionHypothesis skipped).trans (behind.trans (front ▸ List.dropWhile_suffix _))
  | case2 => cases skipped
  | case3 cs =>
      rw [← Option.some.inj skipped]
      exact List.dropWhile_suffix _

/-- A name is cut off at the front of a text; without one, a hyphen may still be passed. -/
theorem scanName_spec (cs : List Char) :
    (scanName cs).2 <:+ cs ∧ ∀ name ∈ (scanName cs).1, cs = name ++ (scanName cs).2 := by
  unfold scanName
  split
  next hyphen body found =>
  have whole : cs = hyphen ++ body := by
    split at found
    · rw [← (Prod.mk.inj found).1, ← (Prod.mk.inj found).2]
      rfl
    · rw [← (Prod.mk.inj found).1, ← (Prod.mk.inj found).2]
      rfl
  rw [whole]
  split
  · refine ⟨List.nil_suffix, ?_⟩
    intro name among
    dsimp only at among
    split at among
    · cases among
    · rw [← Option.some.inj among]
  · next c rest =>
    split
    · refine ⟨((List.dropWhile_suffix _).trans (List.suffix_cons _ _)).trans (List.suffix_append _ _), ?_⟩
      intro name among
      rw [← Option.some.inj among, List.append_assoc, List.cons_append, List.takeWhile_append_dropWhile]
    · exact ⟨List.suffix_append _ _, fun name impossible => absurd impossible (Option.not_mem_none _)⟩

theorem suffix_of_afterString? {quote previous : Char} {cs rest : List Char}
    (behind : afterString? quote previous cs = some rest) : rest <:+ cs := by
  induction cs generalizing previous with
  | nil => cases behind
  | cons c later inductionHypothesis =>
      rw [afterString?] at behind
      split at behind
      · rw [← Option.some.inj behind]
        exact List.suffix_cons _ _
      · exact (inductionHypothesis behind).trans (List.suffix_cons _ _)

theorem suffix_of_scanTerm (cs : List Char) : (scanTerm cs).2 <:+ cs := by
  cases cs with
  | nil => exact List.suffix_rfl
  | cons c rest =>
      rw [scanTerm]
      have named := (scanName_spec rest).1
      split
      · split
        · next name after found =>
          rw [found] at named
          exact named.trans (List.suffix_cons _ _)
        · next after found =>
          rw [found] at named
          exact ((List.dropWhile_suffix _).trans named).trans (List.suffix_cons _ _)
      · split
        · have digits : rest.dropWhile Char.isDigit <:+ c :: rest := (List.dropWhile_suffix _).trans (List.suffix_cons _ _)
          have fraction {later : List Char} (found : rest.dropWhile Char.isDigit = '.' :: later) :
              later.dropWhile Char.isDigit <:+ c :: rest := by
            rw [found] at digits
            exact ((List.dropWhile_suffix _).trans (List.suffix_cons _ _)).trans digits
          dsimp only
          split
          · next later percent =>
            refine (List.suffix_cons '%' later).trans ?_
            split at percent
            · next found => exact percent ▸ fraction found
            · exact percent ▸ digits
          · refine ((scanName_spec _).1).trans ?_
            split
            · next found => exact fraction found
            · exact digits
        · split
          · split
            · next after found => exact (suffix_of_afterString? found).trans (List.suffix_cons _ _)
            · exact List.nil_suffix
          · split
            · exact List.suffix_cons _ _
            · have whole := (scanName_spec (c :: rest)).1
              split
              · next after found =>
                rw [found] at whole
                exact whole
              · next name later found =>
                rw [found] at whole
                have opened : later.dropWhile (· != ')') <:+ c :: rest :=
                  ((List.dropWhile_suffix _).trans (List.suffix_cons _ _)).trans whole
                split
                · next close after closed =>
                  rw [closed] at opened
                  exact (List.suffix_cons _ _).trans opened
                · exact List.nil_suffix
              · next name after _ found =>
                rw [found] at whole
                exact whole

/-- The last term ends before what follows all that was consumed. -/
theorem suffixes_of_scanTerms? {bound : Nat} {last cs : List Char} {found : List Char × List Char}
    (behind : cs <:+ last) (scanned : scanTerms? bound last cs = some found) :
    found.1 <:+ last ∧ found.2 <:+ found.1 := by
  induction bound generalizing last cs with
  | zero =>
      rw [← Option.some.inj scanned]
      exact ⟨List.suffix_rfl, behind⟩
  | succ bound inductionHypothesis =>
      have term := suffix_of_scanTerm cs
      rw [scanTerms?] at scanned
      split at scanned
      · next rest ended =>
        rw [ended] at term
        rw [← Option.some.inj scanned]
        exact ⟨List.suffix_rfl, term.trans behind⟩
      · next rest ended =>
        rw [ended] at term
        rcases Option.bind_eq_some_iff.mp scanned with ⟨next, skipped, further⟩
        rcases inductionHypothesis (suffix_of_skipBlank? skipped) further with ⟨first, second⟩
        exact ⟨first.trans (term.trans behind), second⟩

theorem suffix_of_skipSemicolons? {bound : Nat} {cs rest : List Char} (skipped : skipSemicolons? bound cs = some rest) :
    rest <:+ cs := by
  fun_induction skipSemicolons? bound cs with
  | case1 bound later inductionHypothesis =>
      rcases Option.bind_eq_some_iff.mp skipped with ⟨next, blank, further⟩
      exact (inductionHypothesis next further).trans ((suffix_of_skipBlank? blank).trans (List.suffix_cons _ _))
  | case2 => rw [← Option.some.inj skipped]

theorem suffix_of_scanImportant? {cs : List Char} {found : Bool × List Char} (scanned : scanImportant? cs = some found) :
    found.2 <:+ cs := by
  unfold scanImportant? at scanned
  split at scanned
  · next rest =>
    rcases Option.bind_eq_some_iff.mp scanned with ⟨next, skipped, scanned⟩
    have behind := (suffix_of_skipBlank? skipped).trans (List.suffix_cons '!' rest)
    split at scanned
    · next after cut =>
      rw [← Option.some.inj scanned]
      rw [Text.eq_append_of_isPrefixOf? cut] at behind
      exact (List.suffix_append _ _).trans behind
    · rw [← Option.some.inj scanned]
      exact behind
  · rw [← Option.some.inj scanned]

/-! ## Entries -/

/-- Whether a character stands nowhere in an entry. -/
def Entry.Lacks (x : Char) (entry : Entry) : Prop :=
  x ∉ entry.name.toList ∧ x ∉ entry.value.toList

/-- The text behind a star that hides a declaration from other readers. -/
def behindStar : List Char → List Char
  | '*' :: rest => rest
  | cs => cs

theorem suffix_behindStar (cs : List Char) : behindStar cs <:+ cs := by
  unfold behindStar
  split
  · exact List.suffix_cons _ _
  · exact List.suffix_rfl

/-- The name and the value of an entry are pieces of the text before what remains of it. -/
theorem scanEntry?_spec {cs rest : List Char} {entry : Entry} (scanned : scanEntry? cs = some (entry, rest)) :
    (entry.name.toList ++ (entry.value.toList ++ rest)).Sublist cs := by
  rcases Option.bind_eq_some_iff.mp scanned with ⟨begun, skipped, scanned⟩
  have begins := (suffix_behindStar begun).trans (suffix_of_skipBlank? skipped)
  dsimp only at scanned
  split at scanned
  · next name afterName found =>
    have named := scanName_spec (behindStar begun)
    rw [show scanName (behindStar begun) = (some name, afterName) from found] at named
    rcases Option.bind_eq_some_iff.mp scanned with ⟨colon, colonBlank, scanned⟩
    rcases Option.bind_eq_some_iff.mp scanned with ⟨afterColon, colonCut, scanned⟩
    rcases Option.bind_eq_some_iff.mp scanned with ⟨start, startBlank, scanned⟩
    rcases Option.bind_eq_some_iff.mp scanned with ⟨⟨last, afterTerms⟩, terms, scanned⟩
    rcases Option.bind_eq_some_iff.mp scanned with ⟨mark, markBlank, scanned⟩
    rcases Option.bind_eq_some_iff.mp scanned with ⟨⟨important, afterMark⟩, marked, scanned⟩
    rcases Option.bind_eq_some_iff.mp scanned with ⟨semicolons, semicolonsBlank, scanned⟩
    rcases Option.bind_eq_some_iff.mp scanned with ⟨afterSemicolons, ended, scanned⟩
    rcases Option.bind_eq_some_iff.mp scanned with ⟨final, finalBlank, scanned⟩
    have startBehind : start <:+ afterName := by
      have colonBehind := suffix_of_skipBlank? colonBlank
      rw [Text.eq_append_of_isPrefixOf? colonCut] at colonBehind
      exact (suffix_of_skipBlank? startBlank).trans ((List.suffix_append _ _).trans colonBehind)
    rcases suffixes_of_scanTerms? List.suffix_rfl terms with ⟨⟨front, startEq⟩, termsBehind⟩
    have semicolonsBehind := (suffix_of_skipBlank? semicolonsBlank).trans ((suffix_of_scanImportant? marked).trans
      ((suffix_of_skipBlank? markBlank).trans termsBehind))
    have finalBehind := (suffix_of_skipBlank? finalBlank).trans ((suffix_of_skipSemicolons? ended).trans semicolonsBehind)
    split at scanned
    · cases scanned
    · rcases Prod.mk.inj (Option.some.inj scanned) with ⟨entryEq, restEq⟩
      have valued : (Text.trimChars (start.take (start.length - last.length))).Sublist front := by
        rw [← startEq, List.length_append, Nat.add_sub_cancel, List.take_left]
        exact Text.trimChars_sublist front
      rw [← restEq, ← entryEq, String.toList_ofList, String.toList_ofList]
      refine List.Sublist.trans ?_ begins.sublist
      rw [named.2 name rfl]
      refine List.Sublist.append_left (List.Sublist.trans ?_ startBehind.sublist) name
      rw [← startEq] at valued ⊢
      exact valued.append finalBehind.sublist
  · cases scanned

theorem lacks_of_scanEntries {x : Char} {bound : Nat} {cs : List Char} (absent : x ∉ cs) :
    ∀ entry ∈ scanEntries bound cs, entry.Lacks x := by
  induction bound generalizing cs with
  | zero => exact List.forall_mem_nil _
  | succ bound inductionHypothesis =>
      rw [scanEntries]
      split
      · exact List.forall_mem_nil _
      · exact List.forall_mem_nil _
      · next begun skipped =>
        have begins := suffix_of_skipBlank? skipped
        split
        · exact List.forall_mem_nil _
        · next entry rest scanned =>
          have pieces := (scanEntry?_spec scanned).trans begins.sublist
          refine List.forall_mem_cons.mpr ⟨⟨fun listed => ?_, fun listed => ?_⟩, inductionHypothesis fun listed => ?_⟩
          · exact absent (pieces.subset (List.mem_append_left _ listed))
          · exact absent (pieces.subset (List.mem_append_right _ (List.mem_append_left _ listed)))
          · exact absent (pieces.subset (List.mem_append_right _ (List.mem_append_right _ listed)))

end DeclarationScan

namespace Declarations

/-! ## Blocks -/

section Items

variable {P : String → String → Prop} {items : List (String × Declaration)}

theorem forall_updateFirst {name : String} {f : Declaration → Declaration} (each : ∀ item ∈ items, P item.1 item.2.value)
    (changed : ∀ d : Declaration, P name d.value → P name (f d).value) :
    ∀ item ∈ updateFirst name f items, P item.1 item.2.value := by
  induction items with
  | nil => exact List.forall_mem_nil _
  | cons item rest inductionHypothesis =>
      rcases List.forall_mem_cons.mp each with ⟨here, later⟩
      rw [updateFirst]
      split
      · next same =>
        rw [beq_iff_eq] at same
        refine List.forall_mem_cons.mpr ⟨?_, later⟩
        exact same ▸ changed item.2 (same ▸ here)
      · exact List.forall_mem_cons.mpr ⟨here, inductionHypothesis later⟩

theorem forall_cascade {block : Declarations} (each : ∀ item ∈ block.items, P item.1 item.2.value)
    {entry : DeclarationScan.Entry} (added : P entry.name entry.value) :
    ∀ item ∈ (block.cascade entry.name entry.value entry.important).items, P item.1 item.2.value := by
  rw [cascade, declare]
  split
  · refine forall_updateFirst each fun d kept => ?_
    split
    · exact kept
    · exact added
  · intro item listed
    rcases List.mem_append.mp listed with old | new
    · exact each item old
    · rw [List.mem_singleton.mp new]
      exact added

/-- What holds of the entries of a text holds of the block that is read. -/
theorem forall_read {text : String}
    (each : ∀ entry ∈ DeclarationScan.scanEntries text.toList.length text.toList, P entry.name entry.value) :
    ∀ item ∈ (read text).items, P item.1 item.2.value := by
  have cascaded : ∀ (entries : List DeclarationScan.Entry) (block : Declarations),
      (∀ entry ∈ entries, P entry.name entry.value) → (∀ item ∈ block.items, P item.1 item.2.value) →
      ∀ item ∈ (entries.foldl (fun block entry => block.cascade entry.name entry.value entry.important) block).items,
        P item.1 item.2.value := by
    intro entries
    induction entries with
    | nil => exact fun _ _ each => each
    | cons entry rest inductionHypothesis =>
        intro block each held
        rcases List.forall_mem_cons.mp each with ⟨here, later⟩
        exact inductionHypothesis _ later (forall_cascade held here)
  exact cascaded _ _ each (List.forall_mem_nil _)

end Items

/-! ## Characters that a block lacks -/

/-- Whether a character stands nowhere in a block. -/
def Lacks (x : Char) (block : Declarations) : Prop :=
  ∀ item ∈ block.items, x ∉ item.1.toList ∧ x ∉ item.2.value.toList

variable {x : Char}

/-- A block is read without the characters that its text is without. -/
theorem lacks_read {text : String} (absent : x ∉ text.toList) : (read text).Lacks x :=
  @forall_read (fun name value => x ∉ name.toList ∧ x ∉ value.toList) text (DeclarationScan.lacks_of_scanEntries absent)

/-- Writing a block adds no opening brace. -/
theorem Lacks.notMem_writeBlock {block : Declarations} (lacks : block.Lacks '\x7b') :
    '\x7b' ∉ block.writeBlock.toList := by
  have item_text : ∀ item ∈ block.items, '\x7b' ∉ (writeItem item.1 item.2).toList := by
    intro item listed
    rcases lacks item listed with ⟨named, valued⟩
    rw [writeItem, String.toList_append, String.toList_append, String.toList_append, Text.toList_trim]
    refine List.not_mem_append (List.not_mem_append (List.not_mem_append named (by decide)) ?_) ?_
    · rcases Text.exists_append_trimChars item.2.value.toList with ⟨front, back, parts, -⟩
      exact fun inside => valued (parts ▸ List.mem_append_left _ (List.mem_append_right _ inside))
    · split
      · decide
      · decide
  rw [writeBlock, String.toList_intercalate]
  generalize block.items = items at item_text
  induction items with
  | nil => exact List.not_mem_nil
  | cons item rest inductionHypothesis =>
      rcases List.forall_mem_cons.mp item_text with ⟨here, later⟩
      cases rest with
      | nil =>
          rw [List.map_singleton, List.map_singleton, List.intercalate_singleton]
          exact here
      | cons other more =>
          rw [List.map_cons, List.map_cons, List.map_cons, List.map_cons, List.intercalate_cons_cons]
          exact List.not_mem_append (List.not_mem_append here (by decide)) (inductionHypothesis later)

/-! ## Blocks that declare a property once -/

/-- Every property is declared at most once. -/
def Distinct (block : Declarations) : Prop :=
  (block.items.map (·.1)).Nodup

theorem map_fst_updateFirst (name : String) (f : Declaration → Declaration)
    (items : List (String × Declaration)) :
    (updateFirst name f items).map (·.1) = items.map (·.1) := by
  induction items with
  | nil => rfl
  | cons item rest inductionHypothesis =>
      rw [updateFirst]
      split
      · rfl
      · rw [List.map_cons, List.map_cons, inductionHypothesis]

theorem Distinct.declare {block : Declarations} (distinct : block.Distinct) (name : String)
    (new : Declaration) (change : Declaration → Declaration) :
    (block.declare name new change).Distinct := by
  rw [Declarations.declare]
  split
  · rw [Distinct, map_fst_updateFirst]
    exact distinct
  · next absent => exact nodup_map_append_singleton distinct absent

theorem distinct_read (text : String) : (read text).Distinct := by
  have cascaded : ∀ (entries : List DeclarationScan.Entry) (block : Declarations),
      block.Distinct → (entries.foldl
        (fun block entry => block.cascade entry.name entry.value entry.important) block).Distinct := by
    intro entries
    induction entries with
    | nil => exact fun _ distinct => distinct
    | cons entry rest inductionHypothesis =>
        exact fun block distinct => inductionHypothesis _ (distinct.declare _ _ _)
  exact cascaded _ _ List.nodup_nil

end Declarations
end SlimSvg
