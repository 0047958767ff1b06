import SlimSvg.Proofs.Css.Blocks
import SlimSvg.Proofs.Css.Letters
import SlimSvg.Proofs.Css.ReadBack
import SlimSvg.Proofs.Css.Sheets
import SlimSvg.Proofs.Value.BlockText

namespace SlimSvg
namespace Css

/-!
# The pieces of a written sheet

A sheet is written as font faces, rules for neighbours with equal declarations, and media
blocks.  Each piece is read from its text in one step, whatever stands behind it, if what
is written of its selectors and declarations is read back alone and ends where the scans
of the sheet look for its end.
-/

open SelectorText

/-! ## Rules -/

/-- What every rule is that was read: it remembers what its selector says, and it is written
without the signs at which reading a rule stops. -/
structure Rule.Readable (inMedia : Bool) (r : Rule) : Prop where
  made : r = .ofSelector r.selector r.declarations inMedia
  form : r.selector.HasForm false
  start : ∀ x ∈ r.selector.write.toList, endsStart x = false
  block : '\x7b' ∉ r.declarations.writeBlock.toList

theorem holdsOfRead_readable : HoldsOfRead Rule.Readable := by
  intro start selectors selector block inMedia ruleText read listed
  rcases ruleText with ⟨unended, unnested⟩
  refine ⟨rfl, Selector.form_of_readList read selector listed, ?_, ?_⟩
  · intro x among
    rw [Bool.eq_false_iff]
    intro ends
    refine Selector.notMem_write_of_readList ends read (fun inside => unended ?_) selector listed among
    exact List.any_eq_true.mpr ⟨x, inside, ends⟩
  · refine Declarations.Lacks.notMem_writeBlock (Declarations.lacks_read ?_)
    rw [String.toList_ofList]
    exact fun inside => unnested (List.contains_iff_mem.mpr inside)

/-- Whether a text holds no comment and no mark that hides a sheet. -/
def Unmarked (s : String) : Prop :=
  stripComments none s.toList = s.toList

instance (s : String) : Decidable (Unmarked s) :=
  inferInstanceAs (Decidable (_ = _))

/-- Whether the selector and the declarations of a rule are read back when they stand alone. -/
structure Rule.ReadsAlone (r : Rule) : Prop where
  selector : Selector.read r.selector.write = .ok r.selector
  declarations : Declarations.read r.declarations.writeBlock = r.declarations
  unmarked : Unmarked r.selector.write ∧ Unmarked r.declarations.writeBlock

/-- Whether the text of a rule ends where a scan for its end finds it: the selector before a
comma, before the brace of its block and inside of a media block, the declarations before
the closing brace. -/
structure Rule.IsClosed (r : Rule) : Prop where
  part : Balanced ',' r.selector.write.toList
  start : Balanced '\x7b' r.selector.write.toList
  nested : r.inMedia = true → IsBlock r.selector.write.toList
  block : IsBlock r.declarations.writeBlock.toList

namespace SheetText

/-- The text of some rules with the same declarations. -/
def groupText (group : List Rule) (block : Declarations) : List Char :=
  listText (group.map (·.selector)) ++ '\x7b' :: (block.writeBlock.toList ++ ['\x7d'])

theorem toList_writeRules {group : List Rule} {block : Declarations} (nonempty : group ≠ [])
    (same : ∀ r ∈ group, r.declarations = block) : (writeRules group).toList = groupText group block := by
  cases group with
  | nil => exact absurd rfl nonempty
  | cons r rest =>
      rw [writeRules, String.toList_append, String.toList_append, String.toList_append, String.toList_intercalate,
        List.map_map, same r List.mem_cons_self, groupText, listText, List.map_map, List.append_assoc, List.append_assoc]
      rfl

theorem balanced_listText {stop : Char} (comma : Balanced stop [',']) {list : List Selector}
    (each : ∀ s ∈ list, Balanced stop s.write.toList) : Balanced stop (listText list) := by
  induction list with
  | nil => exact balanced_nil
  | cons s rest inductionHypothesis =>
      rcases List.forall_mem_cons.mp each with ⟨here, later⟩
      cases rest with
      | nil =>
          rw [listText_singleton]
          exact here
      | cons other more =>
          rw [listText_cons_cons]
          exact here.append (comma.append (inductionHypothesis later))

/-- What a group of rules has to be for its text to be read as the group. -/
structure IsGroup (inMedia : Bool) (group : List Rule) (block : Declarations) : Prop where
  nonempty : group ≠ []
  same : ∀ r ∈ group, r.declarations = block
  readable : ∀ r ∈ group, r.Readable inMedia
  alone : ∀ r ∈ group, r.ReadsAlone
  closed : ∀ r ∈ group, r.IsClosed

theorem spanBlock?_block {block : List Char} (closed : IsBlock block) (rest : List Char) :
    spanBlock? 0 none (block ++ '\x7d' :: rest) = some (block, rest) := by
  rw [closed.passes]
  change some (block ++ [], rest) = _
  rw [List.append_nil]

section Group

variable {inMedia : Bool} {group : List Rule} {block : Declarations}

theorem IsGroup.readList (isGroup : IsGroup inMedia group block) :
    Selector.readList (listText (group.map (·.selector))) = .ok (group.map (·.selector)) := by
  have each : ∀ s ∈ group.map (·.selector), ∃ r ∈ group, r.selector = s := fun s listed => List.mem_map.mp listed
  refine selectors_listText (fun empty => isGroup.nonempty (List.map_eq_nil_iff.mp empty)) ?_ ?_
    (length_le_listText _)
  · intro s listed
    rcases each s listed with ⟨r, among, rfl⟩
    exact (isGroup.closed r among).part
  · intro s listed
    rcases each s listed with ⟨r, among, rfl⟩
    exact selector_of_read (isGroup.alone r among).selector (length_write_le_listText listed)

theorem IsGroup.block_spec (isGroup : IsGroup inMedia group block) :
    IsBlock block.writeBlock.toList ∧ '\x7b' ∉ block.writeBlock.toList ∧
      Declarations.read block.writeBlock = block ∧ Unmarked block.writeBlock := by
  rcases List.exists_mem_of_ne_nil group isGroup.nonempty with ⟨r, among⟩
  rw [← isGroup.same r among]
  exact ⟨(isGroup.closed r among).block, (isGroup.readable r among).block, (isGroup.alone r among).declarations,
    (isGroup.alone r among).unmarked.2⟩

theorem IsGroup.balanced (isGroup : IsGroup inMedia group block) :
    Balanced '\x7b' (listText (group.map (·.selector))) := by
  refine balanced_listText (by decide) fun s listed => ?_
  rcases List.mem_map.mp listed with ⟨r, among, same⟩
  exact same ▸ (isGroup.closed r among).start

theorem IsGroup.start_spec (isGroup : IsGroup inMedia group block) :
    ¬ ((listText (group.map (·.selector))).any fun c => c == ';' || c == '\x7d') = true := by
  intro found
  rcases List.any_eq_true.mp found with ⟨x, inside, ends⟩
  rcases mem_listText inside with comma | ⟨s, listed, among⟩
  · rw [comma] at ends
    exact absurd ends (by decide)
  · rcases List.mem_map.mp listed with ⟨r, member, same⟩
    exact absurd ((isGroup.readable r member).start x (same ▸ among)) (by rw [show endsStart x = true from ends]; decide)

/-- A rule is read from the text of a group, once for each selector. -/
theorem rule_groupText (isGroup : IsGroup inMedia group block) (rest : List Char) :
    rule inMedia (groupText group block ++ rest) = .ok (group, rest) := by
  rcases isGroup.block_spec with ⟨closed, unnested, readBack, -⟩
  have start := spanBefore?_append isGroup.balanced rfl (block.writeBlock.toList ++ '\x7d' :: rest)
  have inner := spanBlock?_block closed rest
  have again : (group.map (·.selector)).map (fun s => Rule.ofSelector s block inMedia) = group := by
    rw [List.map_map]
    refine (List.map_congr_left fun r listed => ?_).trans (List.map_id group)
    rw [(isGroup.readable r listed).made]
    change Rule.ofSelector r.selector block inMedia = Rule.ofSelector r.selector r.declarations inMedia
    rw [isGroup.same r listed]
  have shape : groupText group block ++ rest =
      listText (group.map (·.selector)) ++ '\x7b' :: (block.writeBlock.toList ++ '\x7d' :: rest) := by
    rw [groupText, List.append_assoc, List.cons_append, List.append_assoc]
    rfl
  rw [rule, shape, start]
  dsimp only [orEnd, bind, Except.bind]
  rw [if_neg isGroup.start_spec, inner]
  dsimp only
  rw [if_neg (fun found => unnested (List.contains_iff_mem.mp found)), isGroup.readList]
  dsimp only
  rw [String.ofList_toList, readBack, again]
  rfl

theorem exists_front_groupText (isGroup : IsGroup inMedia group block) :
    ∃ c rest, groupText group block = c :: rest ∧ BeginsTest c := by
  have nonempty := isGroup.nonempty
  have readable := isGroup.readable
  cases group with
  | nil => exact absurd rfl nonempty
  | cons r others =>
      rcases exists_front_selector (readable r List.mem_cons_self).form with ⟨c, rest, front, begins⟩
      cases others with
      | nil =>
          refine ⟨c, rest ++ '\x7b' :: (block.writeBlock.toList ++ ['\x7d']), ?_, begins⟩
          rw [groupText, List.map_singleton, listText_singleton, front]
          rfl
      | cons other more =>
          refine ⟨c, rest ++ ',' :: listText (other.selector :: more.map (·.selector)) ++
            '\x7b' :: (block.writeBlock.toList ++ ['\x7d']), ?_, begins⟩
          rw [groupText, List.map_cons, List.map_cons, listText_cons_cons, front]
          rfl

/-! ## Steps of reading -/

/-- A rule is read where neither an at-rule nor the end of a block begins. -/
theorem sets_rule {media : Option String} {bound : Nat} {current : RuleSet} {cs rest : List Char} {c : Char}
    (front : cs = c :: rest) (begins : BeginsTest c) :
    sets media (bound + 1) current cs = (rule media.isSome cs).bind fun found =>
      sets media bound { current with rules := current.rules ++ found.1 } found.2 := by
  rw [sets, skipSpaces_eq_self front begins.solid, front]
  split
  · next impossible => cases impossible
  · next impossible => exact absurd (List.cons.inj impossible).1 begins.ruled.1
  · next impossible => exact absurd (List.cons.inj impossible).1 begins.ruled.2
  · rfl

theorem rules_rule {bound : Nat} {cs rest : List Char} {c : Char} (front : cs = c :: rest) (begins : BeginsTest c) :
    rules inMedia (bound + 1) cs = (rule inMedia cs).bind fun found =>
      (rules inMedia bound found.2).map (found.1 ++ ·) := by
  rw [rules, skipSpaces_eq_self front begins.solid, front]
  split
  · next impossible => cases impossible
  · next impossible => exact absurd (List.cons.inj impossible).1 begins.ruled.1
  · next impossible => exact absurd (List.cons.inj impossible).1 begins.ruled.2
  · refine congrArg (Except.bind _) (funext fun found => ?_)
    exact bind_pure_eq_map _ _

end Group

/-- What is read of a text if there are enough steps. -/
def Reads (current : RuleSet) (cs : List Char) (found : List RuleSet) : Prop :=
  ∀ bound, cs.length < bound → sets none bound current cs = .ok found

variable {current : RuleSet} {rest : List Char} {found : List RuleSet}

theorem reads_nil (current : RuleSet) : Reads current [] (unlessEmpty current) := by
  intro bound enough
  cases bound with
  | zero => exact absurd enough (Nat.not_lt_zero _)
  | succ bound => rfl

/-- A group of rules is added to the set that is being read. -/
theorem Reads.group {group : List Rule} {block : Declarations} (isGroup : IsGroup false group block)
    (reads : Reads { current with rules := current.rules ++ group } rest found) :
    Reads current (groupText group block ++ rest) found := by
  intro bound enough
  rcases exists_front_groupText isGroup with ⟨c, later, front, begins⟩
  have whole : groupText group block ++ rest = c :: (later ++ rest) := by
    rw [front, List.cons_append]
  cases bound with
  | zero => exact absurd enough (Nat.not_lt_zero _)
  | succ bound =>
      have shorter : rest.length < bound := by
        rw [whole, List.length_cons, List.length_append] at enough
        omega
      rw [sets_rule whole begins, Option.isSome_none, rule_groupText isGroup]
      exact reads bound shorter

/-- A font face is read behind its sign. -/
theorem sets_face (bound : Nat) (current : RuleSet) (rest : List Char) :
    sets none (bound + 1) current ("@font-face\x7b".toList ++ rest) =
      (orEnd (spanBlock? 0 none rest)).bind fun block =>
        sets none bound { current with
          fontFaces := current.fontFaces ++ ["@font-face\x7b" ++ String.ofList (Text.trimChars block.1) ++ "\x7d"] }
          block.2 := by
  have begun : skipSpaces ("@font-face\x7b".toList ++ rest) = '@' :: ("font-face".toList ++ '\x7b' :: rest) := rfl
  have named : spanName ("font-face".toList ++ '\x7b' :: rest) = ("font-face".toList, '\x7b' :: rest) := rfl
  have lower : Text.toAsciiLower (String.ofList "font-face".toList) = "font-face" := by decide +kernel
  rw [sets, begun]
  split
  · next impossible => cases impossible
  · next cs same =>
    rw [← (List.cons.inj same).2, named]
    dsimp only
    rw [lower]
    rfl
  · next impossible => exact absurd (List.cons.inj impossible).1 (by decide)
  · next other _ => exact absurd rfl (other _)

/-- A media block is read behind its sign, and the sheet goes on behind the block. -/
theorem sets_media (bound : Nat) (current : RuleSet) (rest : List Char) :
    sets none (bound + 1) current ("@media ".toList ++ rest) =
      (orEnd (spanBefore? '\x7b' (' ' :: rest))).bind fun start =>
        (orEnd (spanBlock? 0 none start.2)).bind fun block =>
          (rules (mediaQuery? (String.ofList start.1)).isSome block.1.length.succ block.1).bind fun inner =>
            (sets none bound (if current.isEmpty then current else .ofMedia none) block.2).map
              (unlessEmpty current ++ ⟨mediaQuery? (String.ofList start.1), true, inner, []⟩ :: ·) := by
  have begun : skipSpaces ("@media ".toList ++ rest) = '@' :: ("media".toList ++ ' ' :: rest) := rfl
  have named : spanName ("media".toList ++ ' ' :: rest) = ("media".toList, ' ' :: rest) := rfl
  have lower : Text.toAsciiLower (String.ofList "media".toList) = "media" := by decide +kernel
  rw [sets, begun]
  split
  · next impossible => cases impossible
  · next cs same =>
    rw [← (List.cons.inj same).2, named]
    dsimp only
    rw [lower]
    dsimp only [Option.isSome_none]
    rw [if_neg Bool.false_ne_true]
    refine congrArg (Except.bind _) (funext fun start => ?_)
    refine congrArg (Except.bind _) (funext fun block => ?_)
    refine congrArg (Except.bind _) (funext fun inner => ?_)
    exact bind_pure_eq_map _ _
  · next impossible => exact absurd (List.cons.inj impossible).1 (by decide)
  · next other _ => exact absurd rfl (other _)

/-- A font face is added to the set that is being read. -/
theorem Reads.face {body : List Char} (trimmed : Text.trimChars body = body) (closed : IsBlock body)
    (reads : Reads { current with
      fontFaces := current.fontFaces ++ ["@font-face\x7b" ++ String.ofList body ++ "\x7d"] } rest found) :
    Reads current ("@font-face\x7b".toList ++ (body ++ '\x7d' :: rest)) found := by
  intro bound enough
  cases bound with
  | zero => exact absurd enough (Nat.not_lt_zero _)
  | succ bound =>
      have shorter : rest.length < bound := by
        rw [List.length_append, List.length_append, List.length_cons] at enough
        omega
      rw [sets_face, spanBlock?_block closed]
      change sets none bound { current with
        fontFaces := current.fontFaces ++ ["@font-face\x7b" ++ String.ofList (Text.trimChars body) ++ "\x7d"] } rest = _
      rw [trimmed]
      exact reads bound shorter

/-- A media block ends the set that is being read and is a set of its own. -/
theorem Reads.media {query : String} {inner : List Char} {ruled : List Rule} {others : List RuleSet}
    (queried : mediaQuery? query = some query) (balanced : Balanced '\x7b' query.toList) (closed : IsBlock inner)
    (innerRead : rules true inner.length.succ inner = .ok ruled)
    (reads : Reads (if current.isEmpty then current else .ofMedia none) rest others) :
    Reads current ("@media ".toList ++ (query.toList ++ '\x7b' :: (inner ++ '\x7d' :: rest)))
      (unlessEmpty current ++ ⟨some query, true, ruled, []⟩ :: others) := by
  intro bound enough
  cases bound with
  | zero => exact absurd enough (Nat.not_lt_zero _)
  | succ bound =>
      have shorter : rest.length < bound := by
        simp only [List.length_append, List.length_cons] at enough
        omega
      have blank : Balanced '\x7b' [' '] := by decide
      have spaced : Balanced '\x7b' (' ' :: query.toList) := blank.append balanced
      have start := spanBefore?_append spaced rfl (inner ++ '\x7d' :: rest)
      have again : mediaQuery? (String.ofList (' ' :: query.toList)) = some query := by
        rw [← queried]
        rw [mediaQuery?, mediaQuery?, Text.trim, Text.trim, String.toList_ofList]
        rfl
      rw [List.cons_append] at start
      rw [sets_media, start]
      change (orEnd (spanBlock? 0 none (inner ++ '\x7d' :: rest))).bind _ = _
      rw [spanBlock?_block closed]
      change (rules (mediaQuery? (String.ofList (' ' :: query.toList))).isSome inner.length.succ inner).bind _ = _
      rw [again]
      change (rules true inner.length.succ inner).bind _ = _
      rw [innerRead]
      change (sets none bound _ rest).map _ = _
      rw [reads bound shorter]
      rfl

end SheetText
end Css
end SlimSvg
