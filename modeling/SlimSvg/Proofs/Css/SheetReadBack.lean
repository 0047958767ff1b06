import Mathlib
import SlimSvg.Proofs.Css.WriteBack
import SlimSvg.Proofs.Css.WrittenSheets

namespace SlimSvg
namespace Css

/-!
# Sheets are read back

A sheet that was read is written set by set: font faces first, then its rules, in a block
if they are for some media only.  Reading what was written may join sets and leave empty
ones out.  The rules with their media and the font faces come back in the same order, as
long as each piece alone is read back and ends where it is looked for.
-/

/-! ## Comments -/

/-- Whether a text stays as it is in front of any other text when comments are taken away. -/
def Kept (cs : List Char) : Prop :=
  ∀ tail, stripComments none (cs ++ tail) = cs ++ stripComments none tail

theorem kept_nil : Kept [] :=
  fun _ => rfl

theorem Kept.append {first second : List Char} (before : Kept first) (after : Kept second) : Kept (first ++ second) := by
  intro tail
  rw [List.append_assoc, before, after, List.append_assoc]

/-- Whether a character begins neither a mark nor a quoted text. -/
def isInert (c : Char) : Bool :=
  c != '/' && c != '<' && c != '-' && !isQuote c

theorem kept_of_inert {cs : List Char} (inert : cs.all isInert = true) : Kept cs := by
  induction cs with
  | nil => exact kept_nil
  | cons c rest inductionHypothesis =>
      intro tail
      rw [List.all_cons, Bool.and_eq_true] at inert
      rcases inert with ⟨here, later⟩
      simp only [isInert, Bool.and_eq_true, bne_iff_ne, ne_eq, Bool.not_eq_true'] at here
      have bare : ¬ BeginsMark (c :: (rest ++ tail)) := by
        rintro (⟨more, same⟩ | ⟨more, same⟩ | ⟨more, same⟩)
        · exact here.1.1.1 (List.cons.inj same).1.symm
        · exact here.1.1.2 (List.cons.inj same).1.symm
        · exact here.1.2 (List.cons.inj same).1.symm
      rw [List.cons_append, stripComments_cons bare, here.2, if_neg Bool.false_ne_true,
        inductionHypothesis later]
      rfl

/-- A piece without comments is kept with the sign behind it. -/
theorem kept_piece {cs : List Char} {c : Char} (separates : isSeparator c = true)
    (unmarked : stripComments none cs = cs) (unquoted : openQuote none cs = none) : Kept (cs ++ [c]) := by
  intro tail
  have noQuote : ∀ q ∈ (none : Option Char), isQuote q = true := fun q impossible => nomatch impossible
  have nothing : stripComments none (cs ++ []) = cs ++ [] := by
    rw [List.append_nil]
    exact unmarked
  rw [List.append_assoc, List.append_assoc]
  exact stripComments_append separates (.inl rfl) cs noQuote nothing unquoted tail

namespace SheetText

theorem kept_listText {list : List Selector} (nonempty : list ≠ [])
    (each : ∀ s ∈ list, Unmarked s.write ∧ Balanced '\x7b' s.write.toList) :
    Kept (SelectorText.listText list ++ ['\x7b']) := by
  induction list with
  | nil => exact absurd rfl nonempty
  | cons s rest inductionHypothesis =>
      rcases List.forall_mem_cons.mp each with ⟨here, later⟩
      have unquoted := here.2.openQuote_eq rfl
      cases rest with
      | nil =>
          rw [SelectorText.listText_singleton]
          exact kept_piece rfl here.1 unquoted
      | cons other more =>
          have comma : Kept (s.write.toList ++ [',']) := kept_piece rfl here.1 unquoted
          have further := comma.append (inductionHypothesis (List.cons_ne_nil other more) later)
          rw [SelectorText.listText_cons_cons]
          rw [List.append_assoc] at further ⊢
          exact further

theorem kept_groupText {inMedia : Bool} {group : List Rule} {block : Declarations}
    (isGroup : IsGroup inMedia group block) : Kept (groupText group block) := by
  rcases isGroup.block_spec with ⟨closed, -, -, unmarked⟩
  have start : Kept (SelectorText.listText (group.map (·.selector)) ++ ['\x7b']) := by
    refine kept_listText (fun empty => isGroup.nonempty (List.map_eq_nil_iff.mp empty)) fun s listed => ?_
    rcases List.mem_map.mp listed with ⟨r, among, same⟩
    rw [← same]
    exact ⟨(isGroup.alone r among).unmarked.1, (isGroup.closed r among).start⟩
  have whole := start.append (kept_piece (c := '\x7d') rfl unmarked closed.openQuote_eq)
  rw [List.append_assoc] at whole
  exact whole

/-- The text of a font face. -/
def faceText (body : List Char) : String :=
  "@font-face\x7b" ++ String.ofList body ++ "\x7d"

theorem toList_faceText (body : List Char) :
    (faceText body).toList = "@font-face\x7b".toList ++ (body ++ ['\x7d']) := by
  have inside : (String.ofList body).toList = body := String.toList_ofList
  rw [faceText, String.toList_append, String.toList_append, inside, List.append_assoc]
  rfl

theorem kept_faceText {body : List Char} (closed : IsBlock body) (unmarked : Unmarked (faceText body)) :
    Kept (faceText body).toList := by
  have name : stripComments none "@font-face".toList = "@font-face".toList := by decide +kernel
  have sign : Kept "@font-face\x7b".toList := kept_piece rfl name (by decide)
  rw [Unmarked, toList_faceText, sign, List.append_cancel_left_eq] at unmarked
  rw [toList_faceText]
  refine sign.append fun tail => ?_
  have noQuote : ∀ q ∈ (none : Option Char), isQuote q = true := fun q impossible => nomatch impossible
  rw [List.append_assoc, List.append_assoc]
  exact stripComments_append rfl (.inr rfl) body noQuote unmarked closed.openQuote_eq tail

theorem kept_mediaStart {query : String} (unmarked : Unmarked query) (balanced : Balanced '\x7b' query.toList) :
    Kept ("@media ".toList ++ (query.toList ++ ['\x7b'])) :=
  (kept_of_inert (by decide)).append (kept_piece rfl unmarked (balanced.openQuote_eq rfl))

/-! ## Groups of rules -/

/-- The text of groups of rules. -/
def groupsText (groups : List (List Rule)) : List Char :=
  groups.flatMap fun group => (writeRules group).toList

theorem groupsText_cons (group : List Rule) (rest : List (List Rule)) :
    groupsText (group :: rest) = (writeRules group).toList ++ groupsText rest :=
  List.flatMap_cons

/-- Whether each of some groups of rules can be read from its text. -/
def AreGroups (inMedia : Bool) (groups : List (List Rule)) : Prop :=
  ∀ group ∈ groups, ∃ block, IsGroup inMedia group block

variable {inMedia : Bool} {groups : List (List Rule)}

/-- The neighbours with equal declarations are groups. -/
theorem areGroups_splitBy {ruled : List Rule} (readable : ∀ r ∈ ruled, r.Readable inMedia)
    (alone : ∀ r ∈ ruled, r.ReadsAlone) (closed : ∀ r ∈ ruled, r.IsClosed) :
    AreGroups inMedia (ruled.splitBy fun a b => a.declarations == b.declarations) := by
  intro group listed
  have inside : ∀ r ∈ group, r ∈ ruled := by
    intro r member
    rw [← List.flatten_splitBy (fun a b => a.declarations == b.declarations) ruled]
    exact List.mem_flatten.mpr ⟨group, listed, member⟩
  have chain := List.isChain_of_mem_splitBy listed
  have nonempty := List.ne_nil_of_mem_splitBy listed
  cases group with
  | nil => exact absurd rfl nonempty
  | cons first others =>
      refine ⟨first.declarations, nonempty, ?_, fun r member => readable r (inside r member),
        fun r member => alone r (inside r member), fun r member => closed r (inside r member)⟩
      clear listed inside nonempty
      induction others generalizing first with
      | nil =>
          intro r member
          rw [List.mem_singleton.mp member]
      | cons second more inductionHypothesis =>
          rw [List.isChain_cons_cons, beq_iff_eq] at chain
          intro r member
          rcases List.mem_cons.mp member with here | later
          · rw [here]
          · rw [chain.1]
            exact inductionHypothesis second chain.2 r later

theorem kept_groupsText (areGroups : AreGroups inMedia groups) : Kept (groupsText groups) := by
  induction groups with
  | nil => exact kept_nil
  | cons group rest inductionHypothesis =>
      rcases List.forall_mem_cons.mp areGroups with ⟨⟨block, isGroup⟩, later⟩
      rw [groupsText_cons, toList_writeRules isGroup.nonempty isGroup.same]
      exact (kept_groupText isGroup).append (inductionHypothesis later)

/-- The rules of a media block are read group by group. -/
theorem rules_groupsText (areGroups : AreGroups inMedia groups) {bound : Nat}
    (enough : (groupsText groups).length < bound) : rules inMedia bound (groupsText groups) = .ok groups.flatten := by
  induction groups generalizing bound with
  | nil =>
      cases bound with
      | zero => exact absurd enough (Nat.not_lt_zero _)
      | succ bound => rfl
  | cons group rest inductionHypothesis =>
      rcases List.forall_mem_cons.mp areGroups with ⟨⟨block, isGroup⟩, later⟩
      rcases exists_front_groupText isGroup with ⟨c, behind, front, begins⟩
      have whole : groupText group block ++ groupsText rest = c :: (behind ++ groupsText rest) := by
        rw [front, List.cons_append]
      rw [groupsText_cons, toList_writeRules isGroup.nonempty isGroup.same] at enough ⊢
      cases bound with
      | zero => exact absurd enough (Nat.not_lt_zero _)
      | succ bound =>
          have shorter : (groupsText rest).length < bound := by
            rw [whole, List.length_cons, List.length_append] at enough
            omega
          rw [rules_rule whole begins, rule_groupText isGroup]
          change (rules inMedia bound (groupsText rest)).map _ = _
          rw [inductionHypothesis later shorter]
          rfl

theorem isBlock_listText {list : List Selector} (each : ∀ s ∈ list, IsBlock s.write.toList) :
    IsBlock (SelectorText.listText list) := by
  induction list with
  | nil => exact .nil
  | cons s rest inductionHypothesis =>
      rcases List.forall_mem_cons.mp each with ⟨here, later⟩
      cases rest with
      | nil =>
          rw [SelectorText.listText_singleton]
          exact here
      | cons other more =>
          have comma : IsBlock [','] := rfl
          rw [SelectorText.listText_cons_cons]
          exact here.append (comma.append (inductionHypothesis later))

/-- The rules of a media block are closed by its brace. -/
theorem isBlock_groupsText (areGroups : AreGroups true groups) : IsBlock (groupsText groups) := by
  induction groups with
  | nil => exact .nil
  | cons group rest inductionHypothesis =>
      rcases List.forall_mem_cons.mp areGroups with ⟨⟨block, isGroup⟩, later⟩
      have selectors : IsBlock (SelectorText.listText (group.map (·.selector))) := by
        refine isBlock_listText fun s listed => ?_
        rcases List.mem_map.mp listed with ⟨r, among, same⟩
        have inside : r.inMedia = true := by
          rw [(isGroup.readable r among).made]
          rfl
        exact same ▸ (isGroup.closed r among).nested inside
      rw [groupsText_cons, toList_writeRules isGroup.nonempty isGroup.same, groupText]
      exact (selectors.append isGroup.block_spec.1.braces).append (inductionHypothesis later)

variable {current : RuleSet} {rest : List Char} {found : List RuleSet}

/-- Groups are added to the set that is being read, one after the other. -/
theorem Reads.groupsText (areGroups : AreGroups false groups)
    (reads : Reads { current with rules := current.rules ++ groups.flatten } rest found) :
    Reads current (groupsText groups ++ rest) found := by
  induction groups generalizing current with
  | nil =>
      rw [List.flatten_nil, List.append_nil] at reads
      exact reads
  | cons group others inductionHypothesis =>
      rcases List.forall_mem_cons.mp areGroups with ⟨⟨block, isGroup⟩, later⟩
      rw [groupsText_cons, toList_writeRules isGroup.nonempty isGroup.same, List.append_assoc]
      refine Reads.group isGroup (inductionHypothesis later ?_)
      rw [List.flatten_cons, ← List.append_assoc] at reads
      exact reads

/-- Font faces are added to the set that is being read, one after the other. -/
theorem Reads.facesText {bodies : List (List Char)}
    (each : ∀ body ∈ bodies, Text.trimChars body = body ∧ IsBlock body)
    (reads : Reads { current with fontFaces := current.fontFaces ++ bodies.map faceText } rest found) :
    Reads current ((bodies.flatMap fun body => (faceText body).toList) ++ rest) found := by
  induction bodies generalizing current with
  | nil =>
      rw [List.map_nil, List.append_nil] at reads
      exact reads
  | cons body others inductionHypothesis =>
      rcases List.forall_mem_cons.mp each with ⟨⟨trimmed, closed⟩, later⟩
      rw [List.flatMap_cons, toList_faceText, List.append_assoc, List.append_assoc, List.append_assoc]
      refine Reads.face trimmed closed (inductionHypothesis later ?_)
      rw [List.map_cons, List.append_cons] at reads
      exact reads

end SheetText

/-! ## Sets that were read -/

/-- What every set is that was read from a sheet for all media: only a block is for some media
only, and it holds no font faces; a font face is a block without blanks around it. -/
structure RuleSet.WasRead (set : RuleSet) : Prop where
  query : ∀ query ∈ set.media, set.isBlock = true ∧ set.fontFaces = [] ∧ mediaQuery? query = some query ∧
    Balanced '\x7b' query.toList
  faces : ∃ bodies : List (List Char), set.fontFaces = bodies.map SheetText.faceText ∧
    ∀ body ∈ bodies, Text.trimChars body = body ∧ IsBlock body

theorem mediaQuery?_spec {text query : String} (asked : mediaQuery? text = some query)
    (balanced : Balanced '\x7b' text.toList) : mediaQuery? query = some query ∧ Balanced '\x7b' query.toList := by
  rw [mediaQuery?] at asked
  split at asked
  · cases asked
  · next particular =>
    have trimmed : Text.trim text = query := Option.some.inj asked
    refine ⟨?_, ?_⟩
    · rw [← trimmed, mediaQuery?, Text.trim_trim]
      exact if_neg particular
    · rw [← trimmed, Text.toList_trim]
      exact balanced.trimChars rfl

namespace SheetText

theorem wasRead_unlessEmpty {current : RuleSet} (sofar : current.WasRead) :
    ∀ set ∈ unlessEmpty current, set.WasRead := by
  rw [unlessEmpty]
  split
  · exact List.forall_mem_nil _
  · exact List.forall_mem_singleton.mpr sofar

/-- The set that is being read is for all media, and so is the one behind a block. -/
theorem wasRead_of_sets {bound : Nat} {current : RuleSet} {cs : List Char} {found : List RuleSet}
    (media : current.media = none) (sofar : current.WasRead) (read : sets none bound current cs = .ok found) :
    ∀ set ∈ found, set.WasRead := by
  induction bound generalizing current cs found with
  | zero =>
      rw [← Except.ok.inj read]
      exact wasRead_unlessEmpty sofar
  | succ bound inductionHypothesis =>
      rw [sets] at read
      split at read
      · rw [← Except.ok.inj read]
        exact wasRead_unlessEmpty sofar
      · dsimp only at read
        split at read
        · obtain ⟨-, read⟩ := unless_refused_eq_ok.mp read
          obtain ⟨⟨query, afterQuery⟩, queryCut, read⟩ := bind_eq_ok.mp read
          dsimp only at read
          obtain ⟨⟨block, afterBlock⟩, -, read⟩ := bind_eq_ok.mp read
          dsimp only at read
          obtain ⟨inner, -, read⟩ := bind_eq_ok.mp read
          obtain ⟨others, othersRead, result⟩ := bind_eq_ok.mp read
          have balanced := (balanced_of_spanBefore? (orEnd_eq_ok.mp queryCut)).2
          have block : (⟨mediaQuery? (String.ofList query), true, inner, []⟩ : RuleSet).WasRead := by
            refine ⟨fun asked among => ⟨rfl, rfl, ?_⟩, ⟨[], rfl, List.forall_mem_nil _⟩⟩
            have outside : Balanced '\x7b' (String.ofList query).toList := by
              rw [String.toList_ofList]
              exact balanced
            dsimp only [Option.mem_def] at among
            exact mediaQuery?_spec among outside
          have next : (if current.isEmpty then current else .ofMedia none).media = none ∧
              (if current.isEmpty then current else .ofMedia none).WasRead := by
            split
            · exact ⟨media, sofar⟩
            · exact ⟨rfl, ⟨fun asked impossible => absurd impossible (Option.not_mem_none _), ⟨[], rfl, List.forall_mem_nil _⟩⟩⟩
          rw [← pure_eq_ok.mp result]
          intro set listed
          rcases List.mem_append.mp listed with before | behind
          · exact wasRead_unlessEmpty sofar set before
          · rcases List.mem_cons.mp behind with here | later
            · rw [here]
              exact block
            · exact inductionHypothesis next.1 next.2 othersRead set later
        · obtain ⟨⟨_, afterName⟩, -, read⟩ := bind_eq_ok.mp read
          dsimp only at read
          obtain ⟨⟨face, afterFace⟩, faceCut, read⟩ := bind_eq_ok.mp read
          dsimp only at read
          rcases sofar.faces with ⟨bodies, facesEq, each⟩
          refine inductionHypothesis (by exact media) ⟨?_, ?_⟩ read
          · intro query asked
            rw [show current.media = some query from asked] at media
            cases media
          · refine ⟨bodies ++ [Text.trimChars face], ?_, ?_⟩
            · rw [List.map_append, facesEq]
              rfl
            · intro body listed
              rcases List.mem_append.mp listed with old | new
              · exact each body old
              · rw [List.mem_singleton.mp new]
                exact ⟨Text.trimChars_trimChars face, (isBlock_of_spanBlock? (orEnd_eq_ok.mp faceCut)).trimChars⟩
        · obtain ⟨⟨_, afterCharset⟩, -, read⟩ := bind_eq_ok.mp read
          dsimp only at read
          exact inductionHypothesis media sofar read
        · cases read
      · cases read
      · obtain ⟨⟨here, rest⟩, -, read⟩ := bind_eq_ok.mp read
        dsimp only at read
        refine inductionHypothesis ?_ ?_ read
        · exact media
        · exact ⟨sofar.query, sofar.faces⟩

end SheetText

theorem wasRead_of_readSheet {text : String} {found : List RuleSet} (read : readSheet text none = .ok found) :
    ∀ set ∈ found, set.WasRead := by
  refine SheetText.wasRead_of_sets rfl ⟨?_, ⟨[], rfl, List.forall_mem_nil _⟩⟩ read
  intro query impossible
  cases impossible

/-! ## Reading a written sheet -/

/-- The rules of a sheet in order, each with the media that it is for. -/
def rulesWithMedia (sets : List RuleSet) : List (Rule × Option String) :=
  sets.flatMap fun set => set.rules.map fun r => (r, set.media)

/-- The font faces of a sheet in order. -/
def fontFaces (sets : List RuleSet) : List String :=
  sets.flatMap (·.fontFaces)

/-- Whether a set can be read from its text: each rule alone is read back, no piece of the
text holds a comment, and each rule ends where it is looked for. -/
structure RuleSet.IsWritable (set : RuleSet) : Prop where
  alone : ∀ r ∈ set.rules, r.ReadsAlone
  closed : ∀ r ∈ set.rules, r.IsClosed
  query : ∀ query ∈ set.media, Unmarked query
  faces : ∀ face ∈ set.fontFaces, Unmarked face

namespace SheetText

/-- The groups in which the rules of a set are written. -/
def groupsOf (set : RuleSet) : List (List Rule) :=
  set.rules.splitBy fun a b => a.declarations == b.declarations

theorem flatten_groupsOf (set : RuleSet) : (groupsOf set).flatten = set.rules :=
  List.flatten_splitBy _ _

theorem toList_writeSet_open {set : RuleSet} (media : set.media = none) {bodies : List (List Char)}
    (faces : set.fontFaces = bodies.map faceText) :
    (writeSet set).toList = (bodies.flatMap fun body => (faceText body).toList) ++ groupsText (groupsOf set) := by
  rw [writeSet, media]
  dsimp only
  rw [String.toList_join, List.flatMap_append, faces, List.flatMap_map, List.flatMap_map]
  rfl

theorem toList_writeSet_block {set : RuleSet} {query : String} (media : set.media = some query)
    (block : set.isBlock = true) (faces : set.fontFaces = []) :
    (writeSet set).toList =
      "@media ".toList ++ (query.toList ++ '\x7b' :: (groupsText (groupsOf set) ++ ['\x7d'])) := by
  have inner : (String.join (set.fontFaces ++ (groupsOf set).map writeRules)).toList = groupsText (groupsOf set) := by
    rw [faces, List.nil_append, String.toList_join, List.flatMap_map]
    rfl
  rw [writeSet, media]
  dsimp only
  rw [if_pos block]
  rw [String.toList_append, String.toList_append, String.toList_append, String.toList_append, List.append_assoc,
    List.append_assoc, List.append_assoc]
  change _ ++ (_ ++ (_ ++ ((String.join (set.fontFaces ++ (groupsOf set).map writeRules)).toList ++ _))) = _
  rw [inner]
  rfl

/-- The text of a sheet. -/
def sheetText (sets : List RuleSet) : List Char :=
  (sets.filter fun set => !set.isEmpty).flatMap fun set => (writeSet set).toList

theorem toList_writeSheet (sets : List RuleSet) : (writeSheet sets).toList = sheetText sets := by
  rw [writeSheet, String.toList_join, List.flatMap_map]
  rfl

theorem sheetText_cons_empty {set : RuleSet} (empty : set.isEmpty = true) (rest : List RuleSet) :
    sheetText (set :: rest) = sheetText rest := by
  rw [sheetText, List.filter_cons_of_neg (by rw [empty]; decide)]
  rfl

theorem sheetText_cons {set : RuleSet} (full : set.isEmpty = false) (rest : List RuleSet) :
    sheetText (set :: rest) = (writeSet set).toList ++ sheetText rest := by
  rw [sheetText, List.filter_cons_of_pos (by rw [full]; decide), List.flatMap_cons]
  rfl

theorem eq_nil_of_isEmpty {set : RuleSet} (empty : set.isEmpty = true) : set.rules = [] ∧ set.fontFaces = [] := by
  rw [RuleSet.isEmpty, Bool.and_eq_true, List.isEmpty_iff, List.isEmpty_iff] at empty
  exact empty

theorem rulesWithMedia_unlessEmpty {current : RuleSet} (media : current.media = none) :
    rulesWithMedia (unlessEmpty current) = current.rules.map (·, none) ∧
      fontFaces (unlessEmpty current) = current.fontFaces := by
  rw [unlessEmpty]
  split
  · next empty =>
    rcases eq_nil_of_isEmpty empty with ⟨noRules, noFaces⟩
    rw [noRules, noFaces]
    exact ⟨rfl, rfl⟩
  · rw [rulesWithMedia, fontFaces, List.flatMap_singleton, List.flatMap_singleton, media]
    exact ⟨rfl, rfl⟩

/-- What has been read of a sheet: the rules and the font faces of the set that was begun,
and then those of the sets that were written. -/
theorem exists_reads {sets : List RuleSet} (readable : AllRules Rule.Readable sets) (wasRead : ∀ set ∈ sets, set.WasRead)
    (writable : ∀ set ∈ sets, set.IsWritable) {current : RuleSet} (media : current.media = none) :
    ∃ found, Reads current (sheetText sets) found ∧
      rulesWithMedia found = current.rules.map (·, none) ++ rulesWithMedia sets ∧
      fontFaces found = current.fontFaces ++ fontFaces sets := by
  induction sets generalizing current with
  | nil =>
      rcases rulesWithMedia_unlessEmpty media with ⟨ruled, faced⟩
      refine ⟨unlessEmpty current, reads_nil current, ?_, ?_⟩
      · rw [ruled]
        exact (List.append_nil _).symm
      · rw [faced]
        exact (List.append_nil _).symm
  | cons set rest inductionHypothesis =>
      rcases List.forall_mem_cons.mp readable with ⟨readableHere, readableLater⟩
      rcases List.forall_mem_cons.mp wasRead with ⟨wasReadHere, wasReadLater⟩
      rcases List.forall_mem_cons.mp writable with ⟨writableHere, writableLater⟩
      have further := @inductionHypothesis readableLater wasReadLater writableLater
      cases empty : set.isEmpty with
      | true =>
          rcases eq_nil_of_isEmpty empty with ⟨noRules, noFaces⟩
          rcases further media with ⟨found, reads, ruled, faced⟩
          rw [sheetText_cons_empty empty]
          refine ⟨found, reads, ?_, ?_⟩
          · rw [ruled, rulesWithMedia, rulesWithMedia, List.flatMap_cons, noRules]
            rfl
          · rw [faced, fontFaces, fontFaces, List.flatMap_cons, noFaces]
            rfl
      | false =>
          have areGroups := areGroups_splitBy readableHere writableHere.alone writableHere.closed
          rw [sheetText_cons empty]
          cases asked : set.media with
          | none =>
              rw [asked] at areGroups
              rcases wasReadHere.faces with ⟨bodies, facesEq, each⟩
              -- The rules and the font faces join those of the set that is being read.
              rcases @further { current with
                fontFaces := current.fontFaces ++ set.fontFaces, rules := current.rules ++ set.rules } media with
                ⟨found, reads, ruled, faced⟩
              refine ⟨found, ?_, ?_, ?_⟩
              · rw [toList_writeSet_open asked facesEq, List.append_assoc]
                refine Reads.facesText each (Reads.groupsText areGroups ?_)
                rw [← facesEq]
                change Reads { current with
                  fontFaces := current.fontFaces ++ set.fontFaces,
                  rules := current.rules ++ (groupsOf set).flatten } _ _
                rw [flatten_groupsOf]
                exact reads
              · rw [ruled, List.map_append, List.append_assoc, rulesWithMedia, rulesWithMedia, List.flatMap_cons, asked]
              · rw [faced, List.append_assoc, fontFaces, fontFaces, List.flatMap_cons]
          | some query =>
              rw [asked] at areGroups
              rcases wasReadHere.query query asked with ⟨block, noFaces, queried, balanced⟩
              have next : (if current.isEmpty then current else .ofMedia none).media = none ∧
                  (if current.isEmpty then current else .ofMedia none).rules = [] ∧
                  (if current.isEmpty then current else .ofMedia none).fontFaces = [] := by
                split
                · next nothing => exact ⟨media, eq_nil_of_isEmpty nothing⟩
                · exact ⟨rfl, rfl, rfl⟩
              rcases further next.1 with ⟨others, reads, ruled, faced⟩
              rcases rulesWithMedia_unlessEmpty media with ⟨ruledBefore, facedBefore⟩
              have inner := rules_groupsText areGroups (Nat.lt_succ_self _)
              change rules true _ (groupsText (groupsOf set)) = .ok (groupsOf set).flatten at inner
              rw [flatten_groupsOf] at inner
              refine ⟨unlessEmpty current ++ ⟨some query, true, set.rules, []⟩ :: others, ?_, ?_, ?_⟩
              · rw [toList_writeSet_block asked block noFaces, List.append_assoc, List.append_assoc, List.cons_append,
                  List.append_assoc]
                exact Reads.media queried balanced (isBlock_groupsText areGroups) inner reads
              · rw [rulesWithMedia, List.flatMap_append, List.flatMap_cons]
                change rulesWithMedia (unlessEmpty current) ++ (_ ++ rulesWithMedia others) = _
                rw [ruledBefore, ruled, next.2.1, rulesWithMedia, rulesWithMedia, List.flatMap_cons, asked]
                rfl
              · rw [fontFaces, List.flatMap_append, List.flatMap_cons]
                change fontFaces (unlessEmpty current) ++ ([] ++ fontFaces others) = _
                rw [facedBefore, faced, next.2.2, fontFaces, fontFaces, List.flatMap_cons, noFaces]
                rfl

/-- A written sheet holds no comment. -/
theorem kept_sheetText {sets : List RuleSet} (readable : AllRules Rule.Readable sets)
    (wasRead : ∀ set ∈ sets, set.WasRead) (writable : ∀ set ∈ sets, set.IsWritable) : Kept (sheetText sets) := by
  induction sets with
  | nil => exact kept_nil
  | cons set rest inductionHypothesis =>
      rcases List.forall_mem_cons.mp readable with ⟨readableHere, readableLater⟩
      rcases List.forall_mem_cons.mp wasRead with ⟨wasReadHere, wasReadLater⟩
      rcases List.forall_mem_cons.mp writable with ⟨writableHere, writableLater⟩
      have later := inductionHypothesis readableLater wasReadLater writableLater
      cases empty : set.isEmpty with
      | true =>
          rw [sheetText_cons_empty empty]
          exact later
      | false =>
          have groups : Kept (groupsText (groupsOf set)) :=
            kept_groupsText (areGroups_splitBy readableHere writableHere.alone writableHere.closed)
          rw [sheetText_cons empty]
          refine Kept.append ?_ later
          cases asked : set.media with
          | none =>
              rcases wasReadHere.faces with ⟨bodies, facesEq, each⟩
              have unmarked := writableHere.faces
              rw [toList_writeSet_open asked facesEq]
              refine Kept.append ?_ groups
              rw [facesEq] at unmarked
              clear facesEq
              induction bodies with
              | nil => exact kept_nil
              | cons body others innerHypothesis =>
                  rw [List.flatMap_cons]
                  exact (kept_faceText (each body List.mem_cons_self).2 (unmarked _ List.mem_cons_self)).append
                    (innerHypothesis (fun other listed => each other (List.mem_cons_of_mem body listed))
                      fun face listed => unmarked face (List.mem_cons_of_mem _ listed))
          | some query =>
              rcases wasReadHere.query query asked with ⟨block, noFaces, -, balanced⟩
              have brace : Kept ['\x7d'] := kept_of_inert (by decide)
              have whole := (kept_mediaStart (writableHere.query query asked) balanced).append (groups.append brace)
              rw [List.append_assoc, List.append_assoc] at whole
              rw [toList_writeSet_block asked block noFaces]
              exact whole

end SheetText

/-- A sheet that was read is read again from what is written of it: the same rules for the same
media and the same font faces, in the same order. -/
theorem readSheet_writeSheet {text : String} {sets : List RuleSet} (read : readSheet text none = .ok sets)
    (writable : ∀ set ∈ sets, set.IsWritable) :
    ∃ again, readSheet (writeSheet sets) none = .ok again ∧ rulesWithMedia again = rulesWithMedia sets ∧
      fontFaces again = fontFaces sets := by
  have readable : AllRules Rule.Readable sets := allRules_of_readSheet holdsOfRead_readable read
  have wasRead := wasRead_of_readSheet read
  have bare : stripComments none (SheetText.sheetText sets) = SheetText.sheetText sets := by
    have kept := SheetText.kept_sheetText readable wasRead writable []
    rw [List.append_nil, stripComments, List.append_nil] at kept
    exact kept
  have begun : (RuleSet.ofMedia none).media = none := rfl
  rcases SheetText.exists_reads readable wasRead writable begun with ⟨again, reads, ruled, faced⟩
  refine ⟨again, ?_, ruled, faced⟩
  rw [readSheet, SheetText.toList_writeSheet, bare]
  exact reads _ (Nat.lt_succ_self _)

/-- Two rules that are joined, a block for print with nested selectors and a quoted brace, and a font face. -/
theorem sheet_with_media_is_read_back :
    let rule (test : SimpleSelector) (value : String) (inMedia : Bool) : Rule :=
      .ofSelector (.ofCompounds [⟨none, [test]⟩]) ⟨[("c", ⟨value, false⟩)]⟩ inMedia
    let list : List Selector := [.ofCompounds [⟨none, [.typeName "e"]⟩], .ofCompounds [⟨none, [.idName "f"]⟩]]
    let first := rule (.typeName "a") "d" false
    let second := rule (.className "b") "d" false
    let third := rule (.pseudoClass "not" (.selectors list)) "\"\x7d;\"" true
    let sets : List RuleSet := [⟨none, false, [first, second], []⟩, ⟨some "print", true, [third], []⟩,
      ⟨none, false, [], ["@font-face\x7bg\x7d"]⟩]
    readSheet "a, .b\x7bc:d\x7d@media print\x7b:not(e, #f)\x7bc:\"\x7d;\"\x7d\x7d@font-face\x7bg\x7d" none = .ok sets ∧
      (∀ set ∈ sets, set.IsWritable) ∧
      writeSheet sets = "a,.b\x7bc:d\x7d@media print\x7b:not(e,#f)\x7bc:\"\x7d;\"\x7d\x7d@font-face\x7bg\x7d" ∧
      ∃ again, readSheet (writeSheet sets) none = .ok again ∧ rulesWithMedia again = rulesWithMedia sets ∧
        fontFaces again = fontFaces sets := by
  intro rule list first second third sets
  have face : SheetText.Reads (.ofMedia none) ("@font-face\x7b".toList ++ (['g'] ++ '\x7d' :: []))
      [⟨none, false, [], ["@font-face\x7b" ++ String.ofList ['g'] ++ "\x7d"]⟩] :=
    SheetText.Reads.face (by decide) (by decide) (SheetText.reads_nil _)
  have ruled : SheetText.rules true ":not(e, #f)\x7bc:\"\x7d;\"\x7d".toList.length.succ
      ":not(e, #f)\x7bc:\"\x7d;\"\x7d".toList = .ok [third] := by cbv
  have media : SheetText.Reads ⟨none, false, [first, second], []⟩
      ("@media ".toList ++ ("print".toList ++ '\x7b' :: (":not(e, #f)\x7bc:\"\x7d;\"\x7d".toList ++
        '\x7d' :: ("@font-face\x7b".toList ++ (['g'] ++ '\x7d' :: []))))) sets :=
    SheetText.Reads.media (by decide +kernel) (by decide) (by decide) ruled face
  have front (rest : List Char) : SheetText.rule false ('a' :: (", .b\x7bc:d\x7d".toList ++ rest)) =
      .ok ([first, second], rest) := by cbv
  have begins : SelectorText.BeginsTest 'a' := ⟨rfl, rfl, by decide⟩
  have found : readSheet "a, .b\x7bc:d\x7d@media print\x7b:not(e, #f)\x7bc:\"\x7d;\"\x7d\x7d@font-face\x7bg\x7d" none =
      .ok sets := by
    have stripped : stripComments none
        "a, .b\x7bc:d\x7d@media print\x7b:not(e, #f)\x7bc:\"\x7d;\"\x7d\x7d@font-face\x7bg\x7d".toList =
        'a' :: (", .b\x7bc:d\x7d".toList ++ ("@media ".toList ++ ("print".toList ++ '\x7b' ::
          (":not(e, #f)\x7bc:\"\x7d;\"\x7d".toList ++ '\x7d' :: ("@font-face\x7b".toList ++ (['g'] ++ '\x7d' :: [])))))) := by
      decide +kernel
    rw [readSheet, stripped, SheetText.sets_rule rfl begins, Option.bind_none, Option.isSome_none, front]
    exact media _ (by decide)
  have known : ∀ r ∈ [first, second, third], r.ReadsAlone ∧ r.IsClosed := by
    refine List.forall_mem_cons.mpr ⟨?_, List.forall_mem_cons.mpr ⟨?_, List.forall_mem_singleton.mpr ?_⟩⟩
    all_goals
      refine ⟨⟨by cbv, by cbv, by decide +kernel⟩, ⟨?_, ?_, ?_, ?_⟩⟩
      all_goals decide +kernel
  have writable : ∀ set ∈ sets, set.IsWritable := by
    have among : ∀ set ∈ sets, ∀ r ∈ set.rules, r ∈ [first, second, third] := by simp [sets]
    have query : Unmarked "print" := by decide +kernel
    have quiet : Unmarked "@font-face\x7bg\x7d" := by decide +kernel
    have unmarked : ∀ set ∈ sets, (∀ query ∈ set.media, Unmarked query) ∧ ∀ face ∈ set.fontFaces, Unmarked face := by
      simp [sets, query, quiet]
    exact fun set listed => ⟨fun r member => (known r (among set listed r member)).1,
      fun r member => (known r (among set listed r member)).2, (unmarked set listed).1, (unmarked set listed).2⟩
  exact ⟨found, writable, by decide +kernel, readSheet_writeSheet found writable⟩

/-- Declarations are read up to the closing parenthesis, and a block up to the closing quotation mark: each text
alone is read back, and the sheet is not. -/
theorem open_quote_ends_no_block :
    let selector : Selector := .ofCompounds [⟨none, [.typeName "a"]⟩]
    let declarations : Declarations := ⟨[("b", ⟨"url(\")", false⟩)]⟩
    let sets : List RuleSet := [⟨none, false, [.ofSelector selector declarations false], []⟩]
    readSheet "a\x7bb:url(\");c:\"\x7d" none = .ok sets ∧
      (Selector.read selector.write = .ok selector ∧ Unmarked selector.write) ∧
      (Declarations.read declarations.writeBlock = declarations ∧ Unmarked declarations.writeBlock) ∧
      writeSheet sets = "a\x7bb:url(\")\x7d" ∧ readSheet (writeSheet sets) none = .error .endOfSheet := by
  intro selector declarations sets
  have written : writeSheet sets = "a\x7bb:url(\")\x7d" := by decide +kernel
  refine ⟨by cbv, ⟨by cbv, by decide +kernel⟩, ⟨by cbv, by decide +kernel⟩, written, ?_⟩
  rw [written]
  cbv

end Css
end SlimSvg
