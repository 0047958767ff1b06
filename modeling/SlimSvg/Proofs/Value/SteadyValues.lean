import Mathlib.Data.Bool.AllAny
import SlimSvg.Proofs.Value.WrittenBlocks
import SlimSvg.Value.Attribute

namespace SlimSvg

/-!
# Values whose shortest texts are steady

The shortest text of a value is a text like any other, and its own shortest text may be
shorter still.  It is not if trimming the text changes nothing of what is read, and if what
was written for a reading is written for what is read from it, too.
-/

open Number

namespace TextForm

/-- Whether trimming a text changes nothing of what is read. -/
def TrimsAlike (α : Type) [TextForm α] (s : String) : Prop :=
  (read? (Text.trim s) : Option α) = read? s

/-- What is asked of the reader and the writer of a type at a text, so that the shortest text
stays as it is. -/
structure Steady (α : Type) [TextForm α] (s : String) : Prop where
  trimmed : TrimsAlike α s
  trim_write : ∀ a : α, read? s = some a → Text.trim (write a) = write a
  write_again : ∀ a b : α, read? s = some a → read? (write a) = some b → write b = write a

theorem Settles.steady {α : Type} [TextForm α] (settles : Settles α) {s : String} (trimmed : TrimsAlike α s) :
    Steady α s where
  trimmed := trimmed
  trim_write _ read := settles.trim_write read
  write_again a b read again := by
    rcases settles.read?_write read with ⟨c, found, same⟩
    rw [Option.some.inj (again.symm.trans found), same]

end TextForm

/-- The shortest text of a steady text is its own shortest text. -/
theorem Cached.minified_of_steady {α : Type} [TextForm α] {s : String} (steady : TextForm.Steady α s) :
    (ofText (ofText s : Cached α).minified : Cached α).minified = (ofText s : Cached α).minified := by
  cases read : (TextForm.read? s : Option α) with
  | none =>
      rw [minified_of_unread read, minified_of_unread (steady.trimmed.trans read), Text.trim_trim]
  | some a =>
      have own := minified_of_read? read
      by_cases shorter : Text.size (TextForm.write a) ≤ Text.size (Text.trim s)
      · rw [own, if_pos shorter]
        cases again : (TextForm.read? (TextForm.write a) : Option α) with
        | none => rw [minified_of_unread again, steady.trim_write a read]
        | some b => rw [minified_of_read? again, steady.write_again a b read again, steady.trim_write a read, ite_self]
      · rw [own, if_neg shorter, minified_of_read? (steady.trimmed.trans read), Text.trim_trim, if_neg shorter]

/-! ## Numbers -/

namespace Length

theorem settles : TextForm.Settles Length where
  read?_trim {s a} read := (trimsFirst s).trans read
  trim_write {s l} _ := by
    change Text.trim l.write = l.write
    rw [write]
    split
    · exact SlimSvg.trim_compact l.number
    · exact trim_compact l.number l.unit
  read?_write {s l} read := by
    rcases scanNumber?_of_readExact? read with ⟨rest, scanned⟩
    have fits := fits_of_scanNumber? scanned
    have sameZero : ∀ unit, (Length.mk l.number.said unit).isZero = l.isZero := fun _ =>
      Binary.isZero_said (isFinite_of_scanNumber? scanned)
    have sameText : l.number.said.compact = l.number.compact :=
      congrArg String.ofList (Binary.compactChars_said l.number)
    have readAgain (unit : LengthUnit) :
        (TextForm.read? (l.number.compact ++ unit.suffix) : Option Length) = some ⟨l.number.said, unit⟩ := by
      change readExact? (Text.trim _) = _
      rw [trim_compact, readExact?_compact fits]
    change ∃ b : Length, TextForm.read? l.write = some b ∧ b.write = l.write
    by_cases unitless : (l.isZero && l.unit != .percent) = true
    · have plain := readAgain .none
      rw [LengthUnit.suffix, String.append_empty] at plain
      rw [Bool.and_eq_true] at unitless
      refine ⟨⟨l.number.said, .none⟩, ?_, ?_⟩
      · rw [write, if_pos (Bool.and_eq_true _ _ ▸ unitless), plain]
      · rw [write, write, sameZero, unitless.1, unitless.2, sameText]
        rfl
    · refine ⟨⟨l.number.said, l.unit⟩, ?_, ?_⟩
      · rw [write, if_neg unitless, readAgain]
      · rw [write, write, sameZero, if_neg unitless, if_neg unitless, sameText]

end Length

namespace Percentage

theorem settles : TextForm.Settles Percentage where
  read?_trim read := read?_trim read
  trim_write {s p} _ := by
    change Text.trim p.write = p.write
    rw [write]
    split
    · exact Length.trim_compact p.number .percent
    · exact trim_compact p.number
  read?_write {s p} read := by
    have fits := fits_of_scanNumber? (read?_eq_some.mp read)
    have sameText : p.number.said.compact = p.number.compact :=
      congrArg String.ofList (Binary.compactChars_said p.number)
    refine ⟨⟨p.number.said, p.isPercent⟩, ?_, ?_⟩
    · change read? p.write = _
      rw [write]
      split
      · next percent =>
        have readAgain : Length.readExact? (p.number.compact ++ "%") = some ⟨p.number.said, .percent⟩ :=
          Length.readExact?_compact fits .percent
        rw [read?, readAgain, percent]
        rfl
      · next plain =>
        rw [Bool.eq_false_iff.mpr plain]
        exact read?_eq_some.mpr (scanNumber?_compact fits)
    · change write _ = write p
      rw [write, write, sameText]

end Percentage

theorem PathData.steady {s : String} (trimmed : TextForm.TrimsAlike PathData s) : TextForm.Steady PathData s where
  trimmed := trimmed
  trim_write d _ := trim_write d
  write_again a b read again := by
    rcases exists_read?_write read with ⟨c, found, same⟩
    rw [Option.some.inj (again.symm.trans found)]
    exact same

/-! ## References -/

namespace Reference

section Scan

variable {s : String} {cs id found rest behind : List Char}

/-- Without quotation marks an id is followed by blanks and a closing parenthesis. -/
theorem exists_between_of_scanFunction? (scanned : scanFunction? ('u' :: 'r' :: 'l' :: '(' :: '#' :: cs) = some (found, behind)) :
    ∃ between, cs = found ++ between ++ ')' :: behind ∧ (∀ c ∈ between, Text.isXmlSpace c = true) ∧
      ∀ c ∈ found, c ≠ ')' := by
  rcases exists_spells_of_scanFunction? scanned with ⟨quote, before, lead, closing, text, blank, opens, name, closes⟩
  cases before with
  | cons c _ =>
      have solid := blank c List.mem_cons_self
      rw [← (List.cons.inj text).1] at solid
      cases solid
  | nil =>
      have opened : '#' :: cs = lead ++ '#' :: (found ++ closing) := by
        simpa using text
      cases lead with
      | cons c _ =>
          have around := opens.isAround c List.mem_cons_self
          rw [← (List.cons.inj opened).1] at around
          rcases around with white | quote
          · cases white
          · cases quote
      | nil =>
          generalize none : ([] : List Char) = lead at opens
          cases opens with
          | quoted => exact absurd none.symm (List.append_ne_nil_of_right_ne_nil _ (List.cons_ne_nil _ _))
          | bare =>
              cases closes with
              | @bare between _ blank =>
                  exact ⟨between, (List.cons.inj opened).2.trans (List.append_assoc _ _ _).symm, blank,
                    fun c listed => (name.bare rfl c listed).2⟩

/-- An id that ends with no blank is found again if nothing before its end closes it. -/
theorem eq_of_scanFunction? (solid : ∀ c ∈ id.getLast?, Text.isWhiteSpace c = false)
    (scanned : scanFunction? ('u' :: 'r' :: 'l' :: '(' :: '#' :: (id ++ ')' :: rest)) = some (found, behind))
    (closed : ')' ∉ id ∨ rest = [] ∧ ∀ c ∈ behind, Text.isXmlSpace c = true) : found = id ∧ behind = rest := by
  rcases exists_between_of_scanFunction? scanned with ⟨between, text, blank, inside⟩
  have same : id = found ++ between ∧ rest = behind := by
    have apart : ')' ∉ found ++ between := by
      refine List.not_mem_append (fun listed => inside _ listed rfl) fun listed => ?_
      cases blank _ listed
    rcases closed with closed | ⟨rfl, behindBlank⟩
    · have front {before after : List Char} (apart : ')' ∉ before) :
          (before ++ ')' :: after).takeWhile (· != ')') = before :=
        Text.takeWhile_append_of_all (fun c listed => bne_iff_ne.mpr fun same => apart (same ▸ listed)) (by rintro c ⟨⟩; rfl)
      have idEq := (front closed).symm.trans ((congrArg _ text).trans (front apart))
      rw [idEq] at text
      exact ⟨idEq, (List.cons.inj (List.append_cancel_left text)).2⟩
    · have behindApart : ')' ∉ behind := fun listed => nomatch behindBlank _ listed
      rcases (List.append_cons_inj_of_notMem apart behindApart).mp text.symm with ⟨idEq, -, none⟩
      exact ⟨idEq.symm, none.symm⟩
  rcases same with ⟨idEq, rfl⟩
  have nothing : between = [] := by
    rcases List.eq_nil_or_concat between with none | ⟨before, c, split⟩
    · exact none
    · rw [List.concat_eq_append] at split
      rw [idEq, split, ← List.append_assoc, List.getLast?_concat] at solid
      have white := Text.isWhiteSpace_of_isXmlSpace (blank c (split ▸ List.mem_append_right _ List.mem_cons_self))
      rw [solid c rfl] at white
      cases white
  rw [nothing, List.append_nil] at idEq
  exact ⟨idEq.symm, rfl⟩

theorem bare_or_solid_of_scanFunction? (scanned : scanFunction? cs = some (id, rest)) :
    IsBare (String.ofList id) ∨ ∀ c ∈ id.getLast?, Text.isWhiteSpace c = false := by
  rcases exists_spells_of_scanFunction? scanned with ⟨quote, before, lead, closing, spells⟩
  cases quote with
  | none =>
      have inside := spells.name.bare rfl
      rw [IsBare, String.toList_ofList]
      exact .inl ⟨fun listed => (inside _ listed).1 rfl, fun listed => (inside _ listed).2 rfl⟩
  | some mark => exact .inr (spells.name.trimmed rfl)

theorem tight_function (id : List Char) : Text.Tight ('u' :: 'r' :: 'l' :: '(' :: '#' :: (id ++ [')'])) :=
  @Paint.tight_server Option.none (fun _ impossible => nomatch impossible) id

theorem write_function (id : List Char) :
    write (.function (String.ofList id)) = String.ofList ('u' :: 'r' :: 'l' :: '(' :: '#' :: (id ++ [')'])) := by
  have written := function_eq id ""
  rw [String.append_empty] at written
  exact written

theorem exists_scanFunction?_of_read? {id : String} (read : read? s = some (.function id)) :
    ∃ cs rest, scanFunction? cs = some (id.toList, rest) := by
  rw [read?] at read
  split at read
  · cases read
  · rcases Option.bind_eq_some_iff.mp read with ⟨⟨own, rest⟩, scanned, ended⟩
    rcases Option.ite_none_right_eq_some.mp ended with ⟨-, same⟩
    cases same
    exact ⟨_, rest, scanned.trans (by rw [String.toList_ofList])⟩
  · rcases Option.bind_eq_some_iff.mp read with ⟨rest, -, read⟩
    rcases Option.ite_none_left_eq_some.mp read with ⟨-, read⟩
    rcases Option.ite_none_right_eq_some.mp read with ⟨-, same⟩
    cases same
  · cases read

/-- A reference is written by its kind; a fragment is written as it was read. -/
theorem write_of_read? {r : Reference} (read : read? s = some r) :
    r = none ∨ (∃ id, r = .function id) ∨ r.write = Text.trim s := by
  rcases Text.exists_append_trimChars s.toList with ⟨-, -, -, -, -, tight⟩
  rw [read?] at read
  rw [Text.trim]
  generalize Text.trimChars s.toList = cs at read tight
  split at read
  · exact .inl (Option.some.inj read).symm
  · rcases Option.bind_eq_some_iff.mp read with ⟨⟨id, rest⟩, -, ended⟩
    rcases Option.ite_none_right_eq_some.mp ended with ⟨-, same⟩
    exact .inr (.inl ⟨_, (Option.some.inj same).symm⟩)
  · exact .inr (.inr (write_of_readFragment? tight read))
  · cases read

theorem trim_write {r : Reference} (read : read? s = some r) : Text.trim r.write = r.write := by
  rcases write_of_read? read with rfl | ⟨id, rfl⟩ | own
  · decide
  · rw [← String.ofList_toList (s := id), write_function]
    refine Text.trim_of_tight ?_
    rw [String.toList_ofList]
    exact tight_function _
  · rw [own, Text.trim_trim]

theorem steady (s : String) : TextForm.Steady Reference s where
  trimmed := trimsFirst s
  trim_write r read := trim_write read
  write_again a b read again := by
    refine congrArg write ?_
    cases a with
    | function id =>
        rcases exists_scanFunction?_of_read? read with ⟨cs, rest, scanned⟩
        rcases bare_or_solid_of_scanFunction? scanned with bare | solid
        · rw [String.ofList_toList] at bare
          have found := read?_write read fun own same => function.inj same ▸ bare
          exact Option.some.inj (again.symm.trans found)
        · change read? (write (.function id)) = some b at again
          rw [← String.ofList_toList (s := id), write_function, read?_function (tight_function _)] at again
          rcases Option.bind_eq_some_iff.mp again with ⟨⟨found, behind⟩, scannedAgain, ended⟩
          rcases Option.ite_none_right_eq_some.mp ended with ⟨blank, same⟩
          have blanks := List.dropWhile_eq_nil_iff.mp (List.isEmpty_iff.mp blank)
          rcases eq_of_scanFunction? solid scannedAgain (.inr ⟨rfl, blanks⟩) with ⟨foundEq, -⟩
          rw [← Option.some.inj same, foundEq, String.ofList_toList]
    | none => exact Option.some.inj (again.symm.trans (read?_write read fun _ impossible => nomatch impossible))
    | fragment id => exact Option.some.inj (again.symm.trans (read?_write read fun _ impossible => nomatch impossible))

end Scan

end Reference

namespace Paint

theorem trim_write {paint : Paint} (wasRead : paint.WasRead) : Text.trim paint.write = paint.write := by
  cases paint with
  | color c => rw [write, Text.trim, Text.trimChars_eq_self (tight_write wasRead), String.ofList_toList]
  | server id fallback =>
      have written := Reference.function_eq id.toList (writeFallback fallback)
      rw [String.ofList_toList] at written
      rw [write, written, Text.trim, String.toList_ofList, Text.trimChars_eq_self (tight_server wasRead.2 _)]
  | _ => decide

/-- A paint is written again as it was, if a closing parenthesis stands in no id. -/
theorem steady {s : String} (closed : ∀ id fallback, read? s = some (.server id fallback) → ')' ∉ id.toList) :
    TextForm.Steady Paint s where
  trimmed := trimsFirst s
  trim_write paint read := trim_write (wasRead_of_read? read)
  write_again a b read again := by
    refine congrArg write ?_
    have wasRead := wasRead_of_read? read
    by_cases bare : ∀ id fallback, a = .server id fallback → Reference.IsBare id
    · exact Option.some.inj (again.symm.trans (read?_write wasRead bare))
    · cases a with
      | server id fallback =>
          rcases exists_scanFunction?_of_read? read with ⟨rest, scanned, -⟩
          have solid := (Reference.bare_or_solid_of_scanFunction? scanned).resolve_left fun own =>
            bare fun other _ same => by
              rw [String.ofList_toList] at own
              exact (server.inj same).1 ▸ own
          have written := Reference.function_eq id.toList (writeFallback fallback)
          rw [String.ofList_toList] at written
          change read? (write (.server id fallback)) = some b at again
          rw [write, written, read?_function (tight_server wasRead.2 _)] at again
          rcases Option.bind_eq_some_iff.mp again with ⟨⟨found, behind⟩, scannedAgain, again⟩
          rcases Option.bind_eq_some_iff.mp again with ⟨behindFallback, fallbackRead, same⟩
          rcases Reference.eq_of_scanFunction? solid scannedAgain (.inl (closed id fallback read)) with ⟨foundEq, rfl⟩
          rw [fallback?_writeFallback wasRead.2] at fallbackRead
          rw [← Option.some.inj same, ← Option.some.inj fallbackRead, foundEq, String.ofList_toList]
      | _ =>
          refine absurd ?_ bare
          rintro _ _ ⟨⟩

end Paint

namespace TransformList

open TransformItem

/-- Whether the rotations of a list are put together already: taking them apart and putting
them together again leaves the list. -/
def IsCollapsed (l : TransformList) : Prop :=
  collapse (steps l.items) = l.items

theorem said_said {item : TransformItem} (exact : item.IsExact) : item.said.said = item.said := by
  have each : ∀ x ∈ item.numbers, x.said.said = x.said := fun x listed => Binary.said_said (exact x listed).2
  cases item <;>
    simp only [numbers, List.forall_mem_cons] at each <;>
    simp only [said, each]

/-- Taking rotations apart does not depend on the signs of zeros. -/
theorem steps_map_said {items : List TransformItem} (exact : ∀ item ∈ items, item.IsExact) :
    (steps (items.map said)).map said = (steps items).map said := by
  induction items with
  | nil => rfl
  | cons item rest inductionHypothesis =>
      rcases List.forall_mem_cons.mp exact with ⟨here, later⟩
      rw [List.map_cons, steps_cons, List.map_append, inductionHypothesis later, steps_cons item, List.map_append]
      congr 1
      have finite {x : Binary} (listed : x ∈ item.numbers) : x.isFinite = true := (here x listed).2
      cases item with
      | rotate angle cx cy =>
          have angleFinite := finite (show angle ∈ (rotate angle cx cy).numbers by simp [numbers])
          have xFinite := finite (show cx ∈ (rotate angle cx cy).numbers by simp [numbers])
          have yFinite := finite (show cy ∈ (rotate angle cx cy).numbers by simp [numbers])
          simp only [steps, List.flatMap_singleton, said, Binary.isZero_said xFinite, Binary.isZero_said yFinite]
          split
          · simp only [List.map_cons, List.map_nil, said, Binary.said_said angleFinite, Binary.said_said xFinite,
              Binary.said_said yFinite]
          · simp only [List.map_cons, List.map_nil, said, Binary.said_said angleFinite, Binary.said_said xFinite,
              Binary.said_said yFinite, Binary.said_neg_said xFinite, Binary.said_neg_said yFinite]
      | _ =>
          have same := said_said here
          simp only [said] at same
          simp only [steps, List.flatMap_singleton, said, List.map_cons, List.map_nil, same]

theorem flatMap_write_said {items : List TransformItem} (exact : ∀ item ∈ items, item.IsExact) :
    (items.map said).flatMap TransformItem.write = items.flatMap TransformItem.write := by
  rw [List.flatMap_map]
  exact List.flatMap_congr fun item listed => write_said (exact item listed)

theorem trim_write (l : TransformList) : Text.trim l.write = l.write := by
  have letters : ∀ name ∈ functionNames, (!name.toList.isEmpty && name.toList.all fun c => !Text.isWhiteSpace c) = true := by
    decide
  have solid : ∀ name ∈ functionNames, name.toList ≠ [] ∧ ∀ c ∈ name.toList, Text.isWhiteSpace c = false := by
    simpa only [Bool.and_eq_true, Bool.not_eq_true', List.isEmpty_eq_false_iff, List.all_eq_true] using letters
  rw [Text.trim, write, String.toList_ofList, Text.trimChars_eq_self]
  constructor
  · intro c first
    cases items : l.items with
    | nil =>
        rw [items] at first
        cases first
    | cons item rest =>
        rcases solid _ (fst_parts_mem item) with ⟨nonempty, letters⟩
        rw [items, List.flatMap_cons, TransformItem.write, List.append_assoc, List.append_assoc, List.head?_append,
          List.head?_eq_some_head nonempty, Option.some_or] at first
        exact letters c (Option.some.inj first ▸ List.head_mem nonempty)
  · generalize l.items = items
    induction items with
    | nil => rintro c ⟨⟩
    | cons item rest inductionHypothesis =>
        rw [List.flatMap_cons]
        refine Text.last_append (fun _ c last => ?_) inductionHypothesis
        rw [TransformItem.write, List.getLast?_concat] at last
        cases last
        rfl

theorem steady {s : String} (trimmed : TextForm.TrimsAlike TransformList s)
    (collapsed : ∀ l, read? s = some l → l.IsCollapsed) : TextForm.Steady TransformList s where
  trimmed := trimmed
  trim_write l _ := trim_write l
  write_again a b read again := by
    rcases Option.map_eq_some_iff.mp read with ⟨tokens, scanned, same⟩
    have exact : ∀ item ∈ a.items, item.IsExact := by
      rw [← same]
      exact isExact_of_mem_collapse fun token listed => (isPrimitive_of_scanSteps? scanned token listed).1
    have saidExact : ∀ item ∈ a.items.map said, item.IsExact := by
      intro item listed
      rcases List.mem_map.mp listed with ⟨own, ownListed, rfl⟩
      exact (exact own ownListed).said
    have stepsExact {items : List TransformItem} (exact : ∀ item ∈ items, item.IsExact) :
        ∀ item ∈ steps items, item.IsExact := fun item listed => (isPrimitive_of_mem_steps exact item listed).1
    have found := read?_write exact
    rw [Option.some.inj (show some b = some _ from again.symm.trans found)]
    refine congrArg String.ofList ?_
    calc
      (collapse (steps (a.items.map said))).flatMap TransformItem.write
        = ((collapse (steps (a.items.map said))).map said).flatMap TransformItem.write :=
          (flatMap_write_said (isExact_of_mem_collapse (stepsExact saidExact))).symm
      _ = ((collapse (steps a.items)).map said).flatMap TransformItem.write := by
          rw [← collapse_map_said (stepsExact saidExact), steps_map_said exact, collapse_map_said (stepsExact exact)]
      _ = a.items.flatMap TransformItem.write := by
          rw [collapsed a read, flatMap_write_said exact]

end TransformList

namespace ClassList

theorem steady {s : String} (tight : ∀ name ∈ (read s).names, Text.Tight name.toList) :
    TextForm.Steady ClassList s where
  trimmed := congrArg some (read_trim tight)
  trim_write l found := by
    rw [← Option.some.inj (show some (read s) = some l from found)]
    refine Text.trim_intercalate fun name listed => ⟨?_, tight name listed⟩
    rcases mem_foldl_add.mp listed with impossible | word
    · exact absurd impossible List.not_mem_nil
    · exact (Text.isWord_of_mem_words word).1
  write_again a b found again := by
    rw [← Option.some.inj (show some (read s) = some a from found)] at again ⊢
    rw [← Option.some.inj (show some (read (read s).write) = some b from again), read_write_read]

end ClassList

/-! ## Property values -/

namespace Cached

/-- What holds of the trimmed text and of what is written holds of the shortest text. -/
theorem minified_of_both {α : Type} [TextForm α] {s : String} {P : String → Prop} (trimmed : P (Text.trim s))
    (written : ∀ a : α, TextForm.read? s = some a → P (TextForm.write a)) : P (ofText s : Cached α).minified := by
  cases read : (TextForm.read? s : Option α) with
  | none => exact minified_of_unread read ▸ trimmed
  | some a =>
      rw [minified_of_read? read]
      split
      · exact written a read
      · exact trimmed

end Cached

namespace PropertyValue

/-- Whether the shortest text of a value stays as it is: trimming makes nothing readable, no
closing parenthesis stands in the id of a paint, and the rotations of a list are put together
already. -/
def IsSteady : PropertyValue → Prop
  | generic _ | length _ | lengthPercentage _ | url _ => True
  | paint v => ∀ id fallback, Paint.read? v.text = some (.server id fallback) → ')' ∉ id.toList
  | number v => TextForm.TrimsAlike Numeral v.text
  | opacity v => TextForm.TrimsAlike Fraction v.text
  | transform v => TextForm.TrimsAlike TransformList v.text ∧ ∀ l, TransformList.read? v.text = some l → l.IsCollapsed

theorem minified_of_steady {name text : String} (steady : (ofText name text).IsSteady) :
    (ofText name (ofText name text).minified).minified = (ofText name text).minified := by
  by_cases transforms : name = "transform"
  · subst transforms
    exact Cached.minified_of_steady (TransformList.steady steady.1 steady.2)
  · have simple := simpleType_ofText transforms
    generalize ofText name = read at simple steady ⊢
    cases simple with
    | generic => exact Text.trim_trim text
    | paint => exact Cached.minified_of_steady (Paint.steady steady)
    | length => exact Cached.minified_of_steady (Length.settles.steady (Length.trimsFirst text))
    | lengthPercentage => exact Cached.minified_of_steady (Length.settles.steady (Length.trimsFirst text))
    | number => exact Cached.minified_of_steady (Numeral.settles.steady steady)
    | url => exact Cached.minified_of_steady (Reference.steady text)
    | opacity => exact Cached.minified_of_steady (Fraction.settles.steady steady)

/-- Whether the value is one run of terms when it is written: no closing parenthesis stands
in the id of a reference. -/
def IsClosed : PropertyValue → Prop
  | paint v => ∀ id fallback, Paint.read? v.text = some (.server id fallback) → ')' ∉ id.toList
  | url v => ∀ id, Reference.read? v.text = some (.function id) → ')' ∉ id.toList
  | _ => True

section Runs

open DeclarationScan

/-- Whether a text can stand as a value in a block: it is a run of terms without white space
around it. -/
def Fits (text : String) : Prop :=
  IsRun text.toList ∧ Text.trim text = text

variable {text : String}

theorem fits_reference (closed : ∀ id, Reference.read? text = some (.function id) → ')' ∉ id.toList)
    (fits : Fits (Text.trim text)) : Fits (Cached.ofText text : Cached Reference).minified := by
  refine Cached.minified_of_both fits fun r read => ⟨?_, Reference.trim_write read⟩
  change IsRun r.write.toList
  rcases Reference.write_of_read? read with rfl | ⟨id, rfl⟩ | own
  · exact .of_scanTerm (by decide +kernel)
  · rw [← String.ofList_toList (s := id), Reference.write_function, String.toList_ofList]
    exact .of_scanTerm (scanTerm_function (closed id read) [])
  · rw [own]
    exact fits.1

theorem fits_transform (run : IsRun text.toList) (fits : Fits (Text.trim text)) :
    Fits (Cached.ofText text : Cached TransformList).minified := by
  refine Cached.minified_of_both fits fun l read => ⟨?_, TransformList.trim_write l⟩
  have solid : Value.skipSpaces text.toList ≠ [] := by
    rcases List.exists_cons_of_ne_nil run.nonempty with ⟨c, rest, whole⟩
    have first := isCssSpace_of_isGap (run.first c (by rw [whole]; rfl)).1
    rw [Text.isCssSpace, Bool.or_eq_false_iff] at first
    rw [whole, Value.skipSpaces, List.dropWhile_cons_of_neg (Bool.eq_false_iff.mp first.1)]
    exact List.cons_ne_nil c rest
  change IsRun (TransformList.write l).toList
  rw [TransformList.write, String.toList_ofList]
  exact isRun_write_transform (TransformList.items_ne_nil read solid)

/-- The shortest text of a value in a block can stand in its place. -/
theorem fits_minified {name : String} (closed : (ofText name text).IsClosed) (run : IsRun text.toList)
    (tight : Text.Tight text.toList) : Fits (ofText name text).minified := by
  have fits : Fits (Text.trim text) := by
    refine ⟨?_, Text.trim_trim text⟩
    rw [Text.trim_of_tight tight]
    exact run
  by_cases transforms : name = "transform"
  · subst transforms
    exact fits_transform run fits
  · have simple := simpleType_ofText transforms
    generalize ofText name = read at simple closed ⊢
    have length : Fits (Cached.ofText text : Cached Length).minified :=
      Cached.minified_of_both fits fun l read => ⟨isRun_write_length l, Length.settles.trim_write read⟩
    cases simple with
    | generic => exact fits
    | paint =>
        refine Cached.minified_of_both fits fun paint read => ?_
        have wasRead := Paint.wasRead_of_read? read
        exact ⟨isRun_write_paint wasRead fun id fallback same => closed id fallback (same ▸ read), Paint.trim_write wasRead⟩
    | length => exact length
    | lengthPercentage => exact length
    | number => exact Cached.minified_of_both fits fun n read => ⟨isRun_compact n.number, Numeral.settles.trim_write read⟩
    | url => exact fits_reference closed fits
    | opacity => exact Cached.minified_of_both fits fun f read => ⟨isRun_compact f.number, Fraction.settles.trim_write read⟩

end Runs

end PropertyValue

/-! ## Declaration blocks -/

namespace Declarations

open DeclarationScan

variable {block : Declarations} {s : String}

theorem forall_minifyValues {P : String × Declaration → Prop} :
    (∀ item ∈ block.minifyValues.items, P item) ↔
      ∀ item ∈ block.items, P (item.1, { item.2 with value := (PropertyValue.ofText item.1 item.2.value).minified }) :=
  List.forall_mem_map

/-- Writing steady values in their shortest forms leaves nothing to be shortened. -/
theorem minifyValues_minifyValues
    (steady : ∀ item ∈ block.items, (PropertyValue.ofText item.1 item.2.value).IsSteady) :
    block.minifyValues.minifyValues = block.minifyValues := by
  refine congrArg Declarations.mk ?_
  rw [minifyValues, mapValues, List.map_map]
  refine List.map_congr_left fun item listed => ?_
  have same := PropertyValue.minified_of_steady (steady item listed)
  dsimp only [Function.comp_apply]
  rw [same]

theorem names_minifyValues (block : Declarations) :
    block.minifyValues.items.map (·.1) = block.items.map (·.1) :=
  List.map_map

theorem distinct_minifyValues (distinct : block.Distinct) : block.minifyValues.Distinct := by
  rw [Distinct, names_minifyValues]
  exact distinct

/-- Values that are written in their shortest forms can be read again. -/
theorem spelled_minifyValues (closed : ∀ item ∈ block.items, (PropertyValue.ofText item.1 item.2.value).IsClosed)
    (spelled : ∀ item ∈ block.items, Spelled item) : ∀ item ∈ block.minifyValues.items, Spelled item := by
  refine forall_minifyValues.mpr fun item listed => ?_
  have own := spelled item listed
  rcases PropertyValue.fits_minified (closed item listed) own.run own.tight with ⟨run, trimmed⟩
  exact ⟨own.named, run, trimmed ▸ Text.tight_trim _⟩

theorem tight_writeItem {item : String × Declaration} (spelled : Spelled item)
    (solid : ∀ c ∈ item.1.toList, Text.isWhiteSpace c = false) :
    (writeItem item.1 item.2).toList ≠ [] ∧ Text.Tight (writeItem item.1 item.2).toList := by
  rcases spelled.named.exists_cons with ⟨c, name, named, -⟩
  rw [toList_writeItem spelled, named]
  refine ⟨List.cons_ne_nil _ _, ?_, ?_⟩
  · rintro d ⟨⟩
    exact solid c (named ▸ List.mem_cons_self)
  · have value : ∀ d ∈ (item.2.value.toList ++ markChars item.2.important).getLast?, Text.isWhiteSpace d = false := by
      refine Text.last_append (fun _ => spelled.tight.last) ?_
      rw [markChars]
      split
      · rintro d ⟨⟩
        decide
      · rintro d ⟨⟩
    refine Text.last_append (fun none => absurd none (List.cons_ne_nil _ _)) ?_
    refine @Text.last_append _ [':'] _ (fun none => ?_) value
    exact absurd (List.append_eq_nil_iff.mp none).1 spelled.run.nonempty

/-- What is asked of a block, so that its shortest text stays as it is: trimming changes
nothing of it, no white space can stand in a name, and its values are steady and closed. -/
structure IsSteady (s : String) : Prop where
  trimmed : TextForm.TrimsAlike Declarations s
  plain : DeclarationScan.IsPlain s.toList
  values : ∀ item ∈ (read s).items, (PropertyValue.ofText item.1 item.2.value).IsSteady
  closed : ∀ item ∈ (read s).items, (PropertyValue.ofText item.1 item.2.value).IsClosed

theorem IsSteady.spelled (steady : IsSteady s) : ∀ item ∈ (read s).minifyValues.items, Spelled item :=
  spelled_minifyValues steady.closed fun item listed => (spelled_of_read steady.plain item listed).1

theorem IsSteady.steady (steady : IsSteady s) : TextForm.Steady Declarations s where
  trimmed := steady.trimmed
  trim_write block found := by
    rw [← Option.some.inj (show some (read s) = some block from found)]
    refine Text.trim_intercalate (List.forall_mem_map.mpr fun item listed => ?_)
    have solid := (@forall_minifyValues (read s) fun item => ∀ c ∈ item.1.toList, Text.isWhiteSpace c = false).mpr
      fun item listed => (spelled_of_read steady.plain item listed).2
    exact tight_writeItem (steady.spelled item listed) (solid item listed)
  write_again a b found again := by
    rw [← Option.some.inj (show some (read s) = some a from found)] at again ⊢
    have same : read (read s).write = (read s).minifyValues :=
      read_writeBlock steady.spelled (distinct_minifyValues (distinct_read s))
    rw [← Option.some.inj (show some (read (read s).write) = some b from again), same]
    exact congrArg writeBlock (minifyValues_minifyValues steady.values)

end Declarations

/-! ## Attribute values -/

namespace AttributeValue

/-- The types of attribute values; those that properties have are told by properties. -/
inductive ReadsType : (String → AttributeValue) → Prop
  | property (name : String) : ReadsType fun text => .property (.ofText name text)
  | percentage : ReadsType fun text => .percentage (.ofText text)
  | pathData : ReadsType fun text => .pathData (.ofText text)
  | classList : ReadsType fun text => .classList (.ofText text)
  | style : ReadsType fun text => .style (.ofText text)
  | stopOffset : ReadsType fun text => .stopOffset (.ofText text)

/-- The type of a value does not depend on its text. -/
theorem readsType_ofAttribute (element name : String) : ReadsType (ofAttribute element name) := by
  have generic : ReadsType fun text => .property (.generic text) := ReadsType.property ""
  have number : ReadsType fun text => .property (.number (.ofText text)) := ReadsType.property "stroke-miterlimit"
  have length : ReadsType fun text => .property (.lengthPercentage (.ofText text)) := ReadsType.property "stroke-width"
  have url : ReadsType fun text => .property (.url (.ofText text)) := ReadsType.property "mask"
  have transform : ReadsType fun text => .property (.transform (.ofText text)) := ReadsType.property "transform"
  have own : ReadsType (ofProperty name) := .property name
  rw [show ofAttribute element name = fun text => ofAttribute element name text from rfl]
  unfold ofAttribute
  split
  all_goals first
    | with_reducible assumption
    | exact ReadsType.percentage
    | exact ReadsType.classList
    | exact ReadsType.style
    | split
  all_goals first
    | with_reducible assumption
    | exact ReadsType.pathData
    | exact ReadsType.stopOffset

/-- Whether the shortest text of a value stays as it is. -/
def IsSteady : AttributeValue → Prop
  | property v => v.IsSteady
  | percentage v => TextForm.TrimsAlike Percentage v.text
  | pathData v => TextForm.TrimsAlike PathData v.text
  | classList v => ∀ name ∈ (ClassList.read v.text).names, Text.Tight name.toList
  | style v => Declarations.IsSteady v.text
  | stopOffset v => TextForm.TrimsAlike Fraction v.text

variable {element name text : String}

theorem minified_of_steady (steady : (ofAttribute element name text).IsSteady) :
    (ofAttribute element name (ofAttribute element name text).minified).minified =
      (ofAttribute element name text).minified := by
  have reads := readsType_ofAttribute element name
  generalize ofAttribute element name = read at reads steady ⊢
  cases reads with
  | property name => exact PropertyValue.minified_of_steady steady
  | percentage => exact Cached.minified_of_steady (Percentage.settles.steady steady)
  | pathData => exact Cached.minified_of_steady (PathData.steady steady)
  | classList => exact Cached.minified_of_steady (ClassList.steady steady)
  | style => exact Cached.minified_of_steady (Declarations.IsSteady.steady steady)
  | stopOffset => exact Cached.minified_of_steady (Fraction.settles.steady steady)

theorem isPaint_ofAttribute (element name first second : String) :
    (ofAttribute element name first).isPaint = (ofAttribute element name second).isPaint := by
  have reads := readsType_ofAttribute element name
  generalize ofAttribute element name = read at reads ⊢
  cases reads with
  | property name =>
      by_cases transforms : name = "transform"
      · rw [transforms]
        rfl
      · have simple := PropertyValue.simpleType_ofText transforms
        generalize PropertyValue.ofText name = read at simple ⊢
        cases simple <;> rfl
  | _ => rfl

end AttributeValue

end SlimSvg
