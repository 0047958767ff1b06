import Mathlib.Data.Bool.AllAny
import SlimSvg.Proofs.Value.RenamedReferences
import SlimSvg.Proofs.Value.Variables
import SlimSvg.Proofs.Value.WrittenReferences

namespace SlimSvg

/-!
# Where the readers of references agree

The strict reader takes any blanks and a quotation mark before the number sign, and between
quotation marks an id with blanks and parentheses in it.  The loose reader passes over
spaces and quotation marks only, and its ids end at the first blank, quotation mark or
parenthesis.  So it finds the id of a value exactly if the reference is spelled without
those liberties, and then the id can be exchanged in the text.
-/

namespace ReferenceSpan

/-! ## Texts without references -/

/-- The ids in a text. -/
def names (cs : List Char) : List String :=
  (cut cs).filterMap name?

section Names

variable {cs lead name after rest : List Char}

theorem names_nil : names [] = [] := by
  rw [names, cut]
  rfl

theorem names_reference (blank : ∀ c ∈ lead, isLead c = true) (inside : IsOpen name) (closed : EndsFront after) :
    names ('u' :: 'r' :: 'l' :: '(' :: (lead ++ '#' :: (name ++ after))) =
      (ofName name).filterMap name? ++ names after := by
  rw [names, cut_reference blank inside closed, List.filterMap_cons, List.filterMap_append]
  rfl

theorem toList_of_mem_ofName {id : String} (listed : id ∈ (ofName name).filterMap name?) : id.toList = name := by
  rcases List.mem_filterMap.mp listed with ⟨span, piece, named⟩
  rw [ofName] at piece
  split at piece
  · cases piece
  · rw [List.mem_singleton.mp piece] at named
    rw [← Option.some.inj named, String.toList_ofList]

theorem names_unclosed (unclosed : ∀ tail, rest.dropWhile isLead = '#' :: tail → IsOpen tail) :
    names ('u' :: 'r' :: 'l' :: '(' :: rest) = names rest := by
  rw [names, cut_unclosed unclosed]
  rfl

theorem names_other {c : Char} (other : ∀ rest, c = 'u' → cs = 'r' :: 'l' :: '(' :: rest → False) :
    names (c :: cs) = names cs := by
  rw [names, cut_other other]
  rfl

theorem names_append {front : List Char} (away : ∀ c ∈ front, c ≠ 'u') (cs : List Char) :
    names (front ++ cs) = names cs := by
  induction front with
  | nil => rfl
  | cons c front inductionHypothesis =>
      rw [List.cons_append, names_other fun _ same _ => away c List.mem_cons_self same]
      exact inductionHypothesis fun d listed => away d (List.mem_cons_of_mem c listed)

/-- Without the beginning of a reference there is none. -/
theorem names_of_absent (absent : ¬ ['u', 'r', 'l', '('] <:+: cs) : names cs = [] := by
  induction cs using cut_induction with
  | nil => exact names_nil
  | reference lead name after => exact absurd ⟨[], lead ++ '#' :: (name ++ after), rfl⟩ absent
  | unclosed rest => exact absurd ⟨[], rest, rfl⟩ absent
  | other c cs away inductionHypothesis =>
      rw [names_other away]
      exact inductionHypothesis fun within => absent (within.trans (List.suffix_cons c cs).isInfix)

theorem renamed_of_names_eq_nil {map : String → Option String} (none : names cs = []) : renamed map cs = cs := by
  have same := Reference.toList_getD_renameIn? map (String.ofList cs)
  rw [String.toList_ofList] at same
  have unknown : Reference.renameIn? map (String.ofList cs) = Option.none := by
    rw [Reference.renameIn?_eq_none_iff, Reference.idsIn, String.toList_ofList]
    intro id listed
    rw [names] at none
    rw [none] at listed
    cases listed
  rw [← same, unknown, Option.getD_none, String.toList_ofList]

/-- Nothing in an id ends it. -/
theorem isOpen_of_mem_names {id : String} (listed : id ∈ names cs) : IsOpen id.toList := by
  induction cs using cut_induction with
  | nil =>
      rw [names_nil] at listed
      cases listed
  | reference lead name after blank inside closed inductionHypothesis =>
      rw [names_reference blank inside closed] at listed
      rcases List.mem_append.mp listed with own | later
      · rw [toList_of_mem_ofName own]
        exact inside
      · exact inductionHypothesis later
  | unclosed rest unclosed inductionHypothesis => exact inductionHypothesis (names_unclosed unclosed ▸ listed)
  | other c cs away inductionHypothesis => exact inductionHypothesis (names_other away ▸ listed)

theorem endsId_of_isLead {c : Char} (lead : isLead c = true) : endsId c = true := by
  simp only [isLead, Bool.or_eq_true, beq_iff_eq] at lead
  rcases lead with (rfl | rfl) | rfl <;> rfl

theorem notMem_of_endsId {c : Char} (ends : endsId c = true) : c ∉ ['u', 'r', 'l', '('] := by
  have none : ∀ d ∈ ['u', 'r', 'l', '('], endsId d = false := List.all_iff_forall_prop.mp (by decide)
  intro listed
  rw [none c listed] at ends
  cases ends

/-- What begins a reference in front of an open text either makes its id of a part of that
text, up to what ends it, or nothing. -/
theorem mem_names_of_open {more closing : List Char} {id : String} (opened : IsOpen more) (ends : EndsFront closing)
    (absent : ¬ ['u', 'r', 'l', '('] <:+: closing) (noSign : ∀ tail, closing.dropWhile isLead ≠ '#' :: tail)
    (listed : id ∈ names ('u' :: 'r' :: 'l' :: '(' :: (more ++ closing))) :
    id.toList.length < more.length ∨ id ∈ names (more ++ closing) := by
  cases more with
  | nil =>
      rw [List.nil_append, names_unclosed fun tail found => absurd found (noSign tail)] at listed
      exact .inr listed
  | cons d name =>
      by_cases sign : d = '#'
      · have nameOpen : IsOpen name := fun c own => opened c (List.mem_cons_of_mem d own)
        have found : names ('u' :: 'r' :: 'l' :: '(' :: ([] ++ '#' :: (name ++ closing))) = _ :=
          names_reference (List.forall_mem_nil _) nameOpen ends
        rw [names_of_absent absent, List.append_nil, List.nil_append, ← sign] at found
        rw [List.cons_append, found] at listed
        rw [toList_of_mem_ofName listed]
        exact .inl (Nat.lt_succ_self _)
      · have solid : ¬ isLead d = true := by
          intro lead
          have inside := opened d List.mem_cons_self
          rw [endsId_of_isLead lead] at inside
          cases inside
        rw [names_unclosed] at listed
        · exact .inr listed
        · intro tail found
          rw [List.cons_append, List.dropWhile_cons_of_neg solid] at found
          exact absurd (List.cons.inj found).1 sign

/-- A reference inside of an open text has an id that is shorter than the text, since the id
goes up to what ends the text. -/
theorem length_lt_of_mem_names {inside closing : List Char} {id : String} (opened : IsOpen inside)
    (ends : EndsFront closing) (absent : ¬ ['u', 'r', 'l', '('] <:+: closing)
    (noSign : ∀ tail, closing.dropWhile isLead ≠ '#' :: tail) (listed : id ∈ names (inside ++ closing)) :
    id.toList.length < inside.length := by
  induction size : inside.length using Nat.strong_induction_on generalizing inside with
  | _ bound inductionHypothesis =>
    cases inside with
    | nil =>
        rw [List.nil_append, names_of_absent absent] at listed
        cases listed
    | cons c rest =>
        by_cases begins : ['u', 'r', 'l', '('] <+: c :: rest
        · rcases begins with ⟨more, whole⟩
          rw [← whole] at opened size listed
          have moreOpen : IsOpen more := fun d own => opened d (List.mem_append_right _ own)
          rw [List.length_append] at size
          have smaller : more.length < bound := by
            rw [← size]
            exact Nat.lt_add_of_pos_left (Nat.succ_pos 3)
          rcases mem_names_of_open moreOpen ends absent noSign listed with shorter | later
          · exact shorter.trans smaller
          · exact (inductionHypothesis _ smaller moreOpen later rfl).trans smaller
        · rcases ends with ⟨e, first, endsId⟩
          rcases List.head?_eq_some_iff.mp first with ⟨behind, rfl⟩
          have other : ∀ after, c = 'u' → rest ++ e :: behind = 'r' :: 'l' :: '(' :: after → False := by
            rintro after rfl same
            apply begins
            rw [← Text.prefix_append_cons_iff (notMem_of_endsId endsId) ('u' :: rest) behind]
            exact ⟨after, congrArg ('u' :: ·) same.symm⟩
          have smaller : rest.length < bound := size ▸ Nat.lt_succ_self _
          rw [List.cons_append, names_other other] at listed
          exact (inductionHypothesis _ smaller (fun d own => opened d (List.mem_cons_of_mem c own)) listed rfl).trans
            smaller

end Names

end ReferenceSpan

namespace Reference

open ReferenceSpan (EndsFront IsOpen isLead endsId names renamed)

section Spelling

variable {quote : Option Char} {lead id closing rest back : List Char}

/-! ## What the loose reader makes of a spelling -/

theorem notMem_signs_of_isAround {c : Char} (around : IsAround c) : c ∉ ['#', 'u', 'r', 'l', '('] := by
  have none : ∀ d ∈ ['#', 'u', 'r', 'l', '('], ¬ IsAround d := by
    unfold IsAround
    exact List.all_iff_forall_prop.mp (by decide)
  exact fun listed => none c listed around

theorem Closes.endsFront (closes : Closes quote closing rest) : EndsFront (closing ++ back) := by
  cases closes with
  | @bare between rest blank stops =>
      cases between with
      | nil => exact ⟨')', rfl, rfl⟩
      | cons c more => exact ⟨c, rfl, by rw [stops c rfl]; rfl⟩
  | @quoted mark padding between rest isQuote white blank =>
      cases padding with
      | nil =>
          refine ⟨mark, rfl, ?_⟩
          rw [Reference.isQuote, Bool.or_eq_true, beq_iff_eq, beq_iff_eq] at isQuote
          rcases isQuote with rfl | rfl <;> rfl
      | cons c more =>
          refine ⟨c, rfl, ?_⟩
          rw [endsId, white c List.mem_cons_self, Bool.or_true]

theorem Closes.absent_behind (closes : Closes quote closing rest) (absent : ¬ ['u', 'r', 'l', '('] <:+: rest)
    (white : ∀ c ∈ back, Text.isWhiteSpace c = true) : ¬ ['u', 'r', 'l', '('] <:+: closing ++ back := by
  rcases closes.exists_around with ⟨between, rfl, around⟩
  have apart {cs : List Char} (all : ∀ c ∈ cs, IsAround c) : ∀ c ∈ cs, c ∉ ['u', 'r', 'l', '('] :=
    fun c listed own => notMem_signs_of_isAround (all c listed) (List.mem_cons_of_mem _ own)
  rw [Text.infix_append_right_iff (List.cons_ne_nil _ _) (apart fun c listed => .inl (white c listed)),
    Text.infix_append_left_iff (List.cons_ne_nil _ _) (apart around)]
  have apartSign : ')' ∉ ['u', 'r', 'l', '('] := by decide
  intro occurs
  rcases (Text.infix_append_cons_iff apartSign [] rest).mp occurs with nothing | behind
  · exact absurd nothing (by decide)
  · exact absent behind

theorem Closes.dropWhile_ne (closes : Closes quote closing rest) (tail : List Char) :
    (closing ++ back).dropWhile isLead ≠ '#' :: tail := by
  rcases closes.exists_around with ⟨between, rfl, around⟩
  clear closes
  induction between with
  | nil => exact fun impossible => absurd (List.cons.inj impossible).1 (by decide)
  | cons c between inductionHypothesis =>
      rcases List.forall_mem_cons.mp around with ⟨here, later⟩
      by_cases lead : isLead c = true
      · rw [List.cons_append, List.cons_append, List.dropWhile_cons_of_pos lead]
        exact inductionHypothesis later
      · rw [List.cons_append, List.cons_append, List.dropWhile_cons_of_neg lead]
        intro same
        rw [(List.cons.inj same).1] at here
        exact notMem_signs_of_isAround here List.mem_cons_self

theorem Opens.ne_letter (opens : Opens quote lead) : ∀ c ∈ lead, c ≠ 'u' ∧ c ≠ '#' := by
  intro c listed
  have apart := notMem_signs_of_isAround (opens.isAround c listed)
  exact ⟨fun same => apart (by rw [same]; decide), fun same => apart (by rw [same]; decide)⟩

theorem isLead_of_head?_dropWhile {after : List Char} (away : ∀ c ∈ lead, c ≠ '#')
    (sign : '#' ∈ ((lead ++ after).dropWhile isLead).head?) : ∀ c ∈ lead, isLead c = true := by
  induction lead with
  | nil => exact List.forall_mem_nil _
  | cons c more inductionHypothesis =>
      rcases List.forall_mem_cons.mp away with ⟨here, later⟩
      by_cases blank : isLead c = true
      · rw [List.cons_append, List.dropWhile_cons_of_pos blank] at sign
        exact List.forall_mem_cons.mpr ⟨blank, inductionHypothesis later sign⟩
      · rw [List.cons_append, List.dropWhile_cons_of_neg blank] at sign
        exact absurd (Option.some.inj sign) here

theorem isName_of_isLettered {newId : String} (lettered : IsLettered newId) : IsName quote newId.toList where
  nonempty := lettered.1
  unquoted c listed := by
    rw [← Bool.not_eq_true]
    intro mark
    rw [isQuote, Bool.or_eq_true, beq_iff_eq, beq_iff_eq] at mark
    have letter := lettered.2 c listed
    rcases mark with rfl | rfl <;> cases letter
  bare _ c listed := by
    have letter := lettered.2 c listed
    constructor
    · rintro rfl
      cases letter
    · rintro rfl
      cases letter
  trimmed _ c last := not_isWhiteSpace_of_isAlpha (lettered.2 c (List.mem_of_mem_getLast? last))

theorem getLast?_reference (name : List Char) (closes : Closes quote closing rest) :
    ('u' :: 'r' :: 'l' :: '(' :: (lead ++ '#' :: (name ++ closing))).getLast? = closing.getLast? := by
  have nonempty : closing ≠ [] := by
    rcases closes.exists_around with ⟨between, rfl, -⟩
    exact List.append_ne_nil_of_right_ne_nil _ (List.cons_ne_nil _ _)
  have grouped : 'u' :: 'r' :: 'l' :: '(' :: (lead ++ '#' :: (name ++ closing)) =
      ('u' :: 'r' :: 'l' :: '(' :: (lead ++ '#' :: name)) ++ closing := by
    simp only [List.append_assoc, List.cons_append]
  rw [grouped, List.getLast?_append_of_ne_nil _ nonempty]

end Spelling

/-! ## Plain spellings -/

/-- Whether nothing but spaces and quotation marks stand before the number sign of a
reference, and nothing in its id ends an id for the loose reader. -/
def IsPlainlySpelled (s id : String) : Prop :=
  '#' ∈ (((Text.trimChars s.toList).drop 4).dropWhile isLead).head? ∧ IsOpen id.toList

/-- The map that knows one id. -/
def only (id new : String) (asked : String) : Option String :=
  if asked = id then some new else Option.none

/-- A text in which a reference is found with nothing but white space around it and its
rest. -/
structure Found (s : String) (quote : Option Char) (front lead id closing rest back : List Char) : Prop where
  text : s.toList = front ++ 'u' :: 'r' :: 'l' :: '(' :: (lead ++ '#' :: (id ++ closing)) ++ back
  trimmed : Text.trimChars s.toList = 'u' :: 'r' :: 'l' :: '(' :: (lead ++ '#' :: (id ++ closing))
  frontWhite : ∀ c ∈ front, Text.isWhiteSpace c = true
  backWhite : ∀ c ∈ back, Text.isWhiteSpace c = true
  opens : Opens quote lead
  name : IsName quote id
  closes : Closes quote closing rest

section Found

variable {s : String} {quote : Option Char} {front lead id closing rest back : List Char}

theorem exists_found (scanned : scanFunction? (Text.trimChars s.toList) = some (id, rest)) :
    ∃ quote front lead closing back, Found s quote front lead id closing rest back := by
  rcases exists_spells_of_scanFunction? scanned with ⟨quote, before, lead, closing, spells⟩
  rcases Text.exists_append_trimChars s.toList with ⟨front, back, whole, frontWhite, backWhite, tight⟩
  have trimmed := spells.text
  have none : before = [] := by
    cases before with
    | nil => rfl
    | cons c more =>
        have solid := tight.first c (by rw [trimmed]; rfl)
        rw [Text.isWhiteSpace_of_isXmlSpace (spells.blank c List.mem_cons_self)] at solid
        cases solid
  rw [none, List.nil_append] at trimmed
  rw [trimmed] at whole
  exact ⟨quote, front, lead, closing, back, whole, trimmed, frontWhite, backWhite, spells.opens, spells.name,
    spells.closes⟩

namespace Found

variable (found : Found s quote front lead id closing rest back)

include found

theorem isPlainlySpelled_iff : IsPlainlySpelled s (String.ofList id) ↔ (∀ c ∈ lead, isLead c = true) ∧ IsOpen id := by
  rw [IsPlainlySpelled, found.trimmed, String.toList_ofList]
  refine and_congr_left fun _ => ?_
  change '#' ∈ ((lead ++ '#' :: (id ++ closing)).dropWhile isLead).head? ↔ _
  constructor
  · exact isLead_of_head?_dropWhile fun c listed => (found.opens.ne_letter c listed).2
  · intro blank
    rw [Text.dropWhile_append_of_all blank]
    · rfl
    · rintro c ⟨⟩
      rfl

theorem names_eq : names s.toList = names ('u' :: 'r' :: 'l' :: '(' :: (lead ++ '#' :: (id ++ (closing ++ back)))) := by
  have white : ∀ c ∈ front, c ≠ 'u' := by
    rintro c listed rfl
    exact absurd (found.frontWhite _ listed) (by decide)
  rw [found.text, List.append_assoc, ReferenceSpan.names_append white]
  simp only [List.cons_append, List.append_assoc]

theorem scanFunction?_eq : scanFunction? (Text.trimChars s.toList) = some (id, rest) := by
  have nothing : ∀ c ∈ ([] : List Char), Text.isXmlSpace c = true := fun _ impossible => nomatch impossible
  rw [found.trimmed]
  exact Spells.scanFunction?_eq_some ⟨rfl, nothing, found.opens, found.name, found.closes⟩

/-- The loose reader finds the id of a plain spelling, and nothing else. -/
theorem names_of_plain (plain : IsPlainlySpelled s (String.ofList id)) (absent : ¬ ['u', 'r', 'l', '('] <:+: rest) :
    names s.toList = [String.ofList id] := by
  rcases found.isPlainlySpelled_iff.mp plain with ⟨blank, inside⟩
  have nothing := ReferenceSpan.names_of_absent (found.closes.absent_behind absent found.backWhite)
  rw [found.names_eq, ReferenceSpan.names_reference blank inside found.closes.endsFront, nothing, List.append_nil]
  cases text : id with
  | nil => exact absurd text found.name.nonempty
  | cons c more => rfl

/-- The loose reader does not find the id of any other spelling. -/
theorem notMem_names (other : ¬ IsPlainlySpelled s (String.ofList id))
    (absent : ¬ ['u', 'r', 'l', '('] <:+: rest) : String.ofList id ∉ names s.toList := by
  intro listed
  have inside : IsOpen id := String.toList_ofList (l := id) ▸ ReferenceSpan.isOpen_of_mem_names listed
  have notLead : ¬ ∀ c ∈ lead, isLead c = true := fun blank => other (found.isPlainlySpelled_iff.mpr ⟨blank, inside⟩)
  have away : ∀ c ∈ lead ++ ['#'], c ≠ 'u' := by
    intro c own
    rcases List.mem_append.mp own with before | sign
    · exact (found.opens.ne_letter c before).1
    · rw [List.mem_singleton.mp sign]
      decide
  have passed : names s.toList = names (id ++ (closing ++ back)) := by
    have skipped := ReferenceSpan.names_append away (id ++ (closing ++ back))
    rw [List.append_assoc] at skipped
    rw [found.names_eq, ReferenceSpan.names_unclosed]
    · exact skipped
    · intro tail begins
      have sign : '#' ∈ ((lead ++ '#' :: (id ++ (closing ++ back))).dropWhile isLead).head? := by
        rw [begins]
        rfl
      exact absurd (isLead_of_head?_dropWhile (fun c own => (found.opens.ne_letter c own).2) sign) notLead
  rw [passed] at listed
  have shorter := ReferenceSpan.length_lt_of_mem_names inside found.closes.endsFront
    (found.closes.absent_behind absent found.backWhite) found.closes.dropWhile_ne listed
  rw [String.toList_ofList] at shorter
  exact absurd shorter (Nat.lt_irrefl _)

/-- In a plain spelling the id can be exchanged, and nothing else becomes another. -/
theorem found_of_renamed {newId new : String} (plain : IsPlainlySpelled s (String.ofList id))
    (absent : ¬ ['u', 'r', 'l', '('] <:+: rest) (lettered : IsLettered newId)
    (changed : new.toList = renamed (only (String.ofList id) newId) s.toList) :
    Found new quote front lead newId.toList closing rest back := by
  rcases found.isPlainlySpelled_iff.mp plain with ⟨blank, inside⟩
  have behind : renamed (only (String.ofList id) newId) (closing ++ back) = closing ++ back :=
    ReferenceSpan.renamed_of_names_eq_nil
      (ReferenceSpan.names_of_absent (found.closes.absent_behind absent found.backWhite))
  have white : ∀ c ∈ front, c ≠ 'u' := by
    rintro c listed rfl
    exact absurd (found.frontWhite _ listed) (by decide)
  have here : ReferenceSpan.renamedName (only (String.ofList id) newId) id = newId.toList := by
    cases text : id with
    | nil => exact absurd text found.name.nonempty
    | cons c more => rw [ReferenceSpan.renamedName_cons, only, if_pos rfl, Option.elim_some]
  have text : new.toList =
      front ++ 'u' :: 'r' :: 'l' :: '(' :: (lead ++ '#' :: (newId.toList ++ closing)) ++ back := by
    have grouped : s.toList = front ++ 'u' :: 'r' :: 'l' :: '(' :: (lead ++ '#' :: (id ++ (closing ++ back))) := by
      rw [found.text]
      simp only [List.append_assoc, List.cons_append]
    rw [changed, grouped, ReferenceSpan.renamed_append white,
      ReferenceSpan.renamed_reference blank inside found.closes.endsFront, here, behind]
    simp only [List.append_assoc, List.cons_append]
  refine ⟨text, ?_, found.frontWhite, found.backWhite, found.opens, isName_of_isLettered lettered, found.closes⟩
  rw [text]
  refine Text.trimChars_of_tight ⟨?_, ?_⟩ found.frontWhite found.backWhite (List.cons_ne_nil _ _)
  · rintro c ⟨⟩
    rfl
  · rcases Text.exists_append_trimChars s.toList with ⟨-, -, -, -, -, tight⟩
    rw [getLast?_reference newId.toList found.closes, ← getLast?_reference id found.closes, ← found.trimmed]
    exact tight.last

end Found

end Found

/-! ## Typed values -/

/-- Whether values are made of texts as those of references are, or as paints are. -/
def IsReader (make : String → AttributeValue) : Prop :=
  make = (fun s => .property (.url (.ofText s))) ∨ make = fun s => .property (.paint (.ofText s))

theorem referencedId?_paint {s id : String} :
    (AttributeValue.property (.paint (.ofText s))).referencedId? = some id ↔
      ∃ fallback, Paint.read? s = some (.server id fallback) := by
  rw [AttributeValue.referencedId?, Cached.parsed_ofText]
  constructor
  · intro referenced
    split at referenced
    · next name fallback read => exact ⟨fallback, Option.some.inj referenced ▸ read⟩
    · cases referenced
  · rintro ⟨fallback, read⟩
    rw [show TextForm.read? s = Paint.read? s from rfl, read]

/-- A value refers to the id that is scanned at its front, if the reader accepts what stands
behind the reference; it accepts no further reference. -/
theorem exists_accepts {make : String → AttributeValue} (reader : IsReader make) :
    ∃ accepts : List Char → Prop, (∀ rest, accepts rest → ¬ ['u', 'r', 'l', '('] <:+: rest) ∧
      ∀ s cs id, Text.trimChars s.toList = 'u' :: 'r' :: 'l' :: '(' :: cs →
        ((make s).referencedId? = some id ↔
          ∃ rest, scanFunction? (Text.trimChars s.toList) = some (id.toList, rest) ∧ accepts rest) := by
  rcases reader with rfl | rfl
  · refine ⟨fun rest => (Value.skipSpaces rest).isEmpty = true,
      fun rest blank => not_infix_of_blank isForeign_reference (List.isEmpty_iff.mp blank), ?_⟩
    intro s cs id function
    change (read? s).bind id? = some id ↔ _
    rw [read?_of_trimChars function, function, readFunction?]
    constructor
    · intro referenced
      rcases Option.bind_eq_some_iff.mp referenced with ⟨r, found, named⟩
      rcases Option.bind_eq_some_iff.mp found with ⟨⟨name, rest⟩, scanned, ended⟩
      rcases Option.ite_none_right_eq_some.mp ended with ⟨blank, same⟩
      rw [← Option.some.inj same] at named
      exact ⟨rest, by rw [scanned, ← Option.some.inj named, String.toList_ofList], blank⟩
    · rintro ⟨rest, scanned, blank⟩
      rw [scanned]
      change ((if (Value.skipSpaces rest).isEmpty = true then
        some (Reference.function (String.ofList id.toList)) else Option.none).bind id?) = _
      rw [if_pos blank, String.ofList_toList]
      rfl
  · have noFurther (rest : List Char) (accepted : ∃ fallback, Paint.fallback? rest = some fallback) :
        ¬ ['u', 'r', 'l', '('] <:+: rest := by
      rcases accepted with ⟨fallback, found⟩
      exact Paint.not_infix_of_fallback? isForeign_reference found
    refine ⟨fun rest => ∃ fallback, Paint.fallback? rest = some fallback, noFurther, ?_⟩
    intro s cs id function
    rw [referencedId?_paint]
    constructor
    · rintro ⟨fallback, read⟩
      rcases Paint.exists_scanFunction?_of_read? read with ⟨rest, scanned, behind⟩
      exact ⟨rest, scanned, fallback, behind⟩
    · rintro ⟨rest, scanned, fallback, found⟩
      rw [function] at scanned
      refine ⟨fallback, ?_⟩
      rw [Paint.read?_of_trimChars function, scanned]
      change ((Paint.fallback? rest).bind fun fallback =>
        some (Paint.server (String.ofList id.toList) fallback)) = _
      rw [found, String.ofList_toList]
      rfl

/-- The two readers agree on plain spellings only.  A value that is spelled as a function and
refers to an id is one in which the loose reader finds that id first exactly if it is spelled
plainly.  Then there is no other id in the text, and the value of the text with a new id made
of letters refers to the new one.  Otherwise the loose reader does not find the id at all. -/
theorem readers_agree {make : String → AttributeValue} (reader : IsReader make) {s id : String} {cs : List Char}
    (function : Text.trimChars s.toList = 'u' :: 'r' :: 'l' :: '(' :: cs)
    (referenced : (make s).referencedId? = some id) :
    ((idsIn s).head? = some id ↔ IsPlainlySpelled s id) ∧
    (IsPlainlySpelled s id → idsIn s = [id] ∧ ∀ newId, IsLettered newId →
      ∃ new, renameIn? (only id newId) s = some new ∧ (make new).referencedId? = some newId) ∧
    (¬ IsPlainlySpelled s id → id ∉ idsIn s ∧ ∀ newId, renameIn? (only id newId) s = Option.none) := by
  rcases exists_accepts reader with ⟨accepts, noFurther, refers⟩
  rcases (refers s cs id function).mp referenced with ⟨rest, scanned, accepted⟩
  rcases exists_found scanned with ⟨quote, front, lead, closing, back, found⟩
  have absent := noFurther rest accepted
  have same : String.ofList id.toList = id := String.ofList_toList
  have plainIds (plain : IsPlainlySpelled s id) : idsIn s = [id] := by
    have listed := found.names_of_plain (same.symm ▸ plain) absent
    rwa [same] at listed
  have otherIds (other : ¬ IsPlainlySpelled s id) : id ∉ idsIn s := by
    have missing := found.notMem_names (same.symm ▸ other) absent
    rwa [same] at missing
  refine ⟨⟨?_, ?_⟩, ?_, ?_⟩
  · intro first
    by_contra other
    exact otherIds other (List.mem_of_mem_head? first)
  · intro plain
    rw [plainIds plain]
    rfl
  · intro plain
    refine ⟨plainIds plain, fun newId lettered => ?_⟩
    have known : renameIn? (only id newId) s ≠ Option.none := by
      rw [Ne, renameIn?_eq_none_iff, plainIds plain]
      intro unknown
      have impossible := unknown id List.mem_cons_self
      rw [only, if_pos rfl] at impossible
      cases impossible
    rcases Option.ne_none_iff_exists'.mp known with ⟨new, changed⟩
    have exchanged : new.toList = renamed (only (String.ofList id.toList) newId) s.toList := by
      rw [same]
      exact toList_of_renameIn? changed
    have renamedFound := found.found_of_renamed (same.symm ▸ plain) absent lettered exchanged
    exact ⟨new, changed,
      (refers new _ newId renamedFound.trimmed).mpr ⟨rest, renamedFound.scanFunction?_eq, accepted⟩⟩
  · intro other
    refine ⟨otherIds other, fun newId => renameIn?_eq_none_iff.mpr fun listedId listed => ?_⟩
    rw [only, if_neg]
    rintro rfl
    exact otherIds other listed

/-- A quoted id with a fallback behind it is found, exchanged and found again. -/
theorem readers_agree_on_quoted :
    let make := fun s => AttributeValue.property (.paint (.ofText s))
    idsIn " url( '#long') red" = ["long"] ∧ ∃ new, renameIn? (only "long" "a") " url( '#long') red" = some new ∧
      new = " url( '#a') red" ∧ (make new).referencedId? = some "a" := by
  have function : Text.trimChars " url( '#long') red".toList = 'u' :: 'r' :: 'l' :: '(' :: " '#long') red".toList := by
    decide +kernel
  have referenced : (AttributeValue.property (.paint (.ofText " url( '#long') red"))).referencedId? = some "long" := by
    decide +kernel
  have agree := @readers_agree (fun s => .property (.paint (.ofText s))) (.inr rfl) _ _ _ function referenced
  have plain : IsPlainlySpelled " url( '#long') red" "long" := by
    refine ⟨by decide +kernel, ?_⟩
    unfold ReferenceSpan.IsOpen
    exact List.all_iff_forall_prop.mp (by decide)
  rcases agree.2.1 plain with ⟨ids, renames⟩
  rcases renames "a" (by decide) with ⟨new, changed, refers⟩
  have text : renameIn? (only "long" "a") " url( '#long') red" = some " url( '#a') red" := by decide +kernel
  exact ⟨ids, new, changed, Option.some.inj (changed.symm.trans text), refers⟩

/-- A tab before the number sign, or a blank in a quoted id, is nothing to the strict reader,
and the loose one finds no reference, or another one. -/
theorem tab_hides_the_id :
    (AttributeValue.property (.url (.ofText "url(\t#a)"))).referencedId? = some "a" ∧ idsIn "url(\t#a)" = [] ∧
      renameIn? (only "a" "b") "url(\t#a)" = Option.none ∧
      (AttributeValue.property (.paint (.ofText "url('#a b')"))).referencedId? = some "a b" ∧
      idsIn "url('#a b')" = ["a"] := by
  decide +kernel

end Reference

end SlimSvg
