import SlimSvg.Proofs.Lookup
import SlimSvg.Proofs.Text.Trim
import SlimSvg.Value.Reference

namespace SlimSvg

/-!
# Exchanged ids are found again

The loose reader goes on at another place after an external reference, after an empty id
and after one that is not ended, and a new id of another length moves everything behind
it.  Still a text with exchanged ids is cut where the old one was cut: an id is read
between a number sign and a character that ends it, both of which stay, and a new id
holds no such character.  So exchanging ids by two maps, one after the other, is
exchanging them once.
-/

namespace ReferenceSpan

/-! ## How a text is cut -/

section Cut

variable {lead name after rest : List Char}

/-- Whether a text goes on with a character that ends an id. -/
def EndsFront (after : List Char) : Prop :=
  ∃ c ∈ after.head?, endsId c = true

/-- Whether nothing in a text ends an id. -/
def IsOpen (cs : List Char) : Prop :=
  ∀ c ∈ cs, endsId c = false

/-- The piece of an id, unless the id is empty. -/
def ofName (name : List Char) : List ReferenceSpan :=
  if name.isEmpty then [] else [id name]

theorem join_ofName (name : List Char) : join (ofName name) = name := by
  cases name with
  | nil => rfl
  | cons c cs => exact List.append_nil _

theorem takeWhile_of_open (inside : IsOpen name) (closed : EndsFront after) :
    (name ++ after).takeWhile (!endsId ·) = name := by
  rcases closed with ⟨c, first, ends⟩
  rcases List.head?_eq_some_iff.mp first with ⟨cs, rfl⟩
  rw [List.takeWhile_append_of_pos fun d listed => by rw [inside d listed]; rfl,
    List.takeWhile_cons_of_neg (by rw [ends]; decide), List.append_nil]

theorem dropWhile_of_open (inside : IsOpen name) (closed : EndsFront after) :
    (name ++ after).dropWhile (!endsId ·) = after := by
  apply Text.dropWhile_append_of_all
  · exact fun c listed => by rw [inside c listed]; rfl
  · rcases closed with ⟨c, first, ends⟩
    intro d other
    rw [Option.mem_unique other first, ends]
    rfl

/-- A reference with its id ended; the id may be empty. -/
theorem cut_reference (blank : ∀ c ∈ lead, isLead c = true) (inside : IsOpen name) (closed : EndsFront after) :
    cut ('u' :: 'r' :: 'l' :: '(' :: (lead ++ '#' :: (name ++ after))) =
      plain ('u' :: 'r' :: 'l' :: '(' :: lead ++ ['#']) :: (ofName name ++ cut after) := by
  have notLead : ∀ c ∈ ('#' :: (name ++ after)).head?, isLead c = false := by
    rintro c ⟨⟩
    rfl
  have taken : (lead ++ '#' :: (name ++ after)).takeWhile isLead = lead := by
    rw [List.takeWhile_append_of_pos blank, List.takeWhile_cons_of_neg (by decide), List.append_nil]
  have dropped : (lead ++ '#' :: (name ++ after)).dropWhile isLead = '#' :: (name ++ after) :=
    Text.dropWhile_append_of_all blank notLead
  have nonempty : after.isEmpty = false := by
    rcases closed with ⟨c, first, -⟩
    rcases List.head?_eq_some_iff.mp first with ⟨cs, rfl⟩
    rfl
  rw [cut]
  split
  · next tail found =>
    obtain rfl : name ++ after = tail := (List.cons.inj (dropped.symm.trans found)).2
    dsimp only
    rw [taken, takeWhile_of_open inside closed, dropWhile_of_open inside closed, nonempty, ofName]
    cases name.isEmpty <;> rfl
  · next other => exact absurd dropped (other _)

/-- What begins like a reference and is none. -/
theorem cut_unclosed (unclosed : ∀ tail, rest.dropWhile isLead = '#' :: tail → IsOpen tail) :
    cut ('u' :: 'r' :: 'l' :: '(' :: rest) = plain ['u', 'r', 'l', '('] :: cut rest := by
  rw [cut]
  split
  · next tail found =>
    have nothing : (tail.dropWhile (!endsId ·)).isEmpty = true := by
      rw [List.isEmpty_iff, List.dropWhile_eq_nil_iff]
      exact fun c listed => by rw [unclosed tail found c listed]; rfl
    dsimp only
    rw [nothing]
    rfl
  · rfl

/-- A character at which no reference begins. -/
theorem cut_other {c : Char} {cs : List Char}
    (other : ∀ rest, c = 'u' → cs = 'r' :: 'l' :: '(' :: rest → False) : cut (c :: cs) = plain [c] :: cut cs := by
  rw [cut]
  exact other

/-- The ways in which a text is cut: at a reference, at what only begins like one, and at
any other character. -/
@[elab_as_elim]
theorem cut_induction {motive : List Char → Prop} (nil : motive [])
    (reference : ∀ lead name after, (∀ c ∈ lead, isLead c = true) → IsOpen name → EndsFront after →
      motive after → motive ('u' :: 'r' :: 'l' :: '(' :: (lead ++ '#' :: (name ++ after))))
    (unclosed : ∀ rest, (∀ tail, rest.dropWhile isLead = '#' :: tail → IsOpen tail) →
      motive rest → motive ('u' :: 'r' :: 'l' :: '(' :: rest))
    (other : ∀ c cs, (∀ rest, c = 'u' → cs = 'r' :: 'l' :: '(' :: rest → False) →
      motive cs → motive (c :: cs)) (cs : List Char) : motive cs := by
  have ended {rest tail : List Char} (found : rest.dropWhile isLead = '#' :: tail)
      (more : ¬ (tail.dropWhile (!endsId ·)).isEmpty = true) (later : motive (tail.dropWhile (!endsId ·))) :
      motive ('u' :: 'r' :: 'l' :: '(' :: rest) := by
    have split : rest = rest.takeWhile isLead ++
        '#' :: (tail.takeWhile (!endsId ·) ++ tail.dropWhile (!endsId ·)) := by
      rw [List.takeWhile_append_dropWhile, ← found, List.takeWhile_append_dropWhile]
    have closed : EndsFront (tail.dropWhile (!endsId ·)) := by
      have first := List.head?_dropWhile_not (!endsId ·) tail
      cases behind : tail.dropWhile (!endsId ·) with
      | nil => exact absurd (List.isEmpty_iff.mpr behind) more
      | cons c cs =>
          rw [behind] at first
          exact ⟨c, rfl, (Bool.not_eq_false' _).mp first⟩
    rw [split]
    exact reference _ _ _ (fun c listed => List.mem_takeWhile_imp listed)
      (fun c listed => by simpa using List.mem_takeWhile_imp listed) closed later
  fun_induction cut cs with
  | case1 => exact nil
  | case2 rest tail found after none inductionHypothesis =>
      refine unclosed rest ?_ inductionHypothesis
      intro other same
      obtain rfl := (List.cons.inj (found.symm.trans same)).2
      have all := List.dropWhile_eq_nil_iff.mp (List.isEmpty_iff.mp none)
      exact fun c listed => (Bool.not_eq_true' _).mp (all c listed)
  | case3 rest lead tail found name after more none inductionHypothesis => exact ended found more inductionHypothesis
  | case4 rest lead tail found name after more some inductionHypothesis => exact ended found more inductionHypothesis
  | case5 rest external inductionHypothesis =>
      exact unclosed rest (fun tail same => absurd same (external tail)) inductionHypothesis
  | case6 c cs away inductionHypothesis => exact other c cs away inductionHypothesis

end Cut

theorem join_cons (span : ReferenceSpan) (spans : List ReferenceSpan) :
    join (span :: spans) = join [span] ++ join spans := by
  rw [join, join, join, List.flatMap_cons, List.flatMap_cons, List.flatMap_nil, List.append_nil]

theorem join_append (first second : List ReferenceSpan) : join (first ++ second) = join first ++ join second :=
  List.flatMap_append

/-- The pieces of a text are the text. -/
theorem join_cut (cs : List Char) : join (cut cs) = cs := by
  induction cs using cut_induction with
  | nil => rw [cut]; rfl
  | reference lead name after blank inside closed inductionHypothesis =>
      rw [cut_reference blank inside closed, join_cons, join_append, join_ofName, inductionHypothesis]
      simp [join]
  | unclosed rest unclosed inductionHypothesis =>
      rw [cut_unclosed unclosed, join_cons, inductionHypothesis]
      rfl
  | other c cs away inductionHypothesis =>
      rw [cut_other away, join_cons, inductionHypothesis]
      rfl

/-! ## How a text with exchanged ids is cut -/

section Renamed

variable {map : String → Option String}

/-- The text with the ids of its references exchanged. -/
def renamed (map : String → Option String) (cs : List Char) : List Char :=
  join ((cut cs).map (rename map))

/-- What stands in the place of an id, of which nothing is left to exchange if it is
empty. -/
def renamedName (map : String → Option String) (name : List Char) : List Char :=
  join ((ofName name).map (rename map))

theorem renamed_nil (map : String → Option String) : renamed map [] = [] := by
  rw [renamed, cut]
  rfl

theorem renamed_reference {lead name after : List Char} (blank : ∀ c ∈ lead, isLead c = true) (inside : IsOpen name)
    (closed : EndsFront after) :
    renamed map ('u' :: 'r' :: 'l' :: '(' :: (lead ++ '#' :: (name ++ after))) =
      'u' :: 'r' :: 'l' :: '(' :: (lead ++ '#' :: (renamedName map name ++ renamed map after)) := by
  rw [renamed, cut_reference blank inside closed, List.map_cons, List.map_append, join_cons, join_append,
    ← renamedName, ← renamed]
  simp [rename, join]

theorem renamed_unclosed {rest : List Char}
    (unclosed : ∀ tail, rest.dropWhile isLead = '#' :: tail → IsOpen tail) :
    renamed map ('u' :: 'r' :: 'l' :: '(' :: rest) = 'u' :: 'r' :: 'l' :: '(' :: renamed map rest := by
  rw [renamed, cut_unclosed unclosed, List.map_cons, join_cons]
  rfl

theorem renamed_other {c : Char} {cs : List Char}
    (other : ∀ rest, c = 'u' → cs = 'r' :: 'l' :: '(' :: rest → False) :
    renamed map (c :: cs) = c :: renamed map cs := by
  rw [renamed, cut_other other, List.map_cons, join_cons]
  rfl

theorem renamed_append {front : List Char} (away : ∀ c ∈ front, c ≠ 'u') (cs : List Char) :
    renamed map (front ++ cs) = front ++ renamed map cs := by
  induction front with
  | nil => rfl
  | cons c front inductionHypothesis =>
      rw [List.cons_append, renamed_other fun _ same _ => away c List.mem_cons_self same,
        inductionHypothesis fun d listed => away d (List.mem_cons_of_mem c listed), List.cons_append]

/-- No text begins with an id. -/
theorem head?_renamed (map : String → Option String) (cs : List Char) : (renamed map cs).head? = cs.head? := by
  induction cs using cut_induction with
  | nil => rw [renamed_nil]
  | reference lead name after blank inside closed => rw [renamed_reference blank inside closed]; rfl
  | unclosed rest unclosed => rw [renamed_unclosed unclosed]; rfl
  | other c cs away => rw [renamed_other away]; rfl

/-- Where nothing ends an id there is none. -/
theorem renamed_of_open {cs : List Char} (opened : IsOpen cs) : renamed map cs = cs := by
  induction cs using cut_induction with
  | nil => rw [renamed_nil]
  | reference lead name after blank inside closed =>
      rcases closed with ⟨c, first, ends⟩
      have listed : c ∈ 'u' :: 'r' :: 'l' :: '(' :: (lead ++ '#' :: (name ++ after)) := by
        have behind := List.mem_of_mem_head? first
        simp [behind]
      rw [opened c listed] at ends
      cases ends
  | unclosed rest unclosed inductionHypothesis =>
      rw [renamed_unclosed unclosed, inductionHypothesis]
      intro c listed
      exact opened c (by simp [listed])
  | other c cs away inductionHypothesis =>
      rw [renamed_other away, inductionHypothesis fun d listed => opened d (List.mem_cons_of_mem c listed)]

/-- Whether every new id can be read as one: it is not empty and holds nothing that ends an
id. -/
def GivesNames (map : String → Option String) : Prop :=
  ∀ id new, map id = some new → new.toList ≠ [] ∧ IsOpen new.toList

theorem renamedName_cons (map : String → Option String) (c : Char) (cs : List Char) :
    renamedName map (c :: cs) = (map (String.ofList (c :: cs))).elim (c :: cs) String.toList := by
  change join [rename map (id (c :: cs))] = _
  rw [rename]
  cases map (String.ofList (c :: cs)) with
  | none => exact List.append_nil _
  | some new => exact List.append_nil _

/-- The new id is one piece as the old one was. -/
theorem ofName_renamedName (names : GivesNames map) (name : List Char) :
    ofName (renamedName map name) = (ofName name).map (rename map) := by
  cases name with
  | nil => rfl
  | cons c cs =>
      change _ = [rename map (id (c :: cs))]
      rw [renamedName_cons, rename]
      cases given : map (String.ofList (c :: cs)) with
      | none => rfl
      | some new =>
          have nonempty : ¬ new.toList.isEmpty = true :=
            fun empty => (names _ _ given).1 (List.isEmpty_iff.mp empty)
          exact if_neg nonempty

theorem isOpen_renamedName (names : GivesNames map) {name : List Char} (inside : IsOpen name) :
    IsOpen (renamedName map name) := by
  cases name with
  | nil => exact inside
  | cons c cs =>
      rw [renamedName_cons]
      cases given : map (String.ofList (c :: cs)) with
      | none => exact inside
      | some new => exact (names _ _ given).2

theorem endsFront_renamed {after : List Char} (closed : EndsFront after) : EndsFront (renamed map after) := by
  rw [EndsFront, head?_renamed]
  exact closed

/-- What begins like a reference and is none does not become one, since up to the number
sign nothing is exchanged. -/
theorem unclosed_renamed {rest : List Char}
    (unclosed : ∀ tail, rest.dropWhile isLead = '#' :: tail → IsOpen tail) :
    ∀ tail, (renamed map rest).dropWhile isLead = '#' :: tail → IsOpen tail := by
  intro tail found
  have blank : ∀ c ∈ rest.takeWhile isLead, isLead c = true := fun c listed => List.mem_takeWhile_imp listed
  have away : ∀ c ∈ rest.takeWhile isLead, c ≠ 'u' := by
    rintro c listed rfl
    exact absurd (blank _ listed) (by decide)
  have solid : ∀ c ∈ (renamed map (rest.dropWhile isLead)).head?, isLead c = false := by
    intro c first
    rw [head?_renamed] at first
    have stop := List.head?_dropWhile_not isLead rest
    rw [first] at stop
    exact stop
  rw [← List.takeWhile_append_dropWhile (p := isLead) (l := rest), renamed_append away,
    Text.dropWhile_append_of_all blank solid] at found
  have first := head?_renamed map (rest.dropWhile isLead)
  rw [found, List.head?_cons] at first
  rcases List.head?_eq_some_iff.mp first.symm with ⟨old, split⟩
  have opened := unclosed old split
  rw [split, renamed_other (fun _ impossible _ => absurd impossible (by decide)), renamed_of_open opened] at found
  exact (List.cons.inj found).2 ▸ opened

theorem other_renamed {c : Char} {cs : List Char}
    (other : ∀ rest, c = 'u' → cs = 'r' :: 'l' :: '(' :: rest → False) :
    ∀ rest, c = 'u' → renamed map cs = 'r' :: 'l' :: '(' :: rest → False := by
  intro rest isU begins
  -- One character after the other is the old one, since none of the three begins a reference.
  have step {d : Char} {old new : List Char} (away : d ≠ 'u') (begins : renamed map old = d :: new) :
      ∃ more, old = d :: more ∧ renamed map more = new := by
    have first := head?_renamed map old
    rw [begins, List.head?_cons] at first
    rcases List.head?_eq_some_iff.mp first.symm with ⟨more, rfl⟩
    rw [renamed_other fun _ same _ => away same] at begins
    exact ⟨more, rfl, (List.cons.inj begins).2⟩
  rcases step (by decide) begins with ⟨second, rfl, secondBegins⟩
  rcases step (by decide) secondBegins with ⟨third, rfl, thirdBegins⟩
  rcases step (by decide) thirdBegins with ⟨fourth, rfl, -⟩
  exact other fourth isU rfl

/-- A text with exchanged ids is cut into the old pieces with exchanged ids. -/
theorem cut_renamed (names : GivesNames map) (cs : List Char) : cut (renamed map cs) = (cut cs).map (rename map) := by
  induction cs using cut_induction with
  | nil => rw [renamed_nil, cut]; rfl
  | reference lead name after blank inside closed inductionHypothesis =>
      rw [renamed_reference blank inside closed,
        cut_reference blank (isOpen_renamedName names inside) (endsFront_renamed closed), inductionHypothesis,
        ofName_renamedName names, cut_reference blank inside closed, List.map_cons, List.map_append]
      rfl
  | unclosed rest unclosed inductionHypothesis =>
      rw [renamed_unclosed unclosed, cut_unclosed (unclosed_renamed unclosed), inductionHypothesis,
        cut_unclosed unclosed, List.map_cons]
      rfl
  | other c cs away inductionHypothesis =>
      rw [renamed_other away, cut_other (other_renamed away), inductionHypothesis, cut_other away, List.map_cons]
      rfl

end Renamed

/-! ## Pieces exchanged one after the other -/

/-- What becomes of an id by one map and then by another one. -/
def followedBy (first second : String → Option String) (id : String) : Option String :=
  (second ((first id).getD id)).or (first id)

theorem rename_rename (first second : String → Option String) (span : ReferenceSpan) :
    rename second (rename first span) = rename (followedBy first second) span := by
  cases span with
  | plain text => rfl
  | id name =>
      rw [rename, rename, followedBy]
      cases first (String.ofList name) with
      | none =>
          change rename second (id name) = _
          rw [rename, Option.getD_none]
          cases second (String.ofList name) <;> rfl
      | some new =>
          change rename second (id new.toList) = _
          rw [rename, String.ofList_toList, Option.getD_some]
          cases second new <;> rfl

theorem rename_eq_self {map : String → Option String} {span : ReferenceSpan}
    (unknown : ∀ id ∈ name? span, map id = none) : rename map span = span := by
  cases span with
  | plain text => rfl
  | id name => rw [rename, unknown (String.ofList name) rfl]

/-- A text exchanged by one map and then by another one is exchanged by both. -/
theorem renamed_renamed {first : String → Option String} (names : GivesNames first)
    (second : String → Option String) (cs : List Char) :
    renamed second (renamed first cs) = renamed (followedBy first second) cs := by
  rw [renamed, cut_renamed names, List.map_map]
  exact congrArg (fun f => join ((cut cs).map f)) (funext (rename_rename first second))

theorem name?_rename (map : String → Option String) (span : ReferenceSpan) :
    name? (rename map span) = (name? span).map fun id => (map id).getD id := by
  cases span with
  | plain text => rfl
  | id name =>
      rw [rename, name?, Option.map_some]
      cases map (String.ofList name) with
      | none => rfl
      | some new => exact congrArg some String.ofList_toList

/-- Exchange the ids of some pieces, asking for each of them in its turn what becomes of it,
and say whether one was exchanged.  What asking does besides is left open. -/
def exchange {m : Type → Type} [Monad m] (ask : String → m (Option String)) :
    List ReferenceSpan → m (List ReferenceSpan × Bool)
  | [] => return ([], false)
  | plain text :: rest => do
    let (others, changed) ← exchange ask rest
    return (plain text :: others, changed)
  | id name :: rest => do
    let answer ← ask (String.ofList name)
    let (others, changed) ← exchange ask rest
    match answer with
    | some new => return (id new.toList :: others, true)
    | none => return (id name :: others, changed)

/-- A map that notes what it is asked. -/
def noting (map : String → Option String) (id : String) : StateM (List String) (Option String) := do
  modify fun asked => asked ++ [id]
  return map id

theorem run_exchange_noting (map : String → Option String) (spans : List ReferenceSpan) (asked : List String) :
    (exchange (noting map) spans).run asked =
      ((spans.map (rename map), (spans.filterMap name?).any fun id => (map id).isSome),
        asked ++ spans.filterMap name?) := by
  induction spans generalizing asked with
  | nil => exact congrArg (Prod.mk _) (List.append_nil asked).symm
  | cons span rest inductionHypothesis =>
      cases span with
      | plain text =>
          rw [exchange, StateT.run_bind, inductionHypothesis]
          rfl
      | id name =>
          have noted : (noting map (String.ofList name)).run asked =
              (map (String.ofList name), asked ++ [String.ofList name]) := rfl
          rw [exchange, StateT.run_bind, noted]
          change StateT.run (exchange (noting map) rest >>= _) (asked ++ [String.ofList name]) = _
          have listed : (id name :: rest).filterMap name? = String.ofList name :: rest.filterMap name? := rfl
          rw [StateT.run_bind, inductionHypothesis, List.append_assoc, List.map_cons, rename, listed, List.any_cons]
          cases map (String.ofList name) <;> rfl

end ReferenceSpan

namespace Reference

open ReferenceSpan (followedBy noting)

/-! ## Texts with exchanged ids -/

/-- Whether a text is made of ASCII letters, as short names are. -/
def IsLettered (text : String) : Prop :=
  text.toList ≠ [] ∧ ∀ c ∈ text.toList, c.isAlpha = true

instance (text : String) : Decidable (IsLettered text) :=
  decidable_of_iff (text.toList.isEmpty = false ∧ text.toList.all (·.isAlpha) = true) (by
    rw [List.isEmpty_eq_false_iff, List.all_eq_true]
    rfl)

theorem not_isWhiteSpace_of_isAlpha {c : Char} (letter : c.isAlpha = true) : Text.isWhiteSpace c = false := by
  have code : 65 ≤ c.toNat ∧ c.toNat ≤ 90 ∨ 97 ≤ c.toNat ∧ c.toNat ≤ 122 := by
    have either : (decide ('A'.val ≤ c.val ∧ c.val ≤ 'Z'.val) ||
        (decide ('a'.val ≤ c.val) && decide (c.val ≤ 'z'.val))) = true := letter
    rw [Bool.or_eq_true, Bool.and_eq_true, decide_eq_true_eq, decide_eq_true_eq, decide_eq_true_eq] at either
    exact either
  rw [Bool.eq_false_iff]
  intro blank
  simp only [Text.isWhiteSpace, Bool.or_eq_true, Bool.and_eq_true, decide_eq_true_eq, beq_iff_eq] at blank
  omega

theorem not_endsId_of_isAlpha {c : Char} (letter : c.isAlpha = true) : ReferenceSpan.endsId c = false := by
  rw [Bool.eq_false_iff]
  intro ends
  simp only [ReferenceSpan.endsId, not_isWhiteSpace_of_isAlpha letter, Bool.or_false, Bool.or_eq_true,
    beq_iff_eq] at ends
  rcases ends with (rfl | rfl) | rfl <;> cases letter

theorem givesNames_of_isLettered {map : String → Option String}
    (lettered : ∀ id new, map id = some new → IsLettered new) : ReferenceSpan.GivesNames map :=
  fun id new given =>
    ⟨(lettered id new given).1, fun c listed => not_endsId_of_isAlpha ((lettered id new given).2 c listed)⟩

/-- The renaming of a text as questions: what becomes of each id is asked in its turn. -/
def renameAsking {m : Type → Type} [Monad m] (ask : String → m (Option String)) (s : String) :
    m (Option String) := do
  let (spans, changed) ← ReferenceSpan.exchange ask (ReferenceSpan.cut s.toList)
  return if changed then some (String.ofList (ReferenceSpan.join spans)) else Option.none

section Rename

variable {map : String → Option String} {s new : String}

theorem run_renameAsking_noting (map : String → Option String) (s : String) :
    (renameAsking (noting map) s).run [] = (renameIn? map s, idsIn s) := by
  rw [renameAsking, StateT.run_bind, ReferenceSpan.run_exchange_noting]
  rfl

theorem renameIn?_eq_none_iff : renameIn? map s = Option.none ↔ ∀ id ∈ idsIn s, map id = Option.none := by
  rw [renameIn?]
  split
  · next known =>
    rcases List.any_eq_true.mp known with ⟨id, listed, given⟩
    refine iff_of_false (fun impossible => nomatch impossible) fun unknown => ?_
    rw [unknown id listed] at given
    cases given
  · next unknown =>
    rw [Bool.not_eq_true, List.any_eq_false] at unknown
    exact iff_of_true rfl fun id listed => Option.not_isSome_iff_eq_none.mp (unknown id listed)

theorem toList_of_renameIn? (changed : renameIn? map s = some new) :
    new.toList = ReferenceSpan.renamed map s.toList := by
  rw [renameIn?] at changed
  split at changed
  · rw [← Option.some.inj changed, String.toList_ofList]
    rfl
  · cases changed

/-- Ids that the map does not know stay. -/
theorem toList_getD_renameIn? (map : String → Option String) (s : String) :
    ((renameIn? map s).getD s).toList = ReferenceSpan.renamed map s.toList := by
  cases changed : renameIn? map s with
  | some new => exact toList_of_renameIn? changed
  | none =>
      have known := renameIn?_eq_none_iff.mp changed
      have same : (ReferenceSpan.cut s.toList).map (ReferenceSpan.rename map) = ReferenceSpan.cut s.toList := by
        refine (List.map_congr_left fun span listed => ?_).trans (List.map_id _)
        exact ReferenceSpan.rename_eq_self fun id named => known id (List.mem_filterMap.mpr ⟨span, listed, named⟩)
      rw [ReferenceSpan.renamed, same, ReferenceSpan.join_cut]
      rfl

/-- The ids of a text with exchanged ids are the exchanged ids. -/
theorem idsIn_of_toList (lettered : ∀ id new, map id = some new → IsLettered new)
    (exchanged : new.toList = ReferenceSpan.renamed map s.toList) :
    idsIn new = (idsIn s).map fun id => (map id).getD id := by
  rw [idsIn, exchanged, ReferenceSpan.cut_renamed (givesNames_of_isLettered lettered), List.filterMap_map, idsIn,
    List.map_filterMap]
  exact congrArg (List.filterMap · _) (funext fun span => ReferenceSpan.name?_rename map span)

/-- Only what the map says of the ids in the text counts. -/
theorem renameIn?_congr {other : String → Option String} (same : ∀ id ∈ idsIn s, map id = other id) :
    renameIn? map s = renameIn? other s := by
  have spans : (ReferenceSpan.cut s.toList).map (ReferenceSpan.rename map) =
      (ReferenceSpan.cut s.toList).map (ReferenceSpan.rename other) := by
    refine List.map_congr_left fun span listed => ?_
    cases span with
    | plain text => rfl
    | id name =>
        rw [ReferenceSpan.rename, ReferenceSpan.rename, same _ (List.mem_filterMap.mpr ⟨_, listed, rfl⟩)]
  have known : ((idsIn s).any fun id => (map id).isSome) = (idsIn s).any fun id => (other id).isSome := by
    rw [Bool.eq_iff_iff, List.any_eq_true, List.any_eq_true]
    exact exists_congr fun id => and_congr_right fun listed => by rw [same id listed]
  rw [renameIn?, renameIn?, known, spans]

/-- Exchanging by one map and then by another one is exchanging by both. -/
theorem renameIn?_followedBy (lettered : ∀ id new, map id = some new → IsLettered new)
    (further : String → Option String) (s : String) :
    renameIn? (followedBy map further) s =
      (renameIn? further ((renameIn? map s).getD s)).or (renameIn? map s) := by
  cases changed : renameIn? map s with
  | none =>
      have unknown := renameIn?_eq_none_iff.mp changed
      refine (renameIn?_congr fun id listed => ?_).trans Option.or_none.symm
      rw [followedBy, unknown id listed]
      exact Option.or_none
  | some new =>
      have known : renameIn? (followedBy map further) s ≠ Option.none := by
        intro unknown
        have all := renameIn?_eq_none_iff.mp unknown
        have none : renameIn? map s = Option.none :=
          renameIn?_eq_none_iff.mpr fun id listed => (Option.or_eq_none_iff.mp (all id listed)).2
        rw [none] at changed
        cases changed
      rcases Option.ne_none_iff_exists'.mp known with ⟨both, exchanged⟩
      rw [exchanged, Option.getD_some]
      have text : both = (renameIn? further new).getD new := by
        apply String.toList_injective
        rw [toList_of_renameIn? exchanged, toList_getD_renameIn?, toList_of_renameIn? changed,
          ReferenceSpan.renamed_renamed (givesNames_of_isLettered lettered)]
      rw [text]
      cases renameIn? further new <;> rfl

/-- Exchanging ids is exact.  For every text and every map from ids to new ids made of
letters: the map is asked about the ids that the reader finds, in their order; nothing is
exchanged exactly if it knows none of them; otherwise the new text has the old pieces, in
which nothing but the known ids is another, and they are found there again.  What a second
map makes of that is what both maps together make of the old text. -/
theorem renameIn?_is_exact (lettered : ∀ id new, map id = some new → IsLettered new) (s : String) :
    (renameAsking (noting map) s).run [] = (renameIn? map s, idsIn s) ∧
    (renameIn? map s = Option.none ↔ ∀ id ∈ idsIn s, map id = Option.none) ∧
    (∀ new, renameIn? map s = some new →
      idsIn new = (idsIn s).map (fun id => (map id).getD id) ∧
      ReferenceSpan.join (ReferenceSpan.cut s.toList) = s.toList ∧
      ReferenceSpan.join (ReferenceSpan.cut new.toList) = new.toList ∧
      ReferenceSpan.cut new.toList = (ReferenceSpan.cut s.toList).map (ReferenceSpan.rename map)) ∧
    ∀ further, renameIn? (followedBy map further) s =
      (renameIn? further ((renameIn? map s).getD s)).or (renameIn? map s) := by
  refine ⟨run_renameAsking_noting map s, renameIn?_eq_none_iff, ?_, fun further =>
    renameIn?_followedBy lettered further s⟩
  intro new changed
  have exchanged := toList_of_renameIn? changed
  refine ⟨idsIn_of_toList lettered exchanged, ReferenceSpan.join_cut _, ReferenceSpan.join_cut _, ?_⟩
  rw [exchanged]
  exact ReferenceSpan.cut_renamed (givesNames_of_isLettered lettered) _

end Rename

theorem longer_id_is_found_again :
    let map := fun id => [("a", "abc"), ("b", "c")].lookup id
    let further := fun id => [("abc", "z")].lookup id
    let s := "url(x.png) url('#a')é url(#)url( #b) url(#d) url(#a"
    let new := "url(x.png) url('#abc')é url(#)url( #c) url(#d) url(#a"
    (∀ id new, map id = some new → IsLettered new) ∧
      (renameAsking (noting map) s).run [] = (some new, ["a", "b", "d"]) ∧
      idsIn new = ["abc", "c", "d"] ∧
      ReferenceSpan.cut new.toList = (ReferenceSpan.cut s.toList).map (ReferenceSpan.rename map) ∧
      renameIn? (followedBy map further) s = some "url(x.png) url('#z')é url(#)url( #c) url(#d) url(#a" := by
  intro map further s new
  have lettered : ∀ id new, map id = some new → IsLettered new := by
    intro id new given
    have all : ∀ entry ∈ [("a", "abc"), ("b", "c")], IsLettered entry.2 := by decide
    exact all (id, new) (mem_of_lookup_eq_some given)
  have changed : renameIn? map s = some new := by decide +kernel
  have listed : idsIn s = ["a", "b", "d"] := by decide +kernel
  have second : renameIn? further new = some "url(x.png) url('#z')é url(#)url( #c) url(#d) url(#a" := by
    decide +kernel
  rcases renameIn?_is_exact lettered s with ⟨asked, -, kept, composed⟩
  rcases kept new changed with ⟨ids, -, -, pieces⟩
  refine ⟨lettered, ?_, ?_, pieces, ?_⟩
  · rw [asked, changed, listed]
  · rw [ids, listed]
    rfl
  · rw [composed, changed, Option.getD_some, second]
    rfl

end Reference

end SlimSvg
