import SlimSvg.Proofs.Optimize.Passes

namespace SlimSvg
namespace Optimize

/-!
# The shortest text on the way

Each pass goes on from the text of the pass before it, so a loop is a walk along one
line of texts.  It stops at the first text that is not shorter than the one before it,
and the shortest text so far is then the last but one.  The first text is exempt: it is
compared with no other one.

That no pass is run behind that place cannot be seen from the result.  The loop works
with any steps, so it also runs with steps that write down when and with which text they
were begun.
-/

variable {ε : Type}

/-! ## The line of texts -/

section Line

variable (pass : Nat → String → Except ε String) (text : String)

/-- The text after so many passes, each of which goes on from the one before.  A pass that
fails gives no text and is passed over. -/
def textAfter : Nat → String
  | 0 => text
  | number + 1 =>
    match pass (number + 1) (textAfter number) with
    | .ok next => next
    | .error _ => textAfter number

/-- Whether so many passes succeed, and all of them but the first make the text shorter. -/
structure Descends (count : Nat) : Prop where
  given : ∀ number < count, pass (number + 1) (textAfter pass text number) = .ok (textAfter pass text (number + 1))
  shorter : ∀ number, 1 ≤ number → number < count →
    Text.size (textAfter pass text (number + 1)) < Text.size (textAfter pass text number)

end Line

section Walk

variable {pass : Nat → String → Except ε String} {text : String}

theorem textAfter_succ {number : Nat} {next : String}
    (given : pass (number + 1) (textAfter pass text number) = .ok next) :
    textAfter pass text (number + 1) = next := by
  rw [textAfter, given]

namespace Descends

variable {count : Nat}

theorem zero : Descends pass text 0 :=
  ⟨fun _ => nofun, fun _ _ => nofun⟩

theorem succ (descends : Descends pass text count)
    (given : pass (count + 1) (textAfter pass text count) = .ok (textAfter pass text (count + 1)))
    (shorter : 1 ≤ count →
      Text.size (textAfter pass text (count + 1)) < Text.size (textAfter pass text count)) :
    Descends pass text (count + 1) where
  given number inside := by
    rcases Nat.lt_or_eq_of_le (Nat.le_of_lt_succ inside) with earlier | last
    · exact descends.given number earlier
    · rw [last]
      exact given
  shorter number positive inside := by
    rcases Nat.lt_or_eq_of_le (Nat.le_of_lt_succ inside) with earlier | last
    · exact descends.shorter number positive earlier
    · rw [last]
      exact shorter (last ▸ positive)

theorem of_le (descends : Descends pass text count) {fewer : Nat} (le : fewer ≤ count) :
    Descends pass text fewer :=
  ⟨fun number inside => descends.given number (Nat.lt_of_lt_of_le inside le),
    fun number positive inside => descends.shorter number positive (Nat.lt_of_lt_of_le inside le)⟩

/-- The last text of a descent is the shortest one, the given text aside. -/
theorem size_le (descends : Descends pass text count) {number : Nat} (positive : 1 ≤ number)
    (inside : number ≤ count) :
    Text.size (textAfter pass text count) ≤ Text.size (textAfter pass text number) := by
  induction count with
  | zero => exact absurd (Nat.lt_of_lt_of_le positive inside) (Nat.lt_irrefl _)
  | succ count inductionHypothesis =>
      rcases Nat.lt_or_eq_of_le inside with earlier | last
      · have earlier := Nat.le_of_lt_succ earlier
        exact Nat.le_trans
          (Nat.le_of_lt (descends.shorter count (Nat.le_trans positive earlier) (Nat.lt_succ_self _)))
          (inductionHypothesis (descends.of_le (Nat.le_succ _)) earlier)
      · exact Nat.le_of_eq (by rw [last])

end Descends

/-- Following the loop is going down the line. -/
theorem Shrinks.descends {done count : Nat} {first last : String}
    (shrinks : Shrinks pass done count first last) (here : first = textAfter pass text done)
    (positive : 1 ≤ done) (before : Descends pass text done) :
    last = textAfter pass text (done + count) ∧ Descends pass text (done + count) := by
  induction shrinks with
  | none => exact ⟨here, before⟩
  | @more done count first next last given shorter _ inductionHypothesis =>
      rw [here] at given shorter
      have there := textAfter_succ given
      rw [← there] at given shorter
      have further := inductionHypothesis there.symm (Nat.le_succ_of_le positive)
        (before.succ given fun _ => shorter)
      rwa [Nat.add_right_comm, Nat.add_assoc] at further

/-- A pass is begun exactly if it is allowed and all passes before it went down the line. -/
theorem begins_succ_iff {wish number : Nat} {begun : String} :
    Begins pass wish text (number + 1) begun ↔
      begun = textAfter pass text number ∧ number < clampPasses wish ∧ Descends pass text number := by
  have positive := clampPasses_pos wish
  constructor
  · intro begins
    generalize same : number + 1 = place at begins
    induction begins generalizing number with
    | first =>
        cases same
        exact ⟨rfl, positive, .zero⟩
    | second given allowed =>
        cases same
        have there := @textAfter_succ _ pass text 0 _ given
        refine ⟨there.symm, allowed, Descends.zero.succ ?_ nofun⟩
        rw [there]
        exact given
    | later _ given shorter allowed inductionHypothesis =>
        cases same
        rcases inductionHypothesis rfl with ⟨here, -, descends⟩
        rw [here] at given shorter
        have there := textAfter_succ given
        rw [← there] at given shorter
        exact ⟨there.symm, allowed, descends.succ given fun _ => shorter⟩
  · rintro ⟨rfl, allowed, descends⟩
    induction number with
    | zero => exact .first
    | succ number inductionHypothesis =>
        have begins := inductionHypothesis (Nat.lt_of_succ_lt allowed) (descends.of_le (Nat.le_succ _))
        have given := descends.given number (Nat.lt_succ_self _)
        cases number with
        | zero => exact .second given allowed
        | succ number =>
            exact begins.later given (descends.shorter _ (Nat.le_add_left _ _) (Nat.lt_succ_self _)) allowed

end Walk

/-! ## The passes that are run -/

/-- A pass that writes down its number and the text with which it is begun. -/
def noted (pass : Nat → String → Except ε String) (number : Nat) (text : String) :
    ExceptT ε (StateM (List (Nat × String))) String := do
  modify (· ++ [(number, text)])
  pass number text

/-- The passes that a loop runs, in their order. -/
def passesRun (pass : Nat → String → Except ε String) (wish : Nat) (text : String) : List (Nat × String) :=
  ((runPasses (noted pass) wish text).run.run []).2

/-- Whether a pass fails for some reason and those before it, from some place on, do not. -/
structure FailsFirst (pass : Nat → String → Except ε String) (text : String) (done last : Nat) (e : ε) : Prop where
  failed : pass (last + 1) (textAfter pass text last) = .error e
  from_done : done ≤ last
  before : ∀ number, done ≤ number → number < last →
    pass (number + 1) (textAfter pass text number) = .ok (textAfter pass text (number + 1))

theorem FailsFirst.eq_of_descends {pass : Nat → String → Except ε String} {text : String} {last number : Nat}
    {e other : ε} (first : FailsFirst pass text 0 last e) (descends : Descends pass text number)
    (failed : pass (number + 1) (textAfter pass text number) = .error other) : last = number := by
  rcases Nat.lt_trichotomy last number with earlier | same | later
  · cases first.failed.symm.trans (descends.given last earlier)
  · exact same
  · cases failed.symm.trans (first.before number (Nat.zero_le _) later)

section Notes

variable (pass : Nat → String → Except ε String)

theorem run_noted_bind {α : Type} (number : Nat) (text : String)
    (next : String → ExceptT ε (StateM (List (Nat × String))) α) (notes : List (Nat × String)) :
    (noted pass number text >>= next).run.run notes =
      match pass number text with
      | .ok given => (next given).run.run (notes ++ [(number, text)])
      | .error e => (.error e, notes ++ [(number, text)]) := by
  cases given : pass number text with
  | ok result =>
      simp only [noted, given]
      rfl
  | error e =>
      simp only [noted, given]
      rfl

/-- What the loop writes down from some place on: the passes that it runs, one after the
other.  The last of them is counted by the result, or it is the one that fails. -/
theorem exists_notes_improve {text : String} (more done : Nat) (notes : List (Nat × String)) :
    ∃ count, (improve (noted pass) more done (textAfter pass text done)).run.run notes =
        (improve pass more done (textAfter pass text done),
          notes ++ (List.range' done count).map fun number => (number + 1, textAfter pass text number)) ∧
      match improve pass more done (textAfter pass text done) with
      | .ok out => out.passes = done + count
      | .error e => ∃ last, done + count = last + 1 ∧ FailsFirst pass text done last e := by
  induction more generalizing done notes with
  | zero => exact ⟨0, by simp [improve]; rfl, rfl⟩
  | succ more inductionHypothesis =>
      rw [improve, run_noted_bind, improve]
      cases given : pass (done + 1) (textAfter pass text done) with
      | error e => exact ⟨1, rfl, done, rfl, given, Nat.le_refl _, fun number from_ before => by omega⟩
      | ok next =>
          have there := textAfter_succ given
          dsimp only [bind, Except.bind]
          split
          · next shorter =>
            rcases inductionHypothesis (done + 1) (notes ++ [(done + 1, textAfter pass text done)]) with
              ⟨count, ran, ended⟩
            rw [there] at ran ended
            refine ⟨count + 1, ?_, ?_⟩
            · rw [ran, List.range'_succ, List.map_cons, List.append_assoc, List.singleton_append]
            · cases result : improve pass more (done + 1) next with
              | ok out =>
                  rw [result] at ended
                  exact ended.trans (Nat.succ_add_eq_add_succ done count)
              | error e =>
                  rw [result] at ended
                  rcases ended with ⟨last, countEq, first⟩
                  refine ⟨last, (Nat.succ_add_eq_add_succ done count).symm.trans countEq, first.failed,
                    Nat.le_of_succ_le first.from_done, ?_⟩
                  intro number reached before
                  rcases Nat.lt_or_eq_of_le reached with later | here
                  · exact first.before number later before
                  · rw [← here, there]
                    exact given
          · exact ⟨1, rfl, rfl⟩

/-- The passes that are run are the first ones, each with the text of the one before. -/
theorem exists_passesRun (wish : Nat) (text : String) :
    ∃ count, passesRun pass wish text =
        (List.range count).map (fun number => (number + 1, textAfter pass text number)) ∧
      match runPasses pass wish text with
      | .ok out => out.passes = count
      | .error e => ∃ last, count = last + 1 ∧ FailsFirst pass text 0 last e := by
  rw [passesRun, runPasses, run_noted_bind, runPasses]
  cases given : pass 1 text with
  | error e => exact ⟨1, rfl, 0, rfl, given, Nat.le_refl _, fun number _ before => absurd before (Nat.not_lt_zero number)⟩
  | ok first =>
      have there := @textAfter_succ _ pass text 0 _ given
      dsimp only [bind, Except.bind]
      rcases @exists_notes_improve _ pass text (clampPasses wish - 1) 1 ([] ++ [(1, text)]) with
        ⟨count, ran, ended⟩
      rw [there] at ran ended
      refine ⟨count + 1, ?_, ?_⟩
      · rw [ran, List.range_eq_range', List.range'_succ, List.map_cons]
        rfl
      · cases result : improve pass (clampPasses wish - 1) 1 first with
        | ok out =>
            rw [result] at ended
            exact ended.trans (Nat.add_comm 1 count)
        | error e =>
            rw [result] at ended
            rcases ended with ⟨last, countEq, first⟩
            refine ⟨last, (Nat.add_comm count 1).trans countEq, first.failed, Nat.zero_le _, ?_⟩
            intro number _ before
            cases number with
            | zero => exact given.trans (congrArg Except.ok there.symm)
            | succ number => exact first.before (number + 1) (Nat.le_add_left _ _) before

end Notes

/-! ## The loop -/

section Loop

variable {pass : Nat → String → Except ε String} {wish : Nat} {text : String}

/-- How a loop that succeeds has ended: the last pass that is allowed still made the text
shorter, or the last pass did not and its text is dropped. -/
theorem ended_of_runPasses {out : Output} (ran : runPasses pass wish text = .ok out) :
    (1 ≤ out.passes ∧ out.passes ≤ clampPasses wish) ∧
      Descends pass text (out.passes - 1) ∧
      pass out.passes (textAfter pass text (out.passes - 1)) = .ok (textAfter pass text out.passes) ∧
      ((out.passes = clampPasses wish ∧ out.data = textAfter pass text out.passes ∧
          Descends pass text out.passes) ∨
        (2 ≤ out.passes ∧ out.data = textAfter pass text (out.passes - 1) ∧
          Text.size out.data ≤ Text.size (textAfter pass text out.passes))) := by
  rcases runPasses_eq_ok_iff.mp ran with ⟨first, given, count, shrinks, stops⟩
  have there := @textAfter_succ _ pass text 0 _ given
  rw [← there] at given
  have begun : Descends pass text 1 := Descends.zero.succ given nofun
  rcases shrinks.descends there.symm (Nat.le_refl 1) begun with ⟨dataEq, descends⟩
  have positive := clampPasses_pos wish
  cases stops with
  | used all passes =>
      rw [passes]
      refine ⟨by omega, descends.of_le (Nat.sub_le _ _), ?_, Or.inl ⟨by omega, dataEq, descends⟩⟩
      have lastGiven := descends.given count (by omega)
      rwa [Nat.add_comm 1 count]
  | grew early passes given longer =>
      rw [dataEq] at given
      have last := textAfter_succ given
      rw [passes, Nat.add_sub_cancel, last]
      exact ⟨by omega, descends, given, Or.inr ⟨by omega, dataEq, longer⟩⟩

/-- The loop gives the shortest text that its passes gave.  Every pass that is run goes on
from the text of the pass before it.  From the second one on each pass makes the text
shorter, except for one pass that ends the loop and whose text is dropped; without such a
pass the loop runs as often as it may.  It fails exactly if a pass that is reached this way
fails, and then for the reason of that pass. -/
theorem runPasses_keeps_shortest (pass : Nat → String → Except ε String) (wish : Nat) (text : String) :
    (∀ out, runPasses pass wish text = .ok out →
      (1 ≤ out.passes ∧ out.passes ≤ max 1 (min wish 10)) ∧
      (∀ number < out.passes,
        pass (number + 1) (textAfter pass text number) = .ok (textAfter pass text (number + 1))) ∧
      (∀ number, 1 ≤ number → number + 1 < out.passes →
        Text.size (textAfter pass text (number + 1)) < Text.size (textAfter pass text number)) ∧
      ((out.passes = max 1 (min wish 10) ∧ out.data = textAfter pass text out.passes ∧
          (out.passes = 1 ∨
            Text.size (textAfter pass text out.passes) < Text.size (textAfter pass text (out.passes - 1)))) ∨
        (2 ≤ out.passes ∧ out.data = textAfter pass text (out.passes - 1) ∧
          Text.size (textAfter pass text (out.passes - 1)) ≤ Text.size (textAfter pass text out.passes))) ∧
      (∀ number, 1 ≤ number → number ≤ out.passes →
        Text.size out.data ≤ Text.size (textAfter pass text number)) ∧
      passesRun pass wish text =
        (List.range out.passes).map fun number => (number + 1, textAfter pass text number)) ∧
    ∀ e, runPasses pass wish text = .error e ↔
      ∃ number < max 1 (min wish 10),
        Descends pass text number ∧ pass (number + 1) (textAfter pass text number) = .error e ∧
          passesRun pass wish text =
            (List.range (number + 1)).map fun number => (number + 1, textAfter pass text number) := by
  rcases exists_passesRun pass wish text with ⟨count, notes, counted⟩
  constructor
  · intro out ran
    rcases ended_of_runPasses ran with ⟨bounds, before, given, ended⟩
    rw [ran] at counted
    refine ⟨bounds, ?_, ?_, ?_, ?_, counted ▸ notes⟩
    · intro number inside
      rcases Nat.lt_or_eq_of_le (Nat.le_sub_one_of_lt inside) with earlier | last
      · exact before.given number earlier
      · rw [last, Nat.sub_add_cancel bounds.1]
        exact given
    · exact fun number positive inside => before.shorter number positive (Nat.lt_sub_of_add_lt inside)
    · rcases ended with ⟨all, dataEq, descends⟩ | ⟨two, dataEq, longer⟩
      · refine Or.inl ⟨all, dataEq, ?_⟩
        rcases Nat.lt_or_eq_of_le bounds.1 with more | one
        · right
          have last := descends.shorter (out.passes - 1) (by omega) (by omega)
          rwa [Nat.sub_add_cancel bounds.1] at last
        · exact Or.inl one.symm
      · exact Or.inr ⟨two, dataEq, dataEq ▸ longer⟩
    · intro number positive inside
      rcases ended with ⟨-, dataEq, descends⟩ | ⟨-, dataEq, longer⟩
      · rw [dataEq]
        exact descends.size_le positive inside
      · rcases Nat.lt_or_eq_of_le inside with earlier | last
        · rw [dataEq]
          exact before.size_le positive (Nat.le_sub_one_of_lt earlier)
        · rw [last]
          exact longer
  · intro e
    rw [runPasses_eq_error_iff]
    constructor
    · rintro ⟨place, begun, begins, failed⟩
      cases place with
      | zero => cases begins
      | succ number =>
          have ran := runPasses_eq_error_iff.mpr ⟨number + 1, begun, begins, failed⟩
          rcases begins_succ_iff.mp begins with ⟨rfl, allowed, descends⟩
          refine ⟨number, allowed, descends, failed, ?_⟩
          rw [ran] at counted
          rcases counted with ⟨last, countEq, first⟩
          rw [notes, countEq, first.eq_of_descends descends failed]
    · rintro ⟨number, allowed, descends, failed, -⟩
      exact ⟨number + 1, _, begins_succ_iff.mpr ⟨rfl, allowed, descends⟩, failed⟩

end Loop

/-- The first text is longer than the given one, the second one is shorter, and the third
one ends the loop although seven passes were allowed. -/
theorem third_text_is_dropped :
    ∃ pass : Nat → String → Except String String,
      runPasses pass 7 "--" = .ok ⟨"-", 3⟩ ∧
        (∀ number, 1 ≤ number → number ≤ 3 → Text.size "-" ≤ Text.size (textAfter pass "--" number)) ∧
        passesRun pass 7 "--" = [(1, "--"), (2, "----"), (3, "-")] := by
  have ended := fun pass out => (@runPasses_keeps_shortest String pass 7 "--").1 out
  refine ⟨fun number _ => .ok (if number = 1 then "----" else if number = 2 then "-" else "---"), rfl, ?_, ?_⟩
  · exact (ended _ ⟨"-", 3⟩ rfl).2.2.2.2.1
  · exact (ended _ ⟨"-", 3⟩ rfl).2.2.2.2.2

end Optimize
end SlimSvg
