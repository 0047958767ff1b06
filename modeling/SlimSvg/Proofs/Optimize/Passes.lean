import SlimSvg.Optimize.Run
import SlimSvg.Proofs.Attempt

namespace SlimSvg
namespace Optimize

/-!
# What the pass loop returns

Passes are any functions from texts to texts that may fail.  The loop follows
them as long as each one makes the text shorter, and it ends either because no
pass is left or because the next pass would not have made the text shorter.
-/

section Loop

variable {ε : Type} {pass : Nat → String → Except ε String}

/-- Whether so many passes after `done` ones lead from a text to a text, each of
them making it shorter. -/
inductive Shrinks (pass : Nat → String → Except ε String) :
    (done count : Nat) → (first last : String) → Prop
  | none {done : Nat} {text : String} : Shrinks pass done 0 text text
  | more {done count : Nat} {first next last : String} (given : pass (done + 1) first = .ok next)
      (shorter : Text.size next < Text.size first) (rest : Shrinks pass (done + 1) count next last) :
    Shrinks pass done (count + 1) first last

namespace Shrinks

variable {done count : Nat} {first last : String}

theorem size_le (shrinks : Shrinks pass done count first last) :
    Text.size last ≤ Text.size first := by
  induction shrinks with
  | none => exact Nat.le_refl _
  | more _ shorter _ inductionHypothesis =>
      exact Nat.le_of_lt (Nat.lt_of_le_of_lt inductionHypothesis shorter)

theorem size_lt (shrinks : Shrinks pass done (count + 1) first last) :
    Text.size last < Text.size first := by
  cases shrinks with
  | more _ shorter rest => exact Nat.lt_of_le_of_lt rest.size_le shorter

theorem eq_of_none (shrinks : Shrinks pass done 0 first last) : last = first := by
  cases shrinks
  rfl

end Shrinks

/-- Why the loop stopped at a text after it had followed some of the passes that it
was given: there were no more of them, or the next one did not help. -/
inductive Stops (pass : Nat → String → Except ε String) (more done count : Nat) (out : Output) :
    Prop
  | used (all : count = more) (passes : out.passes = done + count)
  | grew {next : String} (early : count < more) (passes : out.passes = done + count + 1)
      (given : pass (done + count + 1) out.data = .ok next)
      (longer : Text.size out.data ≤ Text.size next)

/-- The loop succeeds exactly with the texts to which it shrinks and where it stops. -/
theorem improve_eq_ok_iff {more done : Nat} {best : String} {out : Output} :
    improve pass more done best = .ok out ↔
      ∃ count, Shrinks pass done count best out.data ∧ Stops pass more done count out := by
  induction more generalizing done best with
  | zero =>
      rw [improve, pure_eq_ok]
      constructor
      · intro same
        rw [← same]
        exact ⟨0, .none, .used rfl rfl⟩
      · rintro ⟨count, shrinks, stops⟩
        cases stops with
        | used all passes =>
            rw [all] at shrinks passes
            obtain ⟨data, number⟩ := out
            rw [show data = best from shrinks.eq_of_none, show number = done from passes]
        | grew early => exact absurd early (Nat.not_lt_zero _)
  | succ more inductionHypothesis =>
      rw [improve, bind_eq_ok]
      constructor
      · rintro ⟨next, given, rest⟩
        split at rest
        · next shorter =>
          obtain ⟨count, shrinks, stops⟩ := inductionHypothesis.mp rest
          refine ⟨count + 1, .more given shorter shrinks, ?_⟩
          cases stops with
          | used all passes => exact .used (by omega) (by omega)
          | grew early passes given longer =>
              have place : done + 1 + count + 1 = done + (count + 1) + 1 := by omega
              exact .grew (by omega) (by omega) (place ▸ given) longer
        · next longer =>
          rw [← pure_eq_ok.mp rest]
          exact ⟨0, .none, .grew more.succ_pos rfl given (Nat.le_of_not_lt longer)⟩
      · rintro ⟨count, shrinks, stops⟩
        cases shrinks with
        | none =>
            cases stops with
            | used all => cases all
            | grew early passes given longer =>
                refine ⟨_, given, ?_⟩
                rw [if_neg (Nat.not_lt_of_le longer), pure_eq_ok, ← show out.passes = done + 1 from passes]
        | more given shorter rest =>
            refine ⟨_, given, ?_⟩
            rw [if_pos shorter, inductionHypothesis]
            refine ⟨_, rest, ?_⟩
            cases stops with
            | used all passes => exact .used (by omega) (by omega)
            | @grew next early passes given longer =>
                refine .grew (by omega) (by omega) ?_ longer
                rw [← given]
                congr 1
                omega

/-- The passes run as a whole: the first one counts, whatever it does. -/
theorem runPasses_eq_ok_iff {wish : Nat} {text : String} {out : Output} :
    runPasses pass wish text = .ok out ↔
      ∃ first, pass 1 text = .ok first ∧
        ∃ count, Shrinks pass 1 count first out.data ∧
          Stops pass (clampPasses wish - 1) 1 count out := by
  rw [runPasses, bind_eq_ok]
  constructor
  · rintro ⟨first, given, rest⟩
    exact ⟨first, given, improve_eq_ok_iff.mp rest⟩
  · rintro ⟨first, given, rest⟩
    exact ⟨first, given, improve_eq_ok_iff.mpr rest⟩

theorem clampPasses_pos (wish : Nat) : 0 < clampPasses wish :=
  Nat.le_max_left 1 _

theorem Stops.count_le {more done count : Nat} {out : Output}
    (stops : Stops pass more done count out) : count ≤ more := by
  cases stops with
  | used all => exact Nat.le_of_eq all
  | grew early => exact Nat.le_of_lt early

/-- Where all passes do the same, they lead from a text back to it exactly if the
first one keeps it, or makes a longer text from which the others shrink back. -/
theorem exists_runPasses_iff {pass : String → Except ε String} {wish : Nat} {text : String} :
    (∃ out, runPasses (fun _ => pass) wish text = .ok out ∧ out.data = text) ↔
      pass text = .ok text ∨
        ∃ longer, pass text = .ok longer ∧ Text.size text < Text.size longer ∧
          ∃ count, count < clampPasses wish ∧
            Shrinks (fun _ => pass) 1 count longer text := by
  have positive := clampPasses_pos wish
  -- Behind a text that is kept or reached again, the next pass does not help.
  have returns : ∀ {first : String} {count : Nat}, pass text = .ok first →
      count < clampPasses wish → Shrinks (fun _ => pass) 1 count first text →
      ∃ out, runPasses (fun _ => pass) wish text = .ok out ∧ out.data = text := by
    intro first count given inside shrinks
    rcases Nat.lt_or_eq_of_le (Nat.le_sub_one_of_lt inside) with early | all
    · exact ⟨⟨text, 1 + count + 1⟩, runPasses_eq_ok_iff.mpr
        ⟨first, given, count, shrinks, .grew early rfl given shrinks.size_le⟩, rfl⟩
    · exact ⟨⟨text, 1 + count⟩, runPasses_eq_ok_iff.mpr
        ⟨first, given, count, shrinks, .used all rfl⟩, rfl⟩
  constructor
  · rintro ⟨out, ran, same⟩
    obtain ⟨first, given, count, shrinks, stops⟩ := runPasses_eq_ok_iff.mp ran
    rw [same] at shrinks
    cases count with
    | zero =>
        rw [← shrinks.eq_of_none] at given
        exact Or.inl given
    | succ count =>
        have inside := stops.count_le
        exact Or.inr ⟨first, given, shrinks.size_lt, count + 1, by omega, shrinks⟩
  · rintro (kept | ⟨longer, given, -, count, inside, shrinks⟩)
    · exact returns kept positive .none
    · exact returns given inside shrinks

/-! ## Failure -/

/-- Whether the loop comes to begin a pass with a text.  Every pass but the first one is
begun with what the pass before it gave; from the third one on that text is shorter. -/
inductive Begins (pass : Nat → String → Except ε String) (wish : Nat) (text : String) :
    Nat → String → Prop
  | first : Begins pass wish text 1 text
  | second {next : String} (given : pass 1 text = .ok next) (allowed : 1 < clampPasses wish) :
    Begins pass wish text 2 next
  | later {done : Nat} {best next : String} (begun : Begins pass wish text (done + 2) best)
      (given : pass (done + 2) best = .ok next) (shorter : Text.size next < Text.size best)
      (allowed : done + 2 < clampPasses wish) : Begins pass wish text (done + 3) next

/-- Behind the first pass the loop goes on from where it is. -/
theorem Begins.runPasses_eq {wish number : Nat} {text best : String}
    (begun : Begins pass wish text number best) :
    ∀ {done : Nat}, number = done + 2 → ∃ more, clampPasses wish = done + 2 + more ∧
      runPasses pass wish text = improve pass (more + 1) (done + 1) best := by
  induction begun with
  | first => nofun
  | @second next given allowed =>
      rintro done ⟨⟩
      refine ⟨clampPasses wish - 2, by omega, ?_⟩
      rw [runPasses, given]
      change improve pass (clampPasses wish - 1) 1 next = _
      congr 1
      omega
  | @later done best next _ given shorter allowed inductionHypothesis =>
      rintro _ ⟨⟩
      rcases inductionHypothesis rfl with ⟨more, bound, same⟩
      refine ⟨more - 1, by omega, ?_⟩
      rw [same, improve, given]
      change (if Text.size next < Text.size best then improve pass more (done + 2) next
        else pure ⟨best, done + 2⟩) = _
      rw [if_pos shorter]
      congr 1
      omega

/-- The loop fails exactly if a pass that it begins fails. -/
theorem runPasses_eq_error_iff {wish : Nat} {text : String} {e : ε} :
    runPasses pass wish text = .error e ↔
      ∃ number begun, Begins pass wish text number begun ∧ pass number begun = .error e := by
  constructor
  · have further : ∀ (more done : Nat) (best : String), clampPasses wish = done + 1 + more →
        (0 < more → Begins pass wish text (done + 2) best) → improve pass more (done + 1) best = .error e →
          ∃ number begun, Begins pass wish text number begun ∧ pass number begun = .error e := by
      intro more
      induction more with
      | zero => nofun
      | succ more inductionHypothesis =>
          intro done best bound begun failed
          have here := begun more.succ_pos
          rw [improve] at failed
          cases given : pass (done + 1 + 1) best with
          | error other =>
              rw [given] at failed
              cases failed
              exact ⟨done + 2, best, here, given⟩
          | ok next =>
              rw [given] at failed
              change (if Text.size next < Text.size best then improve pass more (done + 1 + 1) next
                else pure ⟨best, done + 1 + 1⟩) = .error e at failed
              split at failed
              · next shorter =>
                exact inductionHypothesis (done + 1) next (by omega)
                  (fun room => here.later given shorter (by omega)) failed
              · cases failed
    intro failed
    rw [runPasses] at failed
    cases given : pass 1 text with
    | error other =>
        rw [given] at failed
        cases failed
        exact ⟨1, text, .first, given⟩
    | ok next =>
        rw [given] at failed
        have positive := clampPasses_pos wish
        exact further (clampPasses wish - 1) 0 next (by omega) (fun room => .second given (by omega)) failed
  · rintro ⟨number, begun, begins, failed⟩
    have whole := begins
    cases begins with
    | first =>
        rw [runPasses, failed]
        rfl
    | second =>
        rcases whole.runPasses_eq rfl with ⟨more, -, same⟩
        rw [same, improve, failed]
        rfl
    | later =>
        rcases whole.runPasses_eq rfl with ⟨more, -, same⟩
        rw [same, improve, failed]
        rfl

end Loop

/-!
## Warnings change no result

Work hands a list of warnings on, but only ever writes to it.  What work results
in is therefore the same whatever warnings there are before, and a line of passes
has the result of the line of their results.
-/

namespace Work

variable {α β : Type}

/-- What work results in, warnings aside. -/
def result (w : Work α) : Except Failure α :=
  (w.run.run []).1

/-- Whether work results in the same whatever warnings there are before. -/
def Blind (w : Work α) : Prop :=
  ∀ warnings, (w.run.run warnings).1 = w.result

theorem blind_pure (a : α) : Blind (pure a : Work α) :=
  fun _ => rfl

theorem blind_throw (e : Failure) : Blind (throw e : Work α) :=
  fun _ => rfl

theorem blind_warn (warnings : List Warning) : Blind (warn warnings) :=
  fun _ => rfl

theorem run_bind (w : Work α) (next : α → Work β) (warnings : List Warning) :
    ((w >>= next).run.run warnings).1 =
      match w.run.run warnings with
      | (.ok a, after) => ((next a).run.run after).1
      | (.error e, _) => .error e := by
  change ((ExceptT.bindCont next (w.run.run warnings).1).run (w.run.run warnings).2).1 = _
  cases w.run.run warnings with
  | mk result after => cases result <;> rfl

theorem result_bind (w : Work α) {next : α → Work β} (nextBlind : ∀ a, (next a).Blind) :
    (w >>= next).result = w.result >>= fun a => (next a).result := by
  rw [result, run_bind, result]
  cases w.run.run [] with
  | mk first after =>
      cases first with
      | error e => rfl
      | ok a => exact nextBlind a after

theorem Blind.bind {w : Work α} {next : α → Work β} (blind : w.Blind)
    (nextBlind : ∀ a, (next a).Blind) : (w >>= next).Blind := by
  intro warnings
  have same := blind warnings
  rw [run_bind, result_bind w nextBlind, ← same]
  cases w.run.run warnings with
  | mk first after =>
      cases first with
      | error e => rfl
      | ok a => exact nextBlind a after

theorem blind_foldlM {step : β → α → Work β} (blind : ∀ b a, (step b a).Blind) (items : List α)
    (start : β) : (items.foldlM step start).Blind := by
  induction items generalizing start with
  | nil => exact blind_pure start
  | cons a rest inductionHypothesis =>
      rw [List.foldlM_cons]
      exact (blind start a).bind inductionHypothesis

end Work

/-! ### Steps and passes -/

theorem blind_runStep (pass : Nat) (path : Option String) (state : State) (step : Step) :
    (runStep pass path state step).Blind := by
  rw [runStep]
  split
  · exact Work.blind_pure state
  · split
    · exact Work.blind_throw _
    · exact (Work.blind_warn _).bind fun _ => Work.blind_pure _

theorem blind_runPass (config : Config) (steps : List Step) (pass : Nat) (text : String) :
    (runPass config steps pass text).Blind := by
  rw [runPass]
  split
  · exact Work.blind_throw _
  · refine (Work.blind_warn _).bind fun _ => ?_
    exact (Work.blind_foldlM (blind_runStep pass config.path) steps _).bind fun _ =>
      Work.blind_pure _

/-- The pass loop over work has the result of the pass loop over results. -/
theorem result_improve {pass : Nat → String → Work String} (blind : ∀ n text, (pass n text).Blind)
    (more done : Nat) (best : String) :
    (improve pass more done best).Blind ∧
      (improve pass more done best).result =
        improve (fun n text => (pass n text).result) more done best := by
  induction more generalizing done best with
  | zero => exact ⟨Work.blind_pure _, rfl⟩
  | succ more inductionHypothesis =>
      have nextBlind : ∀ text,
          (if Text.size text < Text.size best then improve pass more (done + 1) text
            else pure ⟨best, done + 1⟩ : Work Output).Blind := by
        intro text
        split
        · exact (inductionHypothesis (done + 1) text).1
        · exact Work.blind_pure _
      rw [improve]
      refine ⟨(blind (done + 1) best).bind nextBlind, ?_⟩
      rw [Work.result_bind _ nextBlind, improve]
      congr 1
      funext text
      split
      · exact (inductionHypothesis (done + 1) text).2
      · rfl

theorem result_runPasses {pass : Nat → String → Work String}
    (blind : ∀ n text, (pass n text).Blind) (wish : Nat) (text : String) :
    (runPasses pass wish text).result =
      runPasses (fun n text => (pass n text).result) wish text := by
  rw [runPasses, Work.result_bind _ fun first => (result_improve blind _ _ first).1, runPasses]
  congr 1
  funext first
  exact (result_improve blind _ _ first).2

/-- A configuration whose plugins are found runs its passes one after the other. -/
theorem result_run {config : Config} {steps : List Step} (found : config.steps = .ok steps)
    (text : String) :
    (run config text).1 =
      runPasses (fun pass text => (runPass config steps pass text).result) config.maxPasses
        text := by
  have worked : work config text = runPasses (runPass config steps) config.maxPasses text := by
    rw [work, found]
    rfl
  change (work config text).result = _
  rw [worked]
  exact result_runPasses (blind_runPass config steps) config.maxPasses text

end Optimize
end SlimSvg
