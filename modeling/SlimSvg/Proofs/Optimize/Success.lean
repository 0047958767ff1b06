import SlimSvg.Proofs.Optimize.Idempotence
import SlimSvg.Proofs.Tree.Layout
import SlimSvg.Proofs.Cleanup.Thrift

namespace SlimSvg
namespace Optimize

/-!
# When optimizing succeeds

The plugins that are known by name never fail, so a run fails only between two passes: a
pass has written a text that the next one cannot read.  What a pass writes can be read if
the document that its steps leave is laid out well.  A document that has lost its root
element is not.
-/

section Named

variable {config : Config}

/-- A configuration that only names known plugins finds them. -/
theorem exists_steps_of_named (named : ∀ r ∈ config.refs, ∃ plugin ∈ Plugin.known, r = .named plugin.name) :
    ∃ steps, config.steps = .ok steps ∧ ∀ step ∈ steps, step.plugin ∈ Plugin.known := by
  rw [Config.steps]
  generalize config.refs = refs at named
  induction refs with
  | nil => exact ⟨[], rfl, List.forall_mem_nil _⟩
  | cons r rest inductionHypothesis =>
      rcases List.forall_mem_cons.mp named with ⟨⟨plugin, listed, rfl⟩, others⟩
      rcases inductionHypothesis others with ⟨steps, found, known⟩
      have some : (Plugin.named? plugin.name).isSome = true :=
        List.find?_isSome.mpr ⟨plugin, listed, beq_self_eq_true _⟩
      rcases Option.isSome_iff_exists.mp some with ⟨first, firstFound⟩
      refine ⟨⟨first, (config.parameters.lookup first.name).getD .empty⟩ :: steps, ?_, ?_⟩
      · rw [List.mapM_cons, found, PluginRef.resolve, firstFound]
        rfl
      · exact List.forall_mem_cons.mpr ⟨List.mem_of_find?_eq_some firstFound, known⟩

end Named

/-- What one pass makes of a text, warnings aside. -/
def onePass (config : Config) (steps : List Step) (pass : Nat) (text : String) : Except Failure String :=
  (runPass config steps pass text).result

section Pass

variable {config : Config} {steps : List Step} {pass : Nat} {text : String}

theorem onePass_of_unreadable {fault : ParseError} (unreadable : Document.read text config.path = .error fault) :
    onePass config steps pass text = .error (.unreadable fault) := by
  rw [onePass, result_runPass, unreadable]

/-- A pass with known plugins on a text that can be read writes the document that its
steps leave. -/
theorem exists_onePass_of_read (known : ∀ step ∈ steps, step.plugin ∈ Plugin.known) {doc : Document}
    (parsed : Document.read text config.path = .ok doc) :
    ∃ last, runSteps pass config.path steps ⟨doc, .ofDocument doc⟩ = .ok last ∧
      onePass config steps pass text = .ok (last.document.written config.write) := by
  rcases @runSteps_known pass config.path _ _ known (State.sound_of_read parsed).1 with ⟨last, ran, -⟩
  refine ⟨last, ran, ?_⟩
  rw [onePass, result_runPass, parsed]
  dsimp only
  rw [ran]
  rfl

/-- With known plugins only a text that cannot be read makes a pass fail. -/
theorem onePass_eq_error_iff (known : ∀ step ∈ steps, step.plugin ∈ Plugin.known) {failure : Failure} :
    onePass config steps pass text = .error failure ↔
      ∃ fault, Document.read text config.path = .error fault ∧ failure = .unreadable fault := by
  cases parsed : Document.read text config.path with
  | error fault =>
      rw [onePass_of_unreadable parsed]
      constructor
      · rintro ⟨⟩
        exact ⟨fault, rfl, rfl⟩
      · rintro ⟨_, ⟨⟩, rfl⟩
        rfl
  | ok doc =>
      rcases @exists_onePass_of_read _ _ pass _ known _ parsed with ⟨last, -, wrote⟩
      rw [wrote]
      constructor
      · nofun
      · nofun

end Pass

/-- A run with known plugins fails exactly if a text with which it begins a pass cannot be
read, and then for that reason.  Every pass that reads its text writes the document that
its steps leave; if this document is laid out well, the text that is written can be read
again. -/
theorem run_fails_iff {config : Config}
    (named : ∀ r ∈ config.refs, ∃ plugin ∈ Plugin.known, r = .named plugin.name) (text : String) :
    ∃ steps, config.steps = .ok steps ∧
      (∀ failure, (run config text).1 = .error failure ↔
        ∃ pass begun fault, Begins (onePass config steps) config.maxPasses text pass begun ∧
          Document.read begun config.path = .error fault ∧ failure = .unreadable fault) ∧
      ∀ pass begun doc, Document.read begun config.path = .ok doc →
        ∃ last, runSteps pass config.path steps ⟨doc, .ofDocument doc⟩ = .ok last ∧
          onePass config steps pass begun = .ok (last.document.written config.write) ∧
          ((∃ l : Layout, last.document.branches = l.branches ∧ l.isWritable = true) →
            ∃ again, Document.read (last.document.written config.write) config.path = .ok again) := by
  rcases exists_steps_of_named named with ⟨steps, found, known⟩
  refine ⟨steps, found, ?_, ?_⟩
  · intro failure
    rw [result_run found]
    change runPasses (onePass config steps) config.maxPasses text = _ ↔ _
    rw [runPasses_eq_error_iff]
    constructor
    · rintro ⟨pass, begun, begins, failed⟩
      rcases (onePass_eq_error_iff known).mp failed with ⟨fault, unreadable, same⟩
      exact ⟨pass, begun, fault, begins, unreadable, same⟩
    · rintro ⟨pass, begun, fault, begins, unreadable, same⟩
      exact ⟨pass, begun, begins, (onePass_eq_error_iff known).mpr ⟨fault, unreadable, same⟩⟩
  · intro pass begun doc parsed
    rcases exists_onePass_of_read known parsed with ⟨last, ran, wrote⟩
    refine ⟨last, ran, wrote, ?_⟩
    rintro ⟨l, laidOut, writable⟩
    exact l.exists_read_written config.write writable laidOut config.path

/-- A comment goes in the first pass, the second one finds nothing to do, and both can read
their texts. -/
theorem commented_image_is_optimized :
    (∀ r ∈ ({} : Config).refs, ∃ plugin ∈ Plugin.known, r = .named plugin.name) ∧
      ∃ out, (run {} "<svg><!--a--><path d=\"M1 1\"/></svg>").1 = .ok out := by
  have named : ∀ r ∈ ({} : Config).refs, ∃ plugin ∈ Plugin.known, r = .named plugin.name := by
    intro r listed
    rcases List.mem_map.mp (show r ∈ Plugin.usual.map fun plugin => .named plugin.name from listed) with
      ⟨plugin, among, same⟩
    exact ⟨plugin, List.mem_append_left _ among, same.symm⟩
  have first : (onePass {} usualSteps 1 "<svg><!--a--><path d=\"M1 1\"/></svg>").toOption =
      some "<svg><path d=\"M1 1\"/></svg>" := by
    decide +kernel
  have second : (onePass {} usualSteps 2 "<svg><path d=\"M1 1\"/></svg>").toOption =
      some "<svg><path d=\"M1 1\"/></svg>" := by
    decide +kernel
  rw [toOption_eq_some] at first second
  have begun : ∀ number text, Begins (onePass {} usualSteps) 10 "<svg><!--a--><path d=\"M1 1\"/></svg>" number text →
      (number = 1 ∧ text = "<svg><!--a--><path d=\"M1 1\"/></svg>") ∨
        (number = 2 ∧ text = "<svg><path d=\"M1 1\"/></svg>") := by
    intro number text begins
    induction begins with
    | first => exact Or.inl ⟨rfl, rfl⟩
    | second given =>
        rw [first] at given
        exact Or.inr ⟨rfl, (Except.ok.inj given).symm⟩
    | later _ given shorter _ inductionHypothesis =>
        rcases inductionHypothesis with ⟨impossible, -⟩ | ⟨two, same⟩
        · cases impossible
        · cases two
          rw [same, second] at given
          rw [same, ← Except.ok.inj given] at shorter
          exact absurd shorter (Nat.lt_irrefl _)
  rcases run_fails_iff named "<svg><!--a--><path d=\"M1 1\"/></svg>" with ⟨steps, found, fails, -⟩
  rw [steps_default] at found
  cases found
  refine ⟨named, ?_⟩
  cases result : (run {} "<svg><!--a--><path d=\"M1 1\"/></svg>").1 with
  | ok out => exact ⟨out, rfl⟩
  | error failure =>
      rcases (fails failure).mp result with ⟨number, text, fault, begins, unreadable, -⟩
      have failed : onePass {} usualSteps number text = .error (.unreadable fault) := onePass_of_unreadable unreadable
      rcases begun number text begins with ⟨rfl, rfl⟩ | ⟨rfl, rfl⟩
      · rw [first] at failed
        cases failed
      · rw [second] at failed
        cases failed

/-- The root element is a text without content and is taken out.  The first pass writes
nothing, and nothing cannot be read. -/
theorem empty_root_is_lost :
    ∃ doc fault, Document.read "<text/>" none = .ok doc ∧ onePass {} usualSteps 1 "<text/>" = .ok "" ∧
      Document.read "" none = .error fault ∧ (run {} "<text/>").1 = .error (.unreadable fault) := by
  have parsed : (Document.read "<text/>" none).toOption.isSome = true := by decide +kernel
  have emptied : (onePass {} usualSteps 1 "<text/>").toOption = some "" := by decide +kernel
  have nothing : (Document.read "" none).toOption.isSome = false := by decide +kernel
  rw [toOption_eq_some] at emptied
  rcases Option.isSome_iff_exists.mp parsed with ⟨doc, read⟩
  cases unreadable : Document.read "" none with
  | ok other =>
      rw [unreadable] at nothing
      cases nothing
  | error fault =>
      refine ⟨doc, fault, toOption_eq_some.mp read, emptied, rfl, ?_⟩
      rw [result_run steps_default]
      refine runPasses_eq_error_iff.mpr ⟨2, "", .second emptied (by decide), ?_⟩
      exact onePass_of_unreadable unreadable

/-! ## When optimizing makes a text longer

The first pass counts whatever it writes, so its text can be longer than the given one.
There are two ways to this: the tree of the text is written longer before anything is done
to it, or one of four plugins makes it longer on the way.  No other plugin ever does, and
no later pass.
-/

/-- By how many bytes each of some steps makes the document longer, with the name of its
plugin.  Steps that do not are left out. -/
def additions (pass : Nat) (path : Option String) : List Step → State → List (String × Nat)
  | [], _ => []
  | step :: rest, state =>
    match (runStep pass path state step).result with
    | .error _ => []
    | .ok next =>
      let before := Text.size (state.document.written {})
      let after := Text.size (next.document.written {})
      let later := additions pass path rest next
      if before < after then (step.plugin.name, after - before) :: later else later

section Steps

variable {pass : Nat} {path : Option String} {step : Step} {state : State}

theorem runStep_thrifty (listed : step.plugin ∈ Plugin.usual) (sound : state.Sound)
    (grown : state.document.Grown Element.Frugal) :
    ∃ next, (runStep pass path state step).result = .ok next ∧ next.Sound ∧
      next.document.Grown Element.Frugal ∧
        (step.plugin.mayLengthen = false →
          Text.size (next.document.written {}) ≤ Text.size (state.document.written {})) := by
  rcases @runStep_known pass path _ _ (List.mem_append_left _ listed) sound with ⟨next, ran, nextSound, -⟩
  refine ⟨next, ran, nextSound, ?_⟩
  cases prepared : step.plugin.prepare ⟨pass, path, state.summary⟩ step.parameters with
  | none =>
      cases ran.symm.trans (result_runStep_of_declined prepared)
      exact ⟨grown, fun _ => Nat.le_refl _⟩
  | some edit =>
      rcases Plugin.thrifty_of_usual listed _ _ _ _ prepared grown sound.held with
        ⟨outcome, edited, kept, lighter⟩
      cases ran.symm.trans (result_runStep_of_edited prepared edited)
      exact ⟨kept, fun calm => (lighter calm).size_written_le⟩

theorem runSteps_thrifty {steps : List Step} (listed : ∀ step ∈ steps, step.plugin ∈ Plugin.usual)
    (sound : state.Sound) (grown : state.document.Grown Element.Frugal) :
    (∀ addition ∈ additions pass path steps state, addition.1 ∈ Plugin.lengtheners) ∧
      ∃ last, runSteps pass path steps state = .ok last ∧
        Text.size (last.document.written {}) ≤
          Text.size (state.document.written {}) + ((additions pass path steps state).map Prod.snd).sum := by
  induction steps generalizing state with
  | nil => exact ⟨List.forall_mem_nil _, state, rfl, Nat.le_refl _⟩
  | cons step rest inductionHypothesis =>
      rcases @runStep_thrifty pass path _ _ (listed step List.mem_cons_self) sound grown with
        ⟨next, ran, nextSound, nextGrown, calm⟩
      rcases inductionHypothesis (fun other among => listed other (List.mem_cons_of_mem step among)) nextSound
        nextGrown with ⟨laterNamed, last, ranRest, bounded⟩
      have ranAll := (runSteps_cons rest ran).trans ranRest
      rw [additions, ran]
      dsimp only
      split
      · next longer =>
        have may : step.plugin.mayLengthen = true := by
          rw [← Bool.not_eq_false]
          exact fun never => absurd (calm never) (Nat.not_le_of_lt longer)
        refine ⟨List.forall_mem_cons.mpr ⟨List.contains_iff_mem.mp may, laterNamed⟩, last, ranAll, ?_⟩
        rw [List.map_cons, List.sum_cons]
        dsimp only
        omega
      · exact ⟨laterNamed, last, ranAll, by omega⟩

end Steps

/-- An optimized text is at most as long as the tree of the given one is written, and what
four plugins add to it in the first pass.  So it is no longer than the given text whenever
both together take no more room. -/
theorem size_data_le {text : String} {out : Output} (optimized : (run {} text).1 = .ok out) :
    ∃ doc, Document.read text none = .ok doc ∧
      (∀ addition ∈ additions 1 none usualSteps ⟨doc, .ofDocument doc⟩,
        addition.1 ∈ ["mergeStyles", "minifyStyles", "cleanupIds", "removeUselessStrokeAndFill"]) ∧
      Text.size out.data ≤ Text.size (doc.written {}) +
        ((additions 1 none usualSteps ⟨doc, .ofDocument doc⟩).map Prod.snd).sum := by
  rw [result_run steps_default] at optimized
  rcases runPasses_eq_ok_iff.mp optimized with ⟨first, given, count, shrinks, -⟩
  change onePass {} usualSteps 1 text = .ok first at given
  cases parsed : Document.read text none with
  | error fault => cases given.symm.trans (onePass_of_unreadable parsed)
  | ok doc =>
      have listed : ∀ step ∈ usualSteps, step.plugin ∈ Plugin.usual := by
        intro step among
        rcases List.mem_map.mp among with ⟨plugin, usual, rfl⟩
        exact usual
      have known : ∀ step ∈ usualSteps, step.plugin ∈ Plugin.known :=
        fun step among => List.mem_append_left _ (listed step among)
      have typed := Document.grown_of_read parsed
      have grown : doc.Grown Element.Frugal :=
        (Document.SameShape.refl doc).grown typed fun found => .of_typed (typed.element_fits found)
      rcases @runSteps_thrifty 1 none _ _ listed (State.sound_of_read parsed).1 grown with
        ⟨named, last, ran, bounded⟩
      rcases @exists_onePass_of_read {} _ 1 _ known _ parsed with ⟨final, ranToo, wrote⟩
      cases ran.symm.trans ranToo
      cases wrote.symm.trans given
      exact ⟨doc, rfl, named, Nat.le_trans shrinks.size_le bounded⟩

/-- The blanks between the tags go, which makes room for the stroke that is refused in so
many words. -/
theorem indented_symbol_gets_shorter :
    ∃ out, (run {} "<svg>\n  <symbol id=\"a\">\n    <path d=\"M0 0\"/>\n  </symbol>\n  <use href=\"#a\"/>\n</svg>").1 =
        .ok out ∧
      Text.size out.data ≤ Text.size
        "<svg>\n  <symbol id=\"a\">\n    <path d=\"M0 0\"/>\n  </symbol>\n  <use href=\"#a\"/>\n</svg>" := by
  have optimized : (run {}
      "<svg>\n  <symbol id=\"a\">\n    <path d=\"M0 0\"/>\n  </symbol>\n  <use href=\"#a\"/>\n</svg>").1.toOption =
        some ⟨"<svg><symbol id=\"a\"><path d=\"M0 0\" stroke=\"none\"/></symbol><use href=\"#a\"/></svg>", 2⟩ := by
    decide +kernel
  have computed : (Document.read
      "<svg>\n  <symbol id=\"a\">\n    <path d=\"M0 0\"/>\n  </symbol>\n  <use href=\"#a\"/>\n</svg>" none).toOption.map
        (fun doc => (Text.size (doc.written {}), additions 1 none usualSteps ⟨doc, .ofDocument doc⟩)) =
      some (67, [("removeUselessStrokeAndFill", 14)]) := by
    decide +kernel
  rcases Option.map_eq_some_iff.mp computed with ⟨doc, parsed, counted⟩
  rw [toOption_eq_some] at optimized parsed
  rcases Prod.mk.inj counted with ⟨written, added⟩
  rcases size_data_le optimized with ⟨found, parsedToo, -, bounded⟩
  cases parsed.symm.trans parsedToo
  rw [written, added] at bounded
  exact ⟨_, optimized, Nat.le_trans bounded (by decide)⟩

/-- A shape in a symbol has its stroke refused, since a use of the symbol may provide one.
There is nothing else to do, and the longer text is the result. -/
theorem symbol_gets_longer :
    ∃ out, (run {} "<svg><symbol id=\"a\"><path d=\"M0 0\"/></symbol><use href=\"#a\"/></svg>").1 = .ok out ∧
      Text.size "<svg><symbol id=\"a\"><path d=\"M0 0\"/></symbol><use href=\"#a\"/></svg>" < Text.size out.data := by
  have optimized : (run {} "<svg><symbol id=\"a\"><path d=\"M0 0\"/></symbol><use href=\"#a\"/></svg>").1.toOption =
      some ⟨"<svg><symbol id=\"a\"><path d=\"M0 0\" stroke=\"none\"/></symbol><use href=\"#a\"/></svg>", 2⟩ := by
    decide +kernel
  rw [toOption_eq_some] at optimized
  exact ⟨_, optimized, by decide⟩

end Optimize
end SlimSvg
