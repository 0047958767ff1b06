import SlimSvg.Proofs.Cleanup.Orderly
import SlimSvg.Proofs.Optimize.Passes
import SlimSvg.Proofs.Tree.Reading

namespace SlimSvg

namespace Optimize

/-!
# The steps of a pass

Within a pass the style sheets are not read again, and they are written back to the
elements from which they came.  Between the steps these elements should therefore be
parts of the document.  A step of a plugin that is known by name never fails, and it
forgets the style elements that it takes away when it edits the sheets.  A step that
does not look at the sheets forgets none, so it keeps the agreement only as long as it
takes away no style element and nothing around one.
-/

/-- What some steps make of a state, warnings aside. -/
def runSteps (pass : Nat) (path : Option String) (steps : List Step) (state : State) :
    Except Failure State :=
  (steps.foldlM (runStep pass path) state).result

section Running

variable {pass : Nat} {path : Option String} {step : Step} {state : State}

theorem result_runStep_of_declined (declined : step.plugin.prepare ⟨pass, path, state.summary⟩ step.parameters = none) :
    (runStep pass path state step).result = .ok state := by
  rw [runStep, declined]
  rfl

theorem result_runStep_of_edited {edit : DocumentEdit} {outcome : Outcome}
    (prepared : step.plugin.prepare ⟨pass, path, state.summary⟩ step.parameters = some edit)
    (edited : edit state.document = .ok outcome) :
    (runStep pass path state step).result = .ok (state.after outcome) := by
  rw [runStep, prepared]
  dsimp only
  rw [edited]
  rfl

theorem runSteps_cons {next : State} (rest : List Step)
    (ran : (runStep pass path state step).result = .ok next) :
    runSteps pass path (step :: rest) state = runSteps pass path rest next := by
  rw [runSteps, List.foldlM_cons,
    Work.result_bind _ fun next => Work.blind_foldlM (blind_runStep pass path) rest next, ran]
  rfl

/-- A pass reads its text, runs its steps and writes the document. -/
theorem result_runPass (config : Config) (steps : List Step) (text : String) :
    (runPass config steps pass text).result =
      match Document.read text config.path with
      | .error e => .error (.unreadable e)
      | .ok doc => (runSteps pass config.path steps ⟨doc, .ofDocument doc⟩).map fun last =>
          last.document.written config.write := by
  rw [runPass]
  cases Document.read text config.path with
  | error e => rfl
  | ok doc =>
      dsimp only
      rw [Work.result_bind _ fun _ => (Work.blind_foldlM (blind_runStep pass config.path) steps _).bind
        fun _ => Work.blind_pure _]
      rw [Work.result_bind _ fun last => Work.blind_pure _]
      rfl

end Running

/-! ## What holds between the steps -/

/-- Whether the document is a tree and the sheets remember style elements of it. -/
structure State.Sound (state : State) : Prop where
  tree : state.document.IsTree
  held : ∀ s, state.summary.styles? = some s → s.Held state.document

/-- Whether all style elements that are remembered are parts of the document. -/
def State.Current (state : State) : Prop :=
  ∀ s, state.summary.styles? = some s → s.Attached state.document

/-- Whether a step declines, or may take away neither a style element that is remembered
nor anything around it. -/
def Step.spares (step : Step) (pass : Nat) (path : Option String) (state : State) : Bool :=
  let situation : Situation := ⟨pass, path, state.summary⟩
  (step.plugin.prepare situation step.parameters).isNone ||
    state.summary.styles?.all fun s => s.elements.all fun id =>
      (id :: state.document.elementAncestors id).all fun upper =>
        !step.plugin.takes situation step.parameters state.document upper

/-- What a pass starts with. -/
theorem State.sound_of_read {text : String} {title : Option String} {doc : Document}
    (parsed : Document.read text title = .ok doc) :
    State.Sound ⟨doc, .ofDocument doc⟩ ∧ State.Current ⟨doc, .ofDocument doc⟩ := by
  have tree := (Document.grown_of_read parsed).isTree
  have held : ∀ s, (Summary.ofDocument doc).styles? = some s → s.Held doc ∧ s.Attached doc :=
    fun s known => Css.Styles.held_ofDocument tree (toOption_eq_some.mp known)
  exact ⟨⟨tree, fun s known => (held s known).1⟩, fun s known => (held s known).2⟩

section Invariant

variable {pass : Nat} {path : Option String} {step : Step} {state : State}

theorem spared_of_spares {edit : DocumentEdit} (sound : state.Sound)
    (prepared : step.plugin.prepare ⟨pass, path, state.summary⟩ step.parameters = some edit)
    (spares : step.spares pass path state = true) {s : Css.Styles} (known : state.summary.styles? = some s)
    {id : NodeId} (listed : id ∈ s.elements) (attached : state.document.isAttached id = true) :
    step.plugin.Spared ⟨pass, path, state.summary⟩ step.parameters state.document id := by
  refine ⟨(sound.held s known).named id listed, attached, ?_⟩
  rw [Step.spares, prepared, Option.isNone_some, Bool.false_or, known, Option.all_some,
    List.all_eq_true] at spares
  intro upper above
  have kept := List.all_eq_true.mp (spares id listed) upper above
  rw [Bool.not_eq_true'] at kept
  rw [kept]
  exact Bool.false_ne_true

/-- What a step of a known plugin keeps. -/
theorem runStep_known (known : step.plugin ∈ Plugin.known) (sound : state.Sound) :
    ∃ next, (runStep pass path state step).result = .ok next ∧ next.Sound ∧
      (step.spares pass path state = true → state.Current → next.Current) := by
  cases prepared : step.plugin.prepare ⟨pass, path, state.summary⟩ step.parameters with
  | none => exact ⟨state, result_runStep_of_declined prepared, sound, fun _ current => current⟩
  | some edit =>
      rcases Plugin.orderly_of_known known ⟨pass, path, state.summary⟩ step.parameters edit state.document
        prepared sound.tree sound.held with ⟨outcome, edited, reduced, sheets⟩
      refine ⟨state.after outcome, result_runStep_of_edited prepared edited, ?_⟩
      rw [State.after]
      cases changed : outcome.newStyles with
      | none =>
          rw [changed] at sheets
          refine ⟨⟨reduced.tree, fun s styled => (sound.held s styled).of_reduced reduced⟩, ?_⟩
          intro spares current s styled id listed
          exact sheets id (spared_of_spares sound prepared spares styled listed
            (current s styled id listed))
      | some t =>
          rw [changed] at sheets
          rcases sheets with ⟨s, styled, handsOn⟩
          refine ⟨⟨reduced.tree, ?_⟩, ?_⟩
          · rintro _ ⟨⟩
            exact handsOn.held (sound.held s styled)
          · rintro _ current _ ⟨⟩ id listed
            exact handsOn.attached id listed (current s styled id (handsOn.sublist.subset listed))

/-- What the steps of a pass keep, by what each of them keeps. -/
theorem runSteps_known {steps : List Step} (known : ∀ step ∈ steps, step.plugin ∈ Plugin.known)
    (sound : state.Sound) :
    ∃ last, runSteps pass path steps state = .ok last ∧ last.Sound ∧
      ((∀ before earlier later middle, steps = before ++ earlier :: later →
        runSteps pass path before state = .ok middle → earlier.spares pass path middle = true) →
          state.Current → last.Current) := by
  induction steps generalizing state with
  | nil => exact ⟨state, rfl, sound, fun _ current => current⟩
  | cons step rest inductionHypothesis =>
      rcases @runStep_known pass path _ _ (known step List.mem_cons_self) sound with
        ⟨next, ran, nextSound, nextCurrent⟩
      rcases inductionHypothesis (fun other listed => known other (List.mem_cons_of_mem step listed))
        nextSound with ⟨last, ranRest, lastSound, lastCurrent⟩
      refine ⟨last, (runSteps_cons rest ran).trans ranRest, lastSound, ?_⟩
      intro spares current
      apply lastCurrent
      · intro before earlier later middle split ranBefore
        apply spares (step :: before) earlier later middle
        · rw [split, List.cons_append]
        · exact (runSteps_cons before ran).trans ranBefore
      · exact nextCurrent (spares [] step rest state rfl rfl) current

end Invariant

/-! ## The sheets of a pass -/

/-- Whenever a step of a pass is begun, all style elements that are remembered are parts
of the document, if no earlier step of the pass took away one of them or something around
one. -/
theorem runSteps_current {text : String} {path : Option String} {doc : Document}
    (parsed : Document.read text path = .ok doc) {steps front back : List Step} {step : Step}
    (known : ∀ step ∈ steps, step.plugin ∈ Plugin.known) (split : steps = front ++ step :: back) (pass : Nat) :
    ∃ state, runSteps pass path front ⟨doc, .ofDocument doc⟩ = .ok state ∧
      ((∀ before earlier later middle, front = before ++ earlier :: later →
        runSteps pass path before ⟨doc, .ofDocument doc⟩ = .ok middle →
          earlier.spares pass path middle = true) → state.Current) := by
  rcases State.sound_of_read parsed with ⟨sound, current⟩
  have knownFront : ∀ step ∈ front, step.plugin ∈ Plugin.known := by
    intro other listed
    exact known other (split ▸ List.mem_append_left _ listed)
  rcases runSteps_known knownFront sound with ⟨state, ran, -, kept⟩
  exact ⟨state, ran, fun spares => kept spares current⟩

/-- The metadata element holds no style element, so the sheets can be merged after it was
taken away. -/
theorem sheets_are_current_after_metadata :
    ∃ doc state, Document.read
        "<svg><metadata/><style>a\x7bfill:red\x7d</style><style>b\x7bfill:red\x7d</style><b/></svg>" none =
          .ok doc ∧
      runSteps 1 none [⟨Cleanup.removeMetadata, .empty⟩] ⟨doc, .ofDocument doc⟩ = .ok state ∧
      state.Current := by
  have computed : ((Document.read
      "<svg><metadata/><style>a\x7bfill:red\x7d</style><style>b\x7bfill:red\x7d</style><b/></svg>"
      none).toOption.map fun doc =>
        Step.spares ⟨Cleanup.removeMetadata, .empty⟩ 1 none ⟨doc, .ofDocument doc⟩) = some true := by
    decide +kernel
  rcases Option.map_eq_some_iff.mp computed with ⟨doc, parsed, spares⟩
  rw [toOption_eq_some] at parsed
  have known : ∀ step ∈ ([⟨Cleanup.removeMetadata, .empty⟩, ⟨Cleanup.mergeStyles, .empty⟩] : List Step),
      step.plugin ∈ Plugin.known := by
    simp [Plugin.known, Plugin.usual]
  rcases @runSteps_current _ _ doc parsed _ [⟨Cleanup.removeMetadata, .empty⟩] [] ⟨Cleanup.mergeStyles, .empty⟩
    known rfl 1 with ⟨state, ran, kept⟩
  refine ⟨doc, state, parsed, ran, kept ?_⟩
  intro before earlier later middle split reached
  cases before with
  | nil =>
      rcases List.cons.inj split with ⟨rfl, -⟩
      cases reached
      exact spares
  | cons first rest =>
      have ended := (List.cons.inj split).2.symm
      exact absurd ended (List.append_ne_nil_of_right_ne_nil rest (List.cons_ne_nil earlier later))

/-- One style element goes with the metadata around it.  It is the first one that is
remembered, so merging moves the rules of the other one into it, and they are lost. -/
theorem rules_move_into_removed_metadata :
    ∃ doc state, Document.read
        ("<svg><metadata><style>a\x7bfill:red\x7d</style></metadata>" ++
          "<style>b\x7bfill:red\x7d</style><b/></svg>") none = .ok doc ∧
      runSteps 1 none [⟨Cleanup.removeMetadata, .empty⟩] ⟨doc, .ofDocument doc⟩ = .ok state ∧
      ¬ state.Current ∧
      state.document.written {} = "<svg><style>b\x7bfill:red\x7d</style><b/></svg>" ∧
      (runPass {} [⟨Cleanup.removeMetadata, .empty⟩, ⟨Cleanup.mergeStyles, .empty⟩] 1
        ("<svg><metadata><style>a\x7bfill:red\x7d</style></metadata>" ++
          "<style>b\x7bfill:red\x7d</style><b/></svg>")).result.toOption = some "<svg><b/></svg>" := by
  have merged : (runPass {} [⟨Cleanup.removeMetadata, .empty⟩, ⟨Cleanup.mergeStyles, .empty⟩] 1
      ("<svg><metadata><style>a\x7bfill:red\x7d</style></metadata>" ++
        "<style>b\x7bfill:red\x7d</style><b/></svg>")).result.toOption = some "<svg><b/></svg>" := by
    decide +kernel
  have computed : ((Document.read
      ("<svg><metadata><style>a\x7bfill:red\x7d</style></metadata>" ++
        "<style>b\x7bfill:red\x7d</style><b/></svg>") none).toOption.bind fun doc =>
      (runSteps 1 none [⟨Cleanup.removeMetadata, .empty⟩] ⟨doc, .ofDocument doc⟩).toOption.map fun state =>
        (state.document.written {},
          state.summary.styles?.all fun s => s.elements.all state.document.isAttached)) =
      some ("<svg><style>b\x7bfill:red\x7d</style><b/></svg>", false) := by
    decide +kernel
  rcases Option.bind_eq_some_iff.mp computed with ⟨doc, parsed, computed⟩
  rcases Option.map_eq_some_iff.mp computed with ⟨state, ran, computed⟩
  rcases Prod.mk.inj computed with ⟨written, stale⟩
  rw [toOption_eq_some] at parsed ran
  refine ⟨doc, state, parsed, ran, ?_, written, merged⟩
  intro current
  rw [Option.all_eq_false] at stale
  rcases stale with ⟨s, known, stale⟩
  rw [List.all_eq_true.mpr (current s known)] at stale
  cases stale

end Optimize

/-! ## Optimizing what was optimized

The plugins that are known by name do the same in every pass, so a run applies one
function of texts again and again.  An optimized text need not be a fixed point of
this function: the loop drops the text of its last pass if it is not shorter, but
a new run accepts the same text, because its first pass always counts.
-/

/-! ### Plugins do not count passes -/

/-- Whether a plugin does the same in every pass. -/
def Plugin.IgnoresPass (plugin : Plugin) : Prop :=
  ∀ (pass other : Nat) (path : Option String) (summary : Summary) (parameters : Parameters),
    plugin.prepare ⟨pass, path, summary⟩ parameters =
      plugin.prepare ⟨other, path, summary⟩ parameters

theorem Plugin.ignoresPass_of_known : ∀ plugin ∈ known, plugin.IgnoresPass := by
  simp only [known, usual, List.cons_append, List.nil_append, List.forall_mem_cons]
  and_intros <;> first
    | exact fun _ _ _ _ _ => rfl
    | exact List.forall_mem_nil _

namespace Optimize

/-- Without plugins of the user no step counts passes. -/
theorem ignoresPass_of_steps {config : Config} {steps : List Step}
    (named : ∀ r ∈ config.refs, ∃ name, r = .named name) (found : config.steps = .ok steps) :
    ∀ step ∈ steps, step.plugin.IgnoresPass := by
  intro step listed
  obtain ⟨r, among, made⟩ := exists_of_mem_of_mapM_eq_ok found listed
  obtain ⟨name, same⟩ := named r among
  obtain ⟨plugin, resolved, isStep⟩ := bind_eq_ok.mp made
  rw [← pure_eq_ok.mp isStep]
  rw [same, PluginRef.resolve] at resolved
  split at resolved
  · next known found =>
    rw [← Except.ok.inj resolved]
    exact Plugin.ignoresPass_of_known known (List.mem_of_find?_eq_some found)
  · cases resolved

theorem runPass_eq {config : Config} {steps : List Step}
    (ignores : ∀ step ∈ steps, step.plugin.IgnoresPass) (pass other : Nat) (text : String) :
    runPass config steps pass text = runPass config steps other text := by
  have stepEq : ∀ step ∈ steps, ∀ state,
      runStep pass config.path state step = runStep other config.path state step := by
    intro step listed state
    rw [runStep, runStep, ignores step listed pass other]
  have folded : ∀ state, steps.foldlM (runStep pass config.path) state =
      steps.foldlM (runStep other config.path) state := by
    clear ignores
    induction steps with
    | nil => exact fun _ => rfl
    | cons step rest inductionHypothesis =>
        intro state
        have later := inductionHypothesis fun next listed =>
          stepEq next (List.mem_cons_of_mem step listed)
        rw [List.foldlM_cons, List.foldlM_cons, stepEq step List.mem_cons_self, funext later]
  simp only [runPass, folded]

/-! ### The usual run -/

/-- The steps of a pass with the usual plugins. -/
def usualSteps : List Step :=
  Plugin.usual.map fun plugin => ⟨plugin, .empty⟩

theorem steps_default : ({} : Config).steps = .ok usualSteps := by
  rfl

/-- What one pass with the usual plugins makes of a text. -/
def usualPass (text : String) : Except Failure String :=
  (runPass {} usualSteps 1 text).result

theorem run_default (text : String) :
    (run {} text).1 = runPasses (fun _ => usualPass) 10 text := by
  have refsEq : ({} : Config).refs = Plugin.usual.map fun plugin => .named plugin.name := rfl
  have named : ∀ r ∈ ({} : Config).refs, ∃ name, r = .named name := by
    intro r listed
    rw [refsEq] at listed
    obtain ⟨plugin, -, same⟩ := List.mem_map.mp listed
    exact ⟨plugin.name, same.symm⟩
  have passEq : (fun pass text => (runPass {} usualSteps pass text).result) =
      fun _ => usualPass := by
    funext pass text
    rw [usualPass, runPass_eq (ignoresPass_of_steps named steps_default) pass 1]
  rw [result_run steps_default, passEq]

/-- Optimizing an optimized text gives it again exactly if one more pass keeps it, or
makes a longer text from which at most nine passes shrink back to it.  Unless the
first run used all its passes, this pass is the one whose text it dropped: it
succeeds and makes nothing shorter. -/
theorem run_again_iff {text : String} {out : Output} (optimized : (run {} text).1 = .ok out) :
    ((∃ again, (run {} out.data).1 = .ok again ∧ again.data = out.data) ↔
        usualPass out.data = .ok out.data ∨
          ∃ longer, usualPass out.data = .ok longer ∧ Text.size out.data < Text.size longer ∧
            ∃ count, count ≤ 9 ∧ Shrinks (fun _ => usualPass) 1 count longer out.data) ∧
      (out.passes < 10 →
        ∃ next, usualPass out.data = .ok next ∧ Text.size out.data ≤ Text.size next) := by
  constructor
  · have inside (count : Nat) : count < clampPasses 10 ↔ count ≤ 9 := Nat.lt_succ_iff
    simp only [run_default, exists_runPasses_iff, inside]
  · intro early
    rw [run_default] at optimized
    obtain ⟨first, -, count, -, stops⟩ := runPasses_eq_ok_iff.mp optimized
    cases stops with
    | used all passes =>
        have nine : clampPasses 10 - 1 = 9 := rfl
        omega
    | grew _ _ given longer => exact ⟨_, given, longer⟩

/-- The comment and the empty group go, and the color and the path become shorter.  There is
nothing left to do for a second run. -/
theorem shortened_image_is_kept :
    ∃ out again,
      (run {} "<svg><!--a--><g/><path fill='#ff0000' d='M 1,1'/></svg>").1 = .ok out ∧
      out.data = "<svg><path fill=\"red\" d=\"M1 1\"/></svg>" ∧
      (run {} out.data).1 = .ok again ∧ again.data = out.data := by
  have optimized : (run {} "<svg><!--a--><g/><path fill='#ff0000' d='M 1,1'/></svg>").1.toOption =
      some ⟨"<svg><path fill=\"red\" d=\"M1 1\"/></svg>", 2⟩ := by
    decide +kernel
  have kept : (usualPass "<svg><path fill=\"red\" d=\"M1 1\"/></svg>").toOption =
      some "<svg><path fill=\"red\" d=\"M1 1\"/></svg>" := by
    decide +kernel
  rw [toOption_eq_some] at optimized kept
  obtain ⟨again, ran, same⟩ := (run_again_iff optimized).1.mpr (Or.inl kept)
  exact ⟨_, again, optimized, rfl, ran, same⟩

/-- A script keeps the first pass from looking at strokes and goes away with it.  The
second pass moves a `stroke` behind another attribute; it makes nothing shorter and
is dropped.  A new run begins with what was dropped. -/
theorem stroke_moves_in_second_run :
    ∃ out again,
      (run {} "<svg stroke='a'><metadata onload=''/><line stroke='none' a=''/></svg>").1 = .ok out ∧
      out.data = "<svg stroke=\"a\"><line stroke=\"none\" a=\"\"/></svg>" ∧
      (run {} out.data).1 = .ok again ∧ again.data ≠ out.data := by
  have optimized :
      (run {} "<svg stroke='a'><metadata onload=''/><line stroke='none' a=''/></svg>").1.toOption =
        some ⟨"<svg stroke=\"a\"><line stroke=\"none\" a=\"\"/></svg>", 2⟩ := by
    decide +kernel
  have ranAgain : (run {} "<svg stroke=\"a\"><line stroke=\"none\" a=\"\"/></svg>").1.toOption =
      some ⟨"<svg stroke=\"a\"><line a=\"\" stroke=\"none\"/></svg>", 2⟩ := by
    decide +kernel
  rw [toOption_eq_some] at optimized ranAgain
  refine ⟨_, _, optimized, rfl, ranAgain, ?_⟩
  decide

end Optimize

end SlimSvg
