import SlimSvg.Text.Search
import SlimSvg.Optimize.Config

namespace SlimSvg
namespace Optimize

/-!
# Optimizing a text

Every pass reads its text anew, so nothing is known in a pass but what the text
says.  Within a pass the summary of the document is handed from plugin to plugin.
-/

/-! ## Passes

A pass turns a text into another one.  As long as passes make the text shorter
there is another pass; the last text that was shorter than all before it is the
result.  What a pass does, and whether it can fail, plays no part here.
-/

/-- The shortest text, and how many passes it took to be sure of it. -/
structure Output where
  data : String
  passes : Nat
deriving DecidableEq, Repr

section Passes

variable {m : Type → Type} [Monad m]

/-- Try further passes after `done` ones of which the last gave `best`. -/
def improve (pass : Nat → String → m String) : (more done : Nat) → (best : String) → m Output
  | 0, done, best => pure ⟨best, done⟩
  | more + 1, done, best => do
    let text ← pass (done + 1) best
    if Text.size text < Text.size best then improve pass more (done + 1) text
    else pure ⟨best, done + 1⟩

/-- The number of passes that is meant by a wish: at least one, at most ten. -/
def clampPasses (wish : Nat) : Nat :=
  max 1 (min wish 10)

/-- Run passes on a text.  The first one counts even if it makes the text longer. -/
def runPasses (pass : Nat → String → m String) (wish : Nat) (text : String) : m Output := do
  let first ← pass 1 text
  improve pass (clampPasses wish - 1) 1 first

end Passes

/-! ## Plugins within a pass -/

/-- Work that may fail and gives warnings, also if it fails. -/
abbrev Work := ExceptT Failure (StateM (List Warning))

def warn (warnings : List Warning) : Work Unit :=
  modify (· ++ warnings)

/-- A document with what is known of it. -/
structure State where
  document : Document
  summary : Summary

namespace State

/-- The document and its style sheets after an edit. -/
def after (state : State) (outcome : Outcome) : State where
  document := outcome.document
  summary :=
    match outcome.newStyles with
    | some styles => state.summary.withStyles styles
    | none => state.summary

end State

/-- Run one plugin, or leave the document alone if it declines. -/
def runStep (pass : Nat) (path : Option String) (state : State) (step : Step) : Work State := do
  match step.plugin.prepare ⟨pass, path, state.summary⟩ step.parameters with
  | none => return state
  | some edit =>
    match edit state.document with
    | .error e => throw (.pluginFailed step.plugin.name e)
    | .ok outcome =>
      warn outcome.warnings
      return state.after outcome

/-- One pass: read a text, run the plugins and write the document. -/
def runPass (config : Config) (steps : List Step) (pass : Nat) (text : String) : Work String := do
  match Document.read text config.path with
  | .error e => throw (.unreadable e)
  | .ok doc =>
    let summary := Summary.ofDocument doc
    warn summary.warnings
    let state ← steps.foldlM (runStep pass config.path) ⟨doc, summary⟩
    return state.document.written config.write

/-- Optimize a text with warnings on the way. -/
def work (config : Config) (text : String) : Work Output := do
  let steps ← config.steps
  runPasses (runPass config steps) config.maxPasses text

/-- Optimize a text: the result, and the warnings in the order of their causes. -/
def run (config : Config) (text : String) : Except Failure Output × List Warning :=
  (work config text).run.run []

end Optimize
end SlimSvg
