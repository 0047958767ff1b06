import SlimSvg.Optimize.Preset
import SlimSvg.Tree.Reading
import SlimSvg.Tree.Written

namespace SlimSvg
namespace Optimize

/-!
# What is done to a document

A configuration lists plugins by name or as they are.  From it comes the list of
plugins that run, in their order and with their parameters.
-/

/-- Why a text was not optimized. -/
inductive Failure where
  | unreadable (cause : ParseError)
  | pluginFailed (name : String) (cause : VisitError)
  | unknownPlugin (name : String)
deriving Repr

def Failure.message : Failure → String
  | unreadable cause => "SVG data parsing failed cause " ++ cause.message
  | pluginFailed name cause => "plugin '" ++ name ++ "' failed cause " ++ cause.message
  | unknownPlugin name => "unknown plugin '" ++ name ++ "'"

/-- A plugin in a list. -/
inductive PluginRef where
  | named (name : String)
  | custom (plugin : Plugin)

namespace PluginRef

def name : PluginRef → String
  | named name => name
  | custom plugin => plugin.name

/-- The kind and the name, for diagnostics. -/
def describe : PluginRef → String
  | named name => "Name(" ++ name ++ ")"
  | custom plugin => "Custom(" ++ plugin.name ++ ")"

/-- The plugin that is meant. -/
def resolve : PluginRef → Except Failure Plugin
  | named name =>
    match Plugin.named? name with
    | some plugin => .ok plugin
    | none => .error (.unknownPlugin name)
  | custom plugin => .ok plugin

end PluginRef

structure Config where
  /-- The plugins that run before the main ones. -/
  pre : List PluginRef := []
  main : List PluginRef := Plugin.usual.map fun plugin => .named plugin.name
  /-- The plugins that run after the main ones. -/
  post : List PluginRef := []
  /-- The names of plugins that are added to the main ones, unless `pre` or `main`
  has them already. -/
  enable : List String := []
  /-- The names of plugins that do not run. -/
  disable : List String := []
  parameters : List (String × Parameters) := []
  /-- The largest number of passes; a number outside of 1 to 10 means the nearest
  one inside. -/
  maxPasses : Nat := 10
  write : WriteOptions := {}
  /-- Where the text comes from, for diagnostics. -/
  path : Option String := none

/-- A plugin with its parameters. -/
structure Step where
  plugin : Plugin
  parameters : Parameters

namespace Config

/-- Put a name at the end of a list unless the list has it. -/
def enableIn (refs : List PluginRef) (name : String) : List PluginRef :=
  if refs.any fun r => r.name == name then refs else refs ++ [.named name]

/-- The plugins in the order in which they run. -/
def refs (config : Config) : List PluginRef :=
  let listed := config.enable.foldl enableIn (config.pre ++ config.main) ++ config.post
  listed.filter fun r => !config.disable.contains r.name

/-- The steps of a pass.  The first name that is not known is reported. -/
def steps (config : Config) : Except Failure (List Step) :=
  config.refs.mapM fun r => do
    let plugin ← r.resolve
    return ⟨plugin, (config.parameters.lookup plugin.name).getD .empty⟩

end Config

end Optimize
end SlimSvg
