import SlimSvg.Cleanup.Classes
import SlimSvg.Cleanup.Discard
import SlimSvg.Cleanup.Ids
import SlimSvg.Cleanup.Painting
import SlimSvg.Cleanup.Redundant
import SlimSvg.Cleanup.Values

namespace SlimSvg
namespace Plugin

/-!
# The plugins that are known by name

The usual plugins run in an order in which each one finds what the ones before it
left: sheets are merged before they are shortened, values are shortened before
they are compared with inherited ones, and what is empty goes last.
-/

/-- The plugins that run unless the user wants others. -/
def usual : List Plugin := [
  Cleanup.removeDoctype,
  Cleanup.removeXmlDeclaration,
  Cleanup.removeComments,
  Cleanup.removeMetadata,
  Cleanup.mergeStyles,
  Cleanup.minifyStyles,
  Cleanup.cleanupIds,
  Cleanup.convertColors,
  Cleanup.minifyValues,
  Cleanup.removeRedundantAttributes,
  Cleanup.removeUnpaintedAttributes,
  Cleanup.removeHiddenElements,
  Cleanup.removeEmptyText,
  Cleanup.removeEmptyContainers]

/-- All plugins that can be asked for by name. -/
def known : List Plugin :=
  usual ++ [Cleanup.minifyClassNames]

def named? (name : String) : Option Plugin :=
  known.find? fun plugin => plugin.name == name

end Plugin
end SlimSvg
