import Locator.Config.Basic
import Locator.Path.Relative
import Locator.Resolver.Session

/-!
# Resolving references

Displays refer to other resources by name. A name is tried as it stands and in the directory of the
display, first as a page and then as a file. Where a name has the legacy extension, the same name
with the current one goes first.
-/

namespace Locator.Resolver

open Files (FileSystem)

/-- What may stand in front of the name of a file. -/
def filePrefix : String := "file:"

/-- A name without the prefix for files. -/
def stripFilePrefix (name : String) : String :=
  if filePrefix.toList.isPrefixOf name.toList then
    String.ofList (name.toList.drop filePrefix.length)
  else name

/-- The name with the current extension, if it has the legacy one. -/
def upgrade? (settings : Settings) (name : String) : Option String :=
  let extension := '.' :: settings.legacyExtension.toList
  if extension.isSuffixOf name.toList then
    let stem := name.toList.take (name.length - extension.length)
    some (String.ofList (stem ++ '.' :: settings.currentExtension.toList))
  else none

/-- The absolute location of a file or directory, if there is one. -/
def existing? (files : FileSystem) (candidate : String) : Option String :=
  if files.exists? candidate then some (files.absolute candidate) else none

namespace Action

/-- Looks for a resource under its name and in the directory of its parent. -/
def find (parent : Option String) (name : String) : Action (Option String) := do
  if ← canOpenUrl name then return some name
  else
    let combined := Path.combine parent name
    if ← canOpenUrl combined then return some combined
    else
      let files := (← get).files
      return (existing? files name).or (existing? files combined)

/-- Looks for the resource of a name with its extension upgraded. -/
def findUpgraded (settings : Settings) (parent : Option String) (name : String) :
    Action (Option String) :=
  match upgrade? settings name with
  | some upgraded => find parent upgraded
  | none => return none

/-- Where a name leads. A name that leads nowhere stays as it is. -/
def resolve (settings : Settings) (parent : Option String) (name : String) : Action String := do
  let name := stripFilePrefix name
  match ← findUpgraded settings parent name with
  | some found =>
    report (.debug ("Resolved " ++ name ++ " to newer " ++ found))
    return found
  | none =>
    match ← find parent name with
    | some found =>
      report (.debug ("Resolved " ++ name ++ " to " ++ found))
      return found
    | none =>
      report (.debug ("Cannot resolve " ++ name ++ ", keeping it as given"))
      return name

end Action

end Locator.Resolver
