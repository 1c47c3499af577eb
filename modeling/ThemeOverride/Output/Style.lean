import ThemeOverride.Journal
import ThemeOverride.Output.Writer
import ThemeOverride.Override.Resource
import ThemeOverride.Settings.Basic

/-!
# Style files

The style file of an override lies beside its scripts and is named for the resource.

## Main definitions

* `ThemeOverride.createStyle`: writes a style file where there is none.
-/

namespace ThemeOverride

/-- The path of the style file of a resource. -/
def stylePath (settings : Settings) (directory : Path) (resourceName : String) : Path :=
  directory.child (resourceName ++ settings.styleExtension)

/-- The warning that a file is there and stays as it is. -/
def existsNote (fileName : String) : Note :=
  .caution ("File " ++ fileName ++ " exists and will not be overwritten")

/-- Writes a style file where there is none; gives its path if it did, and what is noted. -/
def createStyle (d : Disk) (settings : Settings) (directory : Path) (resourceName : String)
    (option : StyleOption) : Disk × List Note × Except Failure (Option Path) :=
  let p := stylePath settings directory resourceName
  match option.render? resourceName with
  | none => (d, [], .error .keptStyle)
  | some content =>
    match writeNew d p content with
    | (d, .error f) => (d, [], .error f)
    | (d, .ok true) => (d, [], .ok (some p))
    | (d, .ok false) => (d, [existsNote p.name], .ok none)

end ThemeOverride
