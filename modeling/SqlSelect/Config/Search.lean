import SqlSelect.Config.FileSystem
import SqlSelect.Config.Settings

/-!
# Searching for a Configuration File

The configuration file of a directory is the nearest one: its own, else that of its parent, and so
on.  The first file that exists decides; if it cannot be read, no other is tried.

## Main definitions

- `candidates` — the paths where a file is looked for, in order
- `loadSettings` — the settings of the first file that exists, with its path
-/

namespace SqlSelect

def candidates (start : Path) : List Path := start.ancestors.map (·.child configFile)

/-- The settings of the file at a path. -/
def readSettings (fs : FileSystem) (p : Path) : Except ConfigError RenderSettings :=
  match fs.readText p with
  | some text => RenderSettings.parse text
  | none => .error .unreadable

/-- The settings of the nearest file from a directory up, and the path of that file. -/
def loadSettings (fs : FileSystem) (start : Path) : Except ConfigError (RenderSettings × Path) :=
  match (candidates start).find? fs.exists? with
  | some p => return (← readSettings fs p, p)
  | none => .error .notFound

/-- The settings of the nearest file from the working directory up. -/
def loadSettingsHere (fs : FileSystem) : Except ConfigError (RenderSettings × Path) :=
  loadSettings fs ⟨true, fs.workingDirectory⟩

end SqlSelect
