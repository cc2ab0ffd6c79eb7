import SqlSelect.Config.Path

/-!
# File Systems

A file system is a tree of directories and files.  A path is followed one part at a time, and every
part but the last has to lead to a directory.

## Main definitions

- `FileNode` — a directory with what stands in it, or a file
- `FileSystem` — the root, and the working directory
- `FileSystem.locate` — where a path leads
- `FileSystem.ofListing` — a file system of given directories and files
-/

namespace SqlSelect

/-! ## §1 Locations -/

/-- The names on the way from the root, none of them a dot or two. -/
abbrev Location := List String

namespace Location

/-- Where one part of a path leads from a directory. -/
def step (l : Location) (part : String) : Location :=
  if part = "" ∨ part = "." then l else if part = ".." then l.dropLast else l ++ [part]

/-- Where the parts of a path lead from a directory, one after the other, the directory first. -/
def trail (l : Location) : List String → List Location
  | [] => [l]
  | part :: parts => l :: trail (l.step part) parts

end Location

/-! ## §2 Trees -/

/-- What stands at a location. -/
inductive FileNode where
  | directory (entries : List (String × FileNode))
  | file (content : List UInt8)

namespace FileNode

/-- The entries of a directory with one more, which replaces that of the same name. -/
def putEntry (name : String) (node : FileNode) :
    List (String × FileNode) → List (String × FileNode)
  | [] => [(name, node)]
  | e :: entries => if e.1 = name then (name, node) :: entries else e :: putEntry name node entries

/-- The tree with a directory at a location and on the way there; a file stays. -/
def withDirectory : Location → FileNode → FileNode
  | [], node => node
  | _ :: _, file content => file content
  | name :: names, directory entries =>
    directory (putEntry name (withDirectory names ((entries.lookup name).getD (directory [])))
      entries)

/-- The tree with a file at a location, if its directory is there; an older file goes. -/
def withFile (content : List UInt8) : Location → FileNode → FileNode
  | [], _ => file content
  | _ :: _, file older => file older
  | name :: names, directory entries =>
    directory (putEntry name (withFile content names ((entries.lookup name).getD (directory [])))
      entries)

end FileNode

/-! ## §3 File systems -/

/-- A tree of files, seen from a directory in it. -/
structure FileSystem where
  root : FileNode
  /-- Where relative paths start. -/
  workingDirectory : Location

/-- What a path has led through from the root, the last node first. -/
abbrev Route := List (String × FileNode)

def Route.location (r : Route) : Location := (r.map (·.1)).reverse

namespace FileSystem

def nodeAt (fs : FileSystem) (r : Route) : FileNode :=
  match r with
  | [] => fs.root
  | (_, node) :: _ => node

/-- Follow one part of a path from a node, which has to be a directory. -/
def follow (fs : FileSystem) (r : Route) (part : String) : Option Route :=
  match fs.nodeAt r with
  | .file _ => none
  | .directory entries =>
    if part = "" ∨ part = "." then some r
    else if part = ".." then some r.tail
    else (entries.lookup part).map fun node => (part, node) :: r

/-- Where a path leads, if anything stands there. -/
def locate (fs : FileSystem) (p : Path) : Option Route := do
  let start ← if p.absolute then some [] else fs.workingDirectory.foldlM fs.follow []
  p.parts.foldlM fs.follow start

def lookup (fs : FileSystem) (p : Path) : Option FileNode := (fs.locate p).map fs.nodeAt

def exists? (fs : FileSystem) (p : Path) : Bool := (fs.lookup p).isSome

/-- The text of a file: nothing for a directory, or for bytes that are not UTF-8. -/
def readText (fs : FileSystem) (p : Path) : Option String :=
  match fs.lookup p with
  | some (.file content) => String.fromUTF8? ⟨content.toArray⟩
  | _ => none

/-- The file system seen from where a path leads, if anything stands there. -/
def enter (fs : FileSystem) (p : Path) : FileSystem :=
  match fs.locate p with
  | some r => { fs with workingDirectory := r.location }
  | none => fs

/-- The file system with every directory that parts lead to from the working directory. -/
def makeDirectories (fs : FileSystem) (parts : List String) : FileSystem :=
  { fs with
    root := (fs.workingDirectory.trail parts).foldl (fun node l => node.withDirectory l) fs.root }

/-- The file system with a file where a path leads, and the directories on the way. -/
def makeFile (fs : FileSystem) (p : Path) (content : List UInt8) : FileSystem :=
  let made := fs.makeDirectories p.parts.dropLast
  { made with
    root := made.root.withFile content (p.parts.foldl Location.step fs.workingDirectory) }

/-- The file system, seen from a directory, of directories and files that relative paths from there
lead to.  Of two contents of one file the later counts. -/
def ofListing (base : Location) (directories : List Path) (files : List (Path × List UInt8)) :
    FileSystem :=
  let empty : FileSystem := ⟨.directory [], base⟩
  let withDirectories := directories.foldl (fun fs p => fs.makeDirectories p.parts) empty
  files.foldl (fun fs f => fs.makeFile f.1 f.2) (withDirectories.makeDirectories [])

end FileSystem

end SqlSelect
