import SourceCoverage.Workspace.Disk
import SourceCoverage.Workspace.Script

namespace SourceCoverage

structure Workspace where
  disk : Disk := {}
  directory : Place := ⟨[], true⟩
  /-- Number of tags given so far. -/
  tags : Nat := 0
  /-- Printed texts, the last one first. -/
  printed : List Octets := []
  /-- What starting a program does to the disk, and how the program ends. There may be none. -/
  launch : Disk → Place → (program : String) → (arguments : List String) → Except FileError ExitStatus × Disk :=
    fun disk _ _ _ => (.error .notFound, disk)

namespace Workspace

/-- The path of the working directory, if it is still there. -/
def path? (w : Workspace) : Option Path :=
  if w.directory.lives then some ⟨"/" ++ "/".intercalate w.directory.location⟩ else none

def stat (w : Workspace) (path : Path) : Except FileError DiskEntry := w.disk.stat w.directory path

def isFile (w : Workspace) (path : Path) : Bool :=
  match w.stat path with
  | .ok (.file _) => true
  | _ => false

def isDirectory (w : Workspace) (path : Path) : Bool :=
  match w.stat path with
  | .ok .directory => true
  | _ => false

/-- The outcome of an operation that changes the disk or leaves everything as it was. -/
def updated (w : Workspace) : Except FileError Disk → Except FileError Unit × Workspace
  | .ok disk => (.ok (), { w with disk })
  | .error e => (.error e, w)

/-- What an action does to a workspace. -/
def perform : (action : Action) → Workspace → action.Answer × Workspace
  | .read path, w => (w.disk.read w.directory path, w)
  | .write path contents, w => w.updated (w.disk.write w.directory path contents)
  | .rename source target, w => w.updated (w.disk.rename w.directory source target)
  | .remove path, w => w.updated (w.disk.remove w.directory path)
  | .makeDirectory path, w => w.updated (w.disk.makeDirectory w.directory path)
  | .isFile path, w => (w.isFile path, w)
  | .isDirectory path, w => (w.isDirectory path, w)
  | .isPresent path, w => ((w.stat path).toOption.isSome, w)
  | .workingDirectory, w =>
    (match w.path? with
      | some path => .ok path
      | none => .error .notFound, w)
  | .freshTag, w => (s!"1.0.{w.tags}", { w with tags := w.tags + 1 })
  | .print text, w => ((), { w with printed := text :: w.printed })
  | .start program arguments, w =>
    let ended := w.launch w.disk w.directory program arguments
    (ended.1, { w with disk := ended.2 })

def run {α : Type} (w : Workspace) (script : Script α) : α × Workspace := script.run perform w

/-- Makes a directory the working directory. -/
def enter (w : Workspace) (path : Path) : Except FileError Workspace := do
  let found ← w.disk.find w.directory path
  match found.entry, found.name with
  | none, _ => throw .notFound
  | some (.file _), _ => throw .notADirectory
  | some .directory, none => return { w with directory := found.place }
  | some .directory, some _ => return { w with directory := ⟨found.location, true⟩ }

/-- Removes a file, or a directory with all that is in it. -/
def delete (w : Workspace) (path : Path) : Except FileError Workspace := do
  let found ← w.disk.find w.directory path
  match found.entry with
  | none => throw .notFound
  | some _ =>
    let gone := found.location
    let lives := w.directory.lives && !gone.isPrefixOf w.directory.location
    return { w with disk := w.disk.eraseTree gone, directory := { w.directory with lives } }

/-- Everything printed, in order. -/
def output (w : Workspace) : Octets := w.printed.reverse.flatten

end Workspace

end SourceCoverage
