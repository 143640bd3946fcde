import SourceCoverage.Codec.Storing
import SourceCoverage.Command.Run
import SourceCoverage.ConcreteTree.Format
import SourceCoverage.Workspace.Disk

namespace SourceCoverage

namespace Machine

/-- A failed operation in the words that messages use. -/
def fileError : IO.Error → FileError
  | .noFileOrDirectory .. => .notFound
  | .noSuchThing .. => .notFound
  | .alreadyExists .. => .alreadyExists
  | .permissionDenied .. => .permissionDenied
  | .resourceBusy .. => .busy
  | .inappropriateType _ code _ => if code == 21 then .isADirectory else .notADirectory
  | e => ⟨.other, toString e⟩

def attempt {α : Type} (operation : IO α) : IO (Except FileError α) := do
  try return .ok (← operation)
  catch e => return .error (fileError e)

def read (path : Path) : IO (Except FileError Octets) := attempt do
  return (← IO.FS.readBinFile path.text).data.toList

/-- What stands at a path: a file, a directory or nothing. -/
def entry? (path : Path) : IO (Option DiskEntry) := do
  match ← read path with
  | .ok contents => return some (.file contents)
  | .error e => return if e == .isADirectory then some .directory else none

def isFile : Option DiskEntry → Bool
  | some (.file _) => true
  | _ => false

def perform (tags : IO.Ref Nat) : (action : Action) → IO action.Answer
  | .read path => read path
  | .write path contents => attempt (IO.FS.writeBinFile path.text ⟨contents.toArray⟩)
  | .rename source target => attempt (IO.FS.rename source.text target.text)
  | .remove path => attempt (IO.FS.removeFile path.text)
  | .makeDirectory path => attempt (IO.FS.createDir path.text)
  | .isFile path => return isFile (← entry? path)
  | .isDirectory path => return (← entry? path) == some .directory
  | .isPresent path => return (← entry? path).isSome
  | .workingDirectory => attempt do return ⟨(← IO.currentDir).toString⟩
  | .freshTag => do
    let count ← tags.modifyGet fun n => (n, n + 1)
    let process ← IO.rand 1 4194304
    let instant ← IO.monoNanosNow
    return s!"{process}.{instant}.{count}"
  | .print text => do (← IO.getStdout).write ⟨text.toArray⟩
  | .start _ _ => return .error ⟨.other, "programs cannot be started from here"⟩

def run {α : Type} (tags : IO.Ref Nat) : Script α → IO α
  | .done value => return value
  | .act action next => do run tags (next (← perform tags action))

/-- The trees of the sources that a command instruments. -/
def trees : Command → IO (List (Octets × ConcreteNode))
  | .instrument request => do
    let found ← request.sources.mapM fun path => do
      let source ← read path
      let tree ← read ⟨path.text ++ ".cst"⟩
      return match source, (tree.toOption.bind Json.read?).bind ConcreteNode.ofJson? with
        | .ok source, some tree => some (source, tree)
        | _, _ => none
    return found.filterMap id
  | _ => return []

def grammar (trees : List (Octets × ConcreteNode)) : Grammar := fun path source flags =>
  Grammar.ofConcrete (fun _ _ =>
    match trees.lookup source with
    | some tree => .ok tree
    | none => .error (.unparsable path ⟨1, 1⟩ "no syntax tree beside the source")) path source flags

end Machine

/-- Runs the command that the arguments ask for. -/
def runProgram (arguments : List String) : IO UInt32 := do
  match Command.ofWords ("coveron" :: arguments) with
  | .error .displayVersion =>
    IO.println "coveron 0.1.0"
    return 0
  | .error .displayHelp =>
    IO.println "usage: coveron <instrument|strip|init> [options] [files]"
    return 0
  | .error e =>
    IO.eprintln s!"error: {e.name}"
    return 2
  | .ok command =>
    let colored ← (← IO.getStdout).isTty
    let tags ← IO.mkRef 0
    let grammar := Machine.grammar (← Machine.trees command)
    match ← Machine.run tags (command.run .storing grammar colored).outcome with
    | .ok () => return 0
    | .error e =>
      IO.eprintln s!"Error: {e.message}"
      return 1

end SourceCoverage

def main (arguments : List String) : IO UInt32 := SourceCoverage.runProgram arguments
