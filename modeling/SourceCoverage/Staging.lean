import SourceCoverage.Workspace.Script

namespace SourceCoverage

/-- Operations that are tried again. What is not there will not be there the next time. -/
def retrying {m : Type → Type} [Monad m] {α : Type} (operation : m (Except FileError α)) :
    (again : Nat) → m (Except FileError α)
  | 0 => operation
  | again + 1 => do
    match ← operation with
    | .ok value => return .ok value
    | .error e => if e.kind == .notFound then return .error e else retrying operation again

/-- How often an operation is tried again after its first failure. -/
def retries : Nat := 2

def Script.persist {α : Type} (operation : Script (Except FileError α)) : Attempt FileError α :=
  retrying operation retries

namespace Staging

/-- The name under which contents wait beside their target. -/
def temporary (target : Path) (tag : String) : Path :=
  target.withFileName (target.fileName?.getD "file" ++ ".tmp." ++ tag)

def makeDirectory (path : Path) : Attempt FileError Unit := Script.perform (.makeDirectory path)

/-- A failure to make a directory does not count if it is there. -/
def unlessDirectory (path : Path) (e : FileError) : Attempt FileError Unit := do
  if ← Script.perform (.isDirectory path) then return
  throw e

/-- The name for which a temporary name waits. -/
def targetName? (name : String) : Option String :=
  match (name.splitOn ".tmp.").reverse with
  | tag :: before :: more =>
    if (tag.splitOn ".").all isNumber then some (".tmp.".intercalate (before :: more).reverse) else none
  | _ => none
where
  isNumber (text : String) : Bool := !text.isEmpty && text.toList.all Char.isDigit

/-- Makes a directory and those above it; the path is the first of the list, then come its parents. -/
def makeAll : List Path → Attempt FileError Unit
  | [] => throw ⟨.other, "failed to create whole tree"⟩
  | path :: parents => do
    if path.text.isEmpty then return
    match ← (makeDirectory path).tried with
    | .ok () => return
    | .error e =>
      if e.kind != .notFound then unlessDirectory path e
      else
        makeAll parents
        match ← (makeDirectory path).tried with
        | .ok () => return
        | .error e => unlessDirectory path e

def makeDirectories (path : Path) : Attempt FileError Unit := makeAll (path.ancestors (path.text.length + 1))

/-- Makes the directory of a file. That someone else makes it meanwhile is no failure. -/
def ensureParent (path : Path) : Attempt FileError Unit := do
  match path.parent? with
  | none => return
  | some parent =>
    if parent.text.isEmpty then return
    if ← Script.perform (.isPresent parent) then return
    Script.persist do
      match ← (makeDirectories parent).outcome with
      | .error e => return if e.kind == .alreadyExists then .ok () else .error e
      | done => return done

/-- Contents that wait for their target. -/
structure Staged where
  temporary : Path
  target : Path
deriving DecidableEq, Repr

/-- Gives up what was staged. -/
def discard (staged : Staged) : Script Unit := do
  let _ ← Script.perform (.remove staged.temporary)

/-- Discards what was staged if an attempt fails. -/
def orDiscard {ε α : Type} (staged : Staged) (attempt : Attempt ε α) : Attempt ε α := do
  match ← attempt.tried with
  | .ok value => return value
  | .error e =>
    discard staged
    throw e

def stage (target : Path) (contents : Octets) : Attempt FileError Staged := do
  ensureParent target
  let tag ← Script.perform .freshTag
  let staged : Staged := ⟨temporary target tag, target⟩
  orDiscard staged (Script.persist (Script.perform (.write staged.temporary contents)))
  return staged

/-- Puts staged contents in their place. -/
def commit (staged : Staged) : Attempt FileError Path := do
  orDiscard staged (Script.persist (Script.perform (.rename staged.temporary staged.target)))
  return staged.target

def replace (target : Path) (contents : Octets) : Attempt FileError Unit := do
  let staged ← stage target contents
  let _ ← commit staged

/-- Removes a file that may be missing. -/
def removeIfPresent (path : Path) : Attempt FileError Unit := do
  match ← Attempt.tried (Script.perform (.remove path)) with
  | .error e => if e.kind == .notFound then return else throw e
  | .ok () => return

/-- Makes a directory unless something stands there. -/
def ensureDirectory (path : Path) : Attempt Failure Unit := do
  if ← Script.perform (.isPresent path) then return
  (makeDirectories path).mapError (.unwritable path)

/-- Writes a file and makes the directories above it. -/
def put (path : Path) (contents : Octets) : Attempt FileError Unit := do
  match path.parent? with
  | some parent => makeDirectories parent
  | none => pure ()
  Script.perform (.write path contents)

end Staging

end SourceCoverage
