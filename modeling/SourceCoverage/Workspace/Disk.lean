import SourceCoverage.Failure
import SourceCoverage.Octets

namespace SourceCoverage

namespace FileError

def notFound : FileError := ⟨.notFound, "No such file or directory (os error 2)"⟩

def permissionDenied : FileError := ⟨.permissionDenied, "Permission denied (os error 13)"⟩

def busy : FileError := ⟨.other, "Device or resource busy (os error 16)"⟩

def alreadyExists : FileError := ⟨.alreadyExists, "File exists (os error 17)"⟩

def notADirectory : FileError := ⟨.other, "Not a directory (os error 20)"⟩

def isADirectory : FileError := ⟨.other, "Is a directory (os error 21)"⟩

def nameTooLong : FileError := ⟨.other, "File name too long (os error 36)"⟩

def embeddedNul : FileError := ⟨.other, "file name contained an unexpected NUL byte"⟩

end FileError

/-- The names from the root to a file or directory. -/
abbrev DiskLocation := List String

inductive DiskEntry where
  | file (contents : Octets)
  | directory
deriving DecidableEq, Repr

/-- What stands where; no location has two entries. The root is always there. -/
structure Disk where
  entries : List (DiskLocation × DiskEntry) := []
deriving Repr

namespace Disk

def get? (disk : Disk) (location : DiskLocation) : Option DiskEntry :=
  if location.isEmpty then some .directory else disk.entries.lookup location

def erase (disk : Disk) (location : DiskLocation) : Disk := ⟨disk.entries.filter (·.1 != location)⟩

def insert (disk : Disk) (location : DiskLocation) (entry : DiskEntry) : Disk :=
  ⟨(disk.erase location).entries ++ [(location, entry)]⟩

/-- Removes an entry and what lies below it. -/
def eraseTree (disk : Disk) (location : DiskLocation) : Disk :=
  ⟨disk.entries.filter (! location.isPrefixOf ·.1)⟩

/-- What lies below a location, with the names from there on. -/
def below (disk : Disk) (location : DiskLocation) : List (DiskLocation × DiskEntry) :=
  (disk.entries.filter fun (other, _) => location.isPrefixOf other && other != location).map
    fun (other, entry) => (other.drop location.length, entry)

end Disk

/-- A directory in which names are looked up. One that was removed while in use does not live: it holds
no names any more, but it still knows what was above it. -/
structure Place where
  location : DiskLocation
  lives : Bool := true
deriving DecidableEq, Repr

/-- What a path leads to. -/
structure Found where
  /-- The directory of the last name. -/
  place : Place
  /-- The last name; nothing if the path ends in a dot, in two dots or at the root. -/
  name : Option String
  entry : Option DiskEntry
  /-- A slash follows the last name. -/
  slash : Bool
deriving Repr

namespace Found

def location (found : Found) : DiskLocation := found.place.location ++ found.name.toList

end Found

namespace Disk

def above (disk : Disk) (place : Place) : Place :=
  let location := place.location.dropLast
  ⟨location, disk.get? location == some .directory⟩

def longestName : Nat := 255

def longestPath : Nat := 4095

/-- What a name stands for in a directory. -/
def entryIn (disk : Disk) (place : Place) (name : String) : Except FileError (Option DiskEntry) :=
  if !place.lives then .ok none
  else if name.utf8ByteSize > longestName then .error .nameTooLong
  else .ok (disk.get? (place.location ++ [name]))

/-- Goes from a directory into the one that a name leads to. -/
def enter (disk : Disk) (place : Place) (name : String) : Except FileError Place := do
  if name == "." then return place
  else if name == ".." then return disk.above place
  else
    match ← disk.entryIn place name with
    | none => throw .notFound
    | some (.file _) => throw .notADirectory
    | some .directory => return ⟨place.location ++ [name], true⟩

def segments (path : Path) : List String :=
  ((Path.parts path.text.toList).filter (! ·.isEmpty)).map String.ofList

/-- Follows a path from a working directory up to its last name, which need not be there. -/
def find (disk : Disk) (workingDirectory : Place) (path : Path) : Except FileError Found := do
  if path.text.isEmpty then throw .notFound
  if path.text.toList.contains (Char.ofNat 0) then throw .embeddedNul
  if path.text.utf8ByteSize > longestPath then throw .nameTooLong
  let start : Place := if path.isAbsolute then ⟨[], true⟩ else workingDirectory
  let names := segments path
  let slash := path.text.endsWith "/"
  match names.getLast? with
  | none => return ⟨start, none, some .directory, slash⟩
  | some last =>
    let place ← names.dropLast.foldlM disk.enter start
    if last == "." then return ⟨place, none, some .directory, slash⟩
    else if last == ".." then return ⟨disk.above place, none, some .directory, slash⟩
    else return ⟨place, some last, ← disk.entryIn place last, slash⟩

/-- What a path stands for. A slash after a file's name asks for a directory. -/
def stat (disk : Disk) (workingDirectory : Place) (path : Path) : Except FileError DiskEntry := do
  let found ← disk.find workingDirectory path
  match found.entry with
  | none => throw .notFound
  | some (.file contents) => if found.slash then throw .notADirectory else return .file contents
  | some .directory => return .directory

def read (disk : Disk) (workingDirectory : Place) (path : Path) : Except FileError Octets := do
  match ← disk.stat workingDirectory path with
  | .file contents => return contents
  | .directory => throw .isADirectory

/-- Writes a file, a new one if need be; its directory has to be there. -/
def write (disk : Disk) (workingDirectory : Place) (path : Path) (contents : Octets) :
    Except FileError Disk := do
  let found ← disk.find workingDirectory path
  if found.name.isNone || found.slash || found.entry == some .directory then throw .isADirectory
  else if !found.place.lives then throw .notFound
  else return disk.insert found.location (.file contents)

def remove (disk : Disk) (workingDirectory : Place) (path : Path) : Except FileError Disk := do
  let found ← disk.find workingDirectory path
  match found.entry with
  | none => throw .notFound
  | some .directory => throw .isADirectory
  | some (.file _) => if found.slash then throw .notADirectory else return disk.erase found.location

def makeDirectory (disk : Disk) (workingDirectory : Place) (path : Path) : Except FileError Disk := do
  let found ← disk.find workingDirectory path
  if found.name.isNone || found.entry.isSome then throw .alreadyExists
  else if !found.place.lives then throw .notFound
  else return disk.insert found.location .directory

/-- Moves a file, in place of another if need be. -/
def rename (disk : Disk) (workingDirectory : Place) (source target : Path) : Except FileError Disk := do
  let origin ← disk.find workingDirectory source
  let goal ← disk.find workingDirectory target
  if origin.name.isNone || goal.name.isNone then throw .busy
  match origin.entry with
  | none => throw .notFound
  | some .directory => throw .isADirectory
  | some (.file contents) =>
    if !goal.place.lives then throw .notFound
    else if origin.slash || goal.slash then throw .notADirectory
    else if goal.entry == some .directory then throw .isADirectory
    else return (disk.erase origin.location).insert goal.location (.file contents)

end Disk

end SourceCoverage
