import RayCompiler.CommandLine.FileError
import RayCompiler.Text.Split

namespace RayCompiler

-- A place relative to the working directory: so many levels above it, then down by names. There are
-- no links, and no path is meant to climb above the working directory and come back to it by name.
structure FileLocation where
  above : Nat
  names : List String
deriving DecidableEq

namespace FileLocation

def here : FileLocation := ⟨0, []⟩

def enter (location : FileLocation) (name : String) : FileLocation :=
  { location with names := location.names ++ [name] }

def parent (location : FileLocation) : FileLocation :=
  if location.names = [] then ⟨location.above + 1, []⟩
  else { location with names := location.names.dropLast }

end FileLocation

inductive FileEntry where
  | file (bytes : ByteArray)
  | directory

-- The files and directories under the working directory, as far as they are known.
structure FileTree where
  entries : List (FileLocation × FileEntry)

-- A path taken apart: the directories on the way, the last name, and whether a slash follows it.
structure PathParts where
  directories : List String
  last : String
  slash : Bool

-- The names of a relative path. Slashes that follow one another count as one. Paths from the root
-- are not covered: a slash in front is passed over like any other.
def pathNames (path : String) : List String :=
  ((Text.split '/' path.toList).filter (!·.isEmpty)).map String.ofList

-- A path without a name leads nowhere.
def PathParts.ofString? (path : String) : Option PathParts :=
  let names := pathNames path
  match names.getLast? with
  | some last => some ⟨names.dropLast, last, path.toList.getLast? == some '/'⟩
  | none => none

-- The location that the last name of a path stands for. A dot or two dots stand for a directory.
def PathParts.target? (parts : PathParts) (directory : FileLocation) : Option FileLocation :=
  if parts.last = "." ∨ parts.last = ".." then none else some (directory.enter parts.last)

namespace FileTree

def empty : FileTree := ⟨[]⟩

-- The working directory and those above it are always there.
def entry? (tree : FileTree) (location : FileLocation) : Option FileEntry :=
  if location.names = [] then some .directory
  else (tree.entries.find? (·.1 == location)).map (·.2)

def step (tree : FileTree) (location : FileLocation) (name : String) :
    Except FileError FileLocation :=
  if name = "." then .ok location
  else if name = ".." then .ok location.parent
  else match tree.entry? (location.enter name) with
    | some .directory => .ok (location.enter name)
    | some (.file _) => .error .notDirectory
    | none => .error .notFound

-- Goes along directories from the working directory on. Two dots always lead a level up: the working
-- directory is meant to lie deeper below the root than a path climbs.
def walk (tree : FileTree) (names : List String) : Except FileError FileLocation :=
  names.foldlM tree.step .here

def read (tree : FileTree) (path : String) : Except FileError ByteArray := do
  let some parts := PathParts.ofString? path | throw .notFound
  let directory ← tree.walk parts.directories
  let some target := parts.target? directory | throw .isDirectory
  match tree.entry? target with
  | none => throw .notFound
  | some .directory => throw .isDirectory
  | some (.file bytes) => if parts.slash then throw .notDirectory else return bytes

-- Gives an entry to a location, in place of the one it had.
def put (tree : FileTree) (location : FileLocation) (entry : FileEntry) : FileTree :=
  if tree.entries.any (·.1 == location) then
    ⟨tree.entries.map fun (known, old) => if known = location then (known, entry) else (known, old)⟩
  else ⟨tree.entries ++ [(location, entry)]⟩

-- Replaces the contents of a file, or makes a new one in a directory that exists.
def write (tree : FileTree) (path : String) (bytes : ByteArray) : Except FileError FileTree := do
  let some parts := PathParts.ofString? path | throw .notFound
  let directory ← tree.walk parts.directories
  let some target := parts.target? directory | throw .isDirectory
  if parts.slash then throw .isDirectory
  match tree.entry? target with
  | some .directory => throw .isDirectory
  | some (.file _) => return tree.put target (.file bytes)
  | none => return tree.put target (.file bytes)

-- Adds an entry and the directories on its way.
def plant (tree : FileTree) (path : String) (entry : FileEntry) : FileTree :=
  let names := pathNames path
  let ways := (List.range names.length).map fun count => FileLocation.mk 0 (names.take count)
  let grown := ways.foldl
    (fun tree way => if (tree.entry? way).isSome then tree else tree.put way .directory) tree
  grown.put ⟨0, names⟩ entry

-- The files under the working directory that are new or hold other bytes than before.
def changes (before after : FileTree) : List (String × ByteArray) :=
  after.entries.filterMap fun (location, entry) =>
    match entry, before.entry? location with
    | .directory, _ => none
    | .file bytes, some (.file old) =>
      if old.data = bytes.data ∨ location.above ≠ 0 then none
      else some ("/".intercalate location.names, bytes)
    | .file bytes, _ =>
      if location.above ≠ 0 then none else some ("/".intercalate location.names, bytes)

end FileTree

end RayCompiler
