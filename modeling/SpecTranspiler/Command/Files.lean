import SpecTranspiler.Assoc

/-!
# Files

The command reads and writes whole files. `MonadFiles` is what it needs of its
surroundings, and `FileSystem` a tree of files and directories in memory that provides it.
-/

namespace SpecTranspiler

/-- Why a file cannot be read or written. -/
inductive FileError where
  | notFound
  | notDirectory
  | isDirectory
  | invalidText
  | other (message : String)
  deriving DecidableEq, Repr

/-- The text of a file error. -/
def FileError.message : FileError → String
  | .notFound => "No such file or directory (os error 2)"
  | .notDirectory => "Not a directory (os error 20)"
  | .isDirectory => "Is a directory (os error 21)"
  | .invalidText => "stream did not contain valid UTF-8"
  | .other message => message

/-- Surroundings in which whole files are read and written. -/
class MonadFiles (m : Type → Type) where
  readFile : String → m (Except FileError ByteArray)
  writeFile : String → ByteArray → m (Except FileError Unit)

/-- An entry of a file system. -/
inductive Entry where
  | file (content : ByteArray)
  | directory

/-- A tree of files and directories below a working directory, listed by their paths. The
working directory is the root of the tree: nothing lies above it or beside it. There are no
links, so that every entry has one path. -/
structure FileSystem where
  entries : Assoc (List String) Entry

namespace FileSystem

/-- A file system with nothing in it. -/
def empty : FileSystem := ⟨[]⟩

/-- The entry at a path. The working directory itself has the empty path. -/
def get? (files : FileSystem) (path : List String) : Option Entry :=
  if path = [] then some .directory else files.entries.lookup path

/-- Put an entry at a path. -/
def put (files : FileSystem) (path : List String) (entry : Entry) : FileSystem :=
  ⟨files.entries.insert path entry⟩

/-- The names that a path is made of. The one in front of a leading slash is empty. -/
def names (path : String) : List String :=
  (path.toList.splitOn '/').map String.ofList

/-- Follow names from a directory, which is given from the inside outwards. Every name but
the last has to lead to a directory. An empty name leads nowhere else, so that a path with a
slash in front starts at the working directory as others do, and `..` leads from the working
directory back to it. -/
def follow (files : FileSystem) : List String → List String → Except FileError (List String)
  | place, [] => .ok place.reverse
  | place, name :: rest =>
      match files.get? place.reverse with
      | none => .error .notFound
      | some (.file _) => .error .notDirectory
      | some .directory =>
          if name = "" ∨ name = "." then files.follow place rest
          else if name = ".." then files.follow (place.drop 1) rest
          else files.follow (name :: place) rest

/-- The content of the file at a path. -/
def read (files : FileSystem) (path : String) : Except FileError ByteArray :=
  match files.follow [] (names path) with
  | .error error => .error error
  | .ok place =>
      match files.get? place with
      | none => .error .notFound
      | some .directory => .error .isDirectory
      | some (.file content) => .ok content

/-- Write a file at a path. A path that ends in a slash names a directory. -/
def write (files : FileSystem) (path : String) (content : ByteArray) :
    Except FileError FileSystem :=
  let parts := names path
  let trimmed := (parts.reverse.dropWhile (· == "")).reverse
  match files.follow [] trimmed with
  | .error error => .error error
  | .ok place =>
      match files.get? place with
      | some .directory => .error .isDirectory
      | _ =>
          if trimmed.length < parts.length then .error .isDirectory
          else .ok (files.put place (.file content))

/-- Create a directory with those above it. -/
def createDirectory (files : FileSystem) (path : String) : FileSystem :=
  let step (state : FileSystem × List String) (name : String) : FileSystem × List String :=
    let place := state.2 ++ [name]
    if (state.1.get? place).isSome then (state.1, place)
    else (state.1.put place .directory, place)
  (((names path).filter (· ≠ "")).foldl step (files, [])).1

/-- Create a file with the directories above it. -/
def createFile (files : FileSystem) (path : String) (content : ByteArray) : FileSystem :=
  let parts := (names path).filter (· ≠ "")
  (files.createDirectory (String.intercalate "/" parts.dropLast)).put parts (.file content)

/-- The entries below the working directory by the text of their paths, where that of a
directory ends in a slash. -/
def list (files : FileSystem) : List (String × Option ByteArray) :=
  files.entries.map fun (path, entry) =>
    match entry with
    | .file content => (String.intercalate "/" path, some content)
    | .directory => (String.intercalate "/" path ++ "/", none)

end FileSystem

instance : MonadFiles (StateM FileSystem) where
  readFile path := fun files => (files.read path, files)
  writeFile path content := fun files =>
    match files.write path content with
    | .ok files => (.ok (), files)
    | .error error => (.error error, files)

end SpecTranspiler
