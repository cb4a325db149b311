import SourceTally.Path.Basic

/-!
# File trees

A tree is what a program finds on a file system: files, directories and symbolic links, each at a
location. A location lists the names from the entry up to the root, so that the location of a
directory is the tail of those of its entries; the root itself is always a directory.

Following a path reads its steps from left to right. A link is replaced by its target, and after
forty links the path is given up. Entries are made in the same way: directories that a path lacks
are added, and a file is written through the links that lead to it.
-/

namespace SourceTally

/-- The names from an entry up to the root. -/
abbrev Location := List Name

/-- What stands at a location. -/
inductive Entry where
  | file (bytes : List UInt8)
  /-- A file that exists and cannot be read. -/
  | unreadable
  | link (target : Path)
  | directory
  deriving DecidableEq, Repr

/-- The entry is a file, readable or not. -/
def Entry.isFile : Entry → Bool
  | .file _ => true
  | .unreadable => true
  | _ => false

/-- Why a file could not be read. -/
inductive ReadFailure where
  | notFound
  | notDirectory
  | isDirectory
  | tooManyLinks
  | inputOutput
  | invalidText
  deriving DecidableEq, Repr

/-- The failure, said to a user. -/
def ReadFailure.message : ReadFailure → String
  | .notFound => "No such file or directory (os error 2)"
  | .notDirectory => "Not a directory (os error 20)"
  | .isDirectory => "Is a directory (os error 21)"
  | .tooManyLinks => "Too many levels of symbolic links (os error 40)"
  | .inputOutput => "Input/output error (os error 5)"
  | .invalidText => "stream did not contain valid UTF-8"

/-- The entries of a file system, and the directory that relative paths start from. -/
structure FileTree where
  entries : List (Location × Entry) := []
  workingDirectory : Location := []
  deriving DecidableEq, Repr

namespace FileTree

/-- What stands at a location. -/
def entry? (t : FileTree) (location : Location) : Option Entry :=
  if location = [] then some .directory else t.entries.lookup location

/-- The tree with an entry at a location, in place of what stands there. -/
def insert (t : FileTree) (location : Location) (entry : Entry) : FileTree :=
  { t with entries := t.entries.filter (·.1 ≠ location) ++ [(location, entry)] }

/-- The steps of a path. Empty steps count for nothing, but a path that ends in a slash must lead
to a directory, which a last step of `.` sees to. -/
def steps (p : Path) : List Name :=
  let pieces := (Text.split Path.slash p.bytes).filter (· ≠ [])
  let steps := pieces.map Name.mk
  if p.bytes.getLast? = some Path.slash then steps ++ [.current] else steps

/-- Where a path starts when it is read in a directory. -/
def start (p : Path) (directory : Location) : Location :=
  if p.isAbsolute then [] else directory

/-- Where steps lead from a location, when at most `links` links may be followed. -/
def follow (t : FileTree) (links : Nat) (location : Location) (path : List Name) :
    Except ReadFailure Location :=
  match path with
  | [] => .ok location
  | step :: rest =>
    match t.entry? location with
    | some .directory =>
      if step = .current then t.follow links location rest
      else if step = .parent then t.follow links location.tail rest
      else
        match t.entry? (step :: location) with
        | none => .error .notFound
        | some (.link target) =>
          match links with
          | 0 => .error .tooManyLinks
          | links + 1 =>
            t.follow links (start target location) (steps target ++ rest)
        | some _ => t.follow links (step :: location) rest
    | _ => .error .notDirectory
termination_by (links, path.length)

/-- The number of links that a path may lead through. -/
def maxLinks : Nat := 40

/-- The location that a path leads to. -/
def resolve (t : FileTree) (p : Path) : Except ReadFailure Location :=
  if p.bytes = [] then .error .notFound
  else t.follow maxLinks (start p t.workingDirectory) (steps p)

/-- Something stands where the path leads. -/
def pathExists (t : FileTree) (p : Path) : Bool :=
  (t.resolve p).isOk

/-- What the path leads to. -/
def find? (t : FileTree) (p : Path) : Option Entry :=
  (t.resolve p).toOption.bind t.entry?

/-- The path leads to a file. -/
def isFile (t : FileTree) (p : Path) : Bool :=
  (t.find? p).any Entry.isFile

/-- The bytes of the file that the path leads to. -/
def read (t : FileTree) (p : Path) : Except ReadFailure (List UInt8) := do
  let location ← t.resolve p
  match t.entry? location with
  | some (.file bytes) => return bytes
  | some .directory => throw .isDirectory
  | some .unreadable => throw .inputOutput
  | _ => throw .notFound

/-- The text of the file that the path leads to, which must be valid. -/
def readText (t : FileTree) (p : Path) : Except ReadFailure String := do
  let bytes ← t.read p
  match Text.decode? bytes with
  | some text => return String.ofList text
  | none => throw .invalidText

/-! ## Making entries -/

/-- The directory that steps lead to from another one, and the tree with the directories that were
missing on the way. A file or a broken link in the way ends it. -/
def makeDirectories (t : FileTree) (location : Location) :
    List Name → Option (FileTree × Location)
  | [] => some (t, location)
  | step :: rest =>
    if step = .current then t.makeDirectories location rest
    else if step = .parent then t.makeDirectories location.tail rest
    else
      match t.entry? (step :: location) with
      | none => (t.insert (step :: location) .directory).makeDirectories (step :: location) rest
      | some .directory => t.makeDirectories (step :: location) rest
      | some _ =>
        match t.follow maxLinks location [step] with
        | .ok next =>
          if t.entry? next = some .directory then t.makeDirectories next rest else none
        | .error _ => none

/-- Where a file is written, when its name in a directory is written to and at most `links` links
may be followed: a link passes the writing on to its target, which need not exist. -/
def fileLocation? (t : FileTree) : (links : Nat) → (directory : Location) → (name : Name) →
    Option Location
  | 0, _, _ => none
  | links + 1, directory, name =>
    if name = .current ∨ name = .parent then none
    else
      match t.entry? (name :: directory) with
      | some .directory => none
      | some (.link target) => do
        let last ← (steps target).getLast?
        let place ← (t.follow links (start target directory) (steps target).dropLast).toOption
        if t.entry? place = some .directory then t.fileLocation? links place last else none
      | _ => some (name :: directory)

/-- The tree with an entry of a name in a directory. Files are written through links; a link or a
directory is made only where nothing stands. -/
def insertIn (t : FileTree) (directory : Location) (name : Name) (entry : Entry) : FileTree :=
  match entry with
  | .file _ | .unreadable =>
    match t.fileLocation? (maxLinks + 1) directory name with
    | some location => t.insert location entry
    | none => t
  | .link _ | .directory =>
    if name = .current ∨ name = .parent ∨ t.entry? (name :: directory) ≠ none then t
    else t.insert (name :: directory) entry

/-- The tree with an entry where a path points, and with the directories on the way there. It stays
as it is where a file system refuses the entry. -/
def insertAt (t : FileTree) (p : Path) (entry : Entry) : FileTree :=
  match (steps p).getLast?, t.makeDirectories (start p t.workingDirectory) (steps p).dropLast with
  | some name, some (t, directory) => t.insertIn directory name entry
  | _, _ => t

/-- The tree as it is seen from the directory that a path points to, which is made if missing. -/
def enter (t : FileTree) (p : Path) : FileTree :=
  match t.makeDirectories (start p t.workingDirectory) (steps p) with
  | some (t, directory) => { t with workingDirectory := directory }
  | none => t

end FileTree

end SourceTally
