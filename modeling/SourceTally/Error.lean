import SourceTally.FileTree.Basic
import SourceTally.Path.Glob
import SourceTally.Profile.Valid
import SourceTally.Scan.State

/-!
# Errors

What can go wrong before or while files are counted, as causes. `Error.message` says them to a
user, and `Error.chain` adds the cause behind an error where there is one.
-/

namespace SourceTally

/-- Why something asked for cannot be done. -/
inductive Error where
  | unknownLanguage (name : String)
  | duplicateProfile (id : String)
  | invalidProfile (id : String) (fault : ProfileFault)
  /-- A language table or a settings file is not in the right form. -/
  | malformedTable (origin : String)
  | unreadableFile (path : Path) (failure : ReadFailure)
  | invalidGlob (pattern : String) (fault : Glob.Fault)
  | pathNotFound (path : Path)
  /-- A path that is not text has no place in structured output. -/
  | pathNotText
  /-- A number grew too large. -/
  | outOfRange (fault : Fault)
  deriving DecidableEq, Repr

namespace Error

/-- The error, said to a user. -/
def message : Error → String
  | .unknownLanguage name => "unknown language for '" ++ name ++ "'"
  | .duplicateProfile id => "language '" ++ id ++ "' is already registered"
  | .invalidProfile id fault => "invalid language '" ++ id ++ "': " ++ fault.message
  | .malformedTable origin => "failed to parse '" ++ origin ++ "'"
  | .unreadableFile path failure =>
    "failed to read file '" ++ path.text ++ "': " ++ failure.message
  | .invalidGlob pattern fault => "invalid glob pattern '" ++ pattern ++ "': " ++ fault.message
  | .pathNotFound path => "path does not exist: " ++ path.text
  | .pathNotText => "path contains invalid UTF-8 characters"
  | .outOfRange _ => "a count or a nesting depth is out of range"

/-- The error followed by its cause. -/
def chain : Error → String
  | .unreadableFile path failure =>
    (Error.unreadableFile path failure).message ++ ": " ++ failure.message
  | e => e.message

end Error

/-- A result that can fail by a fault, as one that can fail by an error. -/
def Fault.lift {α : Type} : Except Fault α → Except Error α
  | .ok a => .ok a
  | .error fault => .error (.outOfRange fault)

/-- The pattern of the given text. -/
def Glob.compile (pattern : String) : Except Error Glob :=
  match Glob.ofString pattern with
  | .ok g => .ok g
  | .error fault => .error (.invalidGlob pattern fault)

end SourceTally
