import SourceTally.Error
import SourceTally.Profile.Builtin

/-!
# Registries

A registry holds the known languages in the order in which they were registered. No two of them
have the same id, letter case aside: a second one is refused or takes the place of the first,
moving to the end. A file belongs to the language that claims its name, or else the longest
extension of its name; where several languages claim the same, the last one in the registry has it.

Look-ups go through indexes, which hold positions in the list of profiles. Every change of the list
makes the indexes anew.
-/

namespace SourceTally

/-- What happens to a profile whose id is taken. -/
inductive DuplicatePolicy where
  | reject
  | replace
  deriving DecidableEq, Repr

/-- The name of the policy in structured output. -/
def DuplicatePolicy.name : DuplicatePolicy → String
  | .reject => "reject"
  | .replace => "replace"

/-- The id of the profile, letter case aside. -/
def Profile.key (p : Profile) : String :=
  Text.lower p.id

/-- The file names that the profile claims, letter case aside. -/
def Profile.fileNameKeys (p : Profile) : List String :=
  p.fileNames.map Text.lower

/-- The profile that a declaration describes. -/
def Declaration.profile (d : Declaration) : Except Error Profile :=
  match d.toProfile with
  | .ok p => .ok p
  | .error fault => .error (.invalidProfile d.id fault)

/-- Positions of profiles by the keys that they are looked up with. The first position of a key is
the one that counts. -/
abbrev Index := List (String × Nat)

/-- The index of the profiles by the given keys. Later profiles come first, so that they take
precedence over earlier ones. -/
def Index.ofProfiles (keys : Profile → List String) (profiles : List Profile) : Index :=
  (profiles.zipIdx.flatMap fun (p, position) => (keys p).map (·, position)).reverse

/-- The known languages. -/
structure Registry where
  profiles : List Profile := []
  /-- The positions of the profiles by id, letter case aside. -/
  idIndex : Index := []
  /-- By file name, letter case aside. -/
  fileNameIndex : Index := []
  extensionIndex : Index := []
  policy : DuplicatePolicy := .reject
  deriving DecidableEq, Repr

namespace Registry

/-- The registry with the given profiles in place of its own. -/
def withProfiles (r : Registry) (profiles : List Profile) : Registry :=
  { r with
    profiles := profiles
    idIndex := .ofProfiles (fun p => [p.key]) profiles
    fileNameIndex := .ofProfiles Profile.fileNameKeys profiles
    extensionIndex := .ofProfiles Profile.extensions profiles }

/-- The profile of an id, letter case aside. -/
def get? (r : Registry) (id : String) : Option Profile :=
  (r.idIndex.lookup (Text.lower id)).bind (r.profiles[·]?)

/-- Adds a profile, and gives the one that it replaces. The registry is given back in any case. -/
def register (r : Registry) (p : Profile) : Registry × Except Error (Option Profile) :=
  match p.fault? with
  | some fault => (r, .error (.invalidProfile p.id fault))
  | none =>
    match r.idIndex.lookup p.key with
    | none => (r.withProfiles (r.profiles ++ [p]), .ok none)
    | some position =>
      match r.policy with
      | .reject => (r, .error (.duplicateProfile p.id))
      | .replace =>
        (r.withProfiles (r.profiles.eraseIdx position ++ [p]), .ok r.profiles[position]?)

/-- Adds profiles in order up to the first that is refused; those before it stay. -/
def registerAll (r : Registry) : List Profile → Registry × Except Error Unit
  | [] => (r, .ok ())
  | p :: ps =>
    match r.register p with
    | (r', .error e) => (r', .error e)
    | (r', .ok _) => r'.registerAll ps

/-- Adds the declared profiles. None is added unless all declarations are sound. -/
def load (r : Registry) (declarations : List Declaration) : Registry × Except Error Unit :=
  match declarations.mapM Declaration.profile with
  | .error e => (r, .error e)
  | .ok ps => r.registerAll ps

/-- The registry of the built-in languages. -/
def builtin : Registry :=
  (load {} Profile.builtin).1

/-! ## Looking up files -/

/-- What follows each dot, the longest first. -/
def afterDots : List Char → List (List Char)
  | [] => []
  | c :: cs => if c = '.' then cs :: afterDots cs else afterDots cs

/-- The position of the profile that a file name belongs to. -/
def position? (r : Registry) (name : String) : Option Nat :=
  let low := Text.lower name
  match r.fileNameIndex.lookup low with
  | some position => some position
  | none =>
    let candidates := ((afterDots low.toList).filter (· ≠ [])).map String.ofList
    candidates.findSome? fun e => r.extensionIndex.lookup e

/-- The profile that a file name belongs to. -/
def byFileName? (r : Registry) (name : String) : Option Profile :=
  (r.position? name).bind (r.profiles[·]?)

/-- The profile of the file that a path names. A file whose name is not text has none. -/
def resolvePath (r : Registry) (path : Path) : Except Error Profile :=
  match (path.fileName?.bind Name.text?).bind r.byFileName? with
  | some p => .ok p
  | none => .error (.unknownLanguage path.text)

/-- The profile of an id, or else of a file name or path. -/
def resolve (r : Registry) (name : String) : Except Error Profile :=
  match r.get? name with
  | some p => .ok p
  | none =>
    match r.byFileName? (((Path.ofText name).fileName?.bind Name.text?).getD name) with
    | some p => .ok p
    | none => .error (.unknownLanguage name)

/-- Some profile claims the file that a path names. -/
def knows (r : Registry) (path : Path) : Bool :=
  (r.resolvePath path).isOk

end Registry

end SourceTally
