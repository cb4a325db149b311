import SourceTally.Profile.Valid

/-!
# Declared profiles

A declaration is a profile as a user writes it down: the name may be left out and is then the id, a
string's closing delimiter may be left out and is then its opening one, and the escape is a word.
`Declaration.toProfile` fills in what is left out and checks the result, and `Profile.declaration`
writes a profile down with nothing left out.
-/

namespace SourceTally

/-- A block comment as declared. -/
structure BlockDeclaration where
  opening : String
  closing : String
  nestable : Bool := false
  deriving DecidableEq, Repr

/-- A string as declared. -/
structure StringDeclaration where
  opening : String
  closing : Option String := none
  escape : Option String := none
  multiline : Bool := false
  deriving DecidableEq, Repr

/-- A language as declared. -/
structure Declaration where
  id : String
  name : Option String := none
  extensions : List String := []
  fileNames : List String := []
  lineComments : List String := []
  blockComments : List BlockDeclaration := []
  strings : List StringDeclaration := []
  deriving DecidableEq, Repr

/-- The escape that a word declares: `none`, `double`, or a character by itself. -/
def Escape.ofWord (word : String) : Except ProfileFault Escape :=
  if word = "none" then .ok .none
  else if word = "double" then .ok .doubled
  else
    match word.toList with
    | [c] => .ok (.char c)
    | _ => .error (.unknownEscape word)

/-- The delimiters that a block comment declares. -/
def BlockDeclaration.toPair (b : BlockDeclaration) : BlockPair :=
  ⟨b.opening.toList, b.closing.toList, b.nestable⟩

/-- The delimiters that a string declares. -/
def StringDeclaration.toPair (s : StringDeclaration) : Except ProfileFault StringPair := do
  let escape ← Escape.ofWord (s.escape.getD "none")
  return ⟨s.opening.toList, (s.closing.getD s.opening).toList, escape, s.multiline⟩

/-- The profile that a declaration describes, if it breaks no rule. Unknown escape words are
reported before anything else. -/
def Declaration.toProfile (d : Declaration) : Except ProfileFault Profile := do
  let strings ← d.strings.mapM StringDeclaration.toPair
  let bare : Profile :=
    { id := d.id
      name := d.name.getD d.id
      fileNames := d.fileNames
      lineComments := d.lineComments.map String.toList
      blockComments := d.blockComments.map BlockDeclaration.toPair
      strings := strings }
  let p := bare.withExtensions d.extensions
  match p.fault? with
  | none => return p
  | some fault => throw fault

/-! ## Writing profiles down -/

/-- The word that declares an escape. -/
def Escape.word : Escape → String
  | .none => "none"
  | .doubled => "double"
  | .char c => c.toString

/-- The declaration of a block comment. -/
def BlockPair.declaration (b : BlockPair) : BlockDeclaration :=
  ⟨String.ofList b.opening, String.ofList b.closing, b.nestable⟩

/-- The declaration of a string. -/
def StringPair.declaration (s : StringPair) : StringDeclaration :=
  ⟨String.ofList s.opening, some (String.ofList s.closing), some s.escape.word, s.multiline⟩

/-- The declaration of a profile. -/
def Profile.declaration (p : Profile) : Declaration :=
  { id := p.id
    name := some p.name
    extensions := p.extensions
    fileNames := p.fileNames
    lineComments := p.lineComments.map String.ofList
    blockComments := p.blockComments.map BlockPair.declaration
    strings := p.strings.map StringPair.declaration }

end SourceTally
