import SourceTally.Toml.Entries
import SourceTally.Toml.Quoted

/-!
# Reading TOML

The lines of a document are statements: a key with its value, or a header. Readers take what they
read from the front of a text and give back the rest. Values may be nested 79 deep, which is what
the reader of values recurses on. The loops inside it take at least one character each time round,
so a text as long as the one they begin with, from which they drop a character each time, is room
enough for them.
-/

namespace SourceTally.Toml

/-- A line of a document. -/
inductive Statement where
  | pair (key : Key) (value : Value)
  | header (key : Key)
  | arrayHeader (key : Key)

/-- The text without the spaces and tabs in front. -/
def skipBlanks (text : List Char) : List Char :=
  text.dropWhile isBlank

/-- The text without the blanks, line breaks and comments in front; `inComment` says that it begins
inside a comment. -/
def skipTrivia (inComment : Bool) : List Char → List Char
  | [] => []
  | '\r' :: '\n' :: rest => skipTrivia false rest
  | c :: rest =>
    if inComment && isPlain c then skipTrivia true rest
    else if isBlank c || c == '\n' then skipTrivia false rest
    else if c == '#' then skipTrivia true rest
    else c :: rest

/-! ## Keys -/

/-- The character may stand in a key without quotes. -/
def isBare (c : Char) : Bool :=
  c.isAlphanum || c == '_' || c == '-'

/-- Reads a part of a key. -/
def keyPart (text : List Char) : Option (String × List Char) :=
  match simpleString text with
  | some (s, rest) => some (String.ofList s, rest)
  | none =>
    let bare := text.takeWhile isBare
    if bare.isEmpty then none else some (String.ofList bare, text.dropWhile isBare)

/-- Reads the parts of a key and the blanks around them, given room for each part. -/
def keyParts : (room text : List Char) → Option (Key × List Char)
  | [], _ => none
  | _ :: room, text =>
    match keyPart (skipBlanks text) with
    | none => none
    | some (part, rest) =>
      match skipBlanks rest with
      | '.' :: rest => (keyParts room rest).map fun (parts, rest) => (part :: parts, rest)
      | rest => some ([part], rest)

/-- The limit of nesting, for keys and for values. -/
def nestingLimit : Nat := 80

/-- Reads a key and the blanks around it. -/
def key (text : List Char) : Option (Key × List Char) := do
  let (parts, rest) ← keyParts text text
  if parts.length < nestingLimit then return (parts, rest) else none

/-- Reads a key, an equals sign and a value. -/
def pair (value : List Char → Option (Value × List Char)) (text : List Char) :
    Option ((Key × Value) × List Char) := do
  match ← key text with
  | (k, '=' :: rest) =>
    let (v, rest) ← value (skipBlanks rest)
    return ((k, v), rest)
  | _ => none

/-! ## Values -/

/-- The character may stand in a number, a date or a word. -/
def isWordChar (c : Char) : Bool :=
  c.isAlphanum || c == '_' || c == '+' || c == '-' || c == '.' || c == ':'

/-- Reads a number, a date, or one of the words for true and false. A date and a time may be
divided by a space. -/
def word (text : List Char) : Option (Value × List Char) :=
  let first := text.takeWhile isWordChar
  let rest := text.dropWhile isWordChar
  if first = ['t', 'r', 'u', 'e'] then some (.boolean true, rest)
  else if first = ['f', 'a', 'l', 's', 'e'] then some (.boolean false, rest)
  else
    match isDate first, rest with
    | true, ' ' :: c :: more =>
      if c.isDigit then
        let time := (c :: more).takeWhile isWordChar
        if isDateTime (first ++ 'T' :: time) then
          some (.number, (c :: more).dropWhile isWordChar)
        else none
      else some (.number, rest)
    | true, _ => some (.number, rest)
    | false, _ => if isNumber first then some (.number, rest) else none

/-- Reads the values behind an opening bracket or a comma, up to the closing bracket, given room
for each value and for the bracket. -/
def items (value : List Char → Option (Value × List Char)) :
    (room text : List Char) → Option (List Value × List Char)
  | [], _ => none
  | _ :: room, text =>
    match skipTrivia false text with
    | ']' :: rest => some ([], rest)
    | start =>
      match value start with
      | none => none
      | some (v, rest) =>
        match skipTrivia false rest with
        | ']' :: rest => some ([v], rest)
        | ',' :: rest => (items value room rest).map fun (vs, rest) => (v :: vs, rest)
        | _ => none

/-- Reads the pairs behind an opening brace or a comma, up to the closing brace, given room for
each pair. -/
def pairs (value : List Char → Option (Value × List Char)) :
    (room text : List Char) → Option (List (Key × Value) × List Char)
  | [], _ => none
  | _ :: room, text =>
    match pair value text with
    | none => none
    | some (p, rest) =>
      match skipBlanks rest with
      | '\x7d' :: rest => some ([p], rest)
      | ',' :: rest => (pairs value room rest).map fun (ps, rest) => (p :: ps, rest)
      | _ => none

/-- Reads the pairs of a table behind its opening brace. -/
def inlineTable (value : List Char → Option (Value × List Char)) (text : List Char) :
    Option (Value × List Char) :=
  match skipBlanks text with
  | '\x7d' :: rest => some (.table .inline [], rest)
  | start => do
    let (ps, rest) ← pairs value start start
    let entries ← Entries.addPairs .inline [] ps
    return (.table .inline entries, rest)

/-- Reads a value that may hold others to the given depth. -/
def value (depth : Nat) (text : List Char) : Option (Value × List Char) :=
  match depth, text with
  | depth + 1, '[' :: rest =>
    (items (value depth) rest rest).map fun (vs, rest) => (.array vs, rest)
  | depth + 1, '\x7b' :: rest => inlineTable (value depth) rest
  | _, '"' :: rest => (string ('"' :: rest)).map fun (s, rest) => (.text (String.ofList s), rest)
  | _, '\'' :: rest => (string ('\'' :: rest)).map fun (s, rest) => (.text (String.ofList s), rest)
  | _, text => word text

/-! ## Lines -/

/-- What follows the end of a line, when only a comment stands before it. -/
def lineEnd (text : List Char) : Option (List Char) :=
  let rest :=
    match skipBlanks text with
    | '#' :: rest => rest.dropWhile isPlain
    | rest => rest
  match rest with
  | [] => some []
  | '\n' :: rest => some rest
  | '\r' :: '\n' :: rest => some rest
  | _ => none

/-- Reads a line; a line may hold no statement. -/
def line (text : List Char) : Option (List Statement × List Char) :=
  match skipBlanks text with
  | [] => some ([], [])
  | '#' :: rest => (lineEnd ('#' :: rest)).map ([], ·)
  | '\n' :: rest => some ([], rest)
  | '\r' :: '\n' :: rest => some ([], rest)
  | '[' :: '[' :: rest => do
    match ← key rest with
    | (k, ']' :: ']' :: rest) => return ([.arrayHeader k], ← lineEnd rest)
    | _ => none
  | '[' :: rest => do
    match ← key rest with
    | (k, ']' :: rest) => return ([.header k], ← lineEnd rest)
    | _ => none
  | start => do
    let ((k, v), rest) ← pair (value (nestingLimit - 1)) start
    return ([.pair k v], ← lineEnd rest)

/-- Reads the lines of a document, given room for each line. -/
def lines : (room text : List Char) → Option (List Statement)
  | _, [] => some []
  | [], _ :: _ => none
  | _ :: room, c :: cs =>
    match line (c :: cs) with
    | none => none
    | some (statements, rest) => (lines room rest).map (statements ++ ·)

end SourceTally.Toml
