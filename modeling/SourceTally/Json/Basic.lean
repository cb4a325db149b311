import SourceTally.Text.Pad

/-!
# JSON

Values and their text on several lines, two spaces to a level. Only quotes, backslashes and control
characters are escaped; of these, some have a letter of their own and the others are written with
four hexadecimal digits.
-/

namespace SourceTally

/-- A value of structured output. -/
inductive Json where
  | boolean (value : Bool)
  | number (value : Nat)
  | text (text : String)
  | array (items : List Json)
  /-- With the fields in the order in which they are shown. -/
  | object (fields : List (String × Json))

namespace Json

/-- A character between quotes. -/
def escapeChar (c : Char) : List Char :=
  match c with
  | '"' => ['\\', '"']
  | '\\' => ['\\', '\\']
  | '\n' => ['\\', 'n']
  | '\r' => ['\\', 'r']
  | '\t' => ['\\', 't']
  | '\x08' => ['\\', 'b']
  | '\x0c' => ['\\', 'f']
  | c =>
    if c.toNat < 0x20 then
      ['\\', 'u', '0', '0', Nat.digitChar (c.toNat / 16), Nat.digitChar (c.toNat % 16)]
    else [c]

/-- A text between quotes. -/
def quote (text : String) : String :=
  "\"" ++ String.ofList (text.toList.flatMap escapeChar) ++ "\""

/-- The beginning of a line at a level. -/
def newLine (level : Nat) : String :=
  "\n" ++ Text.fill ' ' (2 * level)

mutual

/-- The text of a value at a level. -/
def renderAt (level : Nat) : Json → String
  | .boolean b => if b then "true" else "false"
  | .number n => toString n
  | .text s => quote s
  | .array [] => "[]"
  | .array (item :: items) =>
    "[" ++ newLine (level + 1) ++ renderAt (level + 1) item ++ renderItems (level + 1) items ++
      newLine level ++ "]"
  | .object [] => "\x7b\x7d"
  | .object ((name, value) :: fields) =>
    "\x7b" ++ newLine (level + 1) ++ quote name ++ ": " ++ renderAt (level + 1) value ++
      renderFields (level + 1) fields ++ newLine level ++ "\x7d"

/-- The items of an array behind the first. -/
def renderItems (level : Nat) : List Json → String
  | [] => ""
  | item :: items => "," ++ newLine level ++ renderAt level item ++ renderItems level items

/-- The fields of an object behind the first. -/
def renderFields (level : Nat) : List (String × Json) → String
  | [] => ""
  | (name, value) :: fields =>
    "," ++ newLine level ++ quote name ++ ": " ++ renderAt level value ++
      renderFields level fields

end

/-- The text of a value. -/
def render (value : Json) : String :=
  renderAt 0 value

end Json

end SourceTally
