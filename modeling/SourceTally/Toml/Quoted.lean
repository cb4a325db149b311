import SourceTally.Toml.Number

/-!
# TOML strings

Strings are written in four ways: in double quotes with escapes, in single quotes as they are, and
either of these in three quotes over several lines. A string is first cut off at its closing
quotes and its escapes are taken out afterwards. Line breaks inside a string are line feeds,
whichever way they are written.
-/

namespace SourceTally.Toml

/-- The character may stand in strings and comments as it is. -/
def isPlain (c : Char) : Bool :=
  c == '\t' || (0x20 ≤ c.toNat && c.toNat != 0x7F)

/-- The character is a space or a tab. -/
def isBlank (c : Char) : Bool :=
  c == ' ' || c == '\t'

/-- Behind an opening double quote: the string as written, and what follows the closing quote. -/
def cutQuoted : List Char → Option (List Char × List Char)
  | [] => none
  | '"' :: rest => some ([], rest)
  | '\\' :: c :: rest => (cutQuoted rest).map fun (s, r) => ('\\' :: c :: s, r)
  | c :: rest => (cutQuoted rest).map fun (s, r) => (c :: s, r)

/-- Behind an opening single quote: the string as written, and what follows the closing quote. -/
def cutLiteral : List Char → Option (List Char × List Char)
  | [] => none
  | '\'' :: rest => some ([], rest)
  | c :: rest => (cutLiteral rest).map fun (s, r) => (c :: s, r)

/-- Behind three opening quotes: the string as written, and what follows the closing quotes. One or
two quotes right before the closing ones belong to the string. -/
def cutMultiline (quote : Char) (escapes : Bool) : List Char → Option (List Char × List Char)
  | [] => none
  | c :: rest =>
    if c = quote && [quote, quote, quote, quote].isPrefixOf rest then
      some ([quote, quote], rest.drop 4)
    else if c = quote && [quote, quote, quote].isPrefixOf rest then some ([quote], rest.drop 3)
    else if c = quote && [quote, quote].isPrefixOf rest then some ([], rest.drop 2)
    else if escapes && c = '\\' then
      match rest with
      | [] => none
      | d :: rest => (cutMultiline quote escapes rest).map fun (s, r) => (c :: d :: s, r)
    else (cutMultiline quote escapes rest).map fun (s, r) => (c :: s, r)

/-- The character that a letter behind a backslash stands for. -/
def escaped? : Char → Option Char
  | 'b' => some '\x08'
  | 't' => some '\t'
  | 'n' => some '\n'
  | 'f' => some '\x0c'
  | 'r' => some '\r'
  | '"' => some '"'
  | '\\' => some '\\'
  | _ => none

/-- The character whose code point is written in `count` hexadecimal digits. -/
def codePoint? (count : Nat) (digits : List Char) : Option Char :=
  if digits.length = count then
    match plainNumber? 16 digits with
    | some n =>
      if n < 0xD800 || (0xDFFF < n && n < 0x110000) then some (Char.ofNat n) else none
    | none => none
  else none

/-- The escape that follows a backslash, and how many characters it takes. -/
def escape? : List Char → Option (Char × Nat)
  | 'u' :: rest => (codePoint? 4 (rest.take 4)).map (·, 5)
  | 'U' :: rest => (codePoint? 8 (rest.take 8)).map (·, 9)
  | c :: _ => (escaped? c).map (·, 1)
  | [] => none

/-- The string that is written with escapes on one line. -/
def unescape (text : List Char) : Option (List Char) :=
  match text with
  | [] => some []
  | c :: rest =>
    if c = '\\' then
      match escape? rest with
      | some (d, taken) => (unescape (rest.drop taken)).map (d :: ·)
      | none => none
    else if isPlain c then (unescape rest).map (c :: ·)
    else none
termination_by text.length
decreasing_by all_goals (simp only [List.length_cons, List.length_drop]; omega)

/-- Blanks and then a line break come next. -/
def atLineBreak (text : List Char) : Bool :=
  match text.dropWhile isBlank with
  | '\n' :: _ => true
  | '\r' :: '\n' :: _ => true
  | _ => false

/-- The string that is written over several lines. A backslash at the end of a line takes the line
break and all white space up to the next other character; `skipping` says that it is doing so. -/
def unescapeLines (escapes : Bool) (skipping : Bool) (text : List Char) : Option (List Char) :=
  match text with
  | [] => some []
  | '\r' :: '\n' :: rest =>
    if skipping then unescapeLines escapes true rest
    else (unescapeLines escapes false rest).map ('\n' :: ·)
  | c :: rest =>
    if skipping && (isBlank c || c == '\n') then unescapeLines escapes true rest
    else if escapes && c = '\\' then
      if atLineBreak rest then unescapeLines escapes true rest
      else
        match escape? rest with
        | some (d, taken) => (unescapeLines escapes false (rest.drop taken)).map (d :: ·)
        | none => none
    else if isPlain c || c == '\n' then (unescapeLines escapes false rest).map (c :: ·)
    else none
termination_by text.length
decreasing_by all_goals (simp only [List.length_cons, List.length_drop]; omega)

/-- The string without a line break at its beginning. -/
def dropFirstBreak : List Char → List Char
  | '\n' :: rest => rest
  | '\r' :: '\n' :: rest => rest
  | rest => rest

/-- Reads a string on one line. -/
def simpleString : List Char → Option (List Char × List Char)
  | '"' :: rest => do
    let (written, after) ← cutQuoted rest
    return (← unescape written, after)
  | '\'' :: rest => do
    let (written, after) ← cutLiteral rest
    if written.all isPlain then return (written, after) else none
  | _ => none

/-- Reads a string of any kind. -/
def string : List Char → Option (List Char × List Char)
  | '"' :: '"' :: '"' :: rest => do
    let (written, after) ← cutMultiline '"' true (dropFirstBreak rest)
    return (← unescapeLines true false written, after)
  | '\'' :: '\'' :: '\'' :: rest => do
    let (written, after) ← cutMultiline '\'' false (dropFirstBreak rest)
    return (← unescapeLines false false written, after)
  | text => simpleString text

end SourceTally.Toml
