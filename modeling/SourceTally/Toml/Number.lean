import SourceTally.Text.Split

/-!
# TOML numbers and dates

Which words are integers, floats, dates and times. Integers are numbers of 64 bits with a sign. A
float may not be so large that it rounds to infinity; below zero it may. Dates must exist in the
calendar.
-/

namespace SourceTally.Toml

/-- The value of a hexadecimal digit. -/
def digitValue? (c : Char) : Option Nat :=
  if '0' ≤ c && c ≤ '9' then some (c.toNat - '0'.toNat)
  else if 'a' ≤ c && c ≤ 'f' then some (c.toNat - 'a'.toNat + 10)
  else if 'A' ≤ c && c ≤ 'F' then some (c.toNat - 'A'.toNat + 10)
  else none

/-- The number that digits of a base stand for. -/
def plainNumber? (base : Nat) (digits : List Char) : Option Nat :=
  digits.foldlM (fun n c => do
    let d ← digitValue? c
    if d < base then some (n * base + d) else none) 0

/-- The digits, if a single underscore at most stands between any two and none at the ends. -/
def dropUnderscores? (digits : List Char) : Option (List Char) :=
  let pieces := Text.split '_' digits
  if pieces.any (·.isEmpty) then none else some pieces.flatten

/-- The number that digits of a base stand for, underscores allowed. -/
def digits? (base : Nat) (digits : List Char) : Option Nat := do
  plainNumber? base (← dropUnderscores? digits)

/-- The number that decimal digits without needless zeros stand for. -/
def decimal? (digits : List Char) : Option Nat :=
  match digits with
  | ['0'] => some 0
  | '0' :: _ => none
  | _ => digits? 10 digits

/-- Whether there is a minus sign, and what follows the sign. -/
def splitSign : List Char → Bool × List Char
  | '-' :: rest => (true, rest)
  | '+' :: rest => (false, rest)
  | rest => (false, rest)

/-- The word is an integer. -/
def isInteger (word : List Char) : Bool :=
  let within (limit : Nat) (n : Option Nat) := n.any (· ≤ limit)
  let greatest := 0x7FFFFFFFFFFFFFFF
  match word with
  | '0' :: 'x' :: rest => within greatest (digits? 16 rest)
  | '0' :: 'o' :: rest => within greatest (digits? 8 rest)
  | '0' :: 'b' :: rest => within greatest (digits? 2 rest)
  | _ =>
    let (negative, rest) := splitSign word
    within (if negative then greatest + 1 else greatest) (decimal? rest)

/-- The least number that rounds to infinity in double precision. -/
def infinityBound : Nat := Nat.pow 2 1024 - Nat.pow 2 970

/-- `mantissa · 10 ^ exponent` rounds to infinity. -/
def isInfinite (mantissa : Nat) (exponent : Int) : Bool :=
  let digits : Int := (Nat.toDigits 10 mantissa).length
  if mantissa = 0 || digits + exponent < 300 then false
  else if 400 < digits + exponent then true
  else if exponent < 0 then infinityBound * Nat.pow 10 exponent.natAbs ≤ mantissa
  else infinityBound ≤ mantissa * Nat.pow 10 exponent.natAbs

/-- The exponent behind a mark, zero without a mark. -/
def exponent? (text : List Char) : Option Int :=
  match text with
  | [] => some 0
  | _ :: rest =>
    let (negative, digits) := splitSign rest
    (digits? 10 digits).map fun n => if negative then -n else n

/-- The word is a float. -/
def isFloat (word : List Char) : Bool :=
  let (negative, unsigned) := splitSign word
  if unsigned = ['i', 'n', 'f'] || unsigned = ['n', 'a', 'n'] then true
  else
    let isMark (c : Char) := c == 'e' || c == 'E'
    let mantissa := unsigned.takeWhile (!isMark ·)
    let mark := unsigned.dropWhile (!isMark ·)
    let whole := mantissa.takeWhile (· != '.')
    let point := mantissa.dropWhile (· != '.')
    if point.isEmpty && mark.isEmpty then false
    else
      let fraction? := if point.isEmpty then some [] else dropUnderscores? point.tail
      match decimal? whole, fraction?, exponent? mark with
      | some n, some fraction, some exponent =>
        match plainNumber? 10 fraction with
        | some f =>
          negative ||
            !isInfinite (n * Nat.pow 10 fraction.length + f) (exponent - fraction.length)
        | none => false
      | _, _, _ => false

/-! ## Dates and times -/

/-- The number of two digits. -/
def twoDigits? (a b : Char) : Option Nat :=
  plainNumber? 10 [a, b]

/-- The number of days of a month. -/
def daysIn (year month : Nat) : Nat :=
  if month = 2 then if year % 4 = 0 && (year % 100 != 0 || year % 400 = 0) then 29 else 28
  else if month = 4 || month = 6 || month = 9 || month = 11 then 30
  else 31

/-- The word is a day of the calendar. -/
def isDate : List Char → Bool
  | [a, b, c, d, '-', e, f, '-', g, h] =>
    match plainNumber? 10 [a, b, c, d], twoDigits? e f, twoDigits? g h with
    | some year, some month, some day =>
      1 ≤ month && month ≤ 12 && 1 ≤ day && day ≤ daysIn year month
    | _, _, _ => false
  | _ => false

/-- The word is the offset of a time zone, or empty. -/
def isOffset : List Char → Bool
  | [] => true
  | ['Z'] => true
  | ['z'] => true
  | [sign, a, b, ':', c, d] =>
    (sign == '+' || sign == '-') && (twoDigits? a b).any (· ≤ 23) && (twoDigits? c d).any (· ≤ 59)
  | _ => false

/-- The word is a time of day with something behind it that `tail` accepts. -/
def isTimeThen (tail : List Char → Bool) : List Char → Bool
  | a :: b :: ':' :: c :: d :: ':' :: e :: f :: rest =>
    (twoDigits? a b).any (· ≤ 23) && (twoDigits? c d).any (· ≤ 59) &&
      (twoDigits? e f).any (· ≤ 60) &&
      match rest with
      | '.' :: fraction =>
        let digits := fraction.takeWhile Char.isDigit
        !digits.isEmpty && tail (fraction.dropWhile Char.isDigit)
      | _ => tail rest
  | _ => false

/-- The word is a date, a time, or both with an offset or without. -/
def isDateTime (word : List Char) : Bool :=
  let day := word.take 10
  isTimeThen (·.isEmpty) word ||
    (isDate day &&
      match word.drop 10 with
      | [] => true
      | separator :: time => (separator == 'T' || separator == 't') && isTimeThen isOffset time)

/-- The word is a number or a date. -/
def isNumber (word : List Char) : Bool :=
  isInteger word || isFloat word || isDateTime word

end SourceTally.Toml
