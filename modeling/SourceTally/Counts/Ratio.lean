import SourceTally.Counts.Basic

/-!
# The share of comments

The number of comment lines is shown in percent of the number of code lines. The percentage is
computed in double precision and shown as a whole number, where an exact half goes to the even
neighbour. `roundToNat` reads the double as a fraction `m · 2^q` and rounds that exactly.
-/

namespace SourceTally

/-- The whole number nearest to `num / den`, the even one of two. -/
def roundDiv (num den : Nat) : Nat :=
  let q := num / den
  let r := num % den
  if 2 * r < den then q
  else if den < 2 * r then q + 1
  else q + q % 2

/-- The whole number nearest to a finite double that is not negative, the even one of two. -/
def roundToNat (x : Float) : Nat :=
  let bits := x.toBits.toNat
  let unit := Nat.pow 2 52
  let exponent := bits / unit % Nat.pow 2 11
  let fraction := bits % unit
  if exponent = 0 then roundDiv fraction (Nat.pow 2 1074)
  else if exponent < 1075 then roundDiv (fraction + unit) (Nat.pow 2 (1075 - exponent))
  else (fraction + unit) * Nat.pow 2 (exponent - 1075)

namespace Counts

/-- Comment lines in percent of code lines; none without code. -/
def commentRatio (c : Counts) : Option Float :=
  if c.code = 0 then none
  else some (c.comment.toUInt64.toFloat * 100.0 / c.code.toUInt64.toFloat)

/-- The share of comments as a table shows it. -/
def ratioText (c : Counts) : String :=
  match c.commentRatio with
  | some ratio => toString (roundToNat ratio) ++ " %"
  | none => "- %"

end Counts

end SourceTally
