/-!
# Splitting

A list is cut at every place where a separator stands. There is one piece more than there are
separators, and putting the separators back between the pieces gives the list again.
-/

namespace SourceTally.Text

/-- The pieces of a list between the separators. -/
def split {α : Type} [DecidableEq α] (separator : α) : List α → List (List α)
  | [] => [[]]
  | c :: cs =>
    if c = separator then [] :: split separator cs
    else
      match split separator cs with
      | [] => [[c]]
      | piece :: pieces => (c :: piece) :: pieces

end SourceTally.Text
