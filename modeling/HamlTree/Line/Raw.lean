import HamlTree.Text.Blank

/-!
# Raw lines

A source is cut at its line ends: a line feed, a carriage return, or the two together as one. Blanks
at the end of a raw line carry no meaning and are dropped here, once, so every later stage may rely
on their absence. A source always has one more raw line than line ends; the empty source has one,
and it is empty.
-/

namespace HamlTree.Line

open Text

/-- Whether a character ends a line. -/
def isLineEnd (c : Char) : Bool := c == '\n' || c == '\r'

/-- Cut a text at its line ends. -/
def splitLines (s : List Char) : List (List Char) :=
  match _h : s.dropWhile (!isLineEnd ·) with
  | [] => [s]
  | '\r' :: '\n' :: rest => s.takeWhile (!isLineEnd ·) :: splitLines rest
  | _ :: rest => s.takeWhile (!isLineEnd ·) :: splitLines rest
termination_by s.length
decreasing_by
  all_goals
    have h := (List.dropWhile_suffix (l := s) (!isLineEnd ·)).length_le
    simp only [_h, List.length_cons] at h
    omega

/-- Every text has a line, be it an empty one. -/
theorem splitLines_ne_nil (s : List Char) : splitLines s ≠ [] := by
  rw [splitLines]
  split <;> simp

/-- The raw lines of a source, in order, without trailing blanks. -/
def rawLines (source : String) : List (List Char) := (splitLines source.toList).map trimEnd

end HamlTree.Line
