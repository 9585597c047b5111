import HamlTree.Line.Continuation
import HamlTree.Line.Raw

/-!
# Logical lines

The lines of a template after continuation: each maximal run of continued raw lines is one group,
every other raw line is a group of its own, and a group with any text left is one logical line.
Blank groups disappear but their raw lines stay counted, so a logical line always knows the number
of the raw line on which it starts.

A group keeps the raw lines it was made of; joining them (`Group.text`) and measuring the
indentation (`LogicalLine.ofIndented`) are separate steps, each a function of one group.
-/

namespace HamlTree

open Text

/-- One line of a template: its text without indentation, the width of the indentation in spaces,
and the number of its first raw line, counted from 1. -/
structure LogicalLine where
  /-- The text after the indentation. -/
  text : String
  /-- The number of leading spaces. -/
  indent : Nat
  /-- The number of the first raw line. -/
  line : Nat
deriving DecidableEq, Inhabited

namespace LogicalLine

/-- Take the indentation off a text. Only spaces indent; a tab is text. -/
def ofIndented (s : List Char) (line : Nat) : LogicalLine where
  text := String.ofList (s.dropWhile (· == ' '))
  indent := (s.takeWhile (· == ' ')).length
  line := line

/-- Whether nothing is left after the indentation. -/
def isBlank (l : LogicalLine) : Bool := l.text.isEmpty

@[simp] theorem line_ofIndented (s : List Char) (line : Nat) :
    (ofIndented s line).line = line := rfl

end LogicalLine

namespace Line

/-! ### Groups of raw lines -/

/-- Raw lines that form one logical line, with the number of the first. -/
inductive Group where
  /-- A line that is not continued. -/
  | single (line : Nat) (raw : List Char)
  /-- A run of continued lines: the first, and those after it. -/
  | joined (line : Nat) (first : List Char) (more : List (List Char))
deriving DecidableEq

/-- The raw lines from number `line` on, cut into groups. -/
def groups (line : Nat) : List (List Char) → List Group
  | [] => []
  | raw :: rest =>
    if isContinued raw then
      let more := rest.takeWhile isContinued
      .joined line raw more :: groups (line + 1 + more.length) (rest.dropWhile isContinued)
    else
      .single line raw :: groups (line + 1) rest
termination_by raws => raws.length
decreasing_by
  · have h := (List.dropWhile_suffix (l := rest) isContinued).length_le
    simp only [List.length_cons]
    omega
  · simp

@[simp] theorem groups_nil (line : Nat) : groups line [] = [] := by rw [groups]

/-- A continued line takes the continued lines after it into its group. -/
theorem groups_cons_of_continued (line : Nat) {raw : List Char} (rest : List (List Char))
    (h : isContinued raw = true) :
    groups line (raw :: rest) =
      .joined line raw (rest.takeWhile isContinued) ::
        groups (line + 1 + (rest.takeWhile isContinued).length) (rest.dropWhile isContinued) := by
  rw [groups]
  simp [h]

/-- Any other line is a group of its own. -/
theorem groups_cons_of_not (line : Nat) {raw : List Char} (rest : List (List Char))
    (h : isContinued raw = false) :
    groups line (raw :: rest) = .single line raw :: groups (line + 1) rest := by
  rw [groups]
  simp [h]

namespace Group

/-- The number of the first raw line. -/
def line : Group → Nat
  | single line _ => line
  | joined line _ _ => line

/-- The text of a group. The lines of a run lose their marks, those after the first also their
indentation, and the blank before the last mark goes with it. -/
def text : Group → List Char
  | single _ raw => raw
  | joined _ first more =>
    trimEnd (dropMark first ++ more.flatMap fun raw ↦ dropMark (trimStart raw))

/-- The logical line of a group. -/
def toLogical (g : Group) : LogicalLine := .ofIndented g.text g.line

@[simp] theorem line_single (n : Nat) (raw : List Char) : (single n raw).line = n := rfl

@[simp] theorem line_joined (n : Nat) (first : List Char) (more : List (List Char)) :
    (joined n first more).line = n := rfl

@[simp] theorem text_single (n : Nat) (raw : List Char) : (single n raw).text = raw := rfl

end Group

end Line

/-! ### The logical lines of a source -/

/-- The groups of a whole source. -/
def lineGroups (source : String) : List Line.Group := Line.groups 1 (Line.rawLines source)

/-- The logical lines of a source, in order: one for each group that is not blank. -/
def logicalLines (source : String) : List LogicalLine :=
  ((lineGroups source).map Line.Group.toLogical).filter (!·.isBlank)

end HamlTree
