import HamlTree.Text.Blank

/-!
# Continuation lines

A raw line that ends in a vertical bar with a blank before it is *continued*: it belongs to one
logical line together with the continued lines around it. One kind of line looks the same and is
not: a code line that opens a block with spaced parameters, such as `- rows.each do | a, b |`. It
is told apart by its **block signature** — the word `do`, a bar, parameters without a bar, a blank
and the closing bar at the very end of the line.

The signature is looked for at every position of the line (`hasBlockSignature`). That only the last
bar but one can matter is a theorem about the definition and not the definition.
-/

namespace HamlTree.Line

open Text

/-- The mark at the end of a continued line. -/
def mark : Char := '|'

/-- The line without its final mark; a line that does not end in one is left alone. -/
def dropMark (line : List Char) : List Char :=
  if line.getLast? = some mark then line.dropLast else line

/-! ### Block signatures -/

/-- Whether a text is parameters, a blank and a final bar: what a block signature ends with after
its first bar. -/
def closesParameters (s : List Char) : Bool :=
  endsBlank (s.takeWhile (· != mark)) && s.dropWhile (· != mark) == [mark]

/-- Whether a text is a block signature from its first character to its last. -/
def isBlockSignature : List Char → Bool
  | 'd' :: 'o' :: rest =>
    match trimStart rest with
    | '|' :: parameters => closesParameters parameters
    | _ => false
  | _ => false

/-- Whether a line ends in a block signature. -/
def hasBlockSignature : List Char → Bool
  | [] => false
  | c :: rest => isBlockSignature (c :: rest) || hasBlockSignature rest

@[simp] theorem hasBlockSignature_nil : hasBlockSignature [] = false := rfl

@[simp] theorem hasBlockSignature_cons (c : Char) (rest : List Char) :
    hasBlockSignature (c :: rest) = (isBlockSignature (c :: rest) || hasBlockSignature rest) := rfl

/-! ### Continued lines -/

/-- Whether a raw line is continued: a blank and a bar at its end that do not close a block
signature. -/
def isContinued (line : List Char) : Bool :=
  line.getLast? == some mark && endsBlank line.dropLast && !hasBlockSignature line

@[simp] theorem isContinued_nil : isContinued [] = false := rfl

end HamlTree.Line
