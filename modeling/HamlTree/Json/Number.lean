import HamlTree.Decimal.Layout

/-!
# Numbers in JSON

A number is an integer of at most 64 bits or a double. Which one a literal denotes is decided by how
it is written: a literal with a fraction or an exponent is a double, and so is one without them that
does not fit — with the exception of `-0`, a double because integers have no negative zero.

A double is read by a simple rule: of the digits only the leading ones that fit 64 bits count, and
they are multiplied or divided once by a power of ten. So the double may miss the nearest one by the
last place. A literal beyond the range of doubles is refused.
-/

namespace HamlTree.Json

/-- A number of a JSON text. -/
inductive Number where
  /-- An integer. -/
  | integer (n : Int)
  /-- A double. -/
  | double (x : Float)
deriving Inhabited

/-- The text of a number. -/
def Number.text : Number → String
  | integer n => toString n
  | double x => Decimal.ofFloat x

/-! ### Literals -/

/-- A number literal: sign, digits of the whole part, and the digits of the fraction and of the
signed exponent if it has them. -/
structure Literal where
  /-- Whether the literal begins with a minus sign. -/
  negative : Bool
  /-- The digits before the point. -/
  whole : List Char
  /-- The digits after the point. -/
  fraction? : Option (List Char)
  /-- Whether the exponent is negative, and its digits. -/
  exponent? : Option (Bool × List Char)
deriving DecidableEq

/-- The value of a digit. -/
def digitValue (c : Char) : Nat := c.toNat - '0'.toNat

/-- The value of a list of digits. -/
def digitsValue (digits : List Char) : Nat :=
  digits.foldl (fun n c ↦ 10 * n + digitValue c) 0

/-- Append digits to a number while it stays below `2 ^ 64`; the digits that are left over begin
with the first that does not fit. -/
def absorb (n : Nat) : List Char → Nat × List Char
  | [] => (n, [])
  | c :: digits =>
    let next := 10 * n + digitValue c
    if next < Nat.pow 2 64 then absorb next digits else (n, c :: digits)

/-- A power of ten as a double. -/
def tenTo (n : Nat) : Float := Float.ofScientific 1 false n

/-- A double times a power of ten, in as few steps as the range of doubles allows; nothing if the
result is too large. -/
def scale? (x : Float) (exponent : Int) : Option Float :=
  if exponent.natAbs ≤ 308 then
    if 0 ≤ exponent then
      let y := x * tenTo exponent.natAbs
      if y.isInf then none else some y
    else
      some (x / tenTo exponent.natAbs)
  else if x == 0 then
    some x
  else if 0 ≤ exponent then
    none
  else
    scale? (x / tenTo 308) (exponent + 308)
termination_by (-exponent).toNat
decreasing_by omega

namespace Literal

/-- The exponent that is written. -/
def exponent (l : Literal) : Int :=
  match l.exponent? with
  | none => 0
  | some (negative, digits) =>
    if negative then -(digitsValue digits : Int) else (digitsValue digits : Int)

/-- The double that a literal denotes. Digits of the whole part beyond 64 bits count as zeros, those
of the fraction count for nothing. -/
def toDouble? (l : Literal) : Option Float :=
  let (head, dropped) := absorb 0 l.whole
  let fraction := l.fraction?.getD []
  let (significand, rest) := absorb head fraction
  let used := fraction.length - rest.length
  let magnitude? :=
    scale? significand.toUInt64.toFloat (l.exponent + (dropped.length : Int) - (used : Int))
  magnitude?.map fun x ↦ if l.negative then -x else x

/-- The integer that a literal denotes, if it is written as one and fits. -/
def toInteger? (l : Literal) : Option Int :=
  match l.fraction?, l.exponent? with
  | none, none =>
    let n := digitsValue l.whole
    if l.negative then
      if 0 < n ∧ n ≤ Nat.pow 2 63 then some (-(n : Int)) else none
    else
      if n < Nat.pow 2 64 then some (n : Int) else none
  | _, _ => none

/-- The number that a literal denotes. -/
def toNumber? (l : Literal) : Option Number :=
  match l.toInteger? with
  | some n => some (.integer n)
  | none => l.toDouble?.map .double

end Literal

end HamlTree.Json
