/-!
# Shortest decimals

A floating-point number stands for every real number that rounds to it, and among the decimals in
that interval there is one with the fewest digits. That decimal is found by trying grids: for one
digit, two digits and so on, only the two neighbours of the number on the grid of that size can lie
in the interval, so the first grid on which one does gives the answer. Of two neighbours inside the
nearer is taken, and of two equally near ones the even one.

Everything is exact arithmetic on natural numbers; a number and its interval are fractions over one
denominator.
-/

namespace HamlTree

/-- A decimal number: an integer times a power of ten. -/
structure Decimal where
  /-- The digits, as one number. -/
  digits : Nat
  /-- The power of ten. -/
  exponent : Int
deriving DecidableEq

namespace Decimal

/-! ### The interval of a double -/

/-- A positive number and the interval of reals that round to it, over a common denominator. -/
structure Rounding where
  /-- The lower end. -/
  low : Nat
  /-- The number itself. -/
  value : Nat
  /-- The upper end. -/
  high : Nat
  /-- The common denominator. -/
  den : Nat
  /-- Whether the ends round to the number too. -/
  closed : Bool
deriving DecidableEq

/-- The interval of a double from its fraction bits and its exponent bits. In quarters of the last
place the upper end is two away, and so is the lower one unless the number is the first of its
binade. The ends round to the even one of two neighbours. -/
def Rounding.ofBits (fraction exponent : Nat) : Rounding :=
  let mantissa := if exponent = 0 then fraction else fraction + Nat.pow 2 52
  let gap := if fraction = 0 ∧ 1 < exponent then 1 else 2
  let power := max exponent 1
  let scale := Nat.pow 2 (power - 1077)
  { low := (4 * mantissa - gap) * scale
    value := 4 * mantissa * scale
    high := (4 * mantissa + 2) * scale
    den := Nat.pow 2 (1077 - power)
    closed := mantissa % 2 = 0 }

namespace Rounding

/-- Whether a multiple of `unit` lies in an interval, all numbers being over one denominator. -/
def inside (closed : Bool) (low high unit n : Nat) : Bool :=
  if closed then low ≤ n * unit && n * unit ≤ high else low < n * unit && n * unit < high

/-- The better of the two neighbours of the number among the multiples of `10 ^ place` that lie in
the interval, as a multiple of that power. -/
def onGrid? (r : Rounding) (place : Int) : Option Nat :=
  let up := Nat.pow 10 (-place).toNat
  let unit := r.den * Nat.pow 10 place.toNat
  let below := r.value * up / unit
  match inside r.closed (r.low * up) (r.high * up) unit below,
      inside r.closed (r.low * up) (r.high * up) unit (below + 1) with
  | true, true =>
    let twice := 2 * (r.value * up)
    let middle := (2 * below + 1) * unit
    if twice < middle ∨ (twice = middle ∧ below % 2 = 0) then some below else some (below + 1)
  | true, false => some below
  | false, true => some (below + 1)
  | false, false => none

/-- Whether the number is below a power of ten. -/
def below (r : Rounding) (place : Int) : Bool :=
  r.value * Nat.pow 10 (-place).toNat < r.den * Nat.pow 10 place.toNat

/-- The place of the decimal point before the first digit: the least power of ten above the number.
Every double lies between `10 ^ (-324)` and `10 ^ 309`. -/
def magnitude (r : Rounding) : Int :=
  (((List.range 640).map fun n : Nat ↦ (n : Int) - 325).find? r.below).getD 310

end Rounding

/-! ### The fewest digits -/

/-- The same decimal without trailing zeros. -/
def trim (d : Decimal) : Decimal :=
  if d.digits = 0 ∨ d.digits % 10 ≠ 0 then d else trim ⟨d.digits / 10, d.exponent + 1⟩
termination_by d.digits
decreasing_by omega

/-- The shortest decimal in an interval; seventeen digits are always enough. -/
def shortest (r : Rounding) : Decimal :=
  let places := (List.range 17).map fun n : Nat ↦ r.magnitude - (n : Int) - 1
  let hit := places.findSome? fun place ↦ (r.onGrid? place).map (Decimal.mk · place)
  (hit.getD ⟨0, 0⟩).trim

end Decimal

end HamlTree
