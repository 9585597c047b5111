import HamlTree.Decimal.Shortest

/-!
# The layout of decimals

How a double is written: with the digits of its shortest decimal, positionally from `1e-5` up to but
not including `1e16`, with `.0` after an integer, and otherwise with one digit before the point and
a signed exponent. Zero keeps its sign.
-/

namespace HamlTree.Decimal

/-- The digits of a natural number. -/
def digitsOf (n : Nat) : List Char := (toString n).toList

/-- A decimal whose point stands `point` digits after the beginning of its digits. -/
def layoutAt (digits : List Char) (point : Int) : List Char :=
  let count : Int := digits.length
  if 0 < point ∧ point ≤ 16 then
    if count ≤ point then
      digits ++ List.replicate (point - count).toNat '0' ++ ['.', '0']
    else
      digits.take point.toNat ++ '.' :: digits.drop point.toNat
  else if -5 < point ∧ point ≤ 0 then
    ['0', '.'] ++ List.replicate (-point).toNat '0' ++ digits
  else
    let power := point - 1
    let sign := if power < 0 then '-' else '+'
    let fraction := match digits.drop 1 with
      | [] => []
      | rest => '.' :: rest
    digits.take 1 ++ fraction ++ 'e' :: sign :: digitsOf power.natAbs

/-- The text of a decimal. -/
def layout (d : Decimal) : List Char :=
  let digits := digitsOf d.digits
  layoutAt digits (digits.length + d.exponent)

/-- The text of a finite double. -/
def ofFloat (x : Float) : String :=
  let bits := x.toBits.toNat
  let fraction := bits % Nat.pow 2 52
  let exponent := bits / Nat.pow 2 52 % Nat.pow 2 11
  let magnitude :=
    if fraction = 0 ∧ exponent = 0 then
      ['0', '.', '0']
    else
      layout (shortest (.ofBits fraction exponent))
  String.ofList (if Nat.pow 2 63 ≤ bits then '-' :: magnitude else magnitude)

end HamlTree.Decimal
