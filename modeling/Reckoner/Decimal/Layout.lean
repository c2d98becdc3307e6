/-!
# How digits are laid out

A number is its significant digits and the power of ten of the first one. Small powers are written
positionally, all others with an exponent. What differs between the texts of this library is held
in one record.
-/

namespace Reckoner.Decimal

/-- The decisions of a number format. -/
structure Layout where
  /-- Leading digits from `10 ^ -4` to below ten to this power are written positionally. -/
  positionalBelow : Int
  /-- A positional number without fraction is written with `.0`. -/
  pointZero : Bool

/-- The exponent part, with its sign and at least two digits. -/
def exponentPart (exponent : Int) : List Char :=
  let digits := Nat.toDigits 10 exponent.natAbs
  'e' :: (if exponent < 0 then '-' else '+') :: List.replicate (2 - digits.length) '0' ++ digits

/-- Digits whose first one stands for ten to the power `exponent`, with the point where it
belongs. -/
def Layout.positional (layout : Layout) (digits : List Char) (exponent : Int) : List Char :=
  if exponent < 0 then
    '0' :: '.' :: List.replicate ((-exponent).toNat - 1) '0' ++ digits
  else
    let whole := exponent.toNat + 1
    if digits.length ≤ whole then
      digits ++ List.replicate (whole - digits.length) '0' ++
        if layout.pointZero then ['.', '0'] else []
    else digits.take whole ++ '.' :: digits.drop whole

/-- Digits in scientific notation. -/
def scientific (digits : List Char) (exponent : Int) : List Char :=
  match digits with
  | [] => []
  | [first] => first :: exponentPart exponent
  | first :: rest => first :: '.' :: rest ++ exponentPart exponent

/-- The text of significant digits, in the notation that the power of the first one asks for. -/
def Layout.text (layout : Layout) (digits : List Char) (exponent : Int) : List Char :=
  if -4 ≤ exponent && exponent < layout.positionalBelow then layout.positional digits exponent
  else scientific digits exponent

/-- The text of a double from the text of a positive finite one. -/
def signedText (zero : List Char) (positive : Float → List Char) (x : Float) : List Char :=
  if x.isNaN then ['n', 'a', 'n']
  else
    let size := if x.isInf then ['i', 'n', 'f'] else if x == 0 then zero else positive x
    if x.toBits >>> 63 != 0 then '-' :: size else size

end Reckoner.Decimal
