/-!
# Numbers

Whole numbers in base ten, magnitudes in double precision, the shortest digits that stand for a
magnitude, and the points of a circle.
-/

namespace RichStyle

/-!
## Decimal digits

Reading and writing whole numbers in base ten, as lists of characters.
-/

namespace Number

def ofDigits (s : List Char) : Nat :=
  Nat.ofDigitChars 10 s 0

def digits (n : Nat) : List Char :=
  Nat.toDigits 10 n

/-- The digits of a number, with zeros in front up to a length. -/
def paddedDigits (width n : Nat) : List Char :=
  List.replicate (width - (digits n).length) '0' ++ digits n

def text (n : Nat) : String :=
  String.ofList (digits n)

/--
Reads a whole number below `2 ^ 64`, with at most one plus sign in front.
-/
def count? (s : List Char) : Option Nat :=
  let body :=
    match s with
    | '+' :: rest => rest
    | _ => s
  if body.isEmpty || !body.all Char.isDigit then none
  else if ofDigits body < Nat.pow 2 64 then some (ofDigits body)
  else none

end Number

/-!
## Magnitudes in double precision

A magnitude is a number of the IEEE format binary64 without its sign.  Every finite one is a whole
multiple of `2 ^ -1074`, and is held as that multiple.  `nearest` rounds a quotient to the nearest
magnitude, a half to the even neighbour; every operation is exact and then rounded once.
-/

namespace Number

/-- A quotient rounded to the nearest whole number, a half to the even neighbour. -/
def divNearestEven (n d : Nat) : Nat :=
  let q := n / d
  let r := n % d
  if 2 * r < d then q
  else if d < 2 * r then q + 1
  else if q % 2 = 0 then q
  else q + 1

/-- A quotient rounded to the nearest whole number, a half upwards. -/
def divNearestUp (n d : Nat) : Nat :=
  (2 * n + d) / (2 * d)

end Number

inductive Magnitude where
  /-- So many times `2 ^ -1074`. -/
  | finite (units : Nat)
  | infinite
deriving DecidableEq

namespace Magnitude

/-- The number of units in one. -/
def unit : Nat := Nat.pow 2 1074

/-- The number of units in the least power of two that is too large. -/
def limit : Nat := Nat.pow 2 2098

/-- The distance between neighbouring magnitudes at so many units, in units. -/
def spacing (units : Nat) : Nat :=
  Nat.pow 2 (units.log2 - 52)

/-- The magnitude nearest to `n / d`, of two the one with the even last place. -/
def nearest (n d : Nat) : Magnitude :=
  let scaled := n * unit
  let step := spacing (scaled / d)
  let units := Number.divNearestEven scaled (d * step) * step
  if units < limit then finite units else infinite

def zero : Magnitude := finite 0

def one : Magnitude := finite unit

/-- The magnitude nearest to `x * n / d`. -/
def scale (x : Magnitude) (n d : Nat) : Magnitude :=
  match x with
  | finite units => nearest (units * n) (unit * d)
  | infinite => infinite

def mul : Magnitude → Magnitude → Magnitude
  | finite a, finite b => nearest (a * b) (unit * unit)
  | _, _ => infinite

/-- The rounded quotient of a magnitude and one that is not zero. -/
def div : Magnitude → Magnitude → Magnitude
  | finite a, finite b => nearest a b
  | infinite, _ => infinite
  | finite _, infinite => zero

/-- The nearest whole number, a half upwards. -/
def roundWhole : Magnitude → Magnitude
  | finite units => nearest (Number.divNearestUp units unit) 1
  | infinite => infinite

def atMostOne : Magnitude → Magnitude
  | finite units => finite (min units unit)
  | infinite => one

/--
Reads digits with at most one point among them and at least one digit.  A number that is too large
reads as infinite.
-/
def ofDecimal? (s : List Char) : Option Magnitude :=
  let whole := s.takeWhile Char.isDigit
  let fraction := (s.dropWhile Char.isDigit).drop 1
  let wellFormed :=
    match s.dropWhile Char.isDigit with
    | [] => true
    | c :: _ => c == '.' && fraction.all Char.isDigit
  if wellFormed && !(whole ++ fraction).isEmpty then
    some (nearest (Number.ofDigits (whole ++ fraction)) (Nat.pow 10 fraction.length))
  else none

end Magnitude

/-!
## The shortest decimal text of a magnitude

A magnitude is written with the fewest digits that read back as the same magnitude; of two such
texts the nearer one is taken.  Of two equally near ones `Tie` chooses.  Digits in a sheet are
always positional, digits in a message may be scientific.
-/

/-- Which of two equally near decimal numbers is taken. -/
inductive Tie where
  | larger
  | even
deriving DecidableEq

/-- Whether the upper of two neighbours is taken, by the digits of the lower one. -/
def Tie.takesUpper (tie : Tie) (digits : Nat) : Bool :=
  match tie with
  | larger => true
  | even => digits % 2 == 1

/-- The decimal number `digits * 10 ^ exponent`. -/
structure Decimal where
  digits : Nat
  exponent : Int
deriving DecidableEq

namespace Decimal

/-- The quotient of whole numbers that a decimal number is. -/
def ratio (d : Decimal) : Nat × Nat :=
  (d.digits * Nat.pow 10 d.exponent.toNat, Nat.pow 10 (-d.exponent).toNat)

/-- The magnitude that a decimal number reads back as. -/
def magnitude (d : Decimal) : Magnitude :=
  Magnitude.nearest d.ratio.1 d.ratio.2

/-- The power of ten of the first digit of so many units. -/
def orderOf (units : Nat) : Int :=
  ((Number.digits (units * Nat.pow 10 350 / Magnitude.unit)).length : Int) - 351

/-- The nearer of the two neighbours of `units` with so many digits that read back, if one does. -/
def withDigits? (tie : Tie) (units count : Nat) : Option Decimal :=
  let exponent := orderOf units - (count : Int) + 1
  let n := units * Nat.pow 10 (-exponent).toNat
  let d := Magnitude.unit * Nat.pow 10 exponent.toNat
  -- `n / d` is the number of steps of the last digit in the magnitude
  let low : Decimal := ⟨n / d, exponent⟩
  let high : Decimal := ⟨n / d + 1, exponent⟩
  let lowReads := low.magnitude == .finite units
  let highReads := high.magnitude == .finite units
  let highIsNearer := d < 2 * (n % d) || (d == 2 * (n % d) && tie.takesUpper low.digits)
  if lowReads && !(highReads && highIsNearer) then some low
  else if highReads then some high
  else none

/-- Takes zeros off the end of the digits. -/
def normal (d : Decimal) : Decimal :=
  let zeros := ((Number.digits d.digits).reverse.takeWhile (· == '0')).length
  if d.digits = 0 then ⟨0, 0⟩ else ⟨d.digits / Nat.pow 10 zeros, d.exponent + zeros⟩

/-- The shortest decimal number that reads back as so many units.  Seventeen digits suffice. -/
def shortest (tie : Tie) (units : Nat) : Decimal :=
  if units = 0 then ⟨0, 0⟩
  else
    match (List.range' 1 17).findSome? (withDigits? tie units) with
    | some d => d.normal
    | none => ⟨0, 0⟩

/-- Digits with zeros up to the point, and a fraction if there is one. -/
def positional (d : Decimal) : List Char :=
  let places := (-d.exponent).toNat
  let all := Number.paddedDigits (places + 1) (d.digits * Nat.pow 10 d.exponent.toNat)
  let whole := all.take (all.length - places)
  let fraction := all.drop (all.length - places)
  if fraction.isEmpty then whole else whole ++ '.' :: fraction

/-- One digit, a fraction if there is one, and the power of ten with its sign. -/
def scientific (d : Decimal) : List Char :=
  let all := Number.digits d.digits
  let order := d.exponent + ((all.length : Int) - 1)
  let fraction := all.drop 1
  let sign := if order < 0 then '-' else '+'
  all.take 1 ++ (if fraction.isEmpty then [] else '.' :: fraction) ++
    'e' :: sign :: Number.digits order.natAbs

end Decimal

namespace Magnitude

/-- The shortest text of a magnitude in a sheet, always positional. -/
def plainText : Magnitude → String
  | finite units => String.ofList (Decimal.shortest .larger units).positional
  | infinite => "inf"

/--
The shortest text of a magnitude in a message: positional with at least one place for powers of ten
from -5 to 15, and scientific beyond them.
-/
def messageText : Magnitude → String
  | finite units =>
      let d := Decimal.shortest .even units
      let order := d.exponent + (((Number.digits d.digits).length : Int) - 1)
      if d.digits = 0 then "0.0"
      else if -5 ≤ order ∧ order ≤ 15 then
        String.ofList (if 0 ≤ d.exponent then d.positional ++ ['.', '0'] else d.positional)
      else String.ofList d.scientific
  | infinite => "inf"

end Magnitude

/-!
## Points on a circle

Sine and cosine in fixed-point arithmetic: a number is held as a whole multiple of `10 ^ -40`, and
the power series is summed until its terms vanish.  The error stays far below what two decimal
places can show, and a coordinate of a regular polygon is never half-way between two such numbers.
-/

namespace Circle

def one : Int := Nat.pow 10 40

/-- Half a turn, in fixed-point form. -/
def pi : Int := 31415926535897932384626433832795028841972

/-- Sums `term`, and so many terms after it, each made from the one before by the next divisor. -/
def series (square : Int) : Nat → Int → Int → Int
  | 0, _, _ => 0
  | count + 1, index, term =>
      term + series square count (index + 2)
        (-(term * square / one) / ((index + 1) * (index + 2)))

def cos (angle : Int) : Int :=
  series (angle * angle / one) 40 0 one

def sin (angle : Int) : Int :=
  series (angle * angle / one) 40 1 angle

def angle (sides corner : Nat) : Int :=
  2 * pi * (corner : Int) / (sides : Int)

/-- Hundredths of a point of a hundred, for a number from minus one to one. -/
def hundredths (x : Int) : Nat :=
  min 10000 (Number.divNearestEven (5000 * (one + x)).toNat one.toNat)

def percentage (h : Nat) : List Char :=
  Number.digits (h / 100) ++ '.' :: Number.paddedDigits 2 (h % 100) ++ ['%']

/-- A corner of a regular polygon whose first corner is at the top; it goes round clockwise. -/
def corner (sides index : Nat) : List Char :=
  let x := sin (angle sides index)
  let y := -cos (angle sides index)
  percentage (hundredths x) ++ ' ' :: percentage (hundredths y)

/-- The corners of a regular polygon, as the shape functions of style sheets write them. -/
def polygon (sides : Nat) : String :=
  String.ofList <|
    "polygon(".toList ++ (", ".toList).intercalate ((List.range sides).map (corner sides)) ++ [')']

end Circle

end RichStyle
