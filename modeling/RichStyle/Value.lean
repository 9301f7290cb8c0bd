import RichStyle.Number
import RichStyle.Text

/-!
# Values of rich properties

How the values of rich properties are read: calls and quoted texts, shadows, shapes, depths and
strengths.
-/

namespace RichStyle

/-! ## Calls and quoted values -/

namespace Value

open Text

/-- The argument of a call of a function by name, without blanks around it. -/
def argument? (name value : List Char) : Option (List Char) := do
  let afterName ← dropLeading? name value
  let opened ← dropLeading? ['('] (trimStart afterName)
  let inside ← dropTrailing? [')'] opened
  some (trim inside)

/-- A value without blanks and without one pair of equal quotes around it. -/
def unquoted (value : List Char) : List Char :=
  (unwrapQuotes? (trim value)).getD (trim value)

end Value

/-!
## Shadows

The values of the property `shadow-type`.
-/

inductive Shadow where
  | soft
  | hard
  | contact
deriving DecidableEq

namespace Shadow

def read? (value : List Char) : Option Shadow :=
  if value = "soft".toList then some soft
  else if value = "hard".toList then some hard
  else if value = "contact".toList then some contact
  else none

def boxShadow : Shadow → String
  | soft => "0 4px 12px rgba(0,0,0,.15)"
  | hard => "0 2px 4px rgba(0,0,0,.3)"
  | contact => "0 1px 2px rgba(0,0,0,.2)"

end Shadow

/-!
## Shapes

The values of the property `shape`: `circle`, `rounded-rect(radius)` and `polygon(sides)`.
-/

inductive Shape where
  | circle
  | roundedRect (radius : String)
  | polygon (sides : Nat)
deriving DecidableEq

namespace Shape

def maxSides : Nat := 1000

/-- The number of sides in a call of `polygon`. -/
def sides? (value : List Char) : Option Nat :=
  (Value.argument? "polygon".toList value).bind Number.count?

def read? (value : List Char) : Option Shape :=
  if value = "circle".toList then some circle
  else
    match Value.argument? "rounded-rect".toList value with
    | some radius =>
        if radius.isEmpty then none else some (roundedRect (String.ofList radius))
    | none =>
        match sides? value with
        | some sides => if 3 ≤ sides ∧ sides ≤ maxSides then some (polygon sides) else none
        | none => none

end Shape

/-!
## Depths and strengths

A depth is `3d` or a length in `rem`.  A strength is a decimal number, meant to be from zero to one.
-/

open Text

inductive Depth where
  | preserve
  | rem (size : Magnitude)
deriving DecidableEq

namespace Depth

/-- The number in front of `rem`. -/
def rem? (value : List Char) : Option Magnitude :=
  (dropTrailing? "rem".toList value).bind Magnitude.ofDecimal?

def read? (value : List Char) : Option Depth :=
  if value = "3d".toList then some preserve else (rem? value).map rem

end Depth

/-- A finite decimal number with its sign. -/
structure Strength where
  negative : Bool
  units : Nat
deriving DecidableEq

namespace Strength

/-- Reads digits with at most one point and at most one minus sign in front. -/
def read? (value : List Char) : Option Strength :=
  let negative := value.head? == some '-'
  match Magnitude.ofDecimal? (if negative then value.drop 1 else value) with
  | some (.finite units) => some ⟨negative, units⟩
  | _ => none

/-- Whether the number is from zero to one; a negative zero is zero. -/
def inUnitInterval (s : Strength) : Bool :=
  if s.negative then s.units == 0 else s.units ≤ Magnitude.unit

/-- The number, moved to zero or one if it is below or above. -/
def clamped (s : Strength) : Magnitude :=
  if s.negative then .zero else (Magnitude.finite s.units).atMostOne

/-- Ten pixels at full strength, rounded to nine places. -/
def pixels (s : Strength) : Magnitude :=
  (((s.clamped.scale 10 1).scale (Nat.pow 10 9) 1).roundWhole).scale 1 (Nat.pow 10 9)

end Strength

end RichStyle
