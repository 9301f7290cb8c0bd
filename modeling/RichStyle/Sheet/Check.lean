import RichStyle.Diagnostic
import RichStyle.Sheet
import RichStyle.Value

/-!
# Checking values

Every rich declaration of a sheet is checked; each gives at most one finding.  Declarations that are
not rich are left alone.
-/

namespace RichStyle

namespace Declaration

def trimmed (d : Declaration) : List Char :=
  Text.trim d.value.toList

/-- The words that choose a kind of light instead of an intensity. -/
def isLightMode (value : List Char) : Bool :=
  value == "ambient".toList || value == "directional".toList

def isUnitStrength (value : List Char) : Bool :=
  match Strength.read? value with
  | some s => s.inUnitInterval
  | none => false

/-- What is wrong with a value that is no shape. -/
def shapeFinding (value : List Char) : Finding :=
  match Shape.sides? value with
  | some sides =>
      if Shape.maxSides < sides then .tooManySides sides Shape.maxSides
      else .invalidValue "shape" (String.ofList value)
  | none => .invalidValue "shape" (String.ofList value)

/-- What is wrong with a rich declaration, if anything. -/
def finding? (d : Declaration) : Option Finding :=
  let value := d.trimmed
  let text := String.ofList value
  match Property.ofName? d.property with
  | none => some (.unknownProperty d.property)
  | some .depth =>
      if (Depth.read? value).isSome then none else some (.invalidValue "depth" text)
  | some .lightIntensity =>
      if isLightMode value || isUnitStrength value then none else some (.unknownLight text)
  | some .shape =>
      if (Shape.read? value).isSome then none else some (shapeFinding value)
  | some .shadowType =>
      if (Shadow.read? value).isSome then none else some (.invalidValue "shadow-type" text)
  | some property =>
      if property.isSound then
        if (Value.unquoted value).isEmpty then some (.soundMissing d.property) else none
      else if property.isUnitInterval then
        if isUnitStrength value then none else some (.outsideUnitInterval d.property text)
      else none

/-- The diagnostic about a declaration, if it is rich and something is wrong with it. -/
def diagnostic? (selector : String) (d : Declaration) : Option Diagnostic :=
  if d.rich then d.finding?.map fun f => f.reportedFor selector d.property d.span else none

end Declaration

namespace Sheet

def check (rules : List Rule) : List Diagnostic :=
  rules.flatMap fun r => r.declarations.filterMap (Declaration.diagnostic? r.selector)

end Sheet

end RichStyle
