import RichStyle.Assets
import RichStyle.Diagnostic
import RichStyle.Sheet.Check

/-!
# Lowering

A rich declaration becomes plain declarations or one binding of an asset, never both.  Declarations
that are not rich stay as they are.
-/

namespace RichStyle

inductive Lowered where
  | plain (declarations : List Declaration)
  | asset (kind : AssetKind) (property value : String)
deriving DecidableEq

namespace Lowered

/-- The declarations that stay in the sheet. -/
def declarations : Lowered → List Declaration
  | plain ds => ds
  | asset _ _ _ => []

end Lowered

structure Binding where
  kind : AssetKind
  selector : String
  property : String
  value : String
deriving DecidableEq

namespace Declaration

def brushedMetal : String :=
  "linear-gradient(135deg, #b8b8b8 0%, #e8e8e8 25%, #a0a0a0 50%, #e8e8e8 75%, #b8b8b8 100%)"

def lowerShape : Shape → String × String
  | .circle => ("border-radius", "50%")
  | .roundedRect radius => ("border-radius", radius)
  | .polygon sides => ("clip-path", Circle.polygon sides)

/-- A depth as a shadow that grows with it, or as a place in space. -/
def lowerDepth (value : String) : Depth → String × String
  | .preserve => ("transform-style", "preserve-3d")
  | .rem size =>
      ("box-shadow",
        "0 " ++ value ++ " " ++ (size.scale 2 1).plainText ++ "rem rgba(0,0,0,.15)")

/-- A pixel grid: off, of a size, or of the size that the image has. -/
def lowerPixelGrid (value : List Char) : List (String × String) :=
  if value = "off".toList || value = "none".toList then []
  else
    let text := String.ofList value
    match value with
    | c :: _ =>
        if c.isDigit || c == '.' then
          [("image-rendering", "pixelated"), ("background-size", text ++ " " ++ text)]
        else [("image-rendering", "pixelated")]
    | [] => [("image-rendering", "pixelated")]

/-- A kind of light or its intensity; a value that is no number is passed on. -/
def lowerLight (value : List Char) : String × String :=
  if isLightMode value then ("--light-mode", String.ofList value)
  else
    match Strength.read? value with
    | some s => ("--light-intensity", s.clamped.plainText)
    | none => ("--light-intensity", String.ofList value)

/-- A declaration whose value is made from a strength in pixels; nothing if there is none. -/
def lowerStrength (property before after : String) (value : List Char) :
    List (String × String) :=
  match Strength.read? value with
  | some s => [(property, before ++ s.pixels.plainText ++ after)]
  | none => []

/-- The plain properties and values that a rich property with a value stands for. -/
def plainForm? (property : Property) (value : List Char) : Option (List (String × String)) :=
  let text := String.ofList value
  match property with
  | .shape => (Shape.read? value).map fun s => [lowerShape s]
  | .shadowType => (Shadow.read? value).map fun s => [("box-shadow", s.boxShadow)]
  | .depth => (Depth.read? value).map fun d => [lowerDepth text d]
  | .glowColor => some [("box-shadow", "0 0 20px " ++ text), ("filter", "brightness(1.2)")]
  | .material =>
      if Text.startsWith "brushed-metal".toList value then some [("background", brushedMetal)]
      else if value = "glass".toList then
        some [("backdrop-filter", "blur(12px)"), ("background", "rgba(255,255,255,.1)")]
      else none
  | .pixelGrid => some (lowerPixelGrid value)
  | .curve => some [("transition-timing-function", text)]
  | .lightIntensity => some [lowerLight value]
  | .fogDensity => some (lowerStrength "backdrop-filter" "blur(" "px)" value)
  | .bloomStrength => some (lowerStrength "filter" "drop-shadow(0 0 " "px currentColor)" value)
  | .particle => some [("--particle", text)]
  | .filmGrain => some [("--film-grain", text)]
  | .texture | .reflectivity | .roughness | .metallic => none
  | .hoverSfx | .clickSfx | .cursorMoveSfx | .ambientSound => none

/-- The kind of asset that a property without a plain form binds. -/
def assetKind? : Property → Option AssetKind
  | .texture => some .texture
  | .material | .reflectivity | .roughness | .metallic => some .material
  | .hoverSfx | .clickSfx | .cursorMoveSfx | .ambientSound => some .audio
  | _ => none

/-- The value of an asset; around a sound file one pair of quotes is taken off. -/
def assetValue (kind : AssetKind) (value : List Char) : String :=
  match kind with
  | .audio => String.ofList (Value.unquoted value)
  | .texture | .material => String.ofList value

def lower (selector : String) (d : Declaration) : Except CompileError Lowered :=
  match Property.ofName? d.property with
  | none => .error (.notRich selector d.property)
  | some property =>
      match plainForm? property d.trimmed with
      | some forms => .ok (.plain (forms.map fun f => classified f.1 f.2 d.span))
      | none =>
          match assetKind? property with
          | some kind =>
              .ok (.asset kind (Property.normalName d.property) (assetValue kind d.trimmed))
          -- a value that passes the check does not come here
          | none =>
              let finding := Finding.invalidValue property.name (String.ofList d.trimmed)
              .error (.invalid [finding.reportedFor selector d.property d.span])

def lowerIfRich (selector : String) (d : Declaration) : Except CompileError Lowered :=
  if d.rich then d.lower selector else .ok (.plain [d])

end Declaration

namespace Sheet

abbrev LoweredRule := Rule × List Lowered

/-- Lowers the declarations of a rule, up to the first that fails. -/
def lowerRule (r : Rule) : Except CompileError LoweredRule := do
  let lowered ← r.declarations.mapM (Declaration.lowerIfRich r.selector)
  .ok (r, lowered)

def keptRule (r : LoweredRule) : Rule :=
  { r.1 with declarations := r.2.flatMap Lowered.declarations }

def ruleBindings (r : LoweredRule) : List Binding :=
  r.2.filterMap fun
    | .plain _ => none
    | .asset kind property value => some ⟨kind, r.1.selector, property, value⟩

/-- Bindings put into empty assets, one after the other. -/
def collect (bindings : List Binding) : Assets :=
  bindings.foldl (fun a b => a.insert b.kind b.selector b.property b.value) .empty

structure Plain where
  rules : List Rule
  assets : Assets
deriving DecidableEq

/-- Lowers rules, up to the first declaration that fails. -/
def lower (rules : List Rule) : Except CompileError Plain := do
  let lowered ← rules.mapM lowerRule
  .ok ⟨lowered.map keptRule, collect (lowered.flatMap ruleBindings)⟩

end Sheet

end RichStyle
