import RichStyle.Span
import RichStyle.Text

/-!
# Sheets

A sheet is a list of rules, a rule is a selector with declarations, and a declaration is a property with
a value.
-/

namespace RichStyle

/-!
## Rich properties

The properties that plain style sheets do not know.  A name is recognised without regard to blanks
around it and to the case of its ASCII letters.
-/

/-- A property that is lowered to plain declarations or to an asset. -/
inductive Property where
  | shape
  | pixelGrid
  | depth
  | curve
  | lightIntensity
  | shadowType
  | reflectivity
  | glowColor
  | fogDensity
  | particle
  | bloomStrength
  | filmGrain
  | material
  | texture
  | roughness
  | metallic
  | hoverSfx
  | clickSfx
  | cursorMoveSfx
  | ambientSound
deriving DecidableEq

namespace Property

def all : List Property :=
  [shape, pixelGrid, depth, curve, lightIntensity, shadowType, reflectivity, glowColor, fogDensity,
   particle, bloomStrength, filmGrain, material, texture, roughness, metallic, hoverSfx, clickSfx,
   cursorMoveSfx, ambientSound]

def name : Property → String
  | shape => "shape"
  | pixelGrid => "pixel-grid"
  | depth => "depth"
  | curve => "curve"
  | lightIntensity => "light-intensity"
  | shadowType => "shadow-type"
  | reflectivity => "reflectivity"
  | glowColor => "glow-color"
  | fogDensity => "fog-density"
  | particle => "particle"
  | bloomStrength => "bloom-strength"
  | filmGrain => "film-grain"
  | material => "material"
  | texture => "texture"
  | roughness => "roughness"
  | metallic => "metallic"
  | hoverSfx => "hover-sfx"
  | clickSfx => "click-sfx"
  | cursorMoveSfx => "cursor-move-sfx"
  | ambientSound => "ambient-sound"

/-- A name without blanks around it and with its ASCII letters in lower case. -/
def normalName (name : String) : String :=
  String.ofList ((Text.trim name.toList).map Char.toLower)

def ofName? (name : String) : Option Property :=
  all.find? fun p => p.name == normalName name

/-- The names that make a declaration rich, in a list of their own. -/
def richNames : List String :=
  ["shape", "pixel-grid", "depth", "curve", "light-intensity", "shadow-type", "reflectivity",
   "glow-color", "fog-density", "particle", "bloom-strength", "film-grain", "material", "texture",
   "roughness", "metallic", "hover-sfx", "click-sfx", "cursor-move-sfx", "ambient-sound"]

def isRich (name : String) : Bool :=
  richNames.contains (normalName name)

theorem map_name_all : all.map name = richNames := rfl

/-- A name is in the list exactly if it stands for a property. -/
theorem isRich_eq_isSome (name : String) : isRich name = (ofName? name).isSome := by
  rw [isRich, ofName?, ← map_name_all, Bool.eq_iff_iff, List.contains_iff_mem, List.find?_isSome,
    List.mem_map]
  simp only [beq_iff_eq]

/-- The properties whose value is a sound file. -/
def isSound : Property → Bool
  | hoverSfx | clickSfx | cursorMoveSfx | ambientSound => true
  | _ => false

/-- The properties whose value should be a number from zero to one. -/
def isUnitInterval : Property → Bool
  | reflectivity | roughness | metallic | fogDensity | bloomStrength => true
  | _ => false

end Property

/-!
## Rules

A declaration knows whether it is rich, that is whether it still has to be lowered.
-/

structure Declaration where
  property : String
  value : String
  rich : Bool
  span : Span
deriving DecidableEq

/-- A declaration that is rich if its property is. -/
def Declaration.classified (property value : String) (span : Span) : Declaration :=
  ⟨property, value, Property.isRich property, span⟩

structure Rule where
  selector : String
  declarations : List Declaration
  span : Span
deriving DecidableEq

structure Sheet where
  rules : List Rule
  imports : List String
deriving DecidableEq

namespace Sheet

def banner : String :=
  "/* Generated by csspp - do not edit */\n\n"

def printDeclaration (d : Declaration) : String :=
  "  " ++ d.property ++ ": " ++ d.value ++ ";\n"

/-- A rule, its declarations on lines of their own, and an empty line. -/
def printRule (r : Rule) : String :=
  r.selector ++ " \x7b\n" ++ String.join (r.declarations.map printDeclaration) ++ "\x7d\n\n"

def print (rules : List Rule) (withBanner : Bool) : String :=
  (if withBanner then banner else "") ++ String.join (rules.map printRule)

end Sheet

end RichStyle
