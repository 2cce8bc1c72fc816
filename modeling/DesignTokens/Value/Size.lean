import DesignTokens.Value.Number

/-!
# Sizes

A number with an optional size unit; without one it counts pixels. Relative units are converted
against a base font size.
-/

namespace DesignTokens
namespace Value

inductive SizeUnit where
  | px
  | rem
  | em
  | pt
deriving DecidableEq, Repr

namespace SizeUnit

def all : List SizeUnit := [.px, .rem, .em, .pt]

def suffix : SizeUnit → String
  | .px => "px"
  | .rem => "rem"
  | .em => "em"
  | .pt => "pt"

def ofName? (suffix : String) : Option SizeUnit :=
  all.find? (·.suffix = suffix)

def ofSuffix? (suffix : String) : Option SizeUnit :=
  ofName? (String.ofList (suffix.toList.map Char.toLower))

end SizeUnit

/-- The base font size when none is given. -/
def defaultBaseFontSize : Float := 16.0

def pixelsPerPoint : Float := 4.0 / 3.0

structure Size where
  value : Float
  unit : Option SizeUnit
deriving DecidableEq

namespace Size

def toPixels (size : Size) (base : Float) : Float :=
  match size.unit with
  | none | some .px => size.value
  | some .rem | some .em => size.value * base
  | some .pt => size.value * pixelsPerPoint

/-- A number of pixels as a size in the given unit. Against a base of zero the number is kept. -/
def ofPixels (pixels : Float) (unit : SizeUnit) (base : Float) : Size :=
  match unit with
  | .px => ⟨pixels, some unit⟩
  | .rem | .em => ⟨if base == 0.0 then pixels else pixels / base, some unit⟩
  | .pt => ⟨pixels / pixelsPerPoint, some unit⟩

def convert (size : Size) (unit : SizeUnit) (base : Float) : Size :=
  ofPixels (size.toPixels base) unit base

def text (size : Size) : String :=
  numberText size.value ++ (size.unit.map SizeUnit.suffix).getD ""

end Size
end Value
end DesignTokens
