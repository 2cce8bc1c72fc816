import DesignTokens.Decimal.Remainder
import DesignTokens.Json.Decode
import DesignTokens.Text.Split
import DesignTokens.Value.Number

/-!
# Colours

A colour has three byte channels and a straight alpha between zero and one. This module converts
between channels and hue, saturation and lightness, and writes a colour in each of the four colour
formats.
-/

namespace DesignTokens
namespace Value

structure Color where
  red : UInt8
  green : UInt8
  blue : UInt8
  alpha : Float32
deriving DecidableEq

structure Hsl where
  hue : Float
  saturation : Float
  lightness : Float

inductive ColorFormat where
  | hex
  | rgb
  | rgba
  | hsl
deriving DecidableEq, Repr

namespace ColorFormat

def all : List ColorFormat := [.hex, .rgb, .rgba, .hsl]

def name : ColorFormat → String
  | .hex => "hex"
  | .rgb => "rgb"
  | .rgba => "rgba"
  | .hsl => "hsl"

def ofName? (name : String) : Option ColorFormat :=
  all.find? (·.name = name)

end ColorFormat

/-- A number kept between two bounds; what is no number stays so. -/
def clamp (low high x : Float) : Float :=
  if x < low then low else if x > high then high else x

def clampUnit (x : Float32) : Float32 :=
  if x < 0.0 then 0.0 else if x > 1.0 then 1.0 else x

namespace Color

/-- A colour without transparency. -/
def rgb (red green blue : UInt8) : Color :=
  ⟨red, green, blue, 1.0⟩

def rgba (red green blue : UInt8) (alpha : Float32) : Color :=
  ⟨red, green, blue, clampUnit alpha⟩

/-- The colour has no transparency. -/
def isOpaque (color : Color) : Bool :=
  color.alpha ≥ 1.0

def alphaByte (color : Color) : UInt8 :=
  (clampUnit color.alpha * 255.0).round.toUInt8

def unitChannel (channel : UInt8) : Float :=
  Float.ofNat channel.toNat / 255.0

/-- The colour of a document: three byte channels and an alpha, which is one by default and is not
kept within bounds. -/
def ofJson (value : Json) : Json.Decoded Color := do
  let fields ← Json.Decode.record ["r", "g", "b", "a"] value
  let red ← Json.Decode.field fields "r" Json.Decode.byte
  let green ← Json.Decode.field fields "g" Json.Decode.byte
  let blue ← Json.Decode.field fields "b" Json.Decode.byte
  let alpha ← Json.Decode.fieldOr fields "a" 1.0 Json.Decode.float32
  return ⟨red, green, blue, alpha⟩

/-! ## Hue, saturation and lightness -/

/-- The hue, saturation and lightness of the channels. -/
def toHsl (color : Color) : Hsl :=
  let r := unitChannel color.red
  let g := unitChannel color.green
  let b := unitChannel color.blue
  let greatest := Max.max (Max.max r g) b
  let least := Min.min (Min.min r g) b
  let lightness := (greatest + least) / 2.0
  if greatest == least then ⟨0.0, 0.0, lightness⟩
  else
    let spread := greatest - least
    let saturation :=
      if lightness > 0.5 then spread / (2.0 - greatest - least) else spread / (greatest + least)
    let sextant :=
      if greatest == r then (g - b) / spread + (if g < b then 6.0 else 0.0)
      else if greatest == g then (b - r) / spread + 2.0
      else (r - g) / spread + 4.0
    ⟨sextant * 60.0, saturation, lightness⟩

/-- The colour of a hue, saturation and lightness. -/
def ofHsl (hsl : Hsl) (alpha : Float32) : Color :=
  let hue := Decimal.remainderEuclid hsl.hue 360.0
  let chroma := (1.0 - (2.0 * hsl.lightness - 1.0).abs) * hsl.saturation
  let second := chroma * (1.0 - (Decimal.remainder (hue / 60.0) 2.0 - 1.0).abs)
  let lift := hsl.lightness - chroma / 2.0
  let channel (x : Float) : UInt8 := (clamp 0.0 255.0 ((x + lift) * 255.0).round).toUInt8
  let compose (r g b : Float) : Color := rgba (channel r) (channel g) (channel b) alpha
  if hue < 60.0 then compose chroma second 0.0
  else if hue < 120.0 then compose second chroma 0.0
  else if hue < 180.0 then compose 0.0 chroma second
  else if hue < 240.0 then compose 0.0 second chroma
  else if hue < 300.0 then compose second 0.0 chroma
  else compose chroma 0.0 second

/-! ## Texts -/

def hexByte (n : UInt8) : String :=
  String.ofList [Nat.digitChar (n.toNat / 16), Nat.digitChar (n.toNat % 16)]

/-- The hexadecimal text, with the alpha only when the colour is translucent. -/
def hexText (color : Color) : String :=
  let channels := "#" ++ hexByte color.red ++ hexByte color.green ++ hexByte color.blue
  if color.isOpaque then channels else channels ++ hexByte color.alphaByte

def call (name : String) (arguments : List String) : String :=
  name ++ "(" ++ Text.join ", " arguments ++ ")"

def alphaText (color : Color) : String :=
  numberText color.alpha.toFloat

def channelTexts (color : Color) : List String :=
  [color.red, color.green, color.blue].map fun n => toString n.toNat

/-- The text with hue, saturation and lightness. -/
def hslText (color : Color) : String :=
  let hsl := color.toHsl
  let arguments := [fixedText hsl.hue 2, fixedText (hsl.saturation * 100.0) 2 ++ "%",
    fixedText (hsl.lightness * 100.0) 2 ++ "%"]
  if color.isOpaque then call "hsl" arguments
  else call "hsla" (arguments ++ [color.alphaText])

def text (color : Color) : ColorFormat → String
  | .hex => color.hexText
  | .rgb =>
      if color.isOpaque then call "rgb" color.channelTexts
      else call "rgba" (color.channelTexts ++ [color.alphaText])
  | .rgba => call "rgba" (color.channelTexts ++ [color.alphaText])
  | .hsl => color.hslText

end Color
end Value
end DesignTokens
