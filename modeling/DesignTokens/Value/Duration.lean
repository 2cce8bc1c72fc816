import DesignTokens.Value.Number

/-!
# Durations

A number with an optional unit of time; without one it counts milliseconds.
-/

namespace DesignTokens
namespace Value

inductive TimeUnit where
  | ms
  | s
deriving DecidableEq, Repr

namespace TimeUnit

def all : List TimeUnit := [.ms, .s]

def suffix : TimeUnit → String
  | .ms => "ms"
  | .s => "s"

def ofName? (suffix : String) : Option TimeUnit :=
  all.find? (·.suffix = suffix)

end TimeUnit

structure Duration where
  value : Float
  unit : Option TimeUnit
deriving DecidableEq

namespace Duration

def toMilliseconds (duration : Duration) : Float :=
  match duration.unit with
  | none | some .ms => duration.value
  | some .s => duration.value * 1000.0

def ofMilliseconds (milliseconds : Float) (unit : TimeUnit) : Duration :=
  match unit with
  | .ms => ⟨milliseconds, some unit⟩
  | .s => ⟨milliseconds / 1000.0, some unit⟩

def text (duration : Duration) : String :=
  numberText duration.value ++ (duration.unit.map TimeUnit.suffix).getD ""

end Duration
end Value
end DesignTokens
