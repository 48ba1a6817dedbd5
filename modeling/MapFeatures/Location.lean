import MapFeatures.Number.Decimal
import MapFeatures.Mercator
/-!
# Location — positions in fixed point

A location is a longitude and a projected latitude, both in `10 ^ -7` degrees and held in 32 bits.  `ofProjected` rounds
a pair of floats to it, `ofDegrees` projects the latitude first.
-/
namespace MapFeatures

/-- A projected position: the longitude and the Mercator image of the latitude, in `10 ^ -7` degrees. -/
structure Location where
  latp : Int32
  lon : Int32
deriving DecidableEq, Repr, Inhabited

namespace Location

def perDegree : Float := 1e7

/-- The whole number moved into the range of 32 bits. -/
def saturate (n : Int) : Int32 :=
  if n < Int32.minValue.toInt then Int32.minValue
  else if Int32.maxValue.toInt < n then Int32.maxValue
  else Int32.ofInt n

/-- The nearest whole number in 32 bits: a half goes away from zero, the infinities to the ends, NaN to zero. -/
def nearest32 (v : Float) : Int32 :=
  match Binary64.round? v with
  | some n => saturate n
  | none => if v.isNaN then 0 else if Binary64.isNegative v then Int32.minValue else Int32.maxValue

def ofProjected (latp lon : Float) : Location := ⟨nearest32 (latp * perDegree), nearest32 (lon * perDegree)⟩

/-- The location at a latitude and a longitude, in degrees. -/
def ofDegrees (lat lon : Float) : Location :=
  ofProjected (Mercator.project (Mercator.clampLatitude lat)) lon

def lonDegrees (l : Location) : Float := Float.ofInt l.lon.toInt / perDegree

def latpDegrees (l : Location) : Float := Float.ofInt l.latp.toInt / perDegree

def latDegrees (l : Location) : Float := Mercator.unproject l.latpDegrees

/-- Longitude and projected latitude in degrees, the latter with a raised p. -/
def text (l : Location) : String :=
  "(" ++ Decimal.shortest l.lonDegrees ++ ", " ++ Decimal.shortest l.latpDegrees ++ "ᵖ)"

end Location
end MapFeatures
