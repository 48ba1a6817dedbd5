/-!
# Mercator — latitudes and their spherical Mercator image

Both are in degrees.  The image of a latitude is as far from the equator as the map draws it when a degree of longitude
has the same width everywhere.
-/
namespace MapFeatures
namespace Mercator

def pi : Float := 3.141592653589793

def radians (degrees : Float) : Float := degrees * (pi / 180)

def degrees (radians : Float) : Float := radians * (180 / pi)

/-- Latitudes beyond this are drawn as if they were here. -/
def maxLatitude : Float := 85.0511

/-- The latitude moved into the drawable range; NaN stays. -/
def clampLatitude (lat : Float) : Float :=
  if lat < -maxLatitude then -maxLatitude else if maxLatitude < lat then maxLatitude else lat

/-- Where the map draws the latitude `lat`. -/
def project (lat : Float) : Float :=
  degrees (Float.log (Float.tan (radians (lat + 90) / 2)))

/-- The latitude that the map draws at `latp`. -/
def unproject (latp : Float) : Float :=
  2 * degrees (Float.atan (Float.exp (radians latp))) - 90

end Mercator
end MapFeatures
