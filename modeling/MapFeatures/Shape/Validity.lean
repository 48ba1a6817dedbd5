import MapFeatures.Shape.Orientation
/-!
# Validity — what may be wrong with a shape

A check looks for the first fault and repairs nothing.  `check` is `none` for a sound shape.
-/
namespace MapFeatures

/-- What is wrong with a shape. -/
inductive Fault
  /-- A ring or a line has too few distinct points to span anything. -/
  | tooFewPoints
  /-- A coordinate is no finite number. -/
  | invalidCoordinate
  /-- A ring does not end where it starts. -/
  | notClosed
  /-- A ring runs the wrong way. -/
  | wrongOrientation
  /-- Two segments of a ring meet that are no neighbours. -/
  | selfIntersections
  /-- A hole is not inside the shell. -/
  | interiorRingOutside
deriving DecidableEq, Repr

namespace Fault

def text : Fault → String
  | tooFewPoints => "too few points"
  | invalidCoordinate => "an invalid coordinate"
  | notClosed => "an open ring"
  | wrongOrientation => "a wrongly oriented ring"
  | selfIntersections => "self-intersections"
  | interiorRingOutside => "an inner ring outside the outer ring"

/-- Whether the fault leaves nothing to show. -/
def isDegenerate : Fault → Bool
  | tooFewPoints => true
  | _ => false

end Fault

/-- A closed ring needs three distinct points and the first one again. -/
def minRingPoints : Nat := 4

namespace Path

/-- Whether the path has at least so many distinct coordinates; the two zeros are distinct. -/
def hasDistinct : Nat → Path → Bool
  | 0, _ => true
  | _ + 1, [] => false
  | n + 1, c :: rest => hasDistinct n (rest.filter (· ≠ c))

def checkLine (p : Path) : Option Fault :=
  if !p.isFinite then some .invalidCoordinate
  else if !hasDistinct 2 p then some .tooFewPoints
  else none

/-- The check of a ring that is to run in the direction `wanted`. -/
def checkRing (wanted : Plane.Winding) (p : Path) : Option Fault :=
  if !p.isFinite then some .invalidCoordinate
  else if List.length p < minRingPoints || !hasDistinct 3 p then some .tooFewPoints
  else if !Plane.isClosed p.points then some .notClosed
  else if Plane.selfIntersects p.points then some .selfIntersections
  else if p.winding? ≠ some wanted then some .wrongOrientation
  else none

/-- Whether no coordinate of the ring is outside the shell, and one of them is properly inside. -/
def vertexInside (shell ring : Path) : Bool :=
  let places := ring.points.map (Plane.locate shell.points)
  places.all (· ≠ .outside) && places.any (· = .inside)

end Path

namespace Polygon

def check (p : Polygon) : Option Fault :=
  (p.shell.checkRing .clockwise).or (holesFault p.holes)
where
  holesFault : List Path → Option Fault
    | [] => none
    | hole :: rest =>
      ((hole.checkRing .counterClockwise).or
        (if p.shell.vertexInside hole then none else some .interiorRingOutside)).or (holesFault rest)

end Polygon

def MultiPolygon.check (mp : MultiPolygon) : Option Fault :=
  if mp.isEmpty then some .tooFewPoints else mp.findSome? Polygon.check

/-- The check of a collection of lines: there must be one, and each must be sound. -/
def checkLines (lines : List Path) : Option Fault :=
  if lines.isEmpty then some .tooFewPoints else lines.findSome? Path.checkLine

end MapFeatures
