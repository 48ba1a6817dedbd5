/-!
# Point — exact points of the plane and the turns between them

Coordinates are whole numbers of some unit.  The turn at a corner is the sign of one determinant, so it is exact; every
other predicate of the plane is decided by turns and comparisons.
-/
namespace MapFeatures
namespace Plane

/-- A point with whole coordinates. -/
structure Point where
  x : Int
  y : Int
deriving DecidableEq, Repr, Inhabited

/-- Smaller in `x`, or equal in `x` and smaller in `y`. -/
def Point.before (p q : Point) : Bool := p.x < q.x || (p.x = q.x && p.y < q.y)

def Point.scale (k : Int) (p : Point) : Point := ⟨k * p.x, k * p.y⟩

/-- The way a path bends. -/
inductive Turn
  | left
  | straight
  | right
deriving DecidableEq, Repr

/-- Twice the signed area of the triangle `a b c`, positive if it runs against the clock. -/
def cross (a b c : Point) : Int := (b.x - a.x) * (c.y - a.y) - (b.y - a.y) * (c.x - a.x)

/-- The turn at `b` on the way from `a` to `c`, which is also the side of the line `a b` that `c` lies on. -/
def turn (a b c : Point) : Turn :=
  let d := cross a b c
  if 0 < d then .left else if d < 0 then .right else .straight

/-- An axis-parallel box, its edges included. -/
structure Box where
  minX : Int
  minY : Int
  maxX : Int
  maxY : Int
deriving DecidableEq, Repr

namespace Box

def ofPoint (p : Point) : Box := ⟨p.x, p.y, p.x, p.y⟩

def extend (b : Box) (p : Point) : Box :=
  ⟨min b.minX p.x, min b.minY p.y, max b.maxX p.x, max b.maxY p.y⟩

/-- The smallest box around some points; none around no points. -/
def around? : List Point → Option Box
  | [] => none
  | p :: rest => some (rest.foldl extend (ofPoint p))

/-- Whether the boxes have a point in common. -/
def meets (b c : Box) : Bool :=
  b.minX ≤ c.maxX && c.minX ≤ b.maxX && b.minY ≤ c.maxY && c.minY ≤ b.maxY

def holds (b : Box) (p : Point) : Bool :=
  b.minX ≤ p.x && p.x ≤ b.maxX && b.minY ≤ p.y && p.y ≤ b.maxY

end Box
end Plane
end MapFeatures
