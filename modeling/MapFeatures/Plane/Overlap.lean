import MapFeatures.Plane.Figure
/-!
# Overlap — the area that two regions share

Between neighbouring upright lines through all corners and crossings no two edges cross, so the length of what a line
there has in both regions changes evenly, and the area is the width times the length in the middle (`sharedArea`).
-/
namespace MapFeatures
namespace Plane

namespace Segment

/-- The height of the segment at `x`. -/
def heightAt (s : Segment) (x : Rat) : Rat :=
  s.start.y + (x - s.start.x) * (s.finish.y - s.start.y : Int) / (s.finish.x - s.start.x : Int)

end Segment

/-- The list without entries that equal the one before. -/
def dropRepeats : List Rat → List Rat
  | a :: b :: rest => if a = b then dropRepeats (b :: rest) else a :: dropRepeats (b :: rest)
  | short => short

def ordered (xs : List Rat) : List Rat := dropRepeats (xs.mergeSort fun a b => a ≤ b)

def gaps (xs : List Rat) : List (Rat × Rat) := xs.zip xs.tail

/-- The `x` of the crossing of two segments, if they cross. -/
def crossingX? (s t : Segment) : Option Rat :=
  if s.meet t = .crossing then some (s.crossingPoint t).1 else none

/-- The `x` of every crossing. -/
def crossings : List Segment → List Rat
  | [] => []
  | s :: rest => rest.filterMap (crossingX? s) ++ crossings rest

/-- The `x` of every corner and of every crossing, in order. -/
def cuts (edges : List Segment) : List Rat :=
  ordered ((edges.flatMap fun s => [(s.start.x : Rat), (s.finish.x : Rat)]) ++ crossings edges)

/-- The heights at which the upright line at `x` passes edges, each with whether the edge is one of the first region. -/
def passes (x : Rat) (first : Bool) (edges : List Segment) : List (Rat × Bool) :=
  (edges.filter fun s => (s.minX : Rat) < x && x < (s.maxX : Rat)).map fun s => (s.heightAt x, first)

/-- The length of what lies in both regions, going up from one pass to the next; passing an edge changes whether one is
in its region. -/
def lengthInBoth (inFirst inSecond : Bool) : List (Rat × Bool) → Rat
  | p :: q :: rest =>
    let inFirst := inFirst != p.2
    let inSecond := inSecond != !p.2
    (if inFirst && inSecond then q.1 - p.1 else 0) + lengthInBoth inFirst inSecond (q :: rest)
  | _ => 0

/-- The length that the upright line at `x` has in both regions. -/
def sharedLength (r t : Region) (x : Rat) : Rat :=
  lengthInBoth false false ((passes x true r.edges ++ passes x false t.edges).mergeSort fun p q => p.1 ≤ q.1)

/-- **The area that two regions have in common**, where a region is what is an odd number of edges away from far off. -/
def sharedArea (r t : Region) : Rat :=
  (gaps (cuts (r.edges ++ t.edges))).foldl (fun area g => area + (g.2 - g.1) * sharedLength r t ((g.1 + g.2) / 2)) 0

namespace Region

def coordinates (r : Region) : List Int := r.rings.flatMap fun ring => ring.flatMap fun p => [p.x, p.y]

/-- The region with all coordinates divided by `k`. -/
def shrink (k : Nat) (r : Region) : Region :=
  let divide (ring : List Point) : List Point := ring.map fun p => ⟨p.x / k, p.y / k⟩
  ⟨divide r.shell, r.holes.map divide⟩

end Region

def commonDivisor (ns : List Int) : Nat := ns.foldl (fun d n => Nat.gcd d n.natAbs) 0

end Plane
end MapFeatures
