import MapFeatures.Plane.Point
/-!
# Segment — straight segments and how two of them meet

`meet` tells apart the four ways: not at all, in one point that is an end of one of them, by crossing in the inside of
both, or along a piece.
-/
namespace MapFeatures
namespace Plane

structure Segment where
  start : Point
  finish : Point
deriving DecidableEq, Repr

namespace Segment

def isPoint (s : Segment) : Bool := s.start = s.finish

def minX (s : Segment) : Int := min s.start.x s.finish.x

def maxX (s : Segment) : Int := max s.start.x s.finish.x

/-- Whether `p` lies on the segment, its ends included. -/
def holds (s : Segment) (p : Point) : Bool :=
  turn s.start s.finish p = .straight && ((Box.ofPoint s.start).extend s.finish).holds p

def first (s : Segment) : Point := if s.finish.before s.start then s.finish else s.start

def last (s : Segment) : Point := if s.finish.before s.start then s.start else s.finish

/-- The end that both segments have; the end of `s` that comes last on its way is tried first. -/
def sharedEnd? (s t : Segment) : Option Point :=
  if s.finish = t.start || s.finish = t.finish then some s.finish
  else if s.start = t.start || s.start = t.finish then some s.start
  else none

end Segment

/-- What two segments have in common. -/
inductive Meeting
  | apart
  | touch (at_ : Point)
  | crossing
  | overlap
deriving DecidableEq, Repr

namespace Segment

/-- The meeting of two segments on one line: what lies after both first ends and before both last ends. -/
def meetAlong (s t : Segment) : Meeting :=
  let low := if s.first.before t.first then t.first else s.first
  let high := if s.last.before t.last then s.last else t.last
  if low.before high then .overlap else if low = high then .touch low else .apart

/-- **How two segments meet.**  If an end of one lies straight on the line of the other, and neither segment is all on
one side of the other, that end is the common point. -/
def meet (s t : Segment) : Meeting :=
  if s.isPoint then if t.holds s.start then .touch s.start else .apart
  else if t.isPoint then if s.holds t.start then .touch t.start else .apart
  else
    let sideStart := turn s.start s.finish t.start
    let sideFinish := turn s.start s.finish t.finish
    let otherStart := turn t.start t.finish s.start
    let otherFinish := turn t.start t.finish s.finish
    if sideStart = .straight && sideFinish = .straight then meetAlong s t
    else if sideStart = sideFinish || otherStart = otherFinish then .apart
    else if sideStart = .straight then .touch t.start
    else if sideFinish = .straight then .touch t.finish
    else if otherStart = .straight then .touch s.start
    else if otherFinish = .straight then .touch s.finish
    else .crossing

def meets (s t : Segment) : Bool := s.meet t ≠ .apart

end Segment

def segments (path : List Point) : List Segment := List.zipWith Segment.mk path path.tail

end Plane
end MapFeatures
