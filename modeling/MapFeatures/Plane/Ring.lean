import MapFeatures.Plane.Segment
/-!
# Ring — closed paths: direction, inside and outside, self-intersection

A ring is the list of its points; a closed one ends where it starts.  The direction is read off one corner, the place
of a point is found by counting turns around it, and self-intersections by a sweep over the segments.
-/
namespace MapFeatures
namespace Plane

inductive Winding
  | clockwise
  | counterClockwise
deriving DecidableEq, Repr

/-- Whether the ring ends where it starts. -/
def isClosed (ring : List Point) : Bool := ring.head? = ring.getLast?

/-- What comes before the first of the least points, that point, and what comes after it. -/
def splitAtLeast : List Point → Option (List Point × Point × List Point)
  | [] => none
  | p :: rest =>
    match splitAtLeast rest with
    | none => some ([], p, [])
    | some (before, least, after) =>
      if least.before p then some (p :: before, least, after) else some ([], p, rest)

/-- **The direction of a closed ring** of four points or more: the turn at its least point, between the nearest points
to either side that differ from it.  A ring that is straight there has none. -/
def winding? (ring : List Point) : Option Winding :=
  if ring.length < 4 || !isClosed ring then none
  else
    match splitAtLeast ring with
    | none => none
    | some (before, least, after) =>
      let others := after ++ before
      match others.reverse.find? (· ≠ least), others.find? (· ≠ least) with
      | some previous, some next =>
        match turn previous least next with
        | .left => some .counterClockwise
        | .right => some .clockwise
        | .straight => none
      | _, _ => none

/-- Where a point lies with respect to an area. -/
inductive Place
  | inside
  | boundary
  | outside
deriving DecidableEq, Repr

/-- What a segment adds to the number of turns around `p`: it counts if it passes the height of `p` on the left or on
the right of it. -/
def turnsAround (p : Point) (s : Segment) : Int :=
  if s.start.y ≤ p.y && p.y < s.finish.y && turn s.start s.finish p = .left then 1
  else if s.finish.y ≤ p.y && p.y < s.start.y && turn s.start s.finish p = .right then -1
  else 0

/-- The place of `p` with respect to the area that `ring` goes around at least once. -/
def locate (ring : List Point) (p : Point) : Place :=
  if ring = [p] || (segments ring).any (·.holds p) then .boundary
  else if (segments ring).foldl (fun turns s => turns + turnsAround p s) 0 = 0 then .outside
  else .inside

/-- Whether the segments numbered `i` and `j` of `count` follow each other on the ring. -/
def adjacent (count i j : Nat) : Bool :=
  i + 1 = j || j + 1 = i || i + (count - 1) = j || j + (count - 1) = i

/-- Whether two segments of a ring of `count` segments meet as they must not: neighbours may have the end that they
share in common, others nothing. -/
def conflict (count : Nat) (a b : Nat × Segment) : Bool :=
  match a.2.meet b.2 with
  | .apart => false
  | .touch p => !(adjacent count a.1 b.1 && a.2.sharedEnd? b.2 = some p)
  | .crossing => true
  | .overlap => true

/-- **The sweep**: each segment is compared with those after it until one starts beyond its end. -/
def sweepFindsConflict (count : Nat) : List (Nat × Segment) → Bool
  | [] => false
  | a :: rest =>
    (rest.takeWhile fun b => b.2.minX ≤ a.2.maxX).any (conflict count a) || sweepFindsConflict count rest

/-- The segments of a ring that have a length, each with its number on the ring. -/
def edges (ring : List Point) : List (Nat × Segment) :=
  let proper := (segments ring).filter fun s => !s.isPoint
  (List.range proper.length).zip proper

/-- Whether segments of a closed ring meet apart from neighbours at their shared end.  The segments are taken in the
order of their smallest `x`. -/
def selfIntersects (ring : List Point) : Bool :=
  let es := edges ring
  if es.length < 3 then false
  else sweepFindsConflict es.length (es.mergeSort fun a b => a.2.minX ≤ b.2.minX)

end Plane
end MapFeatures
