import MapFeatures.Plane.Region
/-!
# Figure — areas and lines as graphs, and which parts of two of them meet

A figure is taken apart into edges, each with the places to its left, on it and to its right.  Edges of two figures stop
where they touch or overlap.  Around each stop the edge ends are put in order, and what is known on one of them is
carried on to the next, so that every edge end has places in both figures.  Together with the stops and with the edges
that meet nothing they show which parts meet (`meetings`).  A figure covers another if nothing of that is outside and
the insides meet.

The figures need not be sound: of a ring that meets itself, the sides are those that its direction gives.
-/
namespace MapFeatures
namespace Plane

/-- What is known of an edge in one figure.  A line has no sides. -/
structure Sides where
  isArea : Bool
  on : Option Place
  left : Option Place
  right : Option Place
deriving DecidableEq, Repr

namespace Sides

def unknown (isArea : Bool) : Sides := ⟨isArea, none, none, none⟩

def flip (s : Sides) : Sides := { s with left := s.right, right := s.left }

/-- What is not known yet is `place`. -/
def fill (place : Place) (s : Sides) : Sides :=
  if s.isArea then ⟨true, s.on.or place, s.left.or place, s.right.or place⟩
  else { s with on := s.on.or place }

end Sides

/-- A path whose neighbours differ, and what it is in its own figure. -/
structure Edge where
  path : List Point
  sides : Sides
deriving DecidableEq, Repr

structure Figure where
  edges : List Edge
  /-- Points that are stops from the start, each with its place in the figure. -/
  corners : List (Point × Place)
  /-- Where any point lies. -/
  place : Point → Place
  /-- Whether the figure has an inside. -/
  isArea : Bool

/-- The path without points that equal the one before. -/
def withoutRepeats : List Point → List Point
  | p :: q :: rest => if p = q then withoutRepeats (q :: rest) else p :: withoutRepeats (q :: rest)
  | short => short

/-! ## Stops -/

/-- A place where an edge stops: on the segment of this number, so far from its start. -/
structure Stop where
  index : Nat
  reach : Nat
  at_ : Point
deriving DecidableEq, Repr

namespace Stop

def before (s t : Stop) : Bool := s.index < t.index || (s.index = t.index && s.reach ≤ t.reach)

/-- The stop at a point of a segment; its end is the start of the next one. -/
def onSegment (s : Segment) (index : Nat) (p : Point) : Stop :=
  if p = s.finish then ⟨index + 1, 0, p⟩
  else ⟨index, (p.x - s.start.x).natAbs + (p.y - s.start.y).natAbs, p⟩

/-- The list without stops that are where the one before is. -/
def dropRepeats : List Stop → List Stop
  | s :: t :: rest =>
    if s.index = t.index && s.reach = t.reach then dropRepeats (t :: rest) else s :: dropRepeats (t :: rest)
  | short => short

def ordered (stops : List Stop) : List Stop := dropRepeats (stops.mergeSort before)

end Stop

namespace Segment

/-- Where two segments cross, as fractions. -/
def crossingPoint (s t : Segment) : Rat × Rat :=
  let before := cross t.start t.finish s.start
  let after := cross t.start t.finish s.finish
  let share : Rat := (before : Rat) / ((before - after : Int) : Rat)
  (s.start.x + share * (s.finish.x - s.start.x : Int), s.start.y + share * (s.finish.y - s.start.y : Int))

/-- The points at which segments of different figures stop: where they touch, and the ends of what they share. -/
def stopPoints (s t : Segment) : List Point :=
  match s.meet t with
  | .touch p => [p]
  | .overlap =>
    [if s.first.before t.first then t.first else s.first, if s.last.before t.last then s.last else t.last]
  | _ => []

/-- The points at which segments of one figure stop, crossings among them, which must be whole. -/
def ownStopPoints (s t : Segment) : List Point :=
  if s.meet t = .crossing then [⟨(crossingPoint s t).1.floor, (crossingPoint s t).2.floor⟩] else stopPoints s t

end Segment

/-- The stops of an edge at other edges. -/
def stopsAt (points : Segment → Segment → List Point) (others : List Edge) (e : Edge) : List Stop :=
  (segments e.path).zipIdx.flatMap fun s =>
    others.flatMap fun o => (segments o.path).flatMap fun t => (points s.1 t).map (Stop.onSegment s.1 s.2)

namespace Edge

def meets (e o : Edge) : Bool := (segments e.path).any fun s => (segments o.path).any s.meets

def crosses (e o : Edge) : Bool := (segments e.path).any fun s => (segments o.path).any fun t => s.meet t = .crossing

end Edge

/-! ## Areas and lines as figures -/

/-- The edge of a ring.  `onLeft` is the place to the left of it if it runs clockwise. -/
def ringEdge? (onLeft onRight : Place) (ring : List Point) : Option Edge :=
  match ring with
  | [] => none
  | _ =>
    match winding? ring with
    | some .counterClockwise => some ⟨withoutRepeats ring, ⟨true, some .boundary, some onRight, some onLeft⟩⟩
    | _ => some ⟨withoutRepeats ring, ⟨true, some .boundary, some onLeft, some onRight⟩⟩

/-- The edges with the others beside each. -/
def withOthers (edges : List Edge) : List (Edge × List Edge) :=
  edges.zipIdx.map fun e => (e.1, (edges.zipIdx.filter fun o => o.2 ≠ e.2).map (·.1))

namespace Region

def ringEdges (r : Region) : List Edge :=
  (ringEdge? .outside .inside r.shell).toList ++ r.holes.filterMap (ringEdge? .inside .outside)

/-- Whether the shell has three points that differ. -/
def isArea (r : Region) : Bool :=
  match r.shell with
  | [] => false
  | p :: rest =>
    match rest.find? (· ≠ p) with
    | none => false
    | some q => rest.any fun s => s ≠ p && s ≠ q

/-- The denominators of the points at which rings cross each other. -/
def crossingDenominators (r : Region) : List Nat :=
  (withOthers r.ringEdges).flatMap fun e =>
    (segments e.1.path).flatMap fun s => e.2.flatMap fun o => (segments o.path).flatMap fun t =>
      if s.meet t = .crossing then [(s.crossingPoint t).1.den, (s.crossingPoint t).2.den] else []

/-- The region as a figure; its rings start at a stop, and they stop where they meet each other. -/
def figure (r : Region) : Figure :=
  let edges := r.ringEdges
  let starts := edges.filterMap fun e => e.path.head?
  let own := (withOthers edges).flatMap fun e => (stopsAt Segment.ownStopPoints e.2 e.1).map Stop.at_
  ⟨edges, (starts ++ own).map (·, .boundary), r.locate, r.isArea⟩

end Region

/-- The path as a figure.  Its ends are its boundary, unless they are the same. -/
def pathFigure (path : List Point) : Figure :=
  let closed := isClosed path
  let endPlace : Place := if closed then .inside else .boundary
  let place (p : Point) : Place :=
    if !closed && (path.head? = some p || path.getLast? = some p) then .boundary
    else if (segments path).any (·.holds p) then .inside
    else .outside
  match withoutRepeats path with
  | [] => ⟨[], [], place, false⟩
  | [p] => ⟨[], [(p, .inside)], place, false⟩
  | edge => ⟨[⟨edge, ⟨false, some .inside, none, none⟩⟩],
      (edge.head?.toList ++ edge.getLast?.toList).map (·, endPlace), place, false⟩

/-! ## Edge ends around a stop -/

/-- An edge that leaves a stop, and what is known of it in both figures. -/
structure EdgeEnd where
  at_ : Point
  toward : Point
  first : Sides
  second : Sides

namespace EdgeEnd

/-- The quarter of the plane that the end leaves into, counted against the clock. -/
def quarter (e : EdgeEnd) : Nat :=
  if e.at_.y ≤ e.toward.y then if e.at_.x ≤ e.toward.x then 0 else 1
  else if e.toward.x < e.at_.x then 2 else 3

def sameDirection (e f : EdgeEnd) : Bool := e.quarter = f.quarter && turn e.at_ e.toward f.toward = .straight

/-- Whether the end leaves in a direction no later than that of `f`, counted against the clock. -/
def noLater (e f : EdgeEnd) : Bool :=
  e.quarter < f.quarter || (e.quarter = f.quarter && turn e.at_ e.toward f.toward ≠ .right)

end EdgeEnd

/-- The ends of an edge at its stops, back to the stop before or to the point before, and on in the same way. -/
def edgeEnds (make : Point → Point → Sides → EdgeEnd) (e : Edge) (previous : Option Stop) : List Stop → List EdgeEnd
  | [] => []
  | s :: rest =>
    let back : List EdgeEnd :=
      if s.reach = 0 && s.index = 0 then []
      else
        let from_ := if s.reach = 0 then s.index - 1 else s.index
        let toward? := (previous.filter fun p => from_ ≤ p.index).map Stop.at_
        (toward?.or e.path[from_]?).toList.map fun toward => make s.at_ toward e.sides.flip
    let on : List EdgeEnd :=
      let toward? := (rest.head?.filter fun n => n.index = s.index).map Stop.at_
      (toward?.or e.path[s.index + 1]?).toList.map fun toward => make s.at_ toward e.sides
    back ++ on ++ edgeEnds make e (some s) rest

/-- The stops of an edge with its two ends. -/
def withEnds (e : Edge) (stops : List Stop) : List Stop :=
  let first := e.path.head?.toList.map fun p => ⟨0, 0, p⟩
  let last := e.path.getLast?.toList.map fun p => ⟨e.path.length - 1, 0, p⟩
  Stop.ordered (first ++ last ++ stops)

/-! ## Ends in one direction -/

/-- What several ends in one direction are together: on them boundaries cancel in pairs, beside them the inside wins. -/
def joinSides (isArea : Bool) (ends : List Sides) : Sides :=
  let boundaries := ends.countP (·.on = some .boundary)
  let on : Option Place :=
    if boundaries % 2 = 1 then some .boundary
    else if 0 < boundaries || ends.any (·.on = some .inside) then some .inside
    else none
  let beside (side : Sides → Option Place) : Option Place :=
    if ends.any (side · = some .inside) then some .inside
    else if ends.any (side · = some .outside) then some .outside
    else none
  if isArea then ⟨true, on, beside Sides.left, beside Sides.right⟩ else ⟨false, on, none, none⟩

/-- Edge ends in the order of their directions, those of one direction together. -/
def bundles : List EdgeEnd → List (List EdgeEnd)
  | [] => []
  | e :: rest =>
    match bundles rest with
    | [] => [[e]]
    | (f :: more) :: others => if e.sameDirection f then (e :: f :: more) :: others else [e] :: (f :: more) :: others
    | [] :: others => [e] :: others

/-- What is known of a bundle in both figures. -/
def bundleSides (ends : List EdgeEnd) : Sides × Sides :=
  let isArea := ends.any fun e => e.first.isArea
  (joinSides isArea (ends.map EdgeEnd.first), joinSides isArea (ends.map EdgeEnd.second))

/-- The last known place to the left of a bundle. -/
def lastLeft (sides : List Sides) : Option Place :=
  (sides.filterMap fun s => if s.isArea then s.left else none).getLast?

/-- Goes around a stop against the clock and carries the place between the bundles on: it is where a bundle without
knowledge lies, and behind a bundle with sides it is what is left of that. -/
def carry (place : Place) : List Sides → List Sides
  | [] => []
  | s :: rest =>
    let s := { s with on := s.on.or place }
    if !s.isArea then s :: carry place rest
    else
      match s.right with
      | some _ => s :: carry (s.left.getD place) rest
      | none => { s with left := some place, right := some place } :: carry place rest

/-- Knowledge about one figure carried around a stop. -/
def carryAround (sides : List Sides) : List Sides :=
  match lastLeft sides with
  | none => sides
  | some place => carry place sides

/-! ## Meetings -/

abbrev PartPair := Place × Place

/-- What is known to both sides of an edge and on it. -/
def partPairs (first second : Sides) : List PartPair :=
  let both (a b : Option Place) : List PartPair :=
    match a, b with
    | some a, some b => [(a, b)]
    | _, _ => []
  both first.on second.on ++ both first.left second.left ++ both first.right second.right

namespace Figure

/-- The stops of each edge, at edges of its own figure and of the other one. -/
def stops (f other : Figure) : List (Edge × List Stop) :=
  (withOthers f.edges).map fun e =>
    (e.1, Stop.ordered (stopsAt Segment.ownStopPoints e.2 e.1 ++ stopsAt Segment.stopPoints other.edges e.1))

/-- The place in the figure of a point at which its edges stop `count` times: boundaries cancel in pairs. -/
def placeOfStops (f : Figure) (count : Nat) : Option Place :=
  if count = 0 then none
  else if f.edges.any fun e => e.sides.on = some .boundary then
    if count % 2 = 1 then some .boundary else some .inside
  else some .inside

/-- The place of a stop in the figure, if it is one of its stops. -/
def stopPlace (f : Figure) (stops : List (Edge × List Stop)) (p : Point) : Option Place :=
  match f.corners.lookup p with
  | some place => some place
  | none => f.placeOfStops ((stops.flatMap (·.2)).countP (·.at_ = p))

/-- Parts that meet at a stop. -/
def stopPair (f g : Figure) (fStops gStops : List (Edge × List Stop)) (p : Point) : PartPair :=
  ((f.stopPlace fStops p).getD (f.place p), (g.stopPlace gStops p).getD (g.place p))

/-- What is not known around a stop is where the stop lies, if the figure has an inside. -/
def fillAround (f : Figure) (p : Point) (sides : List Sides) : List Sides :=
  sides.map (Sides.fill (if f.isArea then f.place p else .outside))

/-- Parts that meet around a stop. -/
def pairsAround (f g : Figure) (ends : List EdgeEnd) (p : Point) : List PartPair :=
  let known := (bundles ((ends.filter (·.at_ = p)).mergeSort EdgeEnd.noLater)).map bundleSides
  let first := f.fillAround p (carryAround (known.map (·.1)))
  let second := g.fillAround p (carryAround (known.map (·.2)))
  (first.zip second).flatMap fun s => partPairs s.1 s.2

/-- An edge that meets nothing of the other figure is in one place of it. -/
def lonelySides (other : Figure) (e : Edge) : Option Sides :=
  if other.edges.any e.meets then none
  else e.path.head?.map fun p => Sides.fill (other.place p) (Sides.unknown e.sides.isArea)

/-- **Which parts of two figures meet**, as far as that can be read off their edges, if no edges cross. -/
def meetings (f g : Figure) : List PartPair :=
  let fStops := f.stops g
  let gStops := g.stops f
  let fEnds := fStops.flatMap fun e =>
    edgeEnds (fun p q s => ⟨p, q, s, .unknown s.isArea⟩) e.1 none (withEnds e.1 e.2)
  let gEnds := gStops.flatMap fun e =>
    edgeEnds (fun p q s => ⟨p, q, .unknown s.isArea, s⟩) e.1 none (withEnds e.1 e.2)
  let points := ((f.corners ++ g.corners).map (·.1) ++
    (fStops ++ gStops).flatMap fun e => e.2.map Stop.at_).eraseDups
  f.edges.flatMap (fun e => (lonelySides g e).toList.flatMap fun s => partPairs e.sides s) ++
    g.edges.flatMap (fun e => (lonelySides f e).toList.flatMap fun s => partPairs s e.sides) ++
    points.map (stopPair f g fStops gStops) ++
    points.flatMap (pairsAround f g (fEnds ++ gEnds))

/-- Whether all of `g` is in `f`, and not only on its boundary. -/
def covers (f g : Figure) : Bool :=
  if f.edges.any fun e => g.edges.any e.crosses then false
  else
    let met := f.meetings g
    met.contains (.inside, .inside) && !met.contains (.outside, .inside) && !met.contains (.outside, .boundary)

end Figure

/-! ## Covering -/

/-- A number that makes all crossings of rings whole when coordinates are multiplied by it. -/
def wholeFactor (denominators : List Nat) : Nat := denominators.foldl Nat.lcm 1

namespace Region

def covers (r t : Region) : Bool :=
  let k := wholeFactor (r.crossingDenominators ++ t.crossingDenominators)
  (r.scale k).figure.covers (t.scale k).figure

def coversPath (r : Region) (path : List Point) : Bool :=
  let k := wholeFactor r.crossingDenominators
  (r.scale k).figure.covers (pathFigure (path.map (Point.scale k)))

end Region
end Plane
end MapFeatures
