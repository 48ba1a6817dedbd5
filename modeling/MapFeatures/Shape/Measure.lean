import MapFeatures.Shape
/-!
# Measure — lengths, areas and centroids

These are computed in floats, in the order in which the sums are written here.  A centroid is the mean of the parts of
highest dimension: areas weigh before lengths, lengths before single points.
-/
namespace MapFeatures

namespace Coord

def add (a b : Coord) : Coord := ⟨a.x + b.x, a.y + b.y⟩

def sub (a b : Coord) : Coord := ⟨a.x - b.x, a.y - b.y⟩

def scale (a : Coord) (f : Float) : Coord := ⟨a.x * f, a.y * f⟩

def divide (a : Coord) (f : Float) : Coord := ⟨a.x / f, a.y / f⟩

def distance (a b : Coord) : Float :=
  let d := b.sub a
  Float.sqrt (d.x * d.x + d.y * d.y)

def det (a b : Coord) : Float := a.x * b.y - a.y * b.x

end Coord

def magnitude (v : Float) : Float := Float.abs v

namespace Path

def steps (p : Path) : List (Coord × Coord) := List.zip p p.tail

def length (p : Path) : Float := (steps p).foldl (fun total s => total + s.1.distance s.2) 0

/-- The signed area of a closed ring by the shoelace formula, positive if it runs against the clock.  Coordinates are
taken relative to the first one.  An open path has none. -/
def signedArea (p : Path) : Float :=
  match p.head?, p.getLast? with
  | some first, some last =>
    if List.length p < 3 || !first.same last then 0
    else (steps p).foldl (fun total s => total + (s.1.sub first).det (s.2.sub first)) 0 / 2
  | _, _ => 0

end Path

/-- The area of the shell without the areas of the holes. -/
def Polygon.area (p : Polygon) : Float :=
  magnitude (p.holes.foldl (fun total hole => total - magnitude hole.signedArea) (magnitude p.shell.signedArea))

def MultiPolygon.area (mp : MultiPolygon) : Float := mp.foldl (fun total p => total + p.area) 0

/-- A weighted sum of positions, of parts of one dimension. -/
structure Moment where
  dimension : Nat
  weight : Float
  total : Coord

namespace Moment

def ofPart (dimension : Nat) (center : Coord) (weight : Float) : Moment := ⟨dimension, weight, center.scale weight⟩

/-- Both together; of different dimensions only the higher one counts. -/
def add (m n : Moment) : Moment :=
  if m.dimension < n.dimension then n
  else if n.dimension < m.dimension then m
  else ⟨m.dimension, m.weight + n.weight, m.total.add n.total⟩

/-- The first without the second; of different dimensions only the higher one counts. -/
def sub (m n : Moment) : Moment :=
  if m.dimension < n.dimension then n
  else if n.dimension < m.dimension then m
  else ⟨m.dimension, m.weight - n.weight, m.total.sub n.total⟩

def center (m : Moment) : Coord := m.total.divide m.weight

/-- Another part added to what there is so far. -/
def join (sofar : Option Moment) (part : Moment) : Option Moment :=
  match sofar with
  | none => some part
  | some m => some (m.add part)

def ofStep (s : Coord × Coord) : Moment :=
  if s.1.same s.2 then ofPart 0 s.1 1
  else ofPart 1 ((s.1.add s.2).divide 2) (s.1.distance s.2)

/-- A line adds its segments, unless there are areas already. -/
def joinLine (sofar : Option Moment) (line : Path) : Option Moment :=
  match sofar, line with
  | some ⟨2, weight, total⟩, _ => some ⟨2, weight, total⟩
  | _, [c] => join sofar (ofPart 0 c 1)
  | _, _ => (Path.steps line).foldl (fun m s => join m (ofStep s)) sofar

/-- A ring adds its area; one without area counts as a line, or as a point if it is one. -/
def joinRing (sofar : Option Moment) (ring : Path) : Option Moment :=
  match ring with
  | [] => sofar
  | first :: _ =>
    let area := ring.signedArea
    if area == 0 then
      if ring.all (first.same ·) then join sofar (ofPart 0 first 1) else joinLine sofar ring
    else
      let total := (Path.steps ring).foldl (fun (acc : Coord) s =>
        let a := s.1.sub first
        let b := s.2.sub first
        acc.add ((b.add a).scale (a.det b))) ⟨0, 0⟩
      join sofar (ofPart 2 ((total.divide (6 * area)).add first) (magnitude area))

/-- A polygon adds its shell without its holes; if they fill it, its shell counts as a line. -/
def joinPolygon (sofar : Option Moment) (p : Polygon) : Option Moment :=
  match joinRing none p.shell with
  | none => sofar
  | some shell =>
    match p.holes.foldl joinRing none with
    | none => join sofar shell
    | some holes =>
      let rest := shell.sub holes
      if rest.weight == 0 then joinLine sofar p.shell else join sofar rest

end Moment

def Path.centroid? (p : Path) : Option Coord := (Moment.joinLine none p).map Moment.center

def Polygon.centroid? (p : Polygon) : Option Coord := (Moment.joinPolygon none p).map Moment.center

def MultiPolygon.centroid? (mp : MultiPolygon) : Option Coord := (mp.foldl Moment.joinPolygon none).map Moment.center

end MapFeatures
