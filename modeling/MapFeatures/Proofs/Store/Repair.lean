import MapFeatures.Proofs.Store.Integrity
/-!
# Repair — leaving out what is missing while a shape is built, or before

A request for a shape is answered with what is found, unless something is missing that must not be (`shape_eq`).  So a
store that leaves out what is missing answers as one that enforces integrity answers once all that is missing is struck
out of its ways and of the request (`lenient_as_repaired`).
-/
namespace MapFeatures

/-- What a store is asked to make of some nodes or ways. -/
inductive ShapeRequest
  | locations (nodes : List NodeId)
  | line (nodes : List NodeId)
  | polygon (nodes : List NodeId)
  | multiPolygon (outer inner : List WayId)
  | lines (ways : List WayId)

/-- What a store makes of them. -/
inductive Shape
  | locations (ls : List Location)
  | line (path : Path)
  | polygon (area : Polygon)
  | multiPolygon (areas : MultiPolygon)
  | lines (paths : List Path)
deriving DecidableEq

namespace ObjectStore

variable (s : ObjectStore)

/-- **The answer to a request.** -/
def shape : ShapeRequest → Except StoreError Shape
  | .locations nodes => (s.locations nodes).map .locations
  | .line nodes => (s.line nodes).map .line
  | .polygon nodes => (s.polygon nodes).map .polygon
  | .multiPolygon outer inner => ((s.multiPolygon outer inner).map Built.value).map .multiPolygon
  | .lines ways => ((s.lines ways).map Built.value).map .lines

/-- The shape of what is found. -/
def foundShape : ShapeRequest → Shape
  | .locations nodes => .locations (s.found nodes)
  | .line nodes => .line (Path.ofLocations (s.found nodes))
  | .polygon nodes => .polygon (Polygon.ofRings (Path.ofLocations (s.found nodes)) []).correct
  | .multiPolygon outer inner => .multiPolygon (s.foundArea outer inner)
  | .lines ways => .lines (s.foundLines ways)

/-- The error for the first missing reference of a request. -/
def missingOf? : ShapeRequest → Option StoreError
  | .locations nodes => s.missingNode? nodes
  | .line nodes => s.missingNode? nodes
  | .polygon nodes => s.missingNode? nodes
  | .multiPolygon outer inner => s.missingAmong? (s.consulted outer inner)
  | .lines ways => s.missingAmong? ways

variable {s}

theorem line_eq (nodes : List NodeId) :
    s.line nodes = unlessError (Path.ofLocations (s.found nodes)) (s.enforced (s.missingNode? nodes)) := by
  rw [line, locations_eq, map_unlessError]

theorem polygon_eq (nodes : List NodeId) :
    s.polygon nodes = unlessError (Polygon.ofRings (Path.ofLocations (s.found nodes)) []).correct
      (s.enforced (s.missingNode? nodes)) := by
  rw [polygon, line_eq, map_unlessError]

/-- **A request is answered with what is found**, unless a reference is missing that must not be. -/
theorem shape_eq (r : ShapeRequest) : s.shape r = unlessError (s.foundShape r) (s.enforced (s.missingOf? r)) := by
  cases r with
  | locations nodes => rw [shape, locations_eq, map_unlessError]; rfl
  | line nodes => rw [shape, line_eq, map_unlessError]; rfl
  | polygon nodes => rw [shape, polygon_eq, map_unlessError]; rfl
  | multiPolygon outer inner => rw [shape, multiPolygon_eq, unlessMissing, map_unlessError]; rfl
  | lines ways => rw [shape, lines_eq, unlessMissing, map_unlessError]; rfl

/-! ## The repaired store -/

variable (s)

/-- The store with integrity enforced, or not. -/
def enforcing (strict : Bool) : ObjectStore := { s with config := { s.config with enforceIntegrity := strict } }

/-- Those nodes of a list that are stored. -/
def presentNodes (ids : List NodeId) : List NodeId := ids.filter fun id => (s.nodes.at? id).isSome

/-- Those ways of a list that are stored. -/
def presentWays (ids : List WayId) : List WayId := ids.filter s.ways.contains

/-- The store with all missing nodes struck out of its ways. -/
def repaired : ObjectStore := { s with ways := ⟨s.ways.nodes.map fun _ nodes => s.presentNodes nodes⟩ }

/-- The request with all missing nodes or ways struck out. -/
def repair : ShapeRequest → ShapeRequest
  | .locations nodes => .locations (s.presentNodes nodes)
  | .line nodes => .line (s.presentNodes nodes)
  | .polygon nodes => .polygon (s.presentNodes nodes)
  | .multiPolygon outer inner => .multiPolygon (s.presentWays outer) (s.presentWays inner)
  | .lines ways => .lines (s.presentWays ways)

/-- Whether no reference of a request is missing. -/
def Serves : ShapeRequest → Prop
  | .locations nodes => s.HasNodes nodes
  | .line nodes => s.HasNodes nodes
  | .polygon nodes => s.HasNodes nodes
  | .multiPolygon outer inner => ∀ id ∈ outer ++ inner, s.Resolves id
  | .lines ways => ∀ id ∈ ways, s.Resolves id

variable {s}

theorem missingOf?_eq_none {r : ShapeRequest} (h : s.Serves r) : s.missingOf? r = none := by
  cases r with
  | locations nodes => exact missingNode?_eq_none_iff.2 h
  | line nodes => exact missingNode?_eq_none_iff.2 h
  | polygon nodes => exact missingNode?_eq_none_iff.2 h
  | multiPolygon outer inner =>
    refine missingAmong?_eq_none_iff.2 fun id hid => h id ?_
    unfold consulted at hid
    split at hid
    · exact List.mem_append_left inner hid
    · exact hid
  | lines ways => exact missingAmong?_eq_none_iff.2 h

theorem hasNodes_presentNodes (ids : List NodeId) : s.HasNodes (s.presentNodes ids) :=
  fun _ hid => (List.mem_filter.1 hid).2

theorem found_presentNodes (ids : List NodeId) : s.found (s.presentNodes ids) = s.found ids := by
  have hskip : (fun id => if (s.nodes.at? id).isSome then s.nodes.at? id else none) = s.nodes.at? := by
    funext id
    cases s.nodes.at? id with
    | none => rfl
    | some l => rfl
  rw [found, presentNodes, List.filterMap_filter, hskip, found]

theorem nodesFor?_repaired (id : WayId) : s.repaired.ways.nodesFor? id = (s.ways.nodesFor? id).map s.presentNodes :=
  Std.HashMap.getElem?_map

theorem contains_ways (id : WayId) : s.ways.contains id = (s.ways.nodesFor? id).isSome :=
  Std.HashMap.contains_eq_isSome_getElem?

theorem resolves_repaired {ways : List WayId} : ∀ id ∈ s.presentWays ways, s.repaired.Resolves id := by
  intro id hid
  have hstored := (List.mem_filter.1 hid).2
  rw [contains_ways] at hstored
  obtain ⟨nodes, hnodes⟩ := Option.isSome_iff_exists.1 hstored
  exact ⟨s.presentNodes nodes, by rw [nodesFor?_repaired, hnodes]; rfl, hasNodes_presentNodes nodes⟩

theorem foundWays_repaired (ways : List WayId) : s.repaired.foundWays (s.presentWays ways) = s.foundWays ways := by
  rw [foundWays, presentWays, List.filterMap_filter, foundWays]
  congr 1
  funext id
  rw [contains_ways, nodesFor?_repaired]
  cases s.ways.nodesFor? id with
  | none => rfl
  | some nodes => exact congrArg some (found_presentNodes nodes)

theorem serves_repair (r : ShapeRequest) : s.repaired.Serves (s.repair r) := by
  cases r with
  | locations nodes => exact hasNodes_presentNodes nodes
  | line nodes => exact hasNodes_presentNodes nodes
  | polygon nodes => exact hasNodes_presentNodes nodes
  | multiPolygon outer inner =>
    intro id hid
    exact (List.mem_append.1 hid).elim (resolves_repaired id) (resolves_repaired id)
  | lines ways => exact resolves_repaired

theorem foundShape_repair (r : ShapeRequest) : s.repaired.foundShape (s.repair r) = s.foundShape r := by
  have hfound : ∀ nodes, s.repaired.found (s.presentNodes nodes) = s.found nodes := found_presentNodes
  cases r with
  | locations nodes => rw [repair, foundShape, hfound, foundShape]
  | line nodes => rw [repair, foundShape, hfound, foundShape]
  | polygon nodes => rw [repair, foundShape, hfound, foundShape]
  | multiPolygon outer inner =>
    rw [repair, foundShape, foundArea, foundRings, foundRings, foundWays_repaired, foundWays_repaired]
    rfl
  | lines ways => rw [repair, foundShape, foundLines, foundWays_repaired, foundShape, foundLines]

theorem shape_lenient (r : ShapeRequest) : (s.enforcing false).shape r = .ok (s.foundShape r) := by
  rw [shape_eq, enforced_of_lenient rfl]
  rfl

theorem shape_of_serves {r : ShapeRequest} (h : s.Serves r) : s.shape r = .ok (s.foundShape r) := by
  rw [shape_eq, missingOf?_eq_none h, enforced, ite_self]
  rfl

/-- **To leave out what is missing is to have it struck out before.**  Without integrity every request has an answer,
and it is the answer with integrity once everything that is missing is struck out of the stored ways and of the request.
Where nothing is missing, integrity makes no difference. -/
theorem lenient_as_repaired (s : ObjectStore) (r : ShapeRequest) :
    (∃ shape, (s.enforcing false).shape r = .ok shape ∧
      (s.repaired.enforcing true).shape (s.repair r) = .ok shape) ∧
    (s.Serves r → (s.enforcing false).shape r = (s.enforcing true).shape r) := by
  constructor
  · refine ⟨s.foundShape r, shape_lenient r, ?_⟩
    have hserves : (s.repaired.enforcing true).Serves (s.repair r) := serves_repair r
    rw [shape_of_serves hserves]
    exact congrArg Except.ok (foundShape_repair r)
  · intro h
    have hserves : (s.enforcing true).Serves r := h
    rw [shape_lenient, shape_of_serves hserves]
    rfl

def patchyWays : List (WayId × List NodeId) := [(100, [1, 2, 9, 3, 1]), (101, [1, 2])]

/-- Two ways, and all but one of their nodes. -/
def patchyStore : ObjectStore := holding .default [(1, ⟨0, 0⟩), (2, ⟨0, 10⟩), (3, ⟨10, 0⟩)] patchyWays

theorem lenient_as_repaired_patchy :
    (∃ shape, (patchyStore.enforcing false).shape (.multiPolygon [100, 103] [104]) = .ok shape ∧
      (patchyStore.repaired.enforcing true).shape (.multiPolygon [100] []) = .ok shape) ∧
    patchyStore.Serves (.lines [101]) ∧
    (patchyStore.enforcing false).shape (.lines [101]) = (patchyStore.enforcing true).shape (.lines [101]) := by
  have hrepair : patchyStore.repair (.multiPolygon [100, 103] [104]) = .multiPolygon [100] [] := by
    have hstored : patchyStore.ways.contains = fun id => (lastFor? patchyWays id).isSome := by
      funext id
      rw [contains_ways, patchyStore, nodesFor?_holding]
    rw [repair, presentWays, presentWays, hstored]
    rfl
  have hserves : patchyStore.Serves (.lines [101]) := by
    intro id hid
    rw [List.mem_singleton.1 hid, ← missingIn?_eq_none_iff, patchyStore, missingIn?_holding]
    decide
  have hlenient := (lenient_as_repaired patchyStore (.multiPolygon [100, 103] [104])).1
  rw [hrepair] at hlenient
  exact ⟨hlenient, hserves, (lenient_as_repaired patchyStore (.lines [101])).2 hserves⟩

end ObjectStore
end MapFeatures
