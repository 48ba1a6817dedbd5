import MapFeatures.Proofs.Classify.Calls
import MapFeatures.Proofs.Shape.Faults
import MapFeatures.Proofs.Store.Integrity
/-!
# Relations — what is drawn of a relation

An area is drawn whole or not at all: not at all if its first fault is a ring of too few points, whatever its other
rings are (`draws_area`).  Its outer ways are drawn as lines only if each of them is one (`draws_lines`), and the length
is taken of them only then (`length_lines`).  None of this depends on earlier calls.
-/
namespace MapFeatures

theorem Cached.get?_settle_some {α : Type} (check : α → Option Fault) (shape : α) :
    (settle (some shape) check).get? = if check shape = some .tooFewPoints then none else some shape := by
  unfold settle
  dsimp only
  cases check shape with
  | none => rfl
  | some fault =>
    cases fault with
    | tooFewPoints => rfl
    | invalidCoordinate => rfl
    | notClosed => rfl
    | wrongOrientation => rfl
    | selfIntersections => rfl
    | interiorRingOutside => rfl

/-! ## Shapes of relations -/

namespace Element

variable {env : Surroundings} {e : Element} {ways : WayLists}

theorem map_outcome_unlessMissing {α β : Type} (f : α → β) (s : ObjectStore) (ids : List WayId) (result : α) :
    (e.outcome (s.unlessMissing ids result)).map f = e.outcome (s.unlessMissing ids (f result)) := by
  unfold ObjectStore.unlessMissing
  cases s.enforced (s.missingAmong? ids) with
  | none => rfl
  | some err => rfl

theorem multiPolygonShape_relation (hsource : e.source = .relation ways) :
    e.multiPolygonShape env = e.outcome (env.store.unlessMissing (env.store.consulted ways.outer ways.inner)
      (.settle (some (env.store.foundArea ways.outer ways.inner)) MultiPolygon.check)) := by
  rw [multiPolygonShape, hsource]
  dsimp only
  rw [ObjectStore.multiPolygon_eq, map_outcome_unlessMissing, map_outcome_unlessMissing]

theorem linesShape_relation (hsource : e.source = .relation ways) :
    e.linesShape env = e.outcome (env.store.unlessMissing ways.outer
      (.settle (some (env.store.foundLines ways.outer)) checkLines)) := by
  rw [linesShape, hsource]
  dsimp only
  rw [ObjectStore.lines_eq, map_outcome_unlessMissing, map_outcome_unlessMissing]

end Element

/-! ## Drawing -/

namespace Context

open Building

/-- Whether an element is drawn in a layer with this outcome: a shape becomes the last feature and the answer is yes;
otherwise the answer is no, or the error, and no feature is added. -/
structure Draws (env : Surroundings) (c : Context) (e : Element) (layer : String) (area : Bool)
    (outcome : Except ProcessingError (Option Geometry)) : Prop where
  answer : (c.answer env (.assign layer area)).1 = outcome.map Option.isSome
  features : (c.answer env (.assign layer area)).2.features = c.features ++ (drawn outcome).map (e.featureIn layer)

variable {env : Surroundings} {e : Element} {c : Context} {ways : WayLists}

theorem draws_of_gives {area : Bool} {r : Except ProcessingError (Option Geometry)} (h : c.Holds env e)
    (hr : Gives env e (geometry env area) r) (layer : String) : c.Draws env e layer area r :=
  ⟨(assignWith_of_gives h hr layer).1, (assignWith_of_gives h hr layer).2⟩

/-- **An area is drawn whole unless its first fault is a ring of too few points.** -/
theorem draws_area (h : c.Holds env e) (hsource : e.source = .relation ways) (layer : String) :
    c.Draws env e layer true (e.outcome (env.store.unlessMissing (env.store.consulted ways.outer ways.inner)
      (if (env.store.foundArea ways.outer ways.inner).check = some .tooFewPoints then none
        else some (.multiPolygon (env.store.foundArea ways.outer ways.inner))))) := by
  have hgives := gives_geometry_area env hsource
  rw [Element.multiPolygonShape_relation hsource, Element.map_outcome_unlessMissing, Cached.get?_settle_some] at hgives
  have hite : ∀ area : MultiPolygon, (if area.check = some .tooFewPoints then none else some area).map
      Geometry.multiPolygon = if area.check = some .tooFewPoints then none else some (.multiPolygon area) := by
    intro area
    split
    · rfl
    · rfl
  rw [hite] at hgives
  exact draws_of_gives h hgives layer

end Context

/-! ## Lines -/

theorem ObjectStore.isFinite_foundLines (s : ObjectStore) (ids : List WayId) :
    ∀ p ∈ s.foundLines ids, p.isFinite = true := by
  intro p hp
  obtain ⟨f, -, rfl⟩ := List.mem_map.1 hp
  exact Path.isFinite_ofLocations f

theorem get?_settle_foundLines (s : ObjectStore) (ids : List WayId) :
    (Cached.settle (some (s.foundLines ids)) checkLines).get? =
      if AllLines (s.foundLines ids) then some (s.foundLines ids) else none := by
  rw [Cached.get?_settle_some, checkLines_eq (s.isFinite_foundLines ids)]
  by_cases h : AllLines (s.foundLines ids)
  · rw [if_pos h, if_pos h, if_neg (by decide)]
  · rw [if_neg h, if_neg h, if_pos rfl]

namespace Context

open Building

variable {env : Surroundings} {e : Element} {c : Context} {ways : WayLists}

/-- **The outer ways are drawn as lines if each of them is one**, and else none is. -/
theorem draws_lines (h : c.Holds env e) (hsource : e.source = .relation ways) (htype : e.tag "type" ≠ "multipolygon")
    (layer : String) :
    c.Draws env e layer false (e.outcome (env.store.unlessMissing ways.outer
      (if AllLines (env.store.foundLines ways.outer) then some (.lines (env.store.foundLines ways.outer))
        else none))) := by
  have hgives := gives_geometry_lines env hsource htype
  rw [Element.linesShape_relation hsource, Element.map_outcome_unlessMissing, get?_settle_foundLines, apply_ite
    (Option.map Geometry.lines)] at hgives
  exact draws_of_gives h hgives layer

/-- **The length is that of all lines if each outer way is one**, and else zero. -/
theorem length_lines (h : c.Holds env e) (hsource : e.source = .relation ways) :
    (c.answer env .length).1 = e.outcome (env.store.unlessMissing ways.outer
      (if AllLines (env.store.foundLines ways.outer) then
        (env.store.foundLines ways.outer).foldl (fun total p => total + p.length) 0 else 0)) := by
  have hgives := gives_length env hsource
  rw [Element.linesShape_relation hsource, Element.map_outcome_unlessMissing, get?_settle_foundLines] at hgives
  refine (work_of_gives h hgives 0).1.trans ?_
  split
  · rfl
  · rfl

end Context

/-! ## Areas -/

namespace ObjectStore

variable (s : ObjectStore)

theorem isRing_foundRings (ids : List WayId) : ∀ f ∈ s.foundRings ids, Fragment.isRing f = true :=
  fun _ hf => (List.mem_filter.1 hf).2

theorem foundArea_nil (outer : List WayId) : s.foundArea outer [] = Assembly.multiPolygon (s.foundRings outer) [] := by
  have hnone : s.foundRings [] = [] := by
    rw [foundRings, foundWays, List.filterMap_nil]
    decide +kernel
  rw [foundArea, hnone]

theorem shells_foundArea (outer inner : List WayId) : (s.foundArea outer inner).map Polygon.shell =
    (s.foundRings outer).map fun f => (Path.ofLocations f).orient .clockwise :=
  Assembly.shells_multiPolygon (s.isRing_foundRings outer) _

theorem isRing_foundArea (outer inner : List WayId) : ∀ p ∈ s.foundArea outer inner, ∀ ring ∈ p.rings, ring.IsRing :=
  Assembly.isRing_multiPolygon (s.isRing_foundRings outer) (s.isRing_foundRings inner)

theorem check_foundArea_iff (outer inner : List WayId) : (s.foundArea outer inner).check = some .tooFewPoints ↔
    s.foundRings outer = [] ∨ (s.foundArea outer inner).faults.head? = some .tooFewPoints := by
  rw [MultiPolygon.check_eq]
  have hempty : (s.foundArea outer inner).isEmpty = true ↔ s.foundRings outer = [] := by
    have hshells := congrArg List.length (s.shells_foundArea outer inner)
    rw [List.length_map, List.length_map] at hshells
    rw [List.isEmpty_iff, ← List.length_eq_zero_iff, hshells, List.length_eq_zero_iff]
  by_cases hrings : s.foundRings outer = []
  · rw [if_pos (hempty.2 hrings)]
    exact iff_of_true rfl (Or.inl hrings)
  · rw [if_neg fun h => hrings (hempty.1 h), or_iff_right hrings]

/-- **Rings of three distinct points span an area.** -/
theorem check_foundArea_ne {outer inner : List WayId} (hrings : s.foundRings outer ≠ [])
    (hdistinct : ∀ ring ∈ (s.foundArea outer inner).flatMap Polygon.rings, ring.hasDistinct 3 = true) :
    (s.foundArea outer inner).check ≠ some .tooFewPoints := by
  intro hfew
  have hfirst := ((s.check_foundArea_iff outer inner).1 hfew).resolve_left hrings
  obtain ⟨ring, hring, hshort⟩ := (MultiPolygon.tooFewPoints_mem_faults_iff (s.isRing_foundArea outer inner)).1
    (List.mem_of_head? hfirst)
  rw [hdistinct ring hring] at hshort
  cases hshort

theorem mem_of_mem_consulted {outer inner : List WayId} {id : WayId} (h : id ∈ s.consulted outer inner) :
    id ∈ outer ++ inner := by
  unfold consulted at h
  split at h
  · exact List.mem_append_left inner h
  · exact h

end ObjectStore

/-- **An area that is there is drawn**: all members are stored, some outer ring closes, and no ring is too short. -/
theorem Context.draws_area_of_resolves {env : Surroundings} {e : Element} {c : Context} {ways : WayLists}
    (h : c.Holds env e) (hsource : e.source = .relation ways)
    (hresolves : ∀ id ∈ ways.outer ++ ways.inner, env.store.Resolves id)
    (hrings : env.store.foundRings ways.outer ≠ [])
    (hdistinct : ∀ ring ∈ (env.store.foundArea ways.outer ways.inner).flatMap Polygon.rings, ring.hasDistinct 3 = true)
    (layer : String) :
    c.Draws env e layer true (.ok (some (.multiPolygon (env.store.foundArea ways.outer ways.inner)))) := by
  have hdraws := draws_area h hsource layer
  rwa [ObjectStore.unlessMissing_of_resolves fun id hid => hresolves id (env.store.mem_of_mem_consulted hid),
    if_neg (env.store.check_foundArea_ne hrings hdistinct)] at hdraws

/-- **What is drawn of a relation, and its length, whatever was asked before.**  The area is drawn unless no outer way
closes into a ring or the first fault is a ring of fewer than three distinct points; its shells are the outer rings.
The outer ways are drawn as lines, and have a length, only if each has two distinct points. -/
theorem relation_drawn (env : Surroundings) {e : Element} {ways : WayLists} (hsource : e.source = .relation ways)
    {α : Type} (before : Script α) (start : Context) (layer : String) :
    let c := (before.run env (start.begin e)).2
    let area := env.store.foundArea ways.outer ways.inner
    let lines := env.store.foundLines ways.outer
    c.Draws env e layer true (e.outcome (env.store.unlessMissing (env.store.consulted ways.outer ways.inner)
        (if area.check = some .tooFewPoints then none else some (.multiPolygon area)))) ∧
      (area.check = some .tooFewPoints ↔
        env.store.foundRings ways.outer = [] ∨ area.faults.head? = some .tooFewPoints) ∧
      (.tooFewPoints ∈ area.faults ↔ ∃ ring ∈ area.flatMap Polygon.rings, ring.hasDistinct 3 = false) ∧
      area.map Polygon.shell =
        (env.store.foundRings ways.outer).map (fun f => (Path.ofLocations f).orient .clockwise) ∧
      (e.tag "type" ≠ "multipolygon" → c.Draws env e layer false
        (e.outcome (env.store.unlessMissing ways.outer (if AllLines lines then some (.lines lines) else none)))) ∧
      (c.answer env .length).1 = e.outcome (env.store.unlessMissing ways.outer
        (if AllLines lines then lines.foldl (fun total p => total + p.length) 0 else 0)) := by
  have hholds : (before.run env (start.begin e)).2.Holds env e := Context.Holds.run before (Context.holds_begin start)
  exact ⟨Context.draws_area hholds hsource layer, env.store.check_foundArea_iff ways.outer ways.inner,
    MultiPolygon.tooFewPoints_mem_faults_iff (env.store.isRing_foundArea ways.outer ways.inner),
    env.store.shells_foundArea ways.outer ways.inner, fun htype => Context.draws_lines hholds hsource htype layer,
    Context.length_lines hholds hsource⟩

/-! ## A degenerate ring beside a square -/

def mixedNodes : List (NodeId × Location) :=
  [(1, ⟨0, 0⟩), (2, ⟨0, 100000000⟩), (3, ⟨100000000, 100000000⟩), (4, ⟨100000000, 0⟩), (5, ⟨0, 200000000⟩),
    (6, ⟨0, 300000000⟩)]

/-- A square, a way to and fro, and a way that stays where it is. -/
def mixedWays : List (WayId × List NodeId) := [(10, [1, 2, 3, 4, 1]), (11, [5, 6, 5, 6, 5]), (12, [5, 5])]

def mixed : Surroundings := ⟨ObjectStore.holding .default mixedNodes mixedWays, .empty⟩

def boundary (outer : List WayId) : Element := ⟨7, -1, ∅, .relation ⟨7, outer, []⟩⟩

theorem foundWays_mixed (ids : List WayId) : mixed.store.foundWays ids =
    ids.filterMap fun id => (lastFor? mixedWays id).map (List.filterMap (lastFor? mixedNodes)) :=
  ObjectStore.foundWays_holding .default mixedNodes mixedWays ids

theorem resolves_mixed : ∀ id ∈ [11, 10, 12], mixed.store.Resolves id := by
  intro id hid
  rw [← ObjectStore.missingIn?_eq_none_iff, mixed, ObjectStore.missingIn?_holding]
  simp only [List.mem_cons, List.not_mem_nil, or_false] at hid
  obtain rfl | rfl | rfl := hid
  · decide
  · decide
  · decide

def square : Fragment := [⟨0, 0⟩, ⟨0, 100000000⟩, ⟨100000000, 100000000⟩, ⟨100000000, 0⟩, ⟨0, 0⟩]

def toAndFro : Fragment :=
  [⟨0, 200000000⟩, ⟨0, 300000000⟩, ⟨0, 200000000⟩, ⟨0, 300000000⟩, ⟨0, 200000000⟩]

theorem foundRings_mixed : mixed.store.foundRings [11, 10, 12] = [toAndFro, square] := by
  rw [ObjectStore.foundRings, foundWays_mixed]
  decide +kernel

theorem foundLines_mixed : mixed.store.foundLines [11, 10, 12] =
    [Path.ofLocations toAndFro, Path.ofLocations square, Path.ofLocations [⟨0, 200000000⟩, ⟨0, 200000000⟩]] := by
  rw [ObjectStore.foundLines, foundWays_mixed]
  decide +kernel

theorem unlessMissing_mixed {α : Type} (result : α) : mixed.store.unlessMissing [11, 10, 12] result = .ok result :=
  ObjectStore.unlessMissing_of_resolves resolves_mixed result

/-- **The square is not drawn beside a ring of two points**, nor is any line beside a way that stays where it is. -/
theorem not_drawn_beside_degenerate :
    let c := Context.empty.begin (boundary [11, 10, 12])
    (square ∈ mixed.store.foundRings [11, 10, 12] ∧ (Path.ofLocations square).hasDistinct 3 = true ∧
        (c.answer mixed (.assign "areas" true)).1 = .ok false) ∧
      Path.ofLocations square ∈ mixed.store.foundLines [11, 10, 12] ∧
        (c.answer mixed (.assign "lines" false)).1 = .ok false ∧ (c.answer mixed .length).1 = .ok 0 := by
  have hholds : (Context.empty.begin (boundary [11, 10, 12])).Holds mixed (boundary [11, 10, 12]) :=
    Context.holds_begin Context.empty
  have harea := (Context.draws_area hholds rfl "areas").answer
  have hlines := (Context.draws_lines hholds rfl (by decide) "lines").answer
  have hlength := Context.length_lines hholds rfl
  have hcheck : (Assembly.multiPolygon [toAndFro, square] []).check = some .tooFewPoints := by decide +kernel
  have hsome : ¬ AllLines (mixed.store.foundLines [11, 10, 12]) := by
    rw [foundLines_mixed]
    decide +kernel
  rw [ObjectStore.consulted_nil, unlessMissing_mixed, ObjectStore.foundArea_nil, foundRings_mixed, if_pos hcheck] at harea
  rw [unlessMissing_mixed, if_neg hsome] at hlines hlength
  refine ⟨⟨?_, by decide +kernel, harea⟩, ?_, hlines, hlength⟩
  · rw [foundRings_mixed]
    decide
  · rw [foundLines_mixed]
    exact List.mem_cons_of_mem _ List.mem_cons_self

/-- The square alone is drawn, also after its length was asked for. -/
theorem relation_drawn_square :
    (boundary [10]).source = .relation ⟨7, [10], []⟩ ∧
      (((Script.call .length).run mixed (Context.empty.begin (boundary [10]))).2).Draws mixed (boundary [10]) "areas"
        true (.ok (some (.multiPolygon (Assembly.multiPolygon [square] [])))) := by
  obtain ⟨hdraws, -⟩ :=
    relation_drawn mixed (rfl : (boundary [10]).source = _) (Script.call .length) Context.empty "areas"
  have hrings : mixed.store.foundRings [10] = [square] := by
    rw [ObjectStore.foundRings, foundWays_mixed]
    decide +kernel
  have hsound : (mixed.store.foundArea [10] []).check ≠ some .tooFewPoints := by
    refine mixed.store.check_foundArea_ne (by rw [hrings]; exact List.cons_ne_nil _ _) ?_
    rw [ObjectStore.foundArea_nil, hrings]
    decide +kernel
  have hresolves : ∀ id ∈ [10], mixed.store.Resolves id := fun id hid =>
    resolves_mixed id (List.mem_cons_of_mem 11 (List.mem_cons.2 (Or.inl (List.mem_singleton.1 hid))))
  rw [ObjectStore.consulted_nil, ObjectStore.unlessMissing_of_resolves hresolves, if_neg hsound,
    ObjectStore.foundArea_nil, hrings] at hdraws
  exact ⟨rfl, hdraws⟩

end MapFeatures
