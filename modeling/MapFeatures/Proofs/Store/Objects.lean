import MapFeatures.Proofs.Outcome
import MapFeatures.Store.Objects
/-!
# Objects — what the shapes of a relation depend on

The shapes made of some ways depend on the settings, on the nodes and on the nodes of these ways, and on nothing else of
a store (`multiPolygon_congr`, `lines_congr`).  They can be made if all that is referred to is there (`Resolves`).
-/
namespace MapFeatures
namespace ObjectStore

/-! ## A new store -/

theorem create_eq_ok {config : StoreConfig} {s : ObjectStore} (h : create config = .ok s) :
    ∃ nodes, s = withNodes config nodes ∧ (nodes.capacity?.isSome = true → config.compactStorage = true) := by
  unfold create at h
  split at h
  · next hcompact =>
    obtain ⟨nodes, -, rfl⟩ := map_eq_ok h
    exact ⟨.compact nodes, rfl, fun _ => hcompact⟩
  · cases h
    exact ⟨.empty, rfl, fun hsome => by cases hsome⟩

/-! ## Dependence -/

section

variable {s t : ObjectStore} (hconfig : s.config = t.config) (hnodes : s.nodes.at? = t.nodes.at?)

include hconfig hnodes

theorem locations_congr : ∀ ids : List NodeId, s.locations ids = t.locations ids
  | [] => rfl
  | id :: ids => by
    rw [locations, locations, hnodes, hconfig, locations_congr ids]

theorem line_congr (nodes : List NodeId) : s.line nodes = t.line nodes := by
  rw [line, line, locations_congr hconfig hnodes]

theorem polygon_congr (nodes : List NodeId) : s.polygon nodes = t.polygon nodes := by
  rw [polygon, polygon, line_congr hconfig hnodes]

theorem fragments_congr : ∀ {ids : List WayId}, (∀ id ∈ ids, s.ways.nodesFor? id = t.ways.nodesFor? id) →
    s.fragments ids = t.fragments ids
  | [], _ => rfl
  | id :: ids, h => by
    have hrest := fragments_congr fun i hi => h i (List.mem_cons_of_mem id hi)
    rw [fragments, fragments, h id List.mem_cons_self, hconfig, hrest]
    simp only [locations_congr hconfig hnodes]

theorem multiPolygon_congr_at? {outer inner : List WayId}
    (h : ∀ id ∈ outer ++ inner, s.ways.nodesFor? id = t.ways.nodesFor? id) :
    s.multiPolygon outer inner = t.multiPolygon outer inner := by
  have houter := fragments_congr hconfig hnodes fun id hid => h id (List.mem_append_left inner hid)
  have hinner := fragments_congr hconfig hnodes fun id hid => h id (List.mem_append_right outer hid)
  rw [multiPolygon, multiPolygon, houter, hinner]

theorem lines_congr_at? {ways : List WayId} (h : ∀ id ∈ ways, s.ways.nodesFor? id = t.ways.nodesFor? id) :
    s.lines ways = t.lines ways := by
  rw [lines, lines, fragments_congr hconfig hnodes h]

end

theorem multiPolygon_congr {s t : ObjectStore} (hconfig : s.config = t.config) (hnodes : s.nodes = t.nodes)
    {outer inner : List WayId} (h : ∀ id ∈ outer ++ inner, s.ways.nodesFor? id = t.ways.nodesFor? id) :
    s.multiPolygon outer inner = t.multiPolygon outer inner :=
  multiPolygon_congr_at? hconfig (congrArg NodeStore.at? hnodes) h

theorem lines_congr {s t : ObjectStore} (hconfig : s.config = t.config) (hnodes : s.nodes = t.nodes)
    {ways : List WayId} (h : ∀ id ∈ ways, s.ways.nodesFor? id = t.ways.nodesFor? id) : s.lines ways = t.lines ways :=
  lines_congr_at? hconfig (congrArg NodeStore.at? hnodes) h

/-! ## References -/

/-- Whether all nodes of a list are stored. -/
def HasNodes (s : ObjectStore) (ids : List NodeId) : Prop := ∀ id ∈ ids, (s.nodes.at? id).isSome = true

/-- Whether a way and all its nodes are stored. -/
def Resolves (s : ObjectStore) (way : WayId) : Prop := ∃ nodes, s.ways.nodesFor? way = some nodes ∧ s.HasNodes nodes

variable {s : ObjectStore}

theorem locations_eq_ok : ∀ {ids : List NodeId}, s.HasNodes ids → ∃ ls, s.locations ids = .ok ls
  | [], _ => ⟨[], rfl⟩
  | id :: ids, h => by
    obtain ⟨l, hl⟩ := Option.isSome_iff_exists.1 (h id List.mem_cons_self)
    obtain ⟨ls, hls⟩ := locations_eq_ok fun i hi => h i (List.mem_cons_of_mem id hi)
    refine ⟨l :: ls, ?_⟩
    rw [locations, hl, hls]
    rfl

theorem line_eq_ok {ids : List NodeId} (h : s.HasNodes ids) : ∃ p, s.line ids = .ok p := by
  obtain ⟨ls, hls⟩ := locations_eq_ok h
  exact ⟨Path.ofLocations ls, by rw [line, hls]; rfl⟩

theorem polygon_eq_ok {ids : List NodeId} (h : s.HasNodes ids) : ∃ p, s.polygon ids = .ok p := by
  obtain ⟨shell, hshell⟩ := line_eq_ok h
  exact ⟨(Polygon.ofRings shell []).correct, by rw [polygon, hshell]; rfl⟩

theorem fragments_eq_ok : ∀ {ids : List WayId}, (∀ id ∈ ids, s.Resolves id) → ∃ built, s.fragments ids = .ok built
  | [], _ => ⟨⟨[], []⟩, rfl⟩
  | id :: ids, h => by
    obtain ⟨nodes, hnodes, hstored⟩ := h id List.mem_cons_self
    obtain ⟨fragment, hfragment⟩ := locations_eq_ok hstored
    obtain ⟨others, hothers⟩ := fragments_eq_ok fun i hi => h i (List.mem_cons_of_mem id hi)
    refine ⟨⟨fragment :: others.value, others.skipped⟩, ?_⟩
    rw [fragments, hnodes, hothers]
    simp only [hfragment]
    rfl

theorem multiPolygon_eq_ok {outer inner : List WayId} (h : ∀ id ∈ outer ++ inner, s.Resolves id) :
    ∃ built, s.multiPolygon outer inner = .ok built := by
  obtain ⟨outerWays, houter⟩ := fragments_eq_ok fun id hid => h id (List.mem_append_left inner hid)
  obtain ⟨innerWays, hinner⟩ := fragments_eq_ok fun id hid => h id (List.mem_append_right outer hid)
  rw [multiPolygon, houter, hinner]
  by_cases hrings : (Fragment.mergeRings outerWays.value).isEmpty = true
  · exact ⟨⟨[], outerWays.skipped⟩, if_pos hrings⟩
  · exact ⟨_, if_neg hrings⟩

theorem lines_eq_ok {ways : List WayId} (h : ∀ id ∈ ways, s.Resolves id) : ∃ built, s.lines ways = .ok built := by
  obtain ⟨built, hbuilt⟩ := fragments_eq_ok h
  exact ⟨_, by rw [lines, hbuilt]; rfl⟩

end ObjectStore
end MapFeatures
