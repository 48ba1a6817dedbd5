import MapFeatures.Proofs.Store.LastWrite
import MapFeatures.Proofs.Store.Objects
/-!
# Integrity — what is found of references, and which missing one is reported

Every lookup of a list gives what is stored of it, unless integrity is enforced and something is missing: then it gives
the error for the first reference that is (`locations_eq`, `fragments_eq`, `multiPolygon_eq`).  The inner ways of a
relation are consulted only if its outer ways close into a ring (`consulted`); so integrity is complete for areas only
as far as that (`multiPolygon_strict`).
-/
namespace MapFeatures
namespace ObjectStore

variable (s : ObjectStore)

/-! ## What is found and what is missing -/

/-- The locations of those nodes of a list that are stored. -/
def found (ids : List NodeId) : List Location := ids.filterMap s.nodes.at?

/-- What is found of those ways of a list that are stored. -/
def foundWays (ids : List WayId) : List Fragment := ids.filterMap fun id => (s.ways.nodesFor? id).map s.found

/-- The rings that the stored parts of some ways close into. -/
def foundRings (ways : List WayId) : List Fragment := Fragment.mergeRings (s.foundWays ways)

/-- The area of what is found of a relation. -/
def foundArea (outer inner : List WayId) : MultiPolygon :=
  Assembly.multiPolygon (s.foundRings outer) (s.foundRings inner)

/-- The ways that an area is made of: the inner ones only if some outer ring closes. -/
def consulted (outer inner : List WayId) : List WayId :=
  if (s.foundRings outer).isEmpty then outer else outer ++ inner

/-- The lines of what is found of some ways. -/
def foundLines (ways : List WayId) : List Path :=
  ((s.foundWays ways).filter fun f => 1 < List.length f).map Path.ofLocations

/-- The error for the first node of a list that is missing. -/
def missingNode? (ids : List NodeId) : Option StoreError :=
  (ids.find? fun id => (s.nodes.at? id).isNone).map StoreError.missingNode

/-- The error for a way that is missing, or for the first of its nodes that is. -/
def missingIn? (way : WayId) : Option StoreError :=
  match s.ways.nodesFor? way with
  | some nodes => s.missingNode? nodes
  | none => some (.missingWay way)

/-- The error for the first missing reference of some ways. -/
def missingAmong? (ways : List WayId) : Option StoreError := ways.findSome? s.missingIn?

/-- An error that counts only under enforced integrity. -/
def enforced (missing : Option StoreError) : Option StoreError :=
  if s.config.enforceIntegrity then missing else none

/-- A result, unless there is an error. -/
def unlessError {α : Type} (result : α) : Option StoreError → Except StoreError α
  | none => .ok result
  | some e => .error e

/-- A result, unless a reference of some ways is missing that must not be. -/
def unlessMissing {α : Type} (ways : List WayId) (result : α) : Except StoreError α :=
  unlessError result (s.enforced (s.missingAmong? ways))

theorem map_unlessError {α β : Type} (f : α → β) (result : α) (e : Option StoreError) :
    (unlessError result e).map f = unlessError (f result) e := by
  cases e with
  | none => rfl
  | some e => rfl

theorem unlessError_eq_error_iff {α : Type} {result : α} {e : Option StoreError} {err : StoreError} :
    unlessError result e = .error err ↔ e = some err := by
  cases e with
  | none => simp [unlessError]
  | some e => simp [unlessError]

theorem unlessError_eq_ok_iff {α : Type} {result a : α} {e : Option StoreError} :
    unlessError result e = .ok a ↔ e = none ∧ result = a := by
  cases e with
  | none => simp [unlessError]
  | some e => simp [unlessError]

variable {s}

theorem enforced_of_lenient (h : s.config.enforceIntegrity = false) (missing : Option StoreError) :
    s.enforced missing = none := by rw [enforced, h]; rfl

theorem enforced_of_strict (h : s.config.enforceIntegrity = true) (missing : Option StoreError) :
    s.enforced missing = missing := by rw [enforced, h]; rfl

theorem enforced_or (a b : Option StoreError) : s.enforced (a.or b) = (s.enforced a).or (s.enforced b) := by
  unfold enforced
  split
  · rfl
  · rfl

theorem missingNode?_eq_none_iff {ids : List NodeId} : s.missingNode? ids = none ↔ s.HasNodes ids := by
  simp [missingNode?, HasNodes, Option.isSome_iff_ne_none]

theorem missingIn?_eq_none_iff {way : WayId} : s.missingIn? way = none ↔ s.Resolves way := by
  unfold missingIn? Resolves
  cases s.ways.nodesFor? way with
  | none => simp
  | some nodes => simp [missingNode?_eq_none_iff]

theorem missingAmong?_eq_none_iff {ways : List WayId} :
    s.missingAmong? ways = none ↔ ∀ id ∈ ways, s.Resolves id := by
  simp only [missingAmong?, List.findSome?_eq_none_iff, missingIn?_eq_none_iff]

theorem unlessMissing_of_resolves {α : Type} {ways : List WayId} (h : ∀ id ∈ ways, s.Resolves id) (result : α) :
    s.unlessMissing ways result = .ok result := by
  rw [unlessMissing, missingAmong?_eq_none_iff.2 h, enforced, ite_self]
  rfl

theorem missingAmong?_cons (way : WayId) (ways : List WayId) :
    s.missingAmong? (way :: ways) = (s.missingIn? way).or (s.missingAmong? ways) := by
  rw [missingAmong?, List.findSome?_cons, missingAmong?]
  cases s.missingIn? way with
  | none => rfl
  | some e => rfl

theorem missingAmong?_append (first second : List WayId) :
    s.missingAmong? (first ++ second) = (s.missingAmong? first).or (s.missingAmong? second) :=
  List.findSome?_append

/-! ## Lookups -/

theorem locations_cons_of_some {id : NodeId} {l : Location} (h : s.nodes.at? id = some l) (ids : List NodeId) :
    s.locations (id :: ids) = (s.locations ids).map (l :: ·) := by rw [locations, h]

theorem locations_cons_of_none {id : NodeId} (h : s.nodes.at? id = none) (ids : List NodeId) :
    s.locations (id :: ids) = if s.config.enforceIntegrity then .error (.missingNode id) else s.locations ids := by
  rw [locations, h]

/-- **The locations of nodes**, unless one is missing that must not be. -/
theorem locations_eq : ∀ ids : List NodeId,
    s.locations ids = unlessError (s.found ids) (s.enforced (s.missingNode? ids))
  | [] => by simp [locations, found, missingNode?, enforced, unlessError]
  | id :: ids => by
    cases hnode : s.nodes.at? id with
    | some l =>
      have hfound : s.found (id :: ids) = l :: s.found ids := List.filterMap_cons_some hnode
      have hmissing : s.missingNode? (id :: ids) = s.missingNode? ids := by
        rw [missingNode?, List.find?_cons_of_neg (by simp [hnode]), missingNode?]
      rw [locations_cons_of_some hnode, locations_eq ids, hfound, hmissing, map_unlessError]
    | none =>
      have hfound : s.found (id :: ids) = s.found ids := List.filterMap_cons_none hnode
      have hmissing : s.missingNode? (id :: ids) = some (.missingNode id) := by
        rw [missingNode?, List.find?_cons_of_pos (by simp [hnode])]
        rfl
      rw [locations_cons_of_none hnode, locations_eq ids, hfound, hmissing]
      unfold enforced
      split
      · rfl
      · rfl

theorem fragments_cons_of_some {id : WayId} {nodes : List NodeId} (h : s.ways.nodesFor? id = some nodes)
    (ids : List WayId) :
    (s.fragments (id :: ids)).map Built.value =
      (s.locations nodes).bind fun f => ((s.fragments ids).map Built.value).map (f :: ·) := by
  rw [fragments, h]
  dsimp only
  cases s.locations nodes with
  | error e => rfl
  | ok f =>
    cases s.fragments ids with
    | error e => rfl
    | ok others => rfl

theorem fragments_cons_of_none {id : WayId} (h : s.ways.nodesFor? id = none) (ids : List WayId) :
    (s.fragments (id :: ids)).map Built.value =
      if s.config.enforceIntegrity then .error (.missingWay id) else (s.fragments ids).map Built.value := by
  rw [fragments, h]
  dsimp only
  split
  · rfl
  · cases s.fragments ids with
    | error e => rfl
    | ok others => rfl

/-- **The fragments of ways**, unless a reference is missing that must not be. -/
theorem fragments_eq : ∀ ids : List WayId,
    (s.fragments ids).map Built.value = s.unlessMissing ids (s.foundWays ids)
  | [] => by simp [fragments, foundWays, unlessMissing, missingAmong?, enforced, unlessError, Except.map]
  | id :: ids => by
    rw [unlessMissing, missingAmong?_cons, missingIn?]
    cases hway : s.ways.nodesFor? id with
    | some nodes =>
      have hfound : s.foundWays (id :: ids) = s.found nodes :: s.foundWays ids :=
        List.filterMap_cons_some (by rw [hway]; rfl)
      rw [fragments_cons_of_some hway, locations_eq, fragments_eq ids, unlessMissing, hfound, enforced_or]
      cases s.enforced (s.missingNode? nodes) with
      | none => exact map_unlessError _ _ _
      | some e => rfl
    | none =>
      have hfound : s.foundWays (id :: ids) = s.foundWays ids := List.filterMap_cons_none (by rw [hway]; rfl)
      rw [fragments_cons_of_none hway, fragments_eq ids, unlessMissing, hfound]
      unfold enforced
      split
      · rfl
      · rfl

/-! ## Areas -/

theorem consulted_nil (s : ObjectStore) (outer : List WayId) : s.consulted outer [] = outer := by
  rw [consulted, List.append_nil, ite_self]

theorem withHoles_nil (P : Assembly.Primitives) : ∀ rings : List Path, P.withHoles [] rings = []
  | [] => rfl
  | _ :: rings => withHoles_nil P rings

theorem foundArea_of_no_ring {outer : List WayId} (h : s.foundRings outer = []) (inner : List WayId) :
    s.foundArea outer inner = [] := by
  rw [foundArea, h, Assembly.multiPolygon, Assembly.Primitives.multiPolygon, List.map_nil, withHoles_nil]
  rfl

theorem enforced_of_fragments_eq_error {ways : List WayId} {e : StoreError} (h : s.fragments ways = .error e) :
    s.enforced (s.missingAmong? ways) = some e := by
  have heq := fragments_eq (s := s) ways
  rw [h] at heq
  exact unlessError_eq_error_iff.1 heq.symm

theorem enforced_of_fragments_eq_ok {ways : List WayId} {built : Built (List Fragment)}
    (h : s.fragments ways = .ok built) :
    s.enforced (s.missingAmong? ways) = none ∧ Fragment.mergeRings built.value = s.foundRings ways := by
  have heq := fragments_eq (s := s) ways
  rw [h] at heq
  obtain ⟨hmissing, hfound⟩ := unlessError_eq_ok_iff.1 heq.symm
  exact ⟨hmissing, by rw [foundRings, hfound]⟩

/-- **The area of a relation**, unless a reference is missing that must not be. -/
theorem multiPolygon_eq (outer inner : List WayId) :
    (s.multiPolygon outer inner).map Built.value =
      s.unlessMissing (s.consulted outer inner) (s.foundArea outer inner) := by
  rw [multiPolygon, unlessMissing, consulted]
  cases houter : s.fragments outer with
  | error e =>
    have hmissing := enforced_of_fragments_eq_error houter
    split
    · rw [hmissing]
      rfl
    · rw [missingAmong?_append, enforced_or, hmissing]
      rfl
  | ok a =>
    obtain ⟨hmissing, hrings⟩ := enforced_of_fragments_eq_ok houter
    simp only [bind, Except.bind]
    rw [hrings]
    -- without an outer ring the inner ways are not read at all
    by_cases hempty : (s.foundRings outer).isEmpty = true
    · rw [if_pos hempty, if_pos hempty, hmissing, foundArea_of_no_ring (List.isEmpty_iff.1 hempty)]
      rfl
    · rw [if_neg hempty, if_neg hempty, missingAmong?_append, enforced_or, hmissing, Option.none_or]
      cases hinner : s.fragments inner with
      | error e =>
        rw [enforced_of_fragments_eq_error hinner]
        rfl
      | ok b =>
        obtain ⟨hmissing, hrings⟩ := enforced_of_fragments_eq_ok hinner
        rw [hmissing, foundArea, ← hrings]
        rfl

/-! ## Lines -/

/-- **The lines of ways**, unless a reference is missing that must not be. -/
theorem lines_eq (ways : List WayId) : (s.lines ways).map Built.value = s.unlessMissing ways (s.foundLines ways) := by
  have hmap : (s.lines ways).map Built.value = ((s.fragments ways).map Built.value).map fun fragments =>
      (fragments.filter fun f => 1 < List.length f).map Path.ofLocations := by
    rw [lines]
    cases s.fragments ways with
    | error e => rfl
    | ok built => rfl
  rw [hmap, fragments_eq, unlessMissing, map_unlessError, foundLines, unlessMissing]

/-! ## What is enforced -/

theorem map_value_eq_error_iff {α : Type} {result : Except StoreError (Built α)} {e : StoreError} :
    result.map Built.value = .error e ↔ result = .error e := by
  cases result with
  | error e' => simp [Except.map]
  | ok built => simp [Except.map]

theorem exists_eq_ok_iff {α : Type} {result : Except StoreError α} :
    (∃ a, result = .ok a) ↔ ∀ e, result ≠ .error e := by
  cases result with
  | error e => simp
  | ok a => simp

theorem missingAmong?_consulted_eq_iff {outer inner : List WayId} :
    s.missingAmong? (s.consulted outer inner) = s.missingAmong? (outer ++ inner) ↔
      (∃ id ∈ outer, ¬ s.Resolves id) ∨ s.foundRings outer ≠ [] ∨ ∀ id ∈ inner, s.Resolves id := by
  have houter : (∃ id ∈ outer, ¬ s.Resolves id) ↔ s.missingAmong? outer ≠ none := by
    rw [Ne, missingAmong?_eq_none_iff]
    simp
  rw [houter, ← missingAmong?_eq_none_iff, missingAmong?_append, consulted]
  by_cases hrings : s.foundRings outer = []
  · rw [if_pos (List.isEmpty_iff.2 hrings)]
    cases s.missingAmong? outer with
    | some e => simp
    | none => simp [hrings, eq_comm]
  · rw [if_neg (fun h => hrings (List.isEmpty_iff.1 h)), missingAmong?_append]
    exact iff_of_true rfl (Or.inr (Or.inl hrings))

/-! ## Stores that hold two lists -/

/-- A store with some nodes in a hash map and some ways. -/
def holding (config : StoreConfig) (nodes : List (NodeId × Location)) (ways : List (WayId × List NodeId)) :
    ObjectStore :=
  { withNodes config (.hashed (nodes.foldl (fun m node => m.insert node.1 node.2) ∅)) with
    ways := WayStore.empty.insert ways }

section

variable (config : StoreConfig) (nodes : List (NodeId × Location)) (ways : List (WayId × List NodeId))

theorem at?_holding (id : NodeId) : (holding config nodes ways).nodes.at? id = lastFor? nodes id := by
  have hempty : (∅ : Std.HashMap NodeId Location)[id]? = none := Std.HashMap.getElem?_empty
  rw [holding, withNodes, NodeStore.at?, getElem?_foldl_insert, hempty, Option.or_none]

theorem nodesFor?_holding (id : WayId) : (holding config nodes ways).ways.nodesFor? id = lastFor? ways id :=
  WayStore.nodesFor?_insert_empty ways id

theorem found_holding : (holding config nodes ways).found = List.filterMap (lastFor? nodes) := by
  have hnodes : (holding config nodes ways).nodes.at? = lastFor? nodes := funext (at?_holding config nodes ways)
  unfold found
  rw [hnodes]

theorem foundWays_holding (ids : List WayId) :
    (holding config nodes ways).foundWays ids =
      ids.filterMap fun id => (lastFor? ways id).map (List.filterMap (lastFor? nodes)) := by
  simp only [foundWays, nodesFor?_holding, found_holding]

theorem missingIn?_holding (way : WayId) :
    (holding config nodes ways).missingIn? way =
      match lastFor? ways way with
      | some ids => (ids.find? fun id => (lastFor? nodes id).isNone).map StoreError.missingNode
      | none => some (.missingWay way) := by
  simp only [missingIn?, missingNode?, nodesFor?_holding, at?_holding]

end

/-! ## Areas under enforced integrity -/

/-- **Which missing reference an area fails for, and when it fails for none.**  Under enforced integrity an area is
refused for the first missing reference of the ways that are consulted, and made if there is none.  So the first
missing reference of all members, the outer ones first, decides exactly if an outer way is amiss, an outer ring closes
or nothing is missing of the inner ways. -/
theorem multiPolygon_strict (s : ObjectStore) (hstrict : s.config.enforceIntegrity = true) (outer inner : List WayId) :
    (∀ e, s.multiPolygon outer inner = .error e ↔ s.missingAmong? (s.consulted outer inner) = some e) ∧
      ((∃ built, s.multiPolygon outer inner = .ok built) ↔ ∀ id ∈ s.consulted outer inner, s.Resolves id) ∧
      ((∀ e, s.multiPolygon outer inner = .error e ↔ s.missingAmong? (outer ++ inner) = some e) ↔
        (∃ id ∈ outer, ¬ s.Resolves id) ∨ s.foundRings outer ≠ [] ∨ ∀ id ∈ inner, s.Resolves id) := by
  have herror : ∀ e, s.multiPolygon outer inner = .error e ↔ s.missingAmong? (s.consulted outer inner) = some e := by
    intro e
    rw [← map_value_eq_error_iff, multiPolygon_eq, unlessMissing, enforced_of_strict hstrict, unlessError_eq_error_iff]
  refine ⟨herror, ?_, ?_⟩
  · rw [exists_eq_ok_iff, ← missingAmong?_eq_none_iff, Option.eq_none_iff_forall_ne_some]
    exact forall_congr' fun e => not_congr (herror e)
  · rw [← missingAmong?_consulted_eq_iff, Option.ext_iff]
    refine forall_congr' fun e => ?_
    rw [herror e]

/-! ## A missing inner way -/

/-- Three nodes, a way around them and one between two of them. -/
def triangleStore : ObjectStore :=
  holding .default [(1, ⟨0, 0⟩), (2, ⟨0, 10⟩), (3, ⟨10, 0⟩)] [(100, [1, 2, 3, 1]), (101, [1, 2])]

theorem foundRings_triangleStore (ways : List WayId) :
    triangleStore.foundRings ways = Fragment.mergeRings (ways.filterMap fun id =>
      (lastFor? [(100, [1, 2, 3, 1]), (101, [1, 2])] id).map
        (List.filterMap (lastFor? [(1, ⟨0, 0⟩), (2, ⟨0, 10⟩), (3, ⟨10, 0⟩)]))) := by
  rw [foundRings, triangleStore, foundWays_holding]

theorem missingIn?_triangleStore_102 : triangleStore.missingIn? 102 = some (.missingWay 102) := by
  rw [triangleStore, missingIn?_holding]
  decide

/-- Around the triangle, a missing inner way is an error. -/
theorem multiPolygon_strict_triangle :
    triangleStore.config.enforceIntegrity = true ∧
      triangleStore.multiPolygon [100] [102] = .error (.missingWay 102) := by
  have hrings : triangleStore.foundRings [100] ≠ [] := by
    rw [foundRings_triangleStore]
    decide +kernel
  refine ⟨rfl, ((multiPolygon_strict triangleStore rfl [100] [102]).1 (.missingWay 102)).2 ?_⟩
  have hclosed : triangleStore.missingIn? 100 = none := by
    rw [triangleStore, missingIn?_holding]
    decide
  rw [consulted, if_neg (fun h => hrings (List.isEmpty_iff.1 h)), missingAmong?, List.singleton_append,
    List.findSome?_cons_of_isNone (by rw [hclosed]; rfl), List.findSome?_cons, missingIn?_triangleStore_102]

/-- **Beside an open outer way a missing inner way is not noticed**: there is an area, and it is empty. -/
theorem not_resolves_inner_of_open_outer :
    triangleStore.config.enforceIntegrity = true ∧ (∃ built, triangleStore.multiPolygon [101] [102] = .ok built) ∧
      ¬ ∀ id ∈ [101] ++ [102], triangleStore.Resolves id := by
  have hrings : triangleStore.foundRings [101] = [] := by
    rw [foundRings_triangleStore]
    decide +kernel
  refine ⟨rfl, ?_, fun h => ?_⟩
  · have hopen : triangleStore.missingAmong? [101] = none := by
      rw [missingAmong?, triangleStore, List.findSome?_singleton, missingIn?_holding]
      decide
    have heq := multiPolygon_eq (s := triangleStore) [101] [102]
    rw [unlessMissing, consulted, if_pos (List.isEmpty_iff.2 hrings), hopen] at heq
    obtain ⟨built, hbuilt, -⟩ := map_eq_ok heq
    exact ⟨built, hbuilt⟩
  · have hinner := missingIn?_eq_none_iff.2 (h 102 (by simp))
    rw [missingIn?_triangleStore_102] at hinner
    cases hinner

end ObjectStore
end MapFeatures
