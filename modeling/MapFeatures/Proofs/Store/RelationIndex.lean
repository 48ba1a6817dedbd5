import MapFeatures.Store.RelationIndex
/-!
# RelationIndex — what is noted about a way after some relations

The relations of a way are listed as often as it is noted for them, in that order (`relationsFor_foldl`).  A way is in the
index just if it has any (`Listed`).
-/
namespace MapFeatures
namespace RelationIndex

/-- Whether the ways of an index are those that have relations. -/
def Listed (i : RelationIndex) : Prop := ∀ way, i.containsWay way = true ↔ i.relationsFor way ≠ []

theorem relationsFor_empty (way : WayId) : empty.relationsFor way = [] := Std.HashMap.getD_empty

theorem listed_empty : Listed empty := by
  intro way
  rw [relationsFor_empty, containsWay, empty, Std.HashMap.contains_empty]
  exact iff_of_false Bool.false_ne_true fun h => h rfl

theorem relationsFor_recordContainment (i : RelationIndex) (relation : RelationId) (way w : WayId) :
    (i.recordContainment relation way).relationsFor w =
      if way = w then i.relationsFor w ++ [relation] else i.relationsFor w := by
  rw [relationsFor, recordContainment, Std.HashMap.getD_alter]
  by_cases h : way = w
  · rw [if_pos (beq_iff_eq.2 h), if_pos h, Option.getD_some, h, relationsFor, Std.HashMap.getD_eq_getD_getElem?]
  · rw [if_neg (mt beq_iff_eq.1 h), if_neg h, relationsFor]

theorem containsWay_recordContainment (i : RelationIndex) (relation : RelationId) (way w : WayId) :
    (i.recordContainment relation way).containsWay w = true ↔ way = w ∨ i.containsWay w = true := by
  rw [containsWay, recordContainment, Std.HashMap.contains_alter]
  by_cases h : way = w
  · simp [h]
  · simp [h, containsWay]

theorem Listed.recordContainment {i : RelationIndex} (h : i.Listed) (relation : RelationId) (way : WayId) :
    (i.recordContainment relation way).Listed := by
  intro w
  rw [containsWay_recordContainment, relationsFor_recordContainment]
  by_cases hw : way = w
  · simp [hw]
  · simpa [hw] using h w

theorem Listed.foldl (relation : RelationId) : ∀ (ways : List WayId) {i : RelationIndex}, i.Listed →
    (ways.foldl (fun i way => i.recordContainment relation way) i).Listed
  | [], _, h => h
  | way :: ways, _, h => Listed.foldl relation ways (h.recordContainment relation way)

/-- **A relation is listed for a way once for each time that the way is noted.** -/
theorem relationsFor_foldl (relation : RelationId) (w : WayId) : ∀ (ways : List WayId) (i : RelationIndex),
    (ways.foldl (fun i way => i.recordContainment relation way) i).relationsFor w =
      i.relationsFor w ++ List.replicate (ways.count w) relation
  | [], i => (List.append_nil _).symm
  | way :: ways, i => by
    rw [List.foldl_cons, relationsFor_foldl relation w ways, relationsFor_recordContainment, List.count_cons]
    by_cases h : way = w
    · rw [if_pos h, if_pos (beq_iff_eq.2 h), List.replicate_succ, List.append_assoc]
      rfl
    · rw [if_neg h, if_neg (mt beq_iff_eq.1 h), Nat.add_zero]

/-- Ways that are noted leave the tags as they are. -/
theorem tagsOf_foldl (relation : RelationId) : ∀ (ways : List WayId) (i : RelationIndex),
    (ways.foldl (fun i way => i.recordContainment relation way) i).tagsOf = i.tagsOf
  | [], _ => rfl
  | way :: ways, i => tagsOf_foldl relation ways (i.recordContainment relation way)

end RelationIndex
end MapFeatures
