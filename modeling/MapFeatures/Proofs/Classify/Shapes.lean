import MapFeatures.Classify.Element
import MapFeatures.Proofs.Store.Objects
/-!
# Shapes — an element whose references are stored has all its shapes

Work on an element is `Sure` if it has a result, whatever shapes were built before, and leaves the element as it is.
-/
namespace MapFeatures

/-- Whether all that an element refers to is stored. -/
def Element.Resolves (store : ObjectStore) (e : Element) : Prop :=
  match e.source with
  | .node _ => True
  | .way nodes => store.HasNodes nodes
  | .relation ways => ∀ id ∈ ways.outer ++ ways.inner, store.Resolves id

namespace Building

/-- Whether work on an element cannot fail. -/
def Sure {α : Type} (e : Element) (w : Building α) : Prop :=
  Ends (·.element = e) w (fun _ l => l.element = e) fun _ _ => False

variable {α β : Type} {e : Element} {env : Surroundings}

theorem Sure.pure (a : α) : Sure e (Pure.pure a) := Ends.pure a fun _ h => h

theorem Sure.bind {w : Building α} {f : α → Building β} (hw : Sure e w) (hf : ∀ a, Sure e (f a)) : Sure e (w >>= f) :=
  Ends.bind hw hf

theorem Sure.map {w : Building α} (f : α → β) (hw : Sure e w) : Sure e (f <$> w) := by
  rw [map_eq_pure_bind]
  exact hw.bind fun a => Sure.pure (f a)

theorem Sure.get_bind {f : Loaded → Building β} (hf : ∀ l, l.element = e → Sure e (f l)) : Sure e (get >>= f) :=
  Ends.get_bind hf

theorem sure_modify {f : Loaded → Loaded} (hf : ∀ l, (f l).element = l.element) : Sure e (modify f) :=
  Ends.modify f fun l h => (hf l).trans h

theorem sure_tell (notice : Notice) : Sure e (tell notice) := sure_modify fun _ => rfl

theorem sure_forM {xs : List α} {f : α → Building PUnit} (h : ∀ x, Sure e (f x)) : Sure e (xs.forM f) :=
  Ends.forM fun x _ => h x

theorem sure_fromStore {result : Except StoreError α} (h : ∃ a, result = .ok a) : Sure e (fromStore result) := by
  obtain ⟨a, rfl⟩ := h
  exact Sure.get_bind fun _ _ => Sure.pure a

theorem sure_fromBuilt {result : Except StoreError (Built α)} (h : ∃ built, result = .ok built) :
    Sure e (fromBuilt result) :=
  (sure_fromStore h).bind fun built => (sure_forM fun id => sure_tell (.skippedWay id)).bind fun _ =>
    Sure.pure built.value

theorem sure_settle (check : α → Option Fault) (shape : Option α) : Sure e (settle env check shape) := by
  unfold settle
  cases shape.bind check with
  | none => exact Sure.pure _
  | some fault =>
    dsimp only
    split
    · exact Sure.get_bind fun l _ => (sure_tell _).bind fun _ => Sure.pure _
    · exact Sure.pure _

theorem sure_lazily {kept : Shapes → Cached α} {keep : Cached α → Shapes → Shapes} {build : Building (Cached α)}
    (h : Sure e build) : Sure e (lazily kept keep build) := by
  unfold lazily
  refine Sure.get_bind fun l _ => ?_
  split
  · exact h.bind fun shape => (sure_modify fun _ => rfl).bind fun _ => Sure.pure shape
  · exact Sure.pure _

/-! ## The shapes -/

variable (hres : e.Resolves env.store)

include hres

theorem sure_polygon : Sure e (polygon env) := by
  refine sure_lazily (Sure.get_bind fun l hl => ?_)
  rw [Element.Resolves, ← hl] at hres
  dsimp only
  split
  · next nodes hsource =>
    rw [hsource] at hres
    exact ((sure_fromStore (ObjectStore.polygon_eq_ok hres)).map some).bind (sure_settle Polygon.check)
  · exact (Sure.pure none).bind (sure_settle Polygon.check)

theorem sure_multiPolygon : Sure e (multiPolygon env) := by
  refine sure_lazily (Sure.get_bind fun l hl => ?_)
  rw [Element.Resolves, ← hl] at hres
  dsimp only
  split
  · next ways hsource =>
    rw [hsource] at hres
    exact ((sure_fromBuilt (ObjectStore.multiPolygon_eq_ok hres)).map some).bind (sure_settle MultiPolygon.check)
  · exact (Sure.pure none).bind (sure_settle MultiPolygon.check)

theorem sure_lines : Sure e (lines env) := by
  refine sure_lazily (Sure.get_bind fun l hl => ?_)
  rw [Element.Resolves, ← hl] at hres
  dsimp only
  split
  · next ways hsource =>
    rw [hsource] at hres
    have houter := fun id hid => hres id (List.mem_append_left ways.inner hid)
    exact ((sure_fromBuilt (ObjectStore.lines_eq_ok houter)).map some).bind (sure_settle checkLines)
  · exact (Sure.pure none).bind (sure_settle checkLines)

theorem sure_line : Sure e (line env) := by
  refine sure_lazily (Sure.get_bind fun l hl => ?_)
  dsimp only
  split
  · exact (sure_multiPolygon hres).bind fun _ => (Sure.pure _).bind (sure_settle Path.checkLine)
  · next nodes hsource =>
    rw [Element.Resolves, ← hl, hsource] at hres
    exact ((sure_fromStore (ObjectStore.line_eq_ok hres)).map some).bind (sure_settle Path.checkLine)
  · exact (Sure.pure none).bind (sure_settle Path.checkLine)

/-- **What an element is drawn as can be built**, area or not. -/
theorem sure_geometry (area : Bool) : Sure e (geometry env area) := by
  refine Sure.get_bind fun l _ => ?_
  dsimp only
  split
  · exact Sure.pure _
  · split
    · exact (sure_polygon hres).bind fun _ => Sure.pure _
    · exact (sure_line hres).bind fun _ => Sure.pure _
  · split
    · exact (sure_multiPolygon hres).bind fun _ => Sure.pure _
    · split
      · exact (sure_line hres).bind fun _ => Sure.pure _
      · exact (sure_lines hres).bind fun _ => Sure.pure _

/-- **The middle of an element can be built.** -/
theorem sure_centroid : Sure e (centroid env) := by
  refine Sure.get_bind fun l _ => ?_
  dsimp only
  split
  · exact Sure.pure _
  · split
    · exact (sure_polygon hres).bind fun _ => Sure.pure _
    · exact (sure_line hres).bind fun _ => Sure.pure _
  · exact (sure_multiPolygon hres).bind fun _ => Sure.pure _

end Building
end MapFeatures
