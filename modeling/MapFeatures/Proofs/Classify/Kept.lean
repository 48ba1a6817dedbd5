import MapFeatures.Classify.Script
import MapFeatures.Proofs.Classify.Shapes
/-!
# Kept — a shape that is kept is the one that would be built now

Work on an element `Gives` a result if it has this result whatever shapes are kept, as long as those are the right ones
(`Kept`), and keeps only right ones.  All four shapes do (`gives_polygon` to `gives_line`), and so does all work that
asks for them; where the shapes are the same, so is the result (`Alike`).  Hence every call leaves an element with right
shapes, and so does every script (`Context.Holds.run`).
-/
namespace MapFeatures

/-! ## The right shapes -/

namespace Element

variable (env : Surroundings) (e : Element)

/-- The result of the store, whose errors concern the element. -/
def outcome {α : Type} : Except StoreError α → Except ProcessingError α
  | .ok value => .ok value
  | .error cause => .error (.geometry e.kind e.id cause)

def polygonShape : Except ProcessingError (Cached Polygon) :=
  let shape := match e.source with
    | .way nodes => (e.outcome (env.store.polygon nodes)).map some
    | _ => .ok none
  shape.map fun p => .settle p Polygon.check

def multiPolygonShape : Except ProcessingError (Cached MultiPolygon) :=
  let shape := match e.source with
    | .relation ways => (e.outcome ((env.store.multiPolygon ways.outer ways.inner).map Built.value)).map some
    | _ => .ok none
  shape.map fun mp => .settle mp MultiPolygon.check

def linesShape : Except ProcessingError (Cached (List Path)) :=
  let shape := match e.source with
    | .relation ways => (e.outcome ((env.store.lines ways.outer).map Built.value)).map some
    | _ => .ok none
  shape.map fun paths => .settle paths checkLines

def lineShape : Except ProcessingError (Cached Path) :=
  let shape := match e.source with
    | .relation _ => (e.multiPolygonShape env).map fun mp => (Cached.get? mp).map MultiPolygon.outline
    | .way nodes => (e.outcome (env.store.line nodes)).map some
    | .node _ => .ok none
  shape.map fun p => .settle p Path.checkLine

end Element

namespace Building

/-- Whether an element is loaded and every shape that is kept is the right one. -/
structure Kept (env : Surroundings) (e : Element) (l : Loaded) : Prop where
  element : l.element = e
  polygon : l.shapes.polygon = .unbuilt ∨ e.polygonShape env = .ok l.shapes.polygon
  multiPolygon : l.shapes.multiPolygon = .unbuilt ∨ e.multiPolygonShape env = .ok l.shapes.multiPolygon
  lines : l.shapes.lines = .unbuilt ∨ e.linesShape env = .ok l.shapes.lines
  line : l.shapes.line = .unbuilt ∨ e.lineShape env = .ok l.shapes.line

/-- Whether work on an element has this result as long as right shapes are kept, and keeps only right ones. -/
def Gives {α : Type} (env : Surroundings) (e : Element) (w : Building α) (r : Except ProcessingError α) : Prop :=
  ∀ l, Kept env e l → (w.run.run l).1 = r ∧ Kept env e (w.run.run l).2

/-- Whether work on an element has one result, whatever right shapes are kept. -/
def Steady {α : Type} (env : Surroundings) (e : Element) (w : Building α) : Prop := ∃ r, Gives env e w r

variable {α β : Type} {env : Surroundings} {e : Element}

theorem Kept.unbuilt (notices : List Notice) : Kept env e ⟨e, .unbuilt, notices⟩ :=
  ⟨rfl, Or.inl rfl, Or.inl rfl, Or.inl rfl, Or.inl rfl⟩

/-! ## Putting work together -/

theorem Gives.pure (a : α) : Gives env e (Pure.pure a) (.ok a) := fun _ h => ⟨rfl, h⟩

theorem Gives.bind {w : Building α} {r : Except ProcessingError α} {f : α → Building β}
    {g : α → Except ProcessingError β} (hw : Gives env e w r) (hf : ∀ a, r = .ok a → Gives env e (f a) (g a)) :
    Gives env e (w >>= f) (r.bind g) := by
  intro l hl
  obtain ⟨hr, hkept⟩ := hw l hl
  match hrun : w.run.run l with
  | (.ok a, l') =>
    rw [hrun] at hr hkept
    rw [run_bind_of_eq_ok hrun, ← hr]
    exact hf a hr.symm l' hkept
  | (.error err, l') =>
    rw [hrun] at hr hkept
    rw [run_bind_of_eq_error hrun, ← hr]
    exact ⟨rfl, hkept⟩

theorem Gives.bind_pure {w : Building α} {r : Except ProcessingError α} (hw : Gives env e w r) (f : α → β) :
    Gives env e (w >>= fun a => Pure.pure (f a)) (r.map f) := by
  have hbind : r.map f = r.bind fun a => .ok (f a) := by
    cases r with
    | ok a => rfl
    | error err => rfl
  rw [hbind]
  exact hw.bind fun a _ => Gives.pure (f a)

theorem Gives.map {w : Building α} {r : Except ProcessingError α} (f : α → β) (hw : Gives env e w r) :
    Gives env e (f <$> w) (r.map f) := by
  rw [map_eq_pure_bind]
  exact hw.bind_pure f

theorem Gives.get_bind {f : Loaded → Building β} {r : Except ProcessingError β}
    (hf : ∀ l, l.element = e → Gives env e (f l) r) : Gives env e (get >>= f) r :=
  fun l hl => hf l hl.element l hl

theorem gives_modify {f : Loaded → Loaded} (hf : ∀ l, Kept env e l → Kept env e (f l)) :
    Gives env e (modify f) (.ok ⟨⟩) := fun l hl => ⟨rfl, hf l hl⟩

theorem gives_tell (notice : Notice) : Gives env e (tell notice) (.ok ⟨⟩) :=
  gives_modify fun _ hl => ⟨hl.element, hl.polygon, hl.multiPolygon, hl.lines, hl.line⟩

theorem gives_forM {f : α → Building PUnit} (hf : ∀ x, Gives env e (f x) (.ok ⟨⟩)) : ∀ xs : List α,
    Gives env e (xs.forM f) (.ok ⟨⟩)
  | [] => Gives.pure PUnit.unit
  | x :: xs => (hf x).bind (g := fun _ => .ok PUnit.unit) fun _ _ => gives_forM hf xs

theorem gives_fromStore (result : Except StoreError α) : Gives env e (fromStore result) (e.outcome result) := by
  refine Gives.get_bind fun l hl => ?_
  cases result with
  | ok a => exact Gives.pure a
  | error cause => exact fun l' hl' => ⟨by rw [← hl]; rfl, hl'⟩

theorem gives_fromBuilt (result : Except StoreError (Built α)) :
    Gives env e (fromBuilt result) (e.outcome (result.map Built.value)) := by
  have hbind : e.outcome (result.map Built.value) = (e.outcome result).bind fun built => .ok built.value := by
    cases result with
    | ok built => rfl
    | error cause => rfl
  rw [hbind]
  refine (gives_fromStore result).bind fun built _ => ?_
  exact (gives_forM (fun id => gives_tell (.skippedWay id)) built.skipped).bind (g := fun _ => .ok built.value)
    fun _ _ => Gives.pure built.value

theorem gives_settle (check : α → Option Fault) (shape : Option α) :
    Gives env e (settle env check shape) (.ok (Cached.settle shape check)) := by
  unfold settle
  cases shape.bind check with
  | none => exact Gives.pure _
  | some fault =>
    dsimp only
    split
    · exact Gives.get_bind fun l _ => (gives_tell _).bind (g := fun _ => .ok _) fun _ _ => Gives.pure _
    · exact Gives.pure _

theorem Gives.bind_settle {w : Building (Option α)} {r : Except ProcessingError (Option α)} (hw : Gives env e w r)
    (check : α → Option Fault) :
    Gives env e (w >>= settle env check) (r.map fun shape => .settle shape check) := by
  have hbind : (r.map fun shape => Cached.settle shape check) = r.bind fun shape => .ok (.settle shape check) := by
    cases r with
    | ok shape => rfl
    | error err => rfl
  rw [hbind]
  exact hw.bind fun shape _ => gives_settle check shape

/-- **A shape that is kept is given as it would be built**, and one that is built is kept. -/
theorem gives_lazily {kept : Shapes → Cached α} {keep : Cached α → Shapes → Shapes} {build : Building (Cached α)}
    {r : Except ProcessingError (Cached α)} (hbuild : Gives env e build r)
    (hkept : ∀ l, Kept env e l → kept l.shapes = .unbuilt ∨ r = .ok (kept l.shapes))
    (hkeep : ∀ l shape, Kept env e l → r = .ok shape → Kept env e { l with shapes := keep shape l.shapes }) :
    Gives env e (lazily kept keep build) r := by
  have hbuilt : r = r.bind fun shape => .ok shape := by
    cases r with
    | ok shape => rfl
    | error err => rfl
  intro l hl
  unfold lazily
  rw [run_bind_of_eq_ok (rfl : (get : Building Loaded).run.run l = (.ok l, l))]
  split
  · rw [hbuilt]
    exact (hbuild.bind fun shape hr => (gives_modify fun l hl => hkeep l shape hl hr).bind (g := fun _ => .ok shape)
      fun _ _ => Gives.pure shape) l hl
  · next hne => exact ⟨((hkept l hl).resolve_left hne).symm, hl⟩

/-! ## The four shapes -/

theorem gives_polygon : Gives env e (polygon env) (e.polygonShape env) := by
  refine gives_lazily (Gives.get_bind fun l hl => ?_) (fun l hl => hl.polygon) fun l shape hl hr =>
    ⟨hl.element, Or.inr hr, hl.multiPolygon, hl.lines, hl.line⟩
  rw [hl, Element.polygonShape]
  cases e.source with
  | node at_ => exact (Gives.pure none).bind_settle Polygon.check
  | way nodes => exact ((gives_fromStore _).map some).bind_settle Polygon.check
  | relation ways => exact (Gives.pure none).bind_settle Polygon.check

theorem gives_multiPolygon : Gives env e (multiPolygon env) (e.multiPolygonShape env) := by
  refine gives_lazily (Gives.get_bind fun l hl => ?_) (fun l hl => hl.multiPolygon) fun l shape hl hr =>
    ⟨hl.element, hl.polygon, Or.inr hr, hl.lines, hl.line⟩
  rw [hl, Element.multiPolygonShape]
  cases e.source with
  | node at_ => exact (Gives.pure none).bind_settle MultiPolygon.check
  | way nodes => exact (Gives.pure none).bind_settle MultiPolygon.check
  | relation ways => exact ((gives_fromBuilt _).map some).bind_settle MultiPolygon.check

theorem gives_lines : Gives env e (lines env) (e.linesShape env) := by
  refine gives_lazily (Gives.get_bind fun l hl => ?_) (fun l hl => hl.lines) fun l shape hl hr =>
    ⟨hl.element, hl.polygon, hl.multiPolygon, Or.inr hr, hl.line⟩
  rw [hl, Element.linesShape]
  cases e.source with
  | node at_ => exact (Gives.pure none).bind_settle checkLines
  | way nodes => exact (Gives.pure none).bind_settle checkLines
  | relation ways => exact ((gives_fromBuilt _).map some).bind_settle checkLines

theorem gives_line : Gives env e (line env) (e.lineShape env) := by
  refine gives_lazily (Gives.get_bind fun l hl => ?_) (fun l hl => hl.line) fun l shape hl hr =>
    ⟨hl.element, hl.polygon, hl.multiPolygon, hl.lines, Or.inr hr⟩
  rw [hl, Element.lineShape]
  cases e.source with
  | node at_ => exact (Gives.pure none).bind_settle Path.checkLine
  | way nodes => exact ((gives_fromStore _).map some).bind_settle Path.checkLine
  | relation ways =>
    dsimp only
    rw [← bind_assoc]
    exact (gives_multiPolygon.bind_pure fun mp => mp.get?.map MultiPolygon.outline).bind_settle Path.checkLine

/-! ## Work that asks for them -/

/-- What a relation is drawn as if areas are asked for. -/
theorem gives_geometry_area (env : Surroundings) {ways : WayLists} (hsource : e.source = .relation ways) :
    Gives env e (geometry env true) ((e.multiPolygonShape env).map fun mp => mp.get?.map .multiPolygon) := by
  refine Gives.get_bind fun l hl => ?_
  rw [hl]
  dsimp only
  rw [hsource]
  exact gives_multiPolygon.bind_pure fun mp => mp.get?.map Geometry.multiPolygon

/-- What a relation that is no multi-polygon is drawn as if no areas are asked for. -/
theorem gives_geometry_lines (env : Surroundings) {ways : WayLists} (hsource : e.source = .relation ways)
    (htype : e.tag "type" ≠ "multipolygon") :
    Gives env e (geometry env false) ((e.linesShape env).map fun paths => paths.get?.map .lines) := by
  refine Gives.get_bind fun l hl => ?_
  rw [hl]
  dsimp only
  rw [hsource]
  dsimp only
  rw [if_neg Bool.false_ne_true, if_neg htype]
  exact gives_lines.bind_pure fun paths => paths.get?.map Geometry.lines

theorem gives_length (env : Surroundings) {ways : WayLists} (hsource : e.source = .relation ways) :
    Gives env e (length env) ((e.linesShape env).map fun shape =>
      (shape.get?.map fun paths => paths.foldl (fun total p => total + p.length) 0).getD 0) := by
  refine Gives.get_bind fun l hl => ?_
  rw [hl, hsource]
  exact gives_lines.bind_pure fun shape =>
    (shape.get?.map fun paths => paths.foldl (fun total p => total + p.length) 0).getD 0

/-! ## Surroundings that agree -/

/-- Whether two surroundings have the same layers, and the same shapes of an element. -/
structure Agrees (env env' : Surroundings) (e : Element) : Prop where
  layers : env.layers = env'.layers
  polygon : e.polygonShape env = e.polygonShape env'
  multiPolygon : e.multiPolygonShape env = e.multiPolygonShape env'
  lines : e.linesShape env = e.linesShape env'
  line : e.lineShape env = e.lineShape env'

theorem Agrees.refl (env : Surroundings) (e : Element) : Agrees env env e := ⟨rfl, rfl, rfl, rfl, rfl⟩

/-- Whether work on an element has the same result in two surroundings, whatever right shapes are kept. -/
def Alike {α : Type} (env env' : Surroundings) (e : Element) (w w' : Building α) : Prop :=
  ∃ r, Gives env e w r ∧ Gives env' e w' r

section

variable {env' : Surroundings} {w w' : Building α}

theorem Gives.alike {r r' : Except ProcessingError α} (h : Gives env e w r) (h' : Gives env' e w' r') (hr : r = r') :
    Alike env env' e w w' := ⟨r, h, hr ▸ h'⟩

theorem Alike.pure (a : α) : Alike env env' e (Pure.pure a) (Pure.pure a) := ⟨.ok a, Gives.pure a, Gives.pure a⟩

theorem Alike.bind_pure (h : Alike env env' e w w') (f : α → β) :
    Alike env env' e (w >>= fun a => Pure.pure (f a)) (w' >>= fun a => Pure.pure (f a)) := by
  obtain ⟨r, hw, hw'⟩ := h
  exact ⟨r.map f, hw.bind_pure f, hw'.bind_pure f⟩

theorem Alike.get_bind {f f' : Loaded → Building α} (hf : ∀ l, l.element = e → f l = w)
    (hf' : ∀ l, l.element = e → f' l = w') (h : Alike env env' e w w') :
    Alike env env' e (get >>= f) (get >>= f') := by
  obtain ⟨r, hw, hw'⟩ := h
  exact ⟨r, Gives.get_bind fun l hl => by rwa [hf l hl], Gives.get_bind fun l hl => by rwa [hf' l hl]⟩

variable (h : Agrees env env' e)

include h

theorem alike_polygon : Alike env env' e (polygon env) (polygon env') := gives_polygon.alike gives_polygon h.polygon

theorem alike_multiPolygon : Alike env env' e (multiPolygon env) (multiPolygon env') :=
  gives_multiPolygon.alike gives_multiPolygon h.multiPolygon

theorem alike_lines : Alike env env' e (lines env) (lines env') := gives_lines.alike gives_lines h.lines

theorem alike_line : Alike env env' e (line env) (line env') := gives_line.alike gives_line h.line

theorem alike_probe : Alike env env' e (probe env) (probe env') := by
  refine Alike.get_bind (fun l hl => by rw [hl]) (fun l hl => by rw [hl]) ?_
  dsimp only
  cases e.source with
  | node at_ => exact Alike.pure _
  | way nodes =>
    dsimp only
    split
    · exact (alike_polygon h).bind_pure _
    · exact (alike_line h).bind_pure _
  | relation ways => exact (alike_multiPolygon h).bind_pure _

theorem alike_geometry (area : Bool) : Alike env env' e (geometry env area) (geometry env' area) := by
  refine Alike.get_bind (fun l hl => by rw [hl]) (fun l hl => by rw [hl]) ?_
  dsimp only
  cases e.source with
  | node at_ => exact Alike.pure _
  | way nodes =>
    dsimp only
    split
    · exact (alike_polygon h).bind_pure _
    · exact (alike_line h).bind_pure _
  | relation ways =>
    dsimp only
    split
    · exact (alike_multiPolygon h).bind_pure _
    · split
      · exact (alike_line h).bind_pure _
      · exact (alike_lines h).bind_pure _

theorem alike_centroid : Alike env env' e (centroid env) (centroid env') := by
  refine Alike.get_bind (fun l hl => by rw [hl]) (fun l hl => by rw [hl]) ?_
  dsimp only
  cases e.source with
  | node at_ => exact Alike.pure _
  | way nodes =>
    dsimp only
    split
    · exact (alike_polygon h).bind_pure _
    · exact (alike_line h).bind_pure _
  | relation ways => exact (alike_multiPolygon h).bind_pure _

theorem alike_area : Alike env env' e (area env) (area env') := by
  refine Alike.get_bind (fun l hl => by rw [hl]) (fun l hl => by rw [hl]) ?_
  dsimp only
  cases e.source with
  | node at_ => exact Alike.pure _
  | way nodes =>
    dsimp only
    split
    · exact (alike_polygon h).bind_pure _
    · exact Alike.pure _
  | relation ways => exact (alike_multiPolygon h).bind_pure _

theorem alike_length : Alike env env' e (length env) (length env') := by
  refine Alike.get_bind (fun l hl => by rw [hl]) (fun l hl => by rw [hl]) ?_
  cases e.source with
  | node at_ => exact Alike.pure _
  | way nodes => exact (alike_line h).bind_pure _
  | relation ways => exact (alike_lines h).bind_pure _

end

/-! ## Work that has one result -/

theorem Alike.steady {w : Building α} (h : Alike env env e w w) : Steady env e w := h.imp fun _ hw => hw.1

theorem Steady.bind_pure {w : Building α} (hw : Steady env e w) (f : α → β) :
    Steady env e (w >>= fun a => Pure.pure (f a)) :=
  hw.imp' _ fun _ h => h.bind_pure f

theorem steady_probe : Steady env e (probe env) := (alike_probe (.refl env e)).steady

theorem steady_geometry (area : Bool) : Steady env e (geometry env area) := (alike_geometry (.refl env e) area).steady

theorem steady_centroid : Steady env e (centroid env) := (alike_centroid (.refl env e)).steady

theorem steady_area : Steady env e (area env) := (alike_area (.refl env e)).steady

theorem steady_length : Steady env e (length env) := (alike_length (.refl env e)).steady

end Building

/-! ## Calls -/

namespace Context

open Building

/-- Whether a context has an element, with right shapes. -/
def Holds (env : Surroundings) (e : Element) (c : Context) : Prop := ∃ l, c.phase.element? = some l ∧ Kept env e l

variable {α : Type} {env : Surroundings} {e : Element} {c : Context}

theorem holds_begin (c : Context) : (c.begin e).Holds env e := ⟨_, rfl, Kept.unbuilt []⟩

theorem Holds.element?_eq (h : c.Holds env e) : c.element? = some e := by
  obtain ⟨l, hl, hkept⟩ := h
  rw [element?, hl, Option.map_some, hkept.element]

theorem element?_withElement {p : Phase} {l : Loaded} (h : p.element? = some l) (l' : Loaded) :
    (p.withElement l').element? = some l' := by
  cases p with
  | idle => cases h
  | loaded l => rfl
  | classified l => rfl

/-- **Work that gives a result gives it as the answer of a context**, and leaves right shapes and all features. -/
theorem work_of_gives {w : Building α} {r : Except ProcessingError α} (h : c.Holds env e) (hw : Gives env e w r)
    (idle : α) : (c.work idle w).1 = r ∧ (c.work idle w).2.Holds env e ∧ (c.work idle w).2.features = c.features := by
  obtain ⟨l, hl, hkept⟩ := h
  have hkept' : Kept env e { l with notices := c.notices } :=
    ⟨hkept.element, hkept.polygon, hkept.multiPolygon, hkept.lines, hkept.line⟩
  obtain ⟨hr, hafter⟩ := hw _ hkept'
  rw [work, hl]
  exact ⟨hr, ⟨_, element?_withElement hl _, hafter⟩, rfl⟩

theorem Holds.work {w : Building α} (h : c.Holds env e) (hw : Steady env e w) (idle : α) :
    (c.work idle w).2.Holds env e := by
  obtain ⟨r, hr⟩ := hw
  exact (work_of_gives h hr idle).2.1

theorem Holds.emit (h : c.Holds env e) (layer : String) (geometry : Option Geometry) :
    (c.emit layer geometry).2.Holds env e := by
  unfold Context.emit
  split
  · exact h
  · exact h

theorem Holds.assignWith {build : Building (Option Geometry)} (h : c.Holds env e) (hbuild : Steady env e build)
    (layer : String) : (c.assignWith layer build).2.Holds env e := by
  have hwork := h.work hbuild none
  unfold Context.assignWith
  match hrun : c.work none build with
  | (.error err, c') =>
    rw [hrun] at hwork
    exact hwork
  | (.ok geometry, c') =>
    rw [hrun] at hwork
    exact hwork.emit layer geometry

theorem Holds.setAttribute (h : c.Holds env e) (a : Attribute) : (c.setAttribute a).Holds env e := by
  unfold Context.setAttribute
  split
  · exact h
  · exact h

theorem Holds.setMinZoom (h : c.Holds env e) (minZoom : UInt8) : (c.setMinZoom minZoom).Holds env e := by
  unfold Context.setMinZoom
  split
  · exact h
  · exact h

/-- **Every call leaves the element and right shapes.** -/
theorem Holds.answer (h : c.Holds env e) (call : Call) : (c.answer env call).2.Holds env e := by
  cases call with
  | area => exact h.work steady_area 0
  | length => exact h.work steady_length 0
  | overlapArea layer => exact h.work (steady_probe.bind_pure _) 0
  | intersects layer => exact h.work (steady_probe.bind_pure _) false
  | coveredBy layer => exact h.work (steady_probe.bind_pure _) false
  | intersectingLabels layer => exact h.work (steady_probe.bind_pure _) []
  | coveringLabels layer => exact h.work (steady_probe.bind_pure _) []
  | assign layer area => exact h.assignWith (steady_geometry area) layer
  | assignCentroid layer => exact h.assignWith (steady_centroid.bind_pure _) layer
  | setAttribute a => exact h.setAttribute a
  | setMinZoom minZoom => exact h.setMinZoom minZoom
  | stage => exact h
  | kind => exact h
  | id => exact h
  | tags => exact h
  | has key => exact h
  | find key => exact h
  | relationIds => exact h
  | findInRelation relation key => exact h
  | isClosedRing => exact h

/-- **So does a whole script.** -/
theorem Holds.run : ∀ (s : Script α) {c : Context}, c.Holds env e → (s.run env c).2.Holds env e
  | .done _, _, h => h
  | .ask call next, c, h => Holds.run (next (c.answer env call).1) (h.answer call)

end Context
end MapFeatures
