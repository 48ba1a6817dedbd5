import MapFeatures.Proofs.Number.Finite
import MapFeatures.Ring.Assembly
/-!
# Assembled — the rings of an assembled area

A path of finite coordinates is closed by closing it (`Path.isClosed_close`), and one that is closed stays as it is
(`Path.close_eq_of_isClosed`).  Coordinates of locations are finite, so a ring of locations is closed as it is, and to
correct it is at most to reverse it (`Path.IsRing.orient`).  The shells of an assembled area are its outer rings in
order (`shells_multiPolygon`), and every hole comes of an inner ring (`isRing_multiPolygon`).
-/
namespace MapFeatures

/-! ## Rings of coordinates -/

namespace Path

/-- Whether a path has finite coordinates, is closed and is not too short for a ring. -/
structure IsRing (p : Path) : Prop where
  finite : p.isFinite = true
  closed : p.head? = p.getLast?
  long : minRingPoints ≤ List.length p

theorem isFinite_ofLocations (ls : List Location) : (ofLocations ls).isFinite = true := by
  rw [isFinite, ofLocations, List.all_map, List.all_eq_true]
  exact fun l _ => isFinite_coord l

theorem isFinite_of_mem {p : Path} (h : p.isFinite = true) {c : Coord} (hc : c ∈ p) : c.isFinite = true :=
  List.all_eq_true.1 h c hc

variable {p : Path}

theorem isClosed_points_eq (hfinite : p.isFinite = true) {first last : Coord} (hfirst : p.head? = some first)
    (hlast : p.getLast? = some last) : Plane.isClosed p.points = first.same last := by
  have hboth : (first.isFinite && last.isFinite) = true := by
    rw [isFinite_of_mem hfinite (List.mem_of_head? hfirst), isFinite_of_mem hfinite (List.mem_of_getLast? hlast)]
    rfl
  rw [Plane.isClosed, points, List.head?_map, List.getLast?_map, hfirst, hlast, Coord.same, if_pos hboth]
  exact decide_eq_decide.2 Option.some_inj

/-- **What ends where it starts stays as it is when it is closed.** -/
theorem close_eq_of_isClosed (hfinite : p.isFinite = true) (hclosed : Plane.isClosed p.points = true) :
    p.close = p := by
  unfold close
  cases hfirst : p.head? with
  | none => rfl
  | some first =>
    cases hlast : p.getLast? with
    | none => rfl
    | some last => exact if_pos (isClosed_points_eq hfinite hfirst hlast ▸ hclosed)

theorem isClosed_close (hfinite : p.isFinite = true) : Plane.isClosed p.close.points = true := by
  cases hfirst : p.head? with
  | none =>
    rw [List.head?_eq_none_iff.1 hfirst]
    rfl
  | some first =>
    cases hlast : p.getLast? with
    | none =>
      rw [List.getLast?_eq_none_iff.1 hlast] at hfirst
      cases hfirst
    | some last =>
      have hclose : p.close = if first.same last then p else p ++ [first] := by rw [close, hfirst, hlast]
      rw [hclose]
      split
      · next hsame => rw [isClosed_points_eq hfinite hfirst hlast, hsame]
      · rw [Plane.isClosed, points, List.map_append, List.head?_append, List.head?_map, hfirst, List.getLast?_append]
        exact decide_eq_true (by simp)

theorem mem_close {c : Coord} (h : c ∈ p.close) : c ∈ p := by
  unfold close at h
  split at h
  · next first _ hfirst _ =>
    split at h
    · exact h
    · rcases List.mem_append.1 h with h | h
      · exact h
      · rw [List.mem_singleton.1 h]
        exact List.mem_of_head? hfirst
  · exact h

theorem isFinite_close (h : p.isFinite = true) : p.close.isFinite = true :=
  List.all_eq_true.2 fun _ hc => isFinite_of_mem h (mem_close hc)

theorem IsRing.reverse (h : p.IsRing) : IsRing p.reverse where
  finite := by rw [isFinite, List.all_reverse]; exact h.finite
  closed := by rw [List.head?_reverse, List.getLast?_reverse, h.closed]
  long := by rw [List.length_reverse]; exact h.long

theorem IsRing.isClosed_points (h : p.IsRing) : Plane.isClosed p.points = true := by
  rw [Plane.isClosed, points, List.head?_map, List.getLast?_map, h.closed]
  exact decide_eq_true rfl

theorem IsRing.close_eq (h : p.IsRing) : p.close = p := close_eq_of_isClosed h.finite h.isClosed_points

theorem IsRing.orient (h : p.IsRing) (wanted : Plane.Winding) : IsRing (p.orient wanted) := by
  obtain he | he := along_orient wanted p
  · rwa [he]
  · rw [he]
    exact h.reverse

/-- **A ring of locations is a ring of coordinates.** -/
theorem isRing_ofLocations {f : Fragment} (h : Fragment.isRing f = true) : IsRing (ofLocations f) := by
  rw [Fragment.isRing, Fragment.isClosed, Bool.and_eq_true, Bool.and_eq_true] at h
  obtain ⟨⟨-, hclosed⟩, hlong⟩ := h
  refine ⟨isFinite_ofLocations f, ?_, ?_⟩
  · rw [ofLocations, List.head?_map, List.getLast?_map, of_decide_eq_true hclosed]
  · rw [ofLocations, List.length_map]
    exact of_decide_eq_true hlong

end Path

/-! ## Areas -/

namespace Assembly

theorem mem_modify {α : Type} {f : α → α} : ∀ {l : List α} {i : Nat} {a : α}, a ∈ l.modify i f →
    a ∈ l ∨ ∃ b ∈ l, f b = a
  | [], _, _, h => by simp at h
  | b :: l, 0, a, h => by
    rw [List.modify_zero_cons, List.mem_cons] at h
    exact h.elim (fun he => Or.inr ⟨b, List.mem_cons_self, he.symm⟩) fun ht => Or.inl (List.mem_cons_of_mem b ht)
  | b :: l, i + 1, a, h => by
    rw [List.modify_succ_cons, List.mem_cons] at h
    obtain rfl | ht := h
    · exact Or.inl List.mem_cons_self
    · obtain ht | ⟨c, hc, he⟩ := mem_modify ht
      · exact Or.inl (List.mem_cons_of_mem b ht)
      · exact Or.inr ⟨c, List.mem_cons_of_mem b hc, he⟩

theorem map_modify {α β : Type} {f : α → α} {g : α → β} (h : ∀ a, g (f a) = g a) : ∀ (l : List α) (i : Nat),
    (l.modify i f).map g = l.map g
  | [], _ => by rw [List.modify_nil]
  | b :: l, 0 => by rw [List.modify_zero_cons, List.map_cons, List.map_cons, h]
  | b :: l, i + 1 => by rw [List.modify_succ_cons, List.map_cons, List.map_cons, map_modify h l i]

namespace Primitives

/-- What holds of shells without holes, and goes on to hold with one more of some rings as a hole. -/
theorem withHoles_induction (P : Primitives) {motive : List Polygon → Prop} {shells : List Polygon} {rings : List Path}
    (hstart : motive shells)
    (hstep : ∀ polygons, motive polygons → ∀ ring ∈ rings, ∀ i, motive (polygons.modify i (·.addHole ring))) :
    motive (P.withHoles shells rings) := by
  refine List.foldlRecOn rings _ hstart fun polygons h ring hring => ?_
  split
  · exact h
  · next i _ => exact hstep polygons h ring hring i

/-- **Holes leave the shells as they are.** -/
theorem shells_withHoles (P : Primitives) (shells : List Polygon) (rings : List Path) :
    (P.withHoles shells rings).map Polygon.shell = shells.map Polygon.shell := by
  refine P.withHoles_induction (motive := fun polygons => polygons.map Polygon.shell = shells.map Polygon.shell) rfl ?_
  intro polygons h ring _ i
  have hshell : ∀ q : Polygon, (q.addHole ring).shell = q.shell := fun _ => rfl
  rw [map_modify hshell, h]

/-- **Every hole is one of the rings, closed.** -/
theorem holes_withHoles (P : Primitives) {shells : List Polygon} {rings : List Path}
    (hshells : ∀ p ∈ shells, p.holes = []) :
    ∀ p ∈ P.withHoles shells rings, ∀ hole ∈ p.holes, ∃ ring ∈ rings, ring.close = hole := by
  refine P.withHoles_induction (motive := fun polygons =>
    ∀ p ∈ polygons, ∀ hole ∈ p.holes, ∃ ring ∈ rings, ring.close = hole) ?_ ?_
  · intro p hp hole hhole
    rw [hshells p hp] at hhole
    cases hhole
  · intro polygons h ring hring i p hp hole hhole
    obtain hp | ⟨q, hq, rfl⟩ := mem_modify hp
    · exact h p hp hole hhole
    · obtain hq' | hlast := List.mem_append.1 hhole
      · exact h q hq hole hq'
      · exact ⟨ring, hring, (List.mem_singleton.1 hlast).symm⟩

end Primitives

/-- What is assembled is corrected in the end. -/
theorem multiPolygon_eq (outer inner : List Fragment) : multiPolygon outer inner =
    MultiPolygon.correct (Primitives.exact.withHoles
      (outer.map fun f => Polygon.ofRings (Path.ofLocations f) []) (inner.map Path.ofLocations)) := rfl

variable {outer inner : List Fragment}

/-- **The shells of an assembled area** are its outer rings in their order, turned round if need be. -/
theorem shells_multiPolygon (houter : ∀ f ∈ outer, Fragment.isRing f = true) (inner : List Fragment) :
    (multiPolygon outer inner).map Polygon.shell = outer.map fun f => (Path.ofLocations f).orient .clockwise := by
  have hcorrect : ∀ mp : MultiPolygon, mp.correct.map Polygon.shell =
      (mp.map Polygon.shell).map fun shell => shell.close.orient .clockwise := by
    intro mp
    rw [MultiPolygon.correct, List.map_map, List.map_map]
    rfl
  rw [multiPolygon_eq, hcorrect, Primitives.shells_withHoles, List.map_map, List.map_map]
  refine List.map_congr_left fun f hf => ?_
  have hring := Path.isRing_ofLocations (houter f hf)
  dsimp only [Function.comp_apply, Polygon.ofRings]
  rw [hring.close_eq, hring.close_eq]

/-- **All rings of an assembled area are rings.** -/
theorem isRing_multiPolygon (houter : ∀ f ∈ outer, Fragment.isRing f = true)
    (hinner : ∀ f ∈ inner, Fragment.isRing f = true) :
    ∀ p ∈ multiPolygon outer inner, ∀ ring ∈ p.rings, ring.IsRing := by
  intro p hp ring hring
  rw [Polygon.rings, List.mem_cons] at hring
  obtain rfl | hhole := hring
  · have hshell := List.mem_map_of_mem (f := Polygon.shell) hp
    rw [shells_multiPolygon houter, List.mem_map] at hshell
    obtain ⟨f, hf, he⟩ := hshell
    rw [← he]
    exact (Path.isRing_ofLocations (houter f hf)).orient .clockwise
  · obtain ⟨q, hq, rfl⟩ := List.mem_map.1 hp
    obtain ⟨closed, hclosed, rfl⟩ := List.mem_map.1 hhole
    obtain ⟨hole, hqhole, rfl⟩ := List.mem_map.1 hclosed
    have hshells : ∀ s ∈ outer.map fun f => Polygon.ofRings (Path.ofLocations f) [], s.holes = [] := by
      intro s hs
      obtain ⟨f, -, rfl⟩ := List.mem_map.1 hs
      rfl
    obtain ⟨path, hpath, rfl⟩ := Primitives.exact.holes_withHoles hshells q hq hole hqhole
    obtain ⟨f, hf, rfl⟩ := List.mem_map.1 hpath
    have hhole := Path.isRing_ofLocations (hinner f hf)
    rw [hhole.close_eq, hhole.close_eq]
    exact hhole.orient .counterClockwise

end Assembly
end MapFeatures
