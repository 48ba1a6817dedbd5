import MapFeatures.Proofs.Ring.Assembled
/-!
# Holes — every hole goes to the smallest shell around it

`container?` finds the first of the smallest shells around a ring (`container?_eq_some_iff`), sizes being compared in
the order of all floats (`Binary64.totalRank`).  The rings that become holes of a shell are the ones it is the container
of, in the order they come in (`getElem?_withHoles`); so no hole depends on those before it.  All this holds of any
`Primitives`: what lies within what does not matter for it, nor how large it is, only that rings are turned round at
most.
-/
namespace MapFeatures
namespace Assembly
namespace Primitives

variable (P : Primitives)

/-! ## The container of a ring -/

/-- Whether the shell numbered `k` is around a ring, none that is around it is smaller, and none of its size comes
before. -/
def SmallestAround (shells : List Polygon) (ring : Path) (k : Nat) : Prop :=
  ∃ p, shells[k]? = some p ∧ P.within ring p = true ∧
    ∀ j q, shells[j]? = some q → P.within ring q = true →
      Binary64.totalRank (P.area p) ≤ Binary64.totalRank (P.area q) ∧
        (j < k → Binary64.totalRank (P.area p) < Binary64.totalRank (P.area q))

theorem foldl_smaller_concat (l : List (Int × Nat)) (d : Int × Nat) :
    (l ++ [d]).foldl container?.smaller none =
      match l.foldl container?.smaller none with
      | none => some d
      | some c => some (if d.1 < c.1 then d else c) := by
  rw [List.foldl_append, List.foldl_cons, List.foldl_nil]
  cases l.foldl container?.smaller none <;> rfl

/-- What is kept of some candidates is the first of the smallest. -/
theorem foldl_smaller_spec (l : List (Int × Nat)) :
    match l.foldl container?.smaller none with
    | none => l = []
    | some c => ∃ pre post, l = pre ++ c :: post ∧ (∀ d ∈ pre, c.1 < d.1) ∧ ∀ d ∈ post, c.1 ≤ d.1 := by
  -- from the back, as the fold compares what it has with the next one
  induction l using List.reverseRecOn with
  | nil => rfl
  | append_singleton l d ih =>
    rw [foldl_smaller_concat]
    cases hl : l.foldl container?.smaller none with
    | none =>
      rw [hl] at ih
      exact ⟨[], [], by simp [ih], by simp, by simp⟩
    | some c =>
      rw [hl] at ih
      obtain ⟨pre, post, hsplit, hpre, hpost⟩ := ih
      by_cases hd : d.1 < c.1
      · refine ⟨l, [], by simp [hd], fun e he => ?_, by simp [hd]⟩
        rw [hsplit, List.mem_append, List.mem_cons] at he
        rw [if_pos hd]
        rcases he with he | rfl | he
        · exact Int.lt_trans hd (hpre e he)
        · exact hd
        · exact Int.lt_of_lt_of_le hd (hpost e he)
      · refine ⟨pre, post ++ [d], by simp [hd, hsplit], by simpa [hd] using hpre, fun e he => ?_⟩
        rw [List.mem_append, List.mem_singleton] at he
        rw [if_neg hd]
        rcases he with he | rfl
        · exact hpost e he
        · exact Int.not_lt.1 hd

/-- The shells around a ring, by size and number. -/
def candidates (shells : List Polygon) (ring : Path) : List (Int × Nat) :=
  (shells.zipIdx.filter fun s => P.within ring s.1).map fun s => (Binary64.totalRank (P.area s.1), s.2)

variable {P}

theorem mem_candidates_iff {shells : List Polygon} {ring : Path} {c : Int × Nat} :
    c ∈ P.candidates shells ring ↔
      ∃ p, shells[c.2]? = some p ∧ P.within ring p = true ∧ Binary64.totalRank (P.area p) = c.1 := by
  unfold candidates
  simp only [List.mem_map, List.mem_filter, Prod.exists, List.mem_zipIdx_iff_getElem?]
  constructor
  · rintro ⟨p, k, ⟨hp, hring⟩, rfl⟩
    exact ⟨p, hp, hring, rfl⟩
  · rintro ⟨p, hp, hring, hsize⟩
    exact ⟨p, c.2, ⟨hp, hring⟩, by rw [hsize]⟩

theorem pairwise_candidates (P : Primitives) (shells : List Polygon) (ring : Path) :
    (P.candidates shells ring).Pairwise fun a b => a.2 < b.2 := by
  have hnumbers : shells.zipIdx.Pairwise fun a b => a.2 < b.2 := by
    rw [← List.pairwise_map, List.zipIdx_map_snd]
    exact List.pairwise_lt_range'
  exact List.pairwise_map.2 (hnumbers.filter _)

theorem container?_eq (P : Primitives) (shells : List Polygon) (ring : Path) :
    P.container? shells ring = ((P.candidates shells ring).foldl container?.smaller none).map (·.2) := rfl

theorem smallestAround_of_container? {shells : List Polygon} {ring : Path} {k : Nat}
    (h : P.container? shells ring = some k) : P.SmallestAround shells ring k := by
  rw [container?_eq, Option.map_eq_some_iff] at h
  obtain ⟨c, hc, rfl⟩ := h
  have hspec := foldl_smaller_spec (P.candidates shells ring)
  rw [hc] at hspec
  obtain ⟨pre, post, hsplit, hpre, hpost⟩ := hspec
  have hmem : c ∈ P.candidates shells ring := by simp [hsplit]
  obtain ⟨p, hp, hring, hsize⟩ := mem_candidates_iff.1 hmem
  refine ⟨p, hp, hring, fun j q hq hring' => ?_⟩
  have hq : (Binary64.totalRank (P.area q), j) ∈ P.candidates shells ring := mem_candidates_iff.2 ⟨q, hq, hring', rfl⟩
  have hnumbers := P.pairwise_candidates shells ring
  rw [hsplit] at hq hnumbers
  rw [hsize]
  rw [List.mem_append, List.mem_cons] at hq
  rcases hq with hq | rfl | hq
  · have := hpre _ hq
    dsimp only at this
    omega
  · exact ⟨by simp, fun hlt => absurd hlt (by simp)⟩
  · have hle := hpost _ hq
    have hlater := List.rel_of_pairwise_cons (List.pairwise_append.1 hnumbers).2.1 hq
    dsimp only at hle hlater
    omega

theorem SmallestAround.unique {shells : List Polygon} {ring : Path} {j k : Nat} (hj : P.SmallestAround shells ring j)
    (hk : P.SmallestAround shells ring k) : j = k := by
  obtain ⟨p, hp, hp', hleast⟩ := hj
  obtain ⟨q, hq, hq', hleast'⟩ := hk
  have h := hleast k q hq hq'
  have h' := hleast' j p hp hp'
  omega

theorem container?_eq_none_iff {shells : List Polygon} {ring : Path} :
    P.container? shells ring = none ↔ ∀ p ∈ shells, P.within ring p = false := by
  have hspec := foldl_smaller_spec (P.candidates shells ring)
  have hempty : P.container? shells ring = none ↔ P.candidates shells ring = [] := by
    rw [container?_eq, Option.map_eq_none_iff]
    constructor
    · intro h
      rwa [h] at hspec
    · intro h
      rw [h]
      rfl
  rw [hempty, List.eq_nil_iff_forall_not_mem]
  constructor
  · intro h p hp
    obtain ⟨k, hk⟩ := List.getElem?_of_mem hp
    exact Bool.eq_false_iff.2 fun hring => h (_, k) (mem_candidates_iff.2 ⟨p, hk, hring, rfl⟩)
  · intro h c hc
    obtain ⟨p, hp, hring, -⟩ := mem_candidates_iff.1 hc
    rw [h p (List.mem_of_getElem? hp)] at hring
    cases hring

/-- **The container of a ring** is the first of the smallest shells around it. -/
theorem container?_eq_some_iff {shells : List Polygon} {ring : Path} {k : Nat} :
    P.container? shells ring = some k ↔ P.SmallestAround shells ring k := by
  refine ⟨smallestAround_of_container?, fun h => ?_⟩
  cases hc : P.container? shells ring with
  | some j => rw [(smallestAround_of_container? hc).unique h]
  | none =>
    obtain ⟨p, hp, hring, -⟩ := h
    rw [container?_eq_none_iff.1 hc p (List.mem_of_getElem? hp)] at hring
    cases hring

instance (shells : List Polygon) (ring : Path) (k : Nat) : Decidable (P.SmallestAround shells ring k) :=
  decidable_of_iff _ container?_eq_some_iff

end Primitives
end Assembly

/-! ## Closed rings -/

theorem Path.close_close {p : Path} (h : p.isFinite = true) : p.close.close = p.close :=
  close_eq_of_isClosed (isFinite_close h) (isClosed_close h)

theorem Polygon.Along.forall₂ {p q : Polygon} (h : p.Along q) : List.Forall₂ Path.Along p.holes q.holes :=
  List.forall₂_iff_zip.2 ⟨h.count, fun hmem => h.holes _ hmem⟩

/-- The closed ring of some locations. -/
def Fragment.ring (f : Fragment) : Path := (Path.ofLocations f).close

theorem Fragment.close_ring (f : Fragment) : f.ring.close = f.ring := Path.close_close (Path.isFinite_ofLocations f)

namespace Assembly

/-- The outer rings as shells, before any hole is made. -/
def bareShells (outer : List Fragment) : List Polygon := outer.map fun f => ⟨f.ring, []⟩

namespace Primitives

/-! ## The holes of a shell -/

variable (P : Primitives)

/-- The rings that the shell numbered `k` is the container of, in their order. -/
def holesOf (shells : List Polygon) (rings : List Path) (k : Nat) : List Path :=
  rings.filter fun ring => P.SmallestAround shells ring k

theorem holesOf_concat (shells : List Polygon) (rings : List Path) (ring : Path) (k : Nat) :
    P.holesOf shells (rings ++ [ring]) k =
      P.holesOf shells rings k ++ if P.container? shells ring = some k then [ring] else [] := by
  unfold holesOf
  rw [List.filter_append]
  by_cases hk : P.container? shells ring = some k
  · simp [hk, container?_eq_some_iff.1 hk]
  · simp [hk, mt container?_eq_some_iff.2 hk]

theorem withHoles_concat_of_none {shells : List Polygon} {rings : List Path} {ring : Path}
    (h : P.container? shells ring = none) : P.withHoles shells (rings ++ [ring]) = P.withHoles shells rings := by
  rw [withHoles, List.foldl_append, List.foldl_cons, List.foldl_nil, h]
  rfl

theorem withHoles_concat_of_some {shells : List Polygon} {rings : List Path} {ring : Path} {i : Nat}
    (h : P.container? shells ring = some i) :
    P.withHoles shells (rings ++ [ring]) = (P.withHoles shells rings).modify i (·.addHole ring) := by
  rw [withHoles, List.foldl_append, List.foldl_cons, List.foldl_nil, h]
  rfl

/-- **Every shell has the rings as holes that it is the container of**, whatever became of the others. -/
theorem getElem?_withHoles (shells : List Polygon) (rings : List Path) (k : Nat) :
    (P.withHoles shells rings)[k]? =
      shells[k]?.map fun p => { p with holes := p.holes ++ (P.holesOf shells rings k).map Path.close } := by
  induction rings using List.reverseRecOn with
  | nil => simp [withHoles, holesOf]
  | append_singleton rings ring ih =>
    rw [holesOf_concat]
    cases hc : P.container? shells ring with
    | none => simpa [P.withHoles_concat_of_none hc] using ih
    | some i =>
      rw [P.withHoles_concat_of_some hc]
      by_cases hi : i = k
      · subst hi
        simp [ih, Polygon.addHole, Function.comp_def]
      · simpa [List.getElem?_modify, hi] using ih

/-- The inner rings that the shell numbered `k` is the container of, closed. -/
def holesWithin (outer inner : List Fragment) (k : Nat) : List Path :=
  (P.holesOf (bareShells outer) (inner.map Path.ofLocations) k).map Path.close

/-- Whether a polygon is what becomes of an outer ring with its number: its shell is that ring, and its holes are the
inner rings that lie in this shell and in none that is smaller, in the order they come in. -/
structure Encloses (outer inner : List Fragment) (s : Fragment × Nat) (p : Polygon) : Prop where
  shell : s.1.ring.Along p.shell
  holes : List.Forall₂ Path.Along (P.holesWithin outer inner s.2) p.holes

theorem multiPolygon_eq_map (outer inner : List Fragment) :
    P.multiPolygon outer inner =
      outer.zipIdx.map fun s => P.correct ⟨s.1.ring, P.holesWithin outer inner s.2⟩ := by
  have hpolygons : P.multiPolygon outer inner =
      (P.withHoles (bareShells outer) (inner.map Path.ofLocations)).map P.correct := rfl
  refine List.ext_getElem? fun k => ?_
  have hshell : (bareShells outer)[k]? = outer[k]?.map fun f => Polygon.mk f.ring [] := List.getElem?_map ..
  rw [hpolygons, List.getElem?_map, getElem?_withHoles, hshell, List.getElem?_map, List.getElem?_zipIdx]
  cases outer[k]? with
  | none => rfl
  | some f => simp [holesWithin]

variable {P}

theorem close_of_mem_holesWithin {outer inner : List Fragment} {k : Nat} {hole : Path}
    (h : hole ∈ P.holesWithin outer inner k) : hole.close = hole := by
  obtain ⟨path, hpath, rfl⟩ := List.mem_map.1 h
  obtain ⟨g, -, rfl⟩ := List.mem_map.1 (List.mem_of_mem_filter hpath)
  exact Fragment.close_ring g

theorem encloses_correct (outer inner : List Fragment) (s : Fragment × Nat) :
    P.Encloses outer inner s (P.correct ⟨s.1.ring, P.holesWithin outer inner s.2⟩) := by
  have hholes : (P.holesWithin outer inner s.2).map Path.close = P.holesWithin outer inner s.2 :=
    (List.map_congr_left fun hole hhole => close_of_mem_holesWithin hhole).trans (List.map_id _)
  rw [correct, Polygon.ofRings, s.1.close_ring, hholes]
  have halong := P.along_orient ⟨s.1.ring, P.holesWithin outer inner s.2⟩
  exact ⟨halong.shell, halong.forall₂⟩

end Primitives

open Primitives

/-- **Holes go to the smallest shell around them, and nothing else changes**: there is one polygon for each outer ring,
and each inner ring is a hole of one of them, unless no outer ring is around it.  This holds of any boxes, tests and
areas, as long as rings are turned round at most; the program's own are `Primitives.exact`. -/
theorem holes_in_smallest_shell (P : Primitives) (outer inner : List Fragment) :
    List.Forall₂ (P.Encloses outer inner) outer.zipIdx (P.multiPolygon outer inner) ∧
      ∀ g : Fragment, (∃! k, P.SmallestAround (bareShells outer) (Path.ofLocations g) k) ↔
        ∃ p ∈ bareShells outer, P.within (Path.ofLocations g) p = true := by
  constructor
  · rw [multiPolygon_eq_map, List.forall₂_map_right_iff, List.forall₂_same]
    exact fun s _ => encloses_correct outer inner s
  · intro g
    constructor
    · rintro ⟨k, ⟨p, hp, hring, -⟩, -⟩
      exact ⟨p, List.mem_of_getElem? hp, hring⟩
    · rintro ⟨p, hp, hring⟩
      cases hc : P.container? (bareShells outer) (Path.ofLocations g) with
      | some k => exact ⟨k, container?_eq_some_iff.1 hc, fun j hj => hj.unique (container?_eq_some_iff.1 hc)⟩
      | none =>
        rw [container?_eq_none_iff.1 hc p hp] at hring
        cases hring

end Assembly
end MapFeatures
