import Mathlib.Algebra.Group.Nat.Even
import Mathlib.Data.List.Chain
import Mathlib.Data.Sym.Sym2
import MapFeatures.Ring.Merge
/-!
# Stitch — runs joined end to start

Runs that share their junctions are stitched to one run that keeps each junction once (`stitch`).  The whole has the
segments of its parts (`segments_stitch`), and its ends are theirs without the junctions, each of which two parts share
(`ends_stitch`).  Turned round it is the stitching of the parts turned round in the opposite order (`reverse_stitch`).
-/
namespace MapFeatures
namespace Fragment

/-- The runs one after the other; of each but the first, the first location is left out. -/
def stitch : List Fragment → Fragment
  | [] => []
  | f :: rest => f ++ rest.flatMap List.tail

/-- Each run has a location and starts where the one before it ends. -/
structure Joined (runs : List Fragment) : Prop where
  ne_nil : ∀ f ∈ runs, f ≠ []
  meets : runs.IsChain fun a b => a.getLast? = b.head?

/-- The first and the last location of a fragment; a single location is both. -/
def ends (f : Fragment) : List Location := f.head?.toList ++ f.getLast?.toList

/-- The lines between neighbouring locations, in either direction. -/
def segments : Fragment → List (Sym2 Location)
  | a :: b :: rest => s(a, b) :: segments (b :: rest)
  | _ => []

/-! ## Ends of one fragment -/

theorem ends_of_ne_nil {f : Fragment} (h : f ≠ []) : ends f = [f.head h, f.getLast h] := by
  rw [ends, List.head?_eq_some_head h, List.getLast?_eq_some_getLast h]; rfl

theorem ends_reverse_perm (f : Fragment) : (ends f.reverse).Perm (ends f) := by
  rw [ends, ends, List.head?_reverse, List.getLast?_reverse]
  exact List.perm_append_comm

theorem touches_iff_mem_ends (p : Location) (f : Fragment) : touches p f = true ↔ p ∈ ends f := by
  simp only [touches, ends, Bool.or_eq_true, decide_eq_true_eq, List.mem_append, Option.mem_toList]

theorem mem_ends_iff {p : Location} {f : Fragment} : p ∈ ends f ↔ f.head? = some p ∨ f.getLast? = some p := by
  rw [ends, List.mem_append, Option.mem_toList, Option.mem_toList]

theorem isClosed_iff (f : Fragment) : isClosed f = true ↔ 1 < f.length ∧ f.head? = f.getLast? := by
  simp only [isClosed, Bool.and_eq_true, decide_eq_true_eq]

theorem even_count_ends {f : Fragment} (h : f.head? = f.getLast?) (p : Location) : Even ((ends f).count p) := by
  rw [ends, h, List.count_append]
  exact ⟨_, rfl⟩

theorem head?_eq_getLast?_of_length_le {f : Fragment} (h : f.length ≤ 1) : f.head? = f.getLast? := by
  cases f with
  | nil => rfl
  | cons a rest =>
    have : rest = [] := List.length_eq_zero_iff.1 (by rw [List.length_cons] at h; omega)
    rw [this]; rfl

/-! ## Segments of one fragment -/

theorem segments_cons_cons (a b : Location) (f : Fragment) :
    segments (a :: b :: f) = s(a, b) :: segments (b :: f) := rfl

theorem segments_append (f : Fragment) (x : Location) (g : Fragment) :
    segments (f ++ x :: g) = segments (f ++ [x]) ++ segments (x :: g) := by
  induction f with
  | nil => rfl
  | cons a f ih =>
    cases f with
    | nil => rfl
    | cons b f =>
      simp only [List.cons_append, segments] at ih ⊢
      rw [ih]

theorem segments_reverse (f : Fragment) : segments f.reverse = (segments f).reverse := by
  induction f with
  | nil => rfl
  | cons a f ih =>
    cases f with
    | nil => rfl
    | cons b f =>
      rw [List.reverse_cons, List.reverse_cons, List.append_assoc, List.singleton_append, segments_append,
        ← List.reverse_cons, ih, segments_cons_cons a, List.reverse_cons, Sym2.eq_swap]
      rfl

theorem segments_of_length_le {f : Fragment} (h : f.length ≤ 1) : segments f = [] := by
  match f, h with
  | [], _ => rfl
  | [_], _ => rfl

/-! ## Joined runs -/

theorem Joined.of_cons {f : Fragment} {runs : List Fragment} (h : Joined (f :: runs)) : Joined runs :=
  ⟨fun g hg => h.ne_nil g (List.mem_cons_of_mem f hg), h.meets.tail⟩

theorem Joined.singleton {f : Fragment} (h : f ≠ []) : Joined [f] :=
  ⟨fun _ hg => List.mem_singleton.1 hg ▸ h, List.isChain_singleton f⟩

theorem Joined.cons {f : Fragment} {runs : List Fragment} (h : Joined runs) (hf : f ≠ [])
    (hm : ∀ g ∈ runs.head?, f.getLast? = g.head?) : Joined (f :: runs) := by
  refine ⟨fun g hg => ?_, List.isChain_cons.2 ⟨hm, h.meets⟩⟩
  rcases List.mem_cons.1 hg with rfl | hg
  · exact hf
  · exact h.ne_nil g hg

theorem Joined.concat {f : Fragment} {runs : List Fragment} (h : Joined runs) (hf : f ≠ [])
    (hm : ∀ g ∈ runs.getLast?, g.getLast? = f.head?) : Joined (runs ++ [f]) := by
  refine ⟨fun g hg => ?_, h.meets.append (List.isChain_singleton f) fun g hg x hx => ?_⟩
  · rcases List.mem_append.1 hg with hg | hg
    · exact h.ne_nil g hg
    · exact List.mem_singleton.1 hg ▸ hf
  · rw [List.head?_cons, Option.mem_some_iff] at hx
    exact hx ▸ hm g hg

theorem Joined.junction {f g : Fragment} {runs : List Fragment} (h : Joined (f :: g :: runs)) :
    ∃ f' x g', f = f' ++ [x] ∧ g = x :: g' := by
  have hf := h.ne_nil f List.mem_cons_self
  have hg := h.ne_nil g (List.mem_cons_of_mem f List.mem_cons_self)
  have hm : f.getLast? = g.head? := (List.isChain_cons_cons.1 h.meets).1
  obtain ⟨x, g', rfl⟩ := List.exists_cons_of_ne_nil hg
  refine ⟨f.dropLast, x, g', ?_, rfl⟩
  rw [List.getLast?_eq_some_getLast hf, List.head?_cons, Option.some.injEq] at hm
  rw [← hm, List.dropLast_append_getLast hf]

theorem Joined.pair {a b : Fragment} {p : Location} (ha : a.getLast? = some p) (hb : b.head? = some p) :
    Joined [a, b] := by
  have hane : a ≠ [] := fun h => by rw [h] at ha; cases ha
  have hbne : b ≠ [] := fun h => by rw [h] at hb; cases hb
  refine (Joined.singleton hbne).cons hane fun g hg => ?_
  rw [List.head?_cons, Option.mem_some_iff] at hg
  rw [ha, ← hg, hb]

theorem Joined.shared {a b : Fragment} (h : Joined [a, b]) : ∃ p, a.getLast? = some p ∧ b.head? = some p := by
  obtain ⟨a', p, b', rfl, rfl⟩ := h.junction
  exact ⟨p, List.getLast?_concat, rfl⟩

theorem Joined.turned {runs : List Fragment} (h : Joined runs) : Joined (runs.reverse.map List.reverse) := by
  refine ⟨fun f hf => ?_, ?_⟩
  · obtain ⟨g, hg, rfl⟩ := List.mem_map.1 hf
    rw [Ne, List.reverse_eq_nil_iff]
    exact h.ne_nil g (List.mem_reverse.1 hg)
  · rw [List.isChain_map, List.isChain_reverse]
    refine h.meets.imp fun a b hab => ?_
    rw [List.getLast?_reverse, List.head?_reverse]
    exact hab.symm

theorem stitch_singleton (f : Fragment) : stitch [f] = f := List.append_nil f

theorem stitch_pair (a b : Fragment) : stitch [a, b] = a ++ b.tail := by
  rw [stitch, List.flatMap_singleton]

theorem stitch_cons {f : Fragment} {runs : List Fragment} (hne : runs ≠ []) (h : ∀ g ∈ runs, g ≠ []) :
    stitch (f :: runs) = f ++ (stitch runs).tail := by
  obtain ⟨g, rest, rfl⟩ := List.exists_cons_of_ne_nil hne
  rw [stitch, stitch, List.flatMap_cons, List.tail_append_of_ne_nil (h g List.mem_cons_self)]

theorem stitch_concat {runs : List Fragment} (hne : runs ≠ []) (f : Fragment) :
    stitch (runs ++ [f]) = stitch runs ++ f.tail := by
  obtain ⟨g, rest, rfl⟩ := List.exists_cons_of_ne_nil hne
  rw [List.cons_append, stitch, stitch, List.flatMap_append, List.flatMap_singleton, List.append_assoc]

theorem stitch_cons_dropLast {f g : Fragment} {runs : List Fragment} (h : Joined (f :: g :: runs)) :
    stitch (f :: g :: runs) = f.dropLast ++ stitch (g :: runs) := by
  obtain ⟨f', x, g', rfl, rfl⟩ := h.junction
  rw [stitch, stitch, List.flatMap_cons, List.dropLast_concat, List.tail_cons, List.append_assoc]
  rfl

theorem stitch_ne_nil {runs : List Fragment} (hne : runs ≠ []) (h : Joined runs) : stitch runs ≠ [] := by
  obtain ⟨f, rest, rfl⟩ := List.exists_cons_of_ne_nil hne
  rw [stitch]
  exact List.append_ne_nil_of_left_ne_nil (h.ne_nil f List.mem_cons_self) _

theorem head?_stitch {f : Fragment} {runs : List Fragment} (h : Joined (f :: runs)) :
    (stitch (f :: runs)).head? = f.head? :=
  List.head?_append_of_ne_nil f (h.ne_nil f List.mem_cons_self)

theorem getLast?_stitch : ∀ {runs : List Fragment}, Joined runs →
    (stitch runs).getLast? = runs.getLast?.bind List.getLast?
  | [], _ => rfl
  | [f], _ => by rw [stitch_singleton]; rfl
  | f :: g :: runs, h => by
    rw [stitch_cons_dropLast h, List.getLast?_append_of_ne_nil _ (stitch_ne_nil (List.cons_ne_nil g runs) h.of_cons),
      getLast?_stitch h.of_cons, List.getLast?_cons_cons]

theorem dropLast_stitch : ∀ {runs : List Fragment}, Joined runs →
    (stitch runs).dropLast = runs.flatMap List.dropLast
  | [], _ => rfl
  | [f], _ => by rw [stitch_singleton, List.flatMap_singleton]
  | f :: g :: runs, h => by
    rw [stitch_cons_dropLast h, List.dropLast_append_of_ne_nil (stitch_ne_nil (List.cons_ne_nil g runs) h.of_cons),
      dropLast_stitch h.of_cons, ← List.flatMap_cons]

/-- **A stitching turned round** is that of its parts turned round, in the opposite order. -/
theorem reverse_stitch : ∀ {runs : List Fragment}, Joined runs →
    (stitch runs).reverse = stitch (runs.reverse.map List.reverse)
  | [], _ => rfl
  | [f], _ => by rw [stitch_singleton]; exact (stitch_singleton f.reverse).symm
  | f :: g :: runs, h => by
    have hne : (g :: runs).reverse.map List.reverse ≠ [] := by simp
    rw [stitch_cons_dropLast h, List.reverse_append, reverse_stitch h.of_cons, List.reverse_cons (a := f), List.map_append,
      List.map_singleton, stitch_concat hne, List.tail_reverse]

/-- **A stitching has the segments of its parts.** -/
theorem segments_stitch : ∀ {runs : List Fragment}, Joined runs → segments (stitch runs) = runs.flatMap segments
  | [], _ => rfl
  | [f], _ => by rw [stitch_singleton, List.flatMap_singleton]
  | f :: g :: runs, h => by
    have ih := segments_stitch h.of_cons
    rw [stitch_cons_dropLast h, List.flatMap_cons, ← ih]
    obtain ⟨f', x, g', rfl, rfl⟩ := h.junction
    rw [stitch, List.cons_append, List.dropLast_concat, segments_append]

/-- **The ends of joined runs are those of their stitching and each junction twice.** -/
theorem ends_stitch : ∀ {runs : List Fragment}, Joined runs →
    ∃ junctions : List Location, (runs.flatMap ends).Perm (ends (stitch runs) ++ (junctions ++ junctions))
  | [], _ => ⟨[], .refl _⟩
  | [f], _ => ⟨[], by rw [stitch_singleton, List.flatMap_singleton, List.append_nil, List.append_nil]⟩
  | f :: g :: runs, h => by
    obtain ⟨junctions, hj⟩ := ends_stitch h.of_cons
    have hhead := head?_stitch h
    have hlast := getLast?_stitch h
    have hhead' := head?_stitch h.of_cons
    have hlast' := getLast?_stitch h.of_cons
    obtain ⟨f', x, g', rfl, rfl⟩ := h.junction
    refine ⟨x :: junctions, List.perm_iff_count.2 fun p => ?_⟩
    have hc := hj.count_eq p
    rw [List.getLast?_cons_cons] at hlast
    rw [ends, hhead', hlast'] at hc
    rw [List.flatMap_cons, ends, ends, hhead, hlast, List.getLast?_concat]
    simp only [List.count_append, List.count_cons, Option.toList_some, List.count_nil, List.head?_cons] at hc ⊢
    omega

end Fragment
end MapFeatures
