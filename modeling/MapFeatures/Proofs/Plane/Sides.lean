import Mathlib.Data.Finset.Card
import Mathlib.Data.Int.Basic
import MapFeatures.Plane.Ring
/-!
# Sides — the segments of a ring that have a length

Left out segments start where they end, so the sides of a closed ring lead from each to the next and back
(`finish_getElem_sides`).  A side is a pair of neighbouring points of the ring (`mem_sides_iff`); read backwards a ring
has the same ones turned round (`mem_sides_reverse`).  The nearest other point behind a place of a closed ring, on
around its end, is where the side from there leads (`next_mem_sides`), so there are at least as many sides as points
(`card_toFinset_le_sides`).
-/
namespace MapFeatures
namespace Plane

/-- The segments of a ring that have a length, in order. -/
def sides (ring : List Point) : List Segment := (segments ring).filter fun s => !s.isPoint

theorem edges_eq (ring : List Point) : edges ring = (List.range (sides ring).length).zip (sides ring) := rfl

theorem segments_cons (p q : Point) (ring : List Point) : segments (p :: q :: ring) = ⟨p, q⟩ :: segments (q :: ring) :=
  rfl

/-! ## Around the ring -/

/-- Segments that lead from one point to another, each from where the one before it ends. -/
inductive Leads : Point → List Segment → Point → Prop
  | stay (p : Point) : Leads p [] p
  | go (p : Point) {q r : Point} {rest : List Segment} (h : Leads q rest r) : Leads p (⟨p, q⟩ :: rest) r

theorem leads_segments : ∀ (p : Point) (ring : List Point), ∃ q, (p :: ring).getLast? = some q ∧
    Leads p (segments (p :: ring)) q
  | p, [] => ⟨p, rfl, .stay p⟩
  | p, q :: ring => by
    obtain ⟨r, hlast, hleads⟩ := leads_segments q ring
    exact ⟨r, by rw [List.getLast?_cons_cons, hlast], .go p hleads⟩

variable {p q : Point} {l : List Segment}

/-- What starts where it ends can be left out. -/
theorem Leads.filter (h : Leads p l q) : Leads p (l.filter fun s => !s.isPoint) q := by
  induction h with
  | stay p => exact .stay p
  | @go p q r rest h ih =>
    by_cases hends : p = q
    · rw [List.filter_cons_of_neg (by simp [Segment.isPoint, hends]), hends]
      exact ih
    · rw [List.filter_cons_of_pos (by simp [Segment.isPoint, hends])]
      exact .go p ih

theorem Leads.start_getElem (h : Leads p l q) (hl : 0 < l.length) : l[0].start = p := by
  cases h with
  | stay => exact absurd hl (Nat.lt_irrefl 0)
  | go => rfl

/-- **Each segment ends where the next one starts**, and the last one at the end. -/
theorem Leads.finish_getElem (h : Leads p l q) :
    ∀ (i : Nat) (hi : i < l.length), l[i].finish = if hnext : i + 1 < l.length then l[i + 1].start else q := by
  induction h with
  | stay p => exact fun i hi => absurd hi (Nat.not_lt_zero i)
  | go p hrest ih =>
    intro i hi
    cases i with
    | zero =>
      cases hrest with
      | stay => rfl
      | go => rfl
    | succ i =>
      rw [List.getElem_cons_succ, ih i (Nat.lt_of_succ_lt_succ hi)]
      simp

theorem leads_around {ring : List Point} (h : isClosed ring = true) : ∃ p, Leads p (segments ring) p := by
  cases ring with
  | nil => exact ⟨default, .stay _⟩
  | cons p ring =>
    have hends : (p :: ring).head? = (p :: ring).getLast? := of_decide_eq_true h
    obtain ⟨q, hlast, hleads⟩ := leads_segments p ring
    rw [List.head?_cons, hlast, Option.some.injEq] at hends
    subst hends
    exact ⟨p, hleads⟩

theorem leads_sides {ring : List Point} (h : isClosed ring = true) : ∃ p, Leads p (sides ring) p := by
  obtain ⟨p, hleads⟩ := leads_around h
  exact ⟨p, hleads.filter⟩

/-- **Each side of a closed ring ends where the next one starts**, the last one where the first does. -/
theorem finish_getElem_sides {ring : List Point} (h : isClosed ring = true) {i j : Nat} (hi : i < (sides ring).length)
    (hj : j < (sides ring).length) (hnext : (i + 1) % (sides ring).length = j) :
    (sides ring)[i].finish = (sides ring)[j].start := by
  obtain ⟨p, hleads⟩ := leads_sides h
  rw [hleads.finish_getElem i hi]
  subst hnext
  split
  · next hlt => simp only [Nat.mod_eq_of_lt hlt]
  · next hlast =>
    have hlength : i + 1 = (sides ring).length := Nat.le_antisymm hi (Nat.not_lt.1 hlast)
    have hzero : (i + 1) % (sides ring).length = 0 := by rw [hlength, Nat.mod_self]
    simp only [hzero]
    exact (hleads.start_getElem (Nat.zero_lt_of_lt hi)).symm

/-! ## Neighbouring points -/

theorem mem_segments_iff : ∀ {ring : List Point}, ⟨p, q⟩ ∈ segments ring ↔ [p, q] <:+: ring
  | [] => by simp [segments]
  | [r] => by
    refine iff_of_false (by simp [segments]) fun h => ?_
    have hlength := h.length_le
    simp at hlength
  | r :: s :: ring => by
    have hpair : [p, q] <:+: r :: s :: ring ↔ [p, q] <+: r :: s :: ring ∨ [p, q] <:+: s :: ring := List.infix_cons_iff
    rw [segments_cons, List.mem_cons, mem_segments_iff, hpair, Segment.mk.injEq]
    refine or_congr_left ?_
    simp [List.cons_prefix_cons]

theorem mem_sides_iff {ring : List Point} : ⟨p, q⟩ ∈ sides ring ↔ [p, q] <:+: ring ∧ p ≠ q := by
  simp [sides, mem_segments_iff, Segment.isPoint]

/-- **Read backwards a ring has its sides turned round.** -/
theorem mem_sides_reverse {ring : List Point} : ⟨p, q⟩ ∈ sides ring.reverse ↔ ⟨q, p⟩ ∈ sides ring := by
  have hpair : [p, q] = [q, p].reverse := rfl
  rw [mem_sides_iff, mem_sides_iff, hpair, List.reverse_infix, ne_comm]

theorem isClosed_reverse (ring : List Point) : isClosed ring.reverse = isClosed ring := by
  unfold isClosed
  rw [List.head?_reverse, List.getLast?_reverse]
  exact decide_eq_decide.2 eq_comm

variable {before after : List Point}

/-- Behind some repetitions of a point the last of them is next to what follows. -/
theorem infix_cons_replicate (p q : Point) (n : Nat) (rest : List Point) :
    [p, q] <:+: p :: (List.replicate n p ++ q :: rest) := by
  refine ⟨List.replicate n p, rest, ?_⟩
  have hrepeat : p :: List.replicate n p = List.replicate n p ++ [p] := by
    rw [← List.replicate_succ, List.replicate_succ']
  rw [← List.cons_append, hrepeat]
  simp

/-- **The nearest other point is where the side leads**: looked for behind the place, and then from the start of the
ring. -/
theorem next_mem_sides (h : isClosed (before ++ p :: after) = true) (hnext : (after ++ before).find? (· ≠ p) = some q) :
    ⟨p, q⟩ ∈ sides (before ++ p :: after) := by
  have hne : q ≠ p := by simpa using List.find?_some hnext
  rw [mem_sides_iff]
  refine ⟨?_, hne.symm⟩
  rw [List.find?_append, Option.or_eq_some_iff] at hnext
  rcases hnext with hbehind | ⟨hnone, hfront⟩
  · obtain ⟨-, same, rest, rfl, hsame⟩ := List.find?_eq_some_iff_append.1 hbehind
    obtain ⟨n, rfl⟩ : ∃ n, same = List.replicate n p := ⟨_, List.eq_replicate_of_mem (by simpa using hsame)⟩
    exact (infix_cons_replicate p q n rest).trans (List.suffix_append before _).isInfix
  · -- behind the place there is nothing but `p`, so the ring starts with `p` too
    obtain ⟨-, same, rest, rfl, hsame⟩ := List.find?_eq_some_iff_append.1 hfront
    obtain ⟨n, rfl⟩ : ∃ n, same = List.replicate n p := ⟨_, List.eq_replicate_of_mem (by simpa using hsame)⟩
    obtain ⟨m, rfl⟩ : ∃ m, after = List.replicate m p := ⟨_, List.eq_replicate_of_mem (by simpa using hnone)⟩
    have hends := of_decide_eq_true h
    rw [← List.replicate_succ, List.getLast?_append, List.getLast?_replicate] at hends
    cases n with
    | zero => exact absurd (by simpa using hends) hne
    | succ n =>
      rw [List.replicate_succ, List.cons_append]
      exact (infix_cons_replicate p q n rest).trans (List.prefix_append _ _).isInfix

/-- **So is the nearest other point before the place**, for the side that leads there. -/
theorem previous_mem_sides (h : isClosed (before ++ p :: after) = true)
    (hprevious : (after ++ before).reverse.find? (· ≠ p) = some q) : ⟨q, p⟩ ∈ sides (before ++ p :: after) := by
  have hbackwards : (before ++ p :: after).reverse = after.reverse ++ p :: before.reverse := by simp
  rw [← mem_sides_reverse, hbackwards]
  refine next_mem_sides ?_ ?_
  · rwa [← hbackwards, isClosed_reverse]
  · rwa [← List.reverse_append]

/-- Some side leads to each point, if there are several. -/
theorem exists_side_to {ring : List Point} (h : isClosed ring = true) (hseveral : 1 < ring.toFinset.card) (hp : p ∈ ring) :
    ∃ q, ⟨q, p⟩ ∈ sides ring := by
  obtain ⟨q, hq, hne⟩ := Finset.exists_mem_ne hseveral p
  obtain ⟨before, after, rfl⟩ := List.append_of_mem hp
  have hother : q ∈ (after ++ before).reverse := by
    rw [List.mem_toFinset, List.mem_append, List.mem_cons] at hq
    rw [List.mem_reverse, List.mem_append]
    exact hq.elim Or.inr fun hbehind => Or.inl (hbehind.resolve_left hne)
  cases hprevious : (after ++ before).reverse.find? (· ≠ p) with
  | none => exact absurd (decide_eq_true hne) (List.find?_eq_none.1 hprevious q hother)
  | some r => exact ⟨r, previous_mem_sides h hprevious⟩

/-- **A ring of several points has at least as many sides.** -/
theorem card_toFinset_le_sides {ring : List Point} (h : isClosed ring = true) (hseveral : 1 < ring.toFinset.card) :
    ring.toFinset.card ≤ (sides ring).length := by
  have hside : ∀ p ∈ ring, p ∈ (sides ring).map Segment.finish := by
    intro p hp
    obtain ⟨q, hq⟩ := exists_side_to h hseveral hp
    exact List.mem_map.2 ⟨⟨q, p⟩, hq, rfl⟩
  calc ring.toFinset.card ≤ ((sides ring).map Segment.finish).toFinset.card :=
        Finset.card_le_card fun p hp => List.mem_toFinset.2 (hside p (List.mem_toFinset.1 hp))
    _ ≤ ((sides ring).map Segment.finish).length := List.toFinset_card_le _
    _ = (sides ring).length := List.length_map _

end Plane
end MapFeatures
