import Mathlib.Algebra.BigOperators.Group.Multiset.Basic
import Mathlib.Algebra.Order.Group.Multiset
import Mathlib.Data.List.Rotate
import MapFeatures.Proofs.Ring.OpenChains
/-!
# AnyOrder — the rings do not depend on the order and the direction of the fragments

Where just two fragments end at every location, a chain has no choice: the next member is the only other fragment that
ends there.  Two loops of such fragments that share a member are one loop, begun elsewhere or run through backwards
(`loop_unique`), so two inputs of the same fragments have the same loops (`match_loops`) and the same rings
(`mergeRings_any_order`).
-/
namespace MapFeatures
namespace Fragment

/-! ## Fragments without their directions -/

/-- A fragment without its direction. -/
def undirected (f : Fragment) : Sym2 Fragment := s(f, f.reverse)

/-- Fragments without their order and their directions. -/
def ways (fs : List Fragment) : Multiset (Sym2 Fragment) := (fs.map undirected : List (Sym2 Fragment))

/-- How often a fragment ends at a location. -/
def weight (p : Location) : Sym2 Fragment → Nat :=
  Sym2.lift ⟨fun f g => f.head?.toList.count p + g.head?.toList.count p, fun _ _ => Nat.add_comm _ _⟩

/-- How often some fragments end at a location. -/
def degree (p : Location) (m : Multiset (Sym2 Fragment)) : Nat := (m.map (weight p)).sum

theorem undirected_eq_iff {f g : Fragment} : undirected f = undirected g ↔ f = g ∨ f = g.reverse := by
  rw [undirected, undirected, Sym2.eq_iff]
  constructor
  · rintro (⟨h, -⟩ | ⟨h, -⟩)
    · exact Or.inl h
    · exact Or.inr h
  · rintro (rfl | rfl)
    · exact Or.inl ⟨rfl, rfl⟩
    · exact Or.inr ⟨rfl, List.reverse_reverse g⟩

theorem undirected_reverse (f : Fragment) : undirected f.reverse = undirected f := undirected_eq_iff.2 (Or.inr rfl)

theorem weight_undirected (p : Location) (f : Fragment) : weight p (undirected f) = (ends f).count p := by
  rw [ends, List.count_append, ← List.head?_reverse]; rfl

theorem ways_append (fs gs : List Fragment) : ways (fs ++ gs) = ways fs + ways gs := by
  rw [ways, ways, ways, List.map_append, Multiset.coe_add]

theorem ways_cons (f : Fragment) (fs : List Fragment) : ways (f :: fs) = undirected f ::ₘ ways fs := rfl

theorem ways_eq_of_perm {fs gs : List Fragment} (h : fs.Perm gs) : ways fs = ways gs :=
  Multiset.coe_eq_coe.2 (h.map undirected)

theorem degree_add (p : Location) (m n : Multiset (Sym2 Fragment)) : degree p (m + n) = degree p m + degree p n := by
  rw [degree, degree, degree, Multiset.map_add, Multiset.sum_add]

theorem degree_cons (p : Location) (x : Sym2 Fragment) (m : Multiset (Sym2 Fragment)) :
    degree p (x ::ₘ m) = weight p x + degree p m := by
  rw [degree, degree, Multiset.map_cons, Multiset.sum_cons]

theorem degree_le (p : Location) {m n : Multiset (Sym2 Fragment)} (h : m ≤ n) : degree p m ≤ degree p n := by
  obtain ⟨k, rfl⟩ := Multiset.le_iff_exists_add.1 h
  rw [degree_add]
  exact Nat.le_add_right _ _

theorem degree_ways (p : Location) (fs : List Fragment) : degree p (ways fs) = (fs.flatMap ends).count p := by
  induction fs with
  | nil => rfl
  | cons f fs ih => rw [ways_cons, degree_cons, weight_undirected, ih, List.flatMap_cons, List.count_append]

/-! ## Loops -/

/-- Joined runs of which the last ends where the first starts. -/
structure Loop (runs : List Fragment) : Prop extends Joined runs where
  closes : ∀ f ∈ runs.getLast?, ∀ g ∈ runs.head?, f.getLast? = g.head?

theorem Loop.of_stitch {runs : List Fragment} (h : Joined runs) (hends : (stitch runs).head? = (stitch runs).getLast?) :
    Loop runs := by
  refine ⟨h, fun f hf g hg => ?_⟩
  rw [getLast?_stitch h, Option.mem_def.1 hf] at hends
  cases runs with
  | nil => cases hf
  | cons f' runs =>
    rw [head?_stitch h] at hends
    rw [List.head?_cons, Option.mem_some_iff] at hg
    rw [← hg]
    exact hends.symm

theorem Loop.head?_eq {runs : List Fragment} (h : Loop runs) : (stitch runs).head? = (stitch runs).getLast? := by
  cases runs with
  | nil => rfl
  | cons f runs =>
    rw [head?_stitch h.toJoined, getLast?_stitch h.toJoined, List.getLast?_eq_some_getLast (List.cons_ne_nil f runs)]
    exact (h.closes _ (List.getLast?_eq_some_getLast (List.cons_ne_nil f runs)) f rfl).symm

theorem Loop.rotate {a b : List Fragment} (h : Loop (a ++ b)) : Loop (b ++ a) := by
  obtain ⟨⟨hne, hmeets⟩, hcloses⟩ := h
  obtain ⟨ha, hb, hab⟩ := List.isChain_append.1 hmeets
  refine ⟨⟨fun f hf => hne f (List.mem_append.2 (List.mem_append.1 hf).symm), ?_⟩, fun f hf g hg => ?_⟩
  · refine hb.append ha fun x hx y hy => hcloses x ?_ y ?_
    · rw [List.getLast?_append, Option.mem_def.1 hx]; rfl
    · rw [List.head?_append, Option.mem_def.1 hy]; rfl
  · cases ha' : a.getLast? with
    | none =>
      obtain rfl := List.getLast?_eq_none_iff.1 ha'
      rw [List.append_nil] at hf hg
      exact hcloses f hf g hg
    | some x =>
      cases hb' : b.head? with
      | none =>
        obtain rfl := List.head?_eq_none_iff.1 hb'
        rw [List.nil_append] at hf hg
        exact hcloses f (by rwa [List.append_nil]) g (by rwa [List.append_nil])
      | some y =>
        rw [List.getLast?_append, ha', Option.some_or, Option.mem_some_iff] at hf
        rw [List.head?_append, hb', Option.some_or, Option.mem_some_iff] at hg
        exact hf ▸ hg ▸ hab x ha' y hb'

theorem Loop.turned {runs : List Fragment} (h : Loop runs) : Loop (runs.reverse.map List.reverse) := by
  refine Loop.of_stitch h.toJoined.turned ?_
  rw [← reverse_stitch h.toJoined, List.head?_reverse, List.getLast?_reverse]
  exact h.head?_eq.symm

theorem ways_turned (runs : List Fragment) : ways (runs.reverse.map List.reverse) = ways runs := by
  rw [ways, List.map_map, show undirected ∘ List.reverse = undirected from funext undirected_reverse]
  exact Multiset.coe_eq_coe.2 ((List.reverse_perm runs).map undirected)

/-! ## A loop has no choice -/

theorem count_ends_stitch_le {runs : List Fragment} (h : Joined runs) (p : Location) :
    (ends (stitch runs)).count p ≤ degree p (ways runs) := by
  obtain ⟨junctions, hj⟩ := ends_stitch h
  rw [degree_ways, hj.count_eq p, List.count_append]
  exact Nat.le_add_right _ _

theorem Joined.next {runs rest : List Fragment} {f : Fragment} (hne : runs ≠ []) (h : Joined (runs ++ f :: rest)) :
    Joined runs ∧ ∃ p, (stitch runs).getLast? = some p ∧ f.head? = some p := by
  have hj : Joined runs := ⟨fun g hg => h.ne_nil g (List.mem_append_left _ hg), h.meets.left_of_append⟩
  obtain ⟨a, rest', rfl⟩ := List.exists_cons_of_ne_nil (h.ne_nil f (List.mem_append_right _ List.mem_cons_self))
  have hlast := List.getLast?_eq_some_getLast hne
  refine ⟨hj, a, ?_, rfl⟩
  rw [getLast?_stitch hj, hlast]
  exact (List.isChain_append.1 h.meets).2.2 _ hlast _ rfl

theorem count_ends_of_getLast? {f : Fragment} {p : Location} (h : f.getLast? = some p) : 1 ≤ (ends f).count p := by
  rw [ends, h, List.count_append, Option.toList_some, List.count_singleton_self]
  exact Nat.le_add_left _ _

theorem count_ends_of_head? {f : Fragment} {p : Location} (h : f.head? = some p) : 1 ≤ (ends f).count p := by
  rw [ends, h, List.count_append, Option.toList_some, List.count_singleton_self]
  exact Nat.le_add_right _ _

theorem count_ends_of_both {f : Fragment} {p : Location} (h : f.head? = some p) (h' : f.getLast? = some p) :
    (ends f).count p = 2 := by
  rw [ends, h, h', List.count_append, Option.toList_some, List.count_singleton_self]

variable {m : Multiset (Sym2 Fragment)}

/-- **Nothing goes on from a loop** where no more than two fragments end at a location. -/
theorem Loop.not_next (hm : ∀ p, degree p m ≤ 2) {runs rest : List Fragment} {f : Fragment} (hne : runs ≠ [])
    (hloop : Loop runs) (hj : Joined (runs ++ f :: rest)) : ¬ ways (runs ++ f :: rest) ≤ m := by
  intro hle
  obtain ⟨-, p, hlast, hhead⟩ := hj.next hne
  have htwo : (ends (stitch runs)).count p = 2 := count_ends_of_both (hloop.head?_eq.trans hlast) hlast
  have hruns := count_ends_stitch_le hloop.toJoined p
  have hf := count_ends_of_head? hhead
  have hdeg := Nat.le_trans (degree_le p hle) (hm p)
  rw [ways_append, ways_cons, degree_add, degree_cons, weight_undirected] at hdeg
  omega

/-- **There is one way to go on** where no more than two fragments end at a location. -/
theorem next_unique (hm : ∀ p, degree p m ≤ 2) {runs rest rest' : List Fragment} {f f' : Fragment} (hne : runs ≠ [])
    (hj : Joined (runs ++ f :: rest)) (hj' : Joined (runs ++ f' :: rest')) (hle : ways (runs ++ f :: rest) ≤ m)
    (hle' : ways (runs ++ f' :: rest') ≤ m) : f = f' := by
  obtain ⟨hruns, p, hlast, hhead⟩ := hj.next hne
  obtain ⟨-, p', hlast', hhead'⟩ := hj'.next hne
  obtain rfl : p = p' := Option.some.inj (hlast.symm.trans hlast')
  have hone : 1 ≤ degree p (ways runs) := Nat.le_trans (count_ends_of_getLast? hlast) (count_ends_stitch_le hruns p)
  have hdeg := Nat.le_trans (degree_le p hle) (hm p)
  rw [ways_append, ways_cons, degree_add, degree_cons, weight_undirected] at hdeg
  by_cases hsame : undirected f = undirected f'
  · rcases undirected_eq_iff.1 hsame with heq | heq
    · exact heq
    · -- the same fragment the other way round would end twice at `p`
      rw [heq, List.head?_reverse] at hhead
      have htwo := count_ends_of_both hhead' hhead
      rw [heq, (ends_reverse_perm f').count_eq] at hdeg
      omega
  · -- two different fragments and the last of the runs are three ends at `p`
    exfalso
    obtain ⟨k, hk⟩ := Multiset.le_iff_exists_add.1 hle
    rw [hk, ways_append, ways_append, add_assoc, Multiset.add_le_add_iff_left] at hle'
    have hmem : undirected f' ∈ undirected f ::ₘ (ways rest + k) := by
      have := Multiset.mem_of_le hle' (Multiset.mem_cons_self (undirected f') (ways rest'))
      rwa [ways_cons, Multiset.cons_add] at this
    rcases Multiset.mem_cons.1 hmem with h | hmem
    · exact hsame h.symm
    · obtain ⟨k', hk'⟩ := Multiset.exists_cons_of_mem hmem
      have hm' := hm p
      rw [hk, ways_append, ways_cons, add_assoc, Multiset.cons_add, hk', degree_add, degree_cons, degree_cons,
        weight_undirected, weight_undirected] at hm'
      have hf := count_ends_of_head? hhead
      have hf' := count_ends_of_head? hhead'
      omega

theorem loop_unique (hm : ∀ p, degree p m ≤ 2) : ∀ {runs : List Fragment} (rest rest' : List Fragment), runs ≠ [] →
    Loop (runs ++ rest) → Loop (runs ++ rest') → ways (runs ++ rest) ≤ m → ways (runs ++ rest') ≤ m → rest = rest'
  | _, [], [], _, _, _, _, _ => rfl
  | runs, [], f' :: rest', hne, h, h', _, hle' => by
    rw [List.append_nil] at h
    exact absurd hle' (h.not_next hm hne h'.toJoined)
  | runs, f :: rest, [], hne, h, h', hle, _ => by
    rw [List.append_nil] at h'
    exact absurd hle (h'.not_next hm hne h.toJoined)
  | runs, f :: rest, f' :: rest', hne, h, h', hle, hle' => by
    obtain rfl := next_unique hm hne h.toJoined h'.toJoined hle hle'
    rw [List.append_cons] at h h' hle hle'
    rw [loop_unique hm rest rest' (List.append_ne_nil_of_left_ne_nil hne [f]) h h' hle hle']

/-- Two loops that are one, begun elsewhere or run through backwards. -/
def SameLoop (c c' : List Fragment) : Prop := c.IsRotated c' ∨ c.IsRotated (c'.reverse.map List.reverse)

/-- **Two loops that share a fragment are the same loop.** -/
theorem sameLoop_of_shared (hm : ∀ p, degree p m ≤ 2) {c c' : List Fragment} {f f' : Fragment} (h : Loop c)
    (h' : Loop c') (hle : ways c ≤ m) (hle' : ways c' ≤ m) (hf : f ∈ c) (hf' : f' ∈ c')
    (hshared : undirected f = undirected f') : SameLoop c c' := by
  -- both loops are begun with the shared fragment
  have hrotated : ∀ {c' : List Fragment}, Loop c' → ways c' ≤ m → f ∈ c' → c.IsRotated c' := by
    intro c' h' hle' hf'
    obtain ⟨a, b, rfl⟩ := List.append_of_mem hf
    obtain ⟨a', b', rfl⟩ := List.append_of_mem hf'
    have hways : ∀ a b : List Fragment, ways ([f] ++ (b ++ a)) = ways (a ++ f :: b) := fun a b =>
      ways_eq_of_perm (List.perm_append_comm : (f :: b ++ a).Perm (a ++ f :: b))
    have hrest : b ++ a = b' ++ a' :=
      loop_unique hm (b ++ a) (b' ++ a') (List.cons_ne_nil f []) h.rotate h'.rotate ((hways a b).trans_le hle)
        ((hways a' b').trans_le hle')
    have hc : (a ++ f :: b).IsRotated (f :: b ++ a) := List.isRotated_append
    have hc' : (f :: b' ++ a').IsRotated (a' ++ f :: b') := List.isRotated_append
    rw [List.cons_append, ← hrest] at hc'
    exact hc.trans hc'
  rcases undirected_eq_iff.1 hshared with rfl | rfl
  · exact Or.inl (hrotated h' hle' hf')
  · refine Or.inr (hrotated h'.turned ((ways_turned c').trans_le hle') ?_)
    exact List.mem_map_of_mem (List.mem_reverse.2 hf')

/-- **Loops of the same fragments are the same loops.** -/
theorem match_loops (hm : ∀ p, degree p m ≤ 2) : ∀ (rows rows' : List (List Fragment)),
    (∀ c ∈ rows, c ≠ [] ∧ Loop c) → (∀ c ∈ rows', c ≠ [] ∧ Loop c) → ways rows.flatten ≤ m →
    ways rows.flatten = ways rows'.flatten → ∃ matched, matched.Perm rows' ∧ List.Forall₂ SameLoop rows matched
  | [], rows', _, h', _, heq => by
    have hempty : rows'.flatten = [] := List.map_eq_nil_iff.1 (Multiset.coe_eq_zero _ |>.1 heq.symm)
    have hnil : rows' = [] := List.eq_nil_iff_forall_not_mem.2 fun c hc =>
      (h' c hc).1 (List.flatten_eq_nil_iff.1 hempty c hc)
    exact ⟨[], by rw [hnil], .nil⟩
  | c :: rows, rows', h, h', hle, heq => by
    obtain ⟨hc, hrows⟩ := List.forall_mem_cons.1 h
    obtain ⟨f, hf⟩ := List.exists_mem_of_ne_nil c hc.1
    have hmem : undirected f ∈ rows'.flatten.map undirected := by
      have : undirected f ∈ ways (c :: rows).flatten :=
        List.mem_map_of_mem (List.mem_flatten_of_mem List.mem_cons_self hf)
      rwa [heq] at this
    obtain ⟨f', hf', hshared⟩ := List.mem_map.1 hmem
    obtain ⟨c', hc', hfc'⟩ := List.mem_flatten.1 hf'
    obtain ⟨pre, post, rfl⟩ := List.append_of_mem hc'
    have hperm : (pre ++ c' :: post).Perm (c' :: (pre ++ post)) := List.perm_middle
    have hle' : ways c' ≤ m := by
      refine le_trans ?_ (heq ▸ hle)
      rw [ways_eq_of_perm hperm.flatten, List.flatten_cons, ways_append]
      exact Multiset.le_add_right _ _
    rw [List.flatten_cons, ways_append] at hle
    have hsame : SameLoop c c' := sameLoop_of_shared hm hc.2 (h' c' hc').2
      (le_trans (Multiset.le_add_right _ _) hle) hle' hf hfc' hshared.symm
    have hways : ways c = ways c' := by
      rcases hsame with hr | hr
      · exact ways_eq_of_perm hr.perm
      · rw [ways_eq_of_perm hr.perm, ways_turned]
    rw [List.flatten_cons, ways_append, ways_eq_of_perm hperm.flatten, List.flatten_cons, ways_append, hways] at heq
    obtain ⟨matched, hmatched, hall⟩ := match_loops hm rows (pre ++ post) hrows
      (fun x hx => h' x (hperm.mem_iff.2 (List.mem_cons_of_mem c' hx)))
      (le_trans (Multiset.le_add_left _ _) hle) (Multiset.add_right_inj.1 heq)
    exact ⟨c' :: matched, (hmatched.cons c').trans hperm.symm, .cons hsame hall⟩

/-! ## Rings -/

/-- Two closed rings that are one, begun elsewhere or run through backwards. -/
structure SameRing (r s : Fragment) : Prop where
  closed_left : isClosed r = true
  closed_right : isClosed s = true
  cyclic : r.dropLast.IsRotated s.dropLast ∨ r.dropLast.IsRotated s.reverse.dropLast

theorem isRotated_flatMap {α β : Type} {l l' : List α} (h : l.IsRotated l') (e : α → List β) :
    (l.flatMap e).IsRotated (l'.flatMap e) := by
  obtain ⟨n, hn, rfl⟩ := List.isRotated_iff_mod.1 h
  rw [List.rotate_eq_drop_append_take hn, List.flatMap_append]
  conv => lhs; rw [← List.take_append_drop n l, List.flatMap_append]
  exact List.isRotated_append

theorem SameLoop.dropLast_stitch {c c' : List Fragment} (h : SameLoop c c') (hc : Loop c) (hc' : Loop c') :
    (stitch c).dropLast.IsRotated (stitch c').dropLast ∨ (stitch c).dropLast.IsRotated (stitch c').reverse.dropLast := by
  rw [reverse_stitch hc'.toJoined, Fragment.dropLast_stitch hc.toJoined, Fragment.dropLast_stitch hc'.toJoined,
    Fragment.dropLast_stitch hc'.turned.toJoined]
  exact h.imp (isRotated_flatMap · _) (isRotated_flatMap · _)

theorem SameLoop.isRing_iff {c c' : List Fragment} (h : SameLoop c c') (hc : Loop c) (hc' : Loop c') (hne : c ≠ [])
    (hne' : c' ≠ []) : isRing (stitch c) = true ↔ isRing (stitch c') = true := by
  have hlen : (stitch c).length = (stitch c').length := by
    have hpos := List.length_pos_iff.2 (stitch_ne_nil hne hc.toJoined)
    have hpos' := List.length_pos_iff.2 (stitch_ne_nil hne' hc'.toJoined)
    have hd : (stitch c).dropLast.length = (stitch c').dropLast.length := by
      rcases h.dropLast_stitch hc hc' with hr | hr
      · exact hr.perm.length_eq
      · rw [hr.perm.length_eq, List.length_dropLast, List.length_dropLast, List.length_reverse]
    rw [List.length_dropLast, List.length_dropLast] at hd
    omega
  rw [isRing, isRing, Bool.and_eq_true, Bool.and_eq_true, isClosed_iff, isClosed_iff, hlen, hc.head?_eq, hc'.head?_eq,
    and_iff_left rfl, and_iff_left rfl]

/-- **The same loops have the same rings.** -/
theorem rings_of_same_loops : ∀ {rows rows' : List (List Fragment)}, List.Forall₂ SameLoop rows rows' →
    (∀ c ∈ rows, c ≠ [] ∧ Loop c) → (∀ c ∈ rows', c ≠ [] ∧ Loop c) →
    List.Forall₂ SameRing ((rows.map stitch).filter isRing) ((rows'.map stitch).filter isRing)
  | [], [], .nil, _, _ => .nil
  | c :: rows, c' :: rows', .cons hsame hall, h, h' => by
    obtain ⟨⟨hne, hc⟩, hrows⟩ := List.forall_mem_cons.1 h
    obtain ⟨⟨hne', hc'⟩, hrows'⟩ := List.forall_mem_cons.1 h'
    have ih := rings_of_same_loops hall hrows hrows'
    have hiff := hsame.isRing_iff hc hc' hne hne'
    rw [List.map_cons, List.map_cons]
    by_cases hring : isRing (stitch c) = true
    · rw [List.filter_cons_of_pos hring, List.filter_cons_of_pos (hiff.1 hring)]
      have hclosed : ∀ {f : Fragment}, isRing f = true → isClosed f = true := fun hf => (Bool.and_eq_true _ _ ▸ hf).1
      exact .cons ⟨hclosed hring, hclosed (hiff.1 hring), hsame.dropLast_stitch hc hc'⟩ ih
    · rw [List.filter_cons_of_neg hring, List.filter_cons_of_neg (mt hiff.2 hring)]
      exact ih

/-- The chains of an input of which an even number end everywhere, as loops of its fragments. -/
theorem exists_loops {fragments : List Fragment} (heven : ∀ p, Even ((fragments.flatMap ends).count p)) :
    ∃ rows : List (List Fragment), rows.map stitch = chains (fragments.filter fun f => !f.isEmpty) ∧
      (∀ c ∈ rows, c ≠ [] ∧ Loop c) ∧ ways rows.flatten = ways (fragments.filter fun f => !f.isEmpty) := by
  obtain ⟨parts, hparts, hchains⟩ := exists_partition fragments
  refine ⟨parts.map fun c => c.map Link.run, ?_, fun runs hruns => ?_, ?_⟩
  · rw [← hchains, List.map_map]; rfl
  · obtain ⟨c, hc, rfl⟩ := List.mem_map.1 hruns
    have hchain : path c ∈ chains (fragments.filter fun f => !f.isEmpty) := hchains ▸ List.mem_map_of_mem hc
    exact ⟨mt List.map_eq_nil_iff.1 (hparts.ne_nil c hc), Loop.of_stitch (hparts.joined c hc)
      (head?_eq_getLast?_of_not_isOpen (not_isOpen_of_even heven _ hchain))⟩
  · have hrun : ∀ l : Link, undirected l.run = undirected l.source.1 := fun l => undirected_eq_iff.2 l.run_eq
    rw [← List.map_flatten, ← map_fst_placed, ways, ways, List.map_map, List.map_map,
      ← Multiset.coe_eq_coe.2 (hparts.sources.map _), List.map_map]
    exact congrArg _ (List.map_congr_left fun l _ => hrun l)

theorem map_undirected_eq {fs gs : List Fragment} (h : List.Forall₂ (fun f g => g = f ∨ g = f.reverse) fs gs) :
    fs.map undirected = gs.map undirected := by
  induction h with
  | nil => rfl
  | cons hfg _ ih => rw [List.map_cons, List.map_cons, ih, undirected_eq_iff.2 hfg]

theorem ways_turned_shuffled {fragments turned shuffled : List Fragment}
    (hturned : List.Forall₂ (fun f g => g = f ∨ g = f.reverse) fragments turned) (hshuffled : shuffled.Perm turned) :
    ways (fragments.filter fun f => !f.isEmpty) = ways (shuffled.filter fun f => !f.isEmpty) := by
  have hfilter : List.Forall₂ (fun f g => g = f ∨ g = f.reverse) (fragments.filter fun f => !f.isEmpty)
      (turned.filter fun f => !f.isEmpty) := by
    refine List.rel_filter (fun f g hfg => ?_) hturned
    rcases hfg with rfl | rfl
    · exact Iff.rfl
    · simp only [List.isEmpty_reverse]
  rw [ways_eq_of_perm (hshuffled.filter _), ways, ways, map_undirected_eq hfilter]

/-- **The rings do not depend on the order and the direction of the fragments**: where two fragments end at every
location at which one ends, the same fragments in another order and some of them turned round give the same rings, each
begun elsewhere or run through backwards. -/
theorem mergeRings_any_order (fragments turned shuffled : List Fragment)
    (hends : ∀ p ∈ fragments.flatMap ends, (fragments.flatMap ends).count p = 2)
    (hturned : List.Forall₂ (fun f g => g = f ∨ g = f.reverse) fragments turned) (hshuffled : shuffled.Perm turned) :
    ∃ rings, rings.Perm (mergeRings shuffled) ∧ List.Forall₂ SameRing (mergeRings fragments) rings := by
  have hways := ways_turned_shuffled hturned hshuffled
  have hcount : ∀ (fs : List Fragment) (p : Location),
      (fs.flatMap ends).count p = degree p (ways (fs.filter fun f => !f.isEmpty)) := fun fs p => by
    rw [degree_ways, flatMap_filter_eq ends _ fun f _ hf => ?_]
    rw [Bool.not_eq_false'] at hf
    rw [List.isEmpty_iff.1 hf]; rfl
  have hdegree : ∀ p, (fragments.flatMap ends).count p = 0 ∨ (fragments.flatMap ends).count p = 2 := fun p => by
    by_cases hp : p ∈ fragments.flatMap ends
    · exact Or.inr (hends p hp)
    · exact Or.inl (List.count_eq_zero.2 hp)
  have heven : ∀ p, Even ((fragments.flatMap ends).count p) := fun p => by
    rcases hdegree p with h | h
    · exact h ▸ ⟨0, rfl⟩
    · exact h ▸ ⟨1, rfl⟩
  have heven' : ∀ p, Even ((shuffled.flatMap ends).count p) := fun p => by
    rw [hcount, ← hways, ← hcount]; exact heven p
  have htwo : ∀ p, degree p (ways (fragments.filter fun f => !f.isEmpty)) ≤ 2 := fun p => by
    rw [← hcount]; have := hdegree p; omega
  obtain ⟨rows, hchains, hrows, hr⟩ := exists_loops heven
  obtain ⟨rows', hchains', hrows', hr'⟩ := exists_loops heven'
  obtain ⟨matched, hmatched, hall⟩ := match_loops htwo rows rows' hrows hrows' hr.le (hr.trans (hways.trans hr'.symm))
  have hmatched' : ∀ c ∈ matched, c ≠ [] ∧ Loop c := fun c hc => hrows' c (hmatched.mem_iff.1 hc)
  refine ⟨(matched.map stitch).filter isRing, ?_, ?_⟩
  · rw [mergeRings, ← hchains']
    exact (hmatched.map stitch).filter isRing
  · rw [mergeRings, ← hchains]
    exact rings_of_same_loops hall hrows hmatched'

/-- Two halves of a square, and the same with one of them turned round and put first. -/
theorem mergeRings_any_order_square :
    let halves : List Fragment := [[⟨0, 0⟩, ⟨0, 9⟩, ⟨9, 9⟩], [⟨9, 9⟩, ⟨9, 0⟩, ⟨0, 0⟩]]
    let turned : List Fragment := [[⟨0, 0⟩, ⟨0, 9⟩, ⟨9, 9⟩], [⟨0, 0⟩, ⟨9, 0⟩, ⟨9, 9⟩]]
    let shuffled : List Fragment := [[⟨0, 0⟩, ⟨9, 0⟩, ⟨9, 9⟩], [⟨0, 0⟩, ⟨0, 9⟩, ⟨9, 9⟩]]
    (∀ p ∈ halves.flatMap ends, (halves.flatMap ends).count p = 2) ∧
      List.Forall₂ (fun f g => g = f ∨ g = f.reverse) halves turned ∧ shuffled.Perm turned ∧
      ∃ rings, rings.Perm (mergeRings shuffled) ∧ List.Forall₂ SameRing (mergeRings halves) rings := by
  intro halves turned shuffled
  have hends : ∀ p ∈ halves.flatMap ends, (halves.flatMap ends).count p = 2 := by decide
  have hturned : List.Forall₂ (fun f g => g = f ∨ g = f.reverse) halves turned :=
    .cons (Or.inl rfl) (.cons (Or.inr rfl) .nil)
  have hshuffled : shuffled.Perm turned := .swap _ _ _
  exact ⟨hends, hturned, hshuffled, mergeRings_any_order halves turned shuffled hends hturned hshuffled⟩

end Fragment
end MapFeatures
