import Mathlib.Algebra.Ring.Parity
import MapFeatures.Proofs.Ring.Partition
/-!
# OpenChains — fragments are lost to open chains only where an odd number of them end

A chain is given up when nothing that is left touches its ends (`grow_closed_or_stuck`), so no two open chains end at
one location.  All other ends of fragments are met in pairs.  Hence the locations where an odd number of fragments end
are just the ends of open chains (`dropped_open_ends`), and without such locations all chains close.
-/
namespace MapFeatures
namespace Fragment

/-- Whether a chain of two or more locations ends elsewhere than it starts. -/
def isOpen (f : Fragment) : Bool := 1 < List.length f && f.head? ≠ f.getLast?

/-- The chains that do not become rings. -/
def dropped (fragments : List Fragment) : List Fragment :=
  (chains (fragments.filter fun f => !f.isEmpty)).filter fun f => !isRing f

theorem isOpen_iff (f : Fragment) : isOpen f = true ↔ 1 < f.length ∧ f.head? ≠ f.getLast? := by
  simp only [isOpen, Bool.and_eq_true, decide_eq_true_eq]

theorem isRing_of_isOpen {f : Fragment} (h : isOpen f = true) : isRing f = false := by
  have hclosed : isClosed f = false := by
    rw [← Bool.not_eq_true, isClosed_iff]
    exact fun hc => ((isOpen_iff f).1 h).2 hc.2
  rw [isRing, hclosed, Bool.false_and]

theorem head?_eq_getLast?_of_not_isOpen {f : Fragment} (h : isOpen f = false) : f.head? = f.getLast? := by
  by_cases hlen : 1 < f.length
  · rw [← Bool.not_eq_true, isOpen_iff] at h
    exact Classical.byContradiction fun hne => h ⟨hlen, hne⟩
  · exact head?_eq_getLast?_of_length_le (Nat.not_lt.1 hlen)

/-! ## Chains that are given up -/

theorem extend_none {chain : Fragment} {pending : List Fragment} (h : extend chain pending = none) :
    ∀ p ∈ ends chain, ∀ f ∈ pending, p ∉ ends f := by
  obtain ⟨htail, hhead⟩ := Option.or_eq_none_iff.1 h
  have hnone : ∀ {p : Location}, takeTouching p pending = none → ∀ f ∈ pending, p ∉ ends f := fun hp f hf hmem => by
    have := takeTouching_none hp f hf
    rw [(touches_iff_mem_ends _ f).2 hmem] at this
    cases this
  intro p hp
  rcases List.mem_append.1 hp with hp | hp
  · rw [Option.mem_toList] at hp
    simp only [extendHead, hp, Option.map_eq_none_iff] at hhead
    exact hnone hhead
  · rw [Option.mem_toList] at hp
    simp only [extendTail, hp, Option.map_eq_none_iff] at htail
    exact hnone htail

theorem extend_sublist {chain : Fragment} {pending : List Fragment} {next : Fragment × List Fragment}
    (h : extend chain pending = some next) : next.2.Sublist pending := by
  obtain ⟨pre, f, post, rfl, hrest, -⟩ := extend_join h
  rw [hrest]
  exact (List.sublist_cons_self f post).append_left pre

theorem grow_sublist (chain : Fragment) (pending : List Fragment) : (grow chain pending).2.Sublist pending := by
  fun_induction grow chain pending with
  | case1 => exact .refl _
  | case2 => exact .refl _
  | case3 _ _ _ _ hnext ih => exact ih.trans (extend_sublist hnext)

/-- **A grown chain is closed, or nothing that is left touches its ends.** -/
theorem grow_closed_or_stuck (chain : Fragment) (pending : List Fragment) :
    isClosed (grow chain pending).1 = true ∨
      ∀ p ∈ ends (grow chain pending).1, ∀ f ∈ (grow chain pending).2, p ∉ ends f := by
  fun_induction grow chain pending with
  | case1 chain pending hclosed => exact Or.inl hclosed
  | case2 chain pending _ hnone => exact Or.inr (extend_none hnone)
  | case3 _ _ _ _ _ ih => exact ih

/-! ## Ends of all chains -/

theorem ends_map_stitch : ∀ {rows : List (List Fragment)}, (∀ runs ∈ rows, Joined runs) →
    ∃ junctions : List Location,
      (rows.flatMap fun runs => runs.flatMap ends).Perm ((rows.map stitch).flatMap ends ++ (junctions ++ junctions))
  | [], _ => ⟨[], .refl _⟩
  | runs :: rows, h => by
    obtain ⟨junctions, hj⟩ := ends_stitch (h runs List.mem_cons_self)
    obtain ⟨junctions', hj'⟩ := ends_map_stitch fun r hr => h r (List.mem_cons_of_mem runs hr)
    refine ⟨junctions ++ junctions', List.perm_iff_count.2 fun p => ?_⟩
    have hc := hj.count_eq p
    have hc' := hj'.count_eq p
    rw [List.flatMap_cons, List.map_cons, List.flatMap_cons]
    simp only [List.count_append] at hc hc' ⊢
    omega

/-- **The ends of the input are those of the chains and each junction twice.** -/
theorem IsPartition.ends_perm {fragments : List Fragment} {parts : List (List Link)}
    (h : IsPartition (placed fragments) parts) :
    ∃ junctions : List Location,
      (fragments.flatMap ends).Perm ((parts.map path).flatMap ends ++ (junctions ++ junctions)) := by
  have hjoined : ∀ runs ∈ parts.map (List.map Link.run), Joined runs := by
    intro runs hr
    obtain ⟨c, hc, rfl⟩ := List.mem_map.1 hr
    exact h.joined c hc
  obtain ⟨junctions, hj⟩ := ends_map_stitch hjoined
  rw [List.flatMap_map, List.map_map] at hj
  exact ⟨junctions, (h.flatMap_perm ends rfl Link.ends_run).symm.trans hj⟩

theorem filter_nonempty_ne_nil (fs : List Fragment) : ∀ f ∈ fs.filter fun f => !f.isEmpty, f ≠ [] := by
  intro f hf hn
  have := (List.mem_filter.1 hf).2
  rw [hn] at this
  cases this

theorem filter_nonempty_eq_self {fs : List Fragment} (h : ∀ f ∈ fs, f ≠ []) :
    (fs.filter fun f => !f.isEmpty) = fs :=
  List.filter_eq_self.2 fun f hf => by
    obtain ⟨a, rest, rfl⟩ := List.exists_cons_of_ne_nil (h f hf)
    rfl

theorem mem_ends_of_mem_ends_chains {fs : List Fragment} (h : ∀ f ∈ fs, f ≠ []) {p : Location}
    (hp : p ∈ (chains fs).flatMap ends) : p ∈ fs.flatMap ends := by
  obtain ⟨parts, hparts, hchains⟩ := exists_partition fs
  rw [filter_nonempty_eq_self h] at hchains
  obtain ⟨junctions, hj⟩ := hparts.ends_perm
  rw [hchains] at hj
  exact hj.mem_iff.2 (List.mem_append_left _ hp)

/-- **No two open chains end at one location.** -/
theorem nodup_open_ends (fs : List Fragment) (h : ∀ f ∈ fs, f ≠ []) :
    (((chains fs).filter isOpen).flatMap ends).Nodup := by
  match fs, h with
  | [], _ => rw [chains]; exact List.nodup_nil
  | f :: pending, h =>
    obtain ⟨hf, hpending⟩ := List.forall_mem_cons.1 h
    have hrest : ∀ g ∈ (grow f pending).2, g ≠ [] := fun g hg => hpending g ((grow_sublist f pending).subset hg)
    have hlen := length_grow_le f pending
    have ih := nodup_open_ends (grow f pending).2 hrest
    rw [chains]
    by_cases hopen : isOpen (grow f pending).1 = true
    · rw [List.filter_cons_of_pos hopen, List.flatMap_cons]
      obtain ⟨hone, hne⟩ := (isOpen_iff _).1 hopen
      refine List.nodup_append.2 ⟨?_, ih, fun p hp q hq hpq => ?_⟩
      · have hnil : (grow f pending).1 ≠ [] := List.ne_nil_of_length_pos (by omega)
        rw [List.head?_eq_some_head hnil, List.getLast?_eq_some_getLast hnil, Ne, Option.some.injEq] at hne
        rw [ends_of_ne_nil hnil]
        simpa using hne
      · -- the later chains end where some fragment that is left ends
        have hlater : p ∈ (grow f pending).2.flatMap ends :=
          mem_ends_of_mem_ends_chains hrest ((List.filter_sublist.flatMap ends).subset (hpq ▸ hq))
        obtain ⟨g, hg, hpg⟩ := List.mem_flatMap.1 hlater
        rcases grow_closed_or_stuck f pending with hclosed | hstuck
        · exact hne ((isClosed_iff _).1 hclosed).2
        · exact hstuck p hp g hg hpg
    · rw [List.filter_cons_of_neg hopen]
      exact ih
termination_by fs.length
decreasing_by simp only [List.length_cons]; omega

/-! ## Parity -/

theorem even_count_flatMap_ends (p : Location) : ∀ {l : List Fragment},
    (∀ f ∈ l, Even ((ends f).count p)) → Even ((l.flatMap ends).count p)
  | [], _ => ⟨0, rfl⟩
  | f :: l, h => by
    rw [List.flatMap_cons, List.count_append]
    exact (h f List.mem_cons_self).add (even_count_flatMap_ends p fun g hg => h g (List.mem_cons_of_mem f hg))

/-- **An open chain ends just where an odd number of fragments end.** -/
theorem mem_open_ends_iff (fragments : List Fragment) (p : Location) :
    p ∈ ((chains (fragments.filter fun f => !f.isEmpty)).filter isOpen).flatMap ends ↔
      Odd ((fragments.flatMap ends).count p) := by
  obtain ⟨parts, hparts, hchains⟩ := exists_partition fragments
  obtain ⟨junctions, hj⟩ := hparts.ends_perm
  have hnodup := nodup_open_ends _ (filter_nonempty_ne_nil fragments)
  rw [← hchains] at hnodup ⊢
  generalize hcs : parts.map path = cs at hj hnodup ⊢
  have hcount : (fragments.flatMap ends).count p = ((cs.filter isOpen).flatMap ends).count p +
      (((cs.filter fun f => !isOpen f).flatMap ends).count p + (junctions.count p + junctions.count p)) := by
    have hsplit := ((List.filter_append_perm isOpen cs).flatMap_right ends).count_eq p
    rw [List.flatMap_append, List.count_append] at hsplit
    rw [hj.count_eq p, List.count_append, List.count_append, ← hsplit, Nat.add_assoc]
  have heven : Even (((cs.filter fun f => !isOpen f).flatMap ends).count p + (junctions.count p + junctions.count p)) := by
    refine Even.add (even_count_flatMap_ends p fun f hf => ?_) ⟨_, rfl⟩
    exact even_count_ends (head?_eq_getLast?_of_not_isOpen (by simpa using (List.mem_filter.1 hf).2)) p
  rw [hcount, Nat.odd_add, iff_true_right heven]
  have hone := List.nodup_iff_count_le_one.1 hnodup p
  rw [← List.count_pos_iff]
  constructor
  · intro hpos
    exact ⟨0, by omega⟩
  · rintro ⟨k, hk⟩
    omega

theorem not_isOpen_of_even {fragments : List Fragment} (heven : ∀ p, Even ((fragments.flatMap ends).count p)) :
    ∀ f ∈ chains (fragments.filter fun f => !f.isEmpty), isOpen f = false := by
  intro f hf
  rw [← Bool.not_eq_true]
  intro hopen
  have hnil : f ≠ [] := List.ne_nil_of_length_pos (Nat.lt_trans Nat.zero_lt_one ((isOpen_iff f).1 hopen).1)
  have hend : f.head hnil ∈ ends f := by rw [ends_of_ne_nil hnil]; exact List.mem_cons_self
  have hodd := (mem_open_ends_iff fragments (f.head hnil)).1
    (List.mem_flatMap.2 ⟨f, List.mem_filter.2 ⟨hf, hopen⟩, hend⟩)
  exact Nat.not_even_iff_odd.2 hodd (heven _)

theorem dropped_filter_isOpen (fragments : List Fragment) :
    (dropped fragments).filter isOpen = (chains (fragments.filter fun f => !f.isEmpty)).filter isOpen := by
  rw [dropped, List.filter_filter]
  refine List.filter_congr fun f _ => ?_
  cases hopen : isOpen f with
  | false => rfl
  | true => rw [isRing_of_isOpen hopen]; rfl

theorem length_le_stitch {runs : List Fragment} (h : Joined runs) {f : Fragment} (hf : f ∈ runs) :
    f.length ≤ (stitch runs).length := by
  have hlen : f.dropLast.length ≤ (runs.flatMap List.dropLast).length :=
    (List.sublist_flatten_of_mem (List.mem_map_of_mem hf)).length_le
  have hpos := List.length_pos_iff.2 (stitch_ne_nil (List.ne_nil_of_mem hf) h)
  rw [← dropLast_stitch h, List.length_dropLast, List.length_dropLast] at hlen
  omega

/-- **Open chains are forced.**  The open chains that are dropped end at different locations, which are just those where
an odd number of fragments end.  So if an even number end everywhere, every fragment of two or more locations is in a
chain that closes, and the only segments that are not in rings are those of closed chains of at most three locations. -/
theorem dropped_open_ends (fragments : List Fragment) :
    (((dropped fragments).filter isOpen).flatMap ends).Nodup ∧
    (∀ p, p ∈ ((dropped fragments).filter isOpen).flatMap ends ↔ Odd ((fragments.flatMap ends).count p)) ∧
    ((∀ p, Even ((fragments.flatMap ends).count p)) →
      (∃ parts, IsPartition (placed fragments) parts ∧
        parts.map path = chains (fragments.filter fun f => !f.isEmpty) ∧
        ∀ c ∈ parts, ∀ l ∈ c, 2 ≤ l.source.1.length → isClosed (path c) = true) ∧
      (fragments.flatMap segments).Perm ((mergeRings fragments).flatMap segments ++
        ((dropped fragments).filter fun f => isClosed f && f.length ≤ 3).flatMap segments)) := by
  rw [dropped_filter_isOpen]
  refine ⟨nodup_open_ends _ (filter_nonempty_ne_nil fragments), mem_open_ends_iff fragments, fun heven => ?_⟩
  obtain ⟨parts, hparts, hchains⟩ := exists_partition fragments
  have hclosed := not_isOpen_of_even heven
  refine ⟨⟨parts, hparts, hchains, fun c hc l hl hlen => (isClosed_iff _).2 ⟨?_, ?_⟩⟩, ?_⟩
  · have hrun : l.run.length = l.source.1.length := by
      rcases l.run_eq with h | h
      · rw [h]
      · rw [h, List.length_reverse]
    have := length_le_stitch (hparts.joined c hc) (List.mem_map_of_mem (f := Link.run) hl)
    rw [path]
    omega
  · exact head?_eq_getLast?_of_not_isOpen (hclosed _ (hchains ▸ List.mem_map_of_mem hc))
  · refine hparts.segments_perm.symm.trans ?_
    rw [hchains, flatMap_filter_eq segments _ fun f hf hno => ?_, ← List.flatMap_append]
    · exact ((List.filter_append_perm isRing _).flatMap_right segments).symm
    · -- a chain that is no ring, not open and not short has a single location
      obtain ⟨hchain, hring⟩ := List.mem_filter.1 hf
      refine segments_of_length_le (Nat.not_lt.1 fun hlong => ?_)
      have hc : isClosed f = true := (isClosed_iff f).2 ⟨hlong, head?_eq_getLast?_of_not_isOpen (hclosed f hchain)⟩
      rw [isRing, hc, Bool.true_and, Bool.not_eq_true', decide_eq_false_iff_not, minRing] at hring
      rw [hc, Bool.true_and, decide_eq_false_iff_not] at hno
      omega

/-- Two loops through one location, where four fragments end. -/
theorem dropped_open_ends_eight :
    let eight : List Fragment :=
      [[⟨0, 0⟩, ⟨0, 9⟩], [⟨0, 0⟩, ⟨5, 0⟩, ⟨5, 5⟩, ⟨0, 0⟩], [⟨0, 9⟩, ⟨9, 9⟩, ⟨0, 0⟩]]
    (∀ p, Even ((eight.flatMap ends).count p)) ∧
      (eight.flatMap segments).Perm ((mergeRings eight).flatMap segments ++
        ((dropped eight).filter fun f => isClosed f && f.length ≤ 3).flatMap segments) := by
  intro eight
  have heven : ∀ p, Even ((eight.flatMap ends).count p) := fun p => by
    have hends : ∀ q ∈ eight.flatMap ends, Even ((eight.flatMap ends).count q) := by decide
    by_cases hp : p ∈ eight.flatMap ends
    · exact hends p hp
    · rw [List.count_eq_zero.2 hp]
      exact ⟨0, rfl⟩
  exact ⟨heven, ((dropped_open_ends eight).2.2 heven).2⟩

end Fragment
end MapFeatures
