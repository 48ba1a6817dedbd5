import MapFeatures.Proofs.Ring.Stitch
/-!
# Partition — every fragment is in one chain

A step joins one fragment to a chain, as it is or turned round (`extend_join`).  So the chains that fragments grow to
are a partition of them: each fragment is a member of one chain, and each chain is the stitching of its members
(`chains_partition`).  The closed rings are stitchings of members that no two of them share, and have no segment that
the fragments have not (`mergeRings_partition`).
-/
namespace MapFeatures
namespace Fragment

/-- A fragment with its place in the input. -/
abbrev Placed := Fragment × Nat

/-- A member of a chain: a fragment of the input, and the fragment as the chain runs through it. -/
structure Link where
  source : Placed
  run : Fragment
  run_eq : run = source.1 ∨ run = source.1.reverse

/-- The run through all members of a chain. -/
def path (c : List Link) : Fragment := stitch (c.map Link.run)

/-- The smallest place in the input of a member. -/
def firstPlace (c : List Link) : Nat := (c.map fun l => l.source.2).min?.getD 0

/-- The fragments in chains of joined members; the chains are in the order of their first places. -/
structure IsPartition (sources : List Placed) (parts : List (List Link)) : Prop where
  sources : (parts.flatten.map Link.source).Perm sources
  ne_nil : ∀ c ∈ parts, c ≠ []
  joined : ∀ c ∈ parts, Joined (c.map Link.run)
  increasing : parts.Pairwise fun a b => firstPlace a < firstPlace b

/-- The fragments that are not empty, with their places. -/
def placed (fragments : List Fragment) : List Placed := fragments.zipIdx.filter fun s => !s.1.isEmpty

namespace Link

def ofPlaced (s : Placed) : Link := ⟨s, s.1, Or.inl rfl⟩

theorem segments_run (l : Link) : (segments l.run).Perm (segments l.source.1) := by
  rcases l.run_eq with h | h
  · rw [h]
  · rw [h, segments_reverse]; exact List.reverse_perm _

theorem ends_run (l : Link) : (ends l.run).Perm (ends l.source.1) := by
  rcases l.run_eq with h | h
  · rw [h]
  · rw [h]; exact ends_reverse_perm l.source.1

end Link

/-! ## One step -/

theorem takeTouching_none {p : Location} {fs : List Fragment} (h : takeTouching p fs = none) :
    ∀ f ∈ fs, touches p f = false := by
  induction fs with
  | nil => intro f hf; cases hf
  | cons g gs ih =>
    unfold takeTouching at h
    split at h
    · cases h
    · rename_i hg
      intro f hf
      rcases List.mem_cons.1 hf with rfl | hf
      · exact Bool.not_eq_true _ ▸ hg
      · exact ih (Option.map_eq_none_iff.1 h) f hf

theorem takeTouching_some {p : Location} : ∀ {fs : List Fragment} {f : Fragment} {rest : List Fragment},
    takeTouching p fs = some (f, rest) → touches p f = true ∧ ∃ pre post, fs = pre ++ f :: post ∧ rest = pre ++ post
  | [], _, _, h => nomatch h
  | g :: gs, f, rest, h => by
    unfold takeTouching at h
    split at h
    · rename_i hg
      obtain ⟨rfl, rfl⟩ := Prod.mk.inj (Option.some.inj h)
      exact ⟨hg, [], gs, rfl, rfl⟩
    · obtain ⟨⟨found, others⟩, hr, he⟩ := Option.map_eq_some_iff.1 h
      obtain ⟨rfl, rfl⟩ := Prod.mk.inj he
      obtain ⟨ht, pre, post, rfl, rfl⟩ := takeTouching_some hr
      exact ⟨ht, g :: pre, post, rfl, rfl⟩

theorem turned_to_head {p : Location} {f : Fragment} (h : touches p f = true) :
    ∃ g, (if f.head? = some p then f else f.reverse) = g ∧ (g = f ∨ g = f.reverse) ∧ g.head? = some p := by
  by_cases hp : f.head? = some p
  · exact ⟨f, if_pos hp, Or.inl rfl, hp⟩
  · refine ⟨f.reverse, if_neg hp, Or.inr rfl, ?_⟩
    rw [List.head?_reverse]
    simpa [touches, hp] using h

theorem turned_to_last {p : Location} {f : Fragment} (h : touches p f = true) :
    ∃ g, (if f.getLast? = some p then f else f.reverse) = g ∧ (g = f ∨ g = f.reverse) ∧ g.getLast? = some p := by
  by_cases hp : f.getLast? = some p
  · exact ⟨f, if_pos hp, Or.inl rfl, hp⟩
  · refine ⟨f.reverse, if_neg hp, Or.inr rfl, ?_⟩
    rw [List.getLast?_reverse]
    simpa [touches, hp] using h

/-- A chain with one fragment more at its tail or at its head.  A fragment that ends where it starts is not turned
round. -/
inductive Join (chain f : Fragment) : Fragment → Prop
  | tail {g : Fragment} (turned : g = f ∨ g = f.reverse) (kept : f.head? = f.getLast? → g = f)
      (joined : Joined [chain, g]) : Join chain f (stitch [chain, g])
  | head {g : Fragment} (turned : g = f ∨ g = f.reverse) (kept : f.head? = f.getLast? → g = f)
      (joined : Joined [g, chain]) : Join chain f (stitch [g, chain])

theorem eq_some_of_touches {p : Location} {f : Fragment} (h : touches p f = true) (hf : f.head? = f.getLast?) :
    f.head? = some p ∧ f.getLast? = some p := by
  have hp := mem_ends_iff.1 ((touches_iff_mem_ends p f).1 h)
  rw [hf, or_self] at hp
  exact ⟨hf.trans hp, hp⟩

theorem extendTail_join {chain : Fragment} {pending : List Fragment} {next : Fragment × List Fragment}
    (h : extendTail chain pending = some next) :
    ∃ pre f post, pending = pre ++ f :: post ∧ next.2 = pre ++ post ∧ Join chain f next.1 := by
  unfold extendTail at h
  split at h
  · cases h
  · next p hp =>
    obtain ⟨⟨f, others⟩, hr, rfl⟩ := Option.map_eq_some_iff.1 h
    obtain ⟨ht, pre, post, rfl, rfl⟩ := takeTouching_some hr
    obtain ⟨g, hg, hturned, hhead⟩ := turned_to_head ht
    have hkept (hf : f.head? = f.getLast?) : g = f := hg.symm.trans (if_pos (eq_some_of_touches ht hf).1)
    have hjoin := Join.tail hturned hkept (.pair hp hhead)
    rw [stitch_pair, ← hg] at hjoin
    exact ⟨pre, f, post, rfl, rfl, hjoin⟩

theorem extendHead_join {chain : Fragment} {pending : List Fragment} {next : Fragment × List Fragment}
    (h : extendHead chain pending = some next) :
    ∃ pre f post, pending = pre ++ f :: post ∧ next.2 = pre ++ post ∧ Join chain f next.1 := by
  unfold extendHead at h
  split at h
  · cases h
  · next p hp =>
    obtain ⟨⟨f, others⟩, hr, rfl⟩ := Option.map_eq_some_iff.1 h
    obtain ⟨ht, pre, post, rfl, rfl⟩ := takeTouching_some hr
    obtain ⟨g, hg, hturned, hlast⟩ := turned_to_last ht
    have hkept (hf : f.head? = f.getLast?) : g = f := hg.symm.trans (if_pos (eq_some_of_touches ht hf).2)
    have hjoin := Join.head hturned hkept (.pair hlast hp)
    rw [stitch_pair, ← hg] at hjoin
    exact ⟨pre, f, post, rfl, rfl, hjoin⟩

/-- **A step** joins one fragment to the chain. -/
theorem extend_join {chain : Fragment} {pending : List Fragment} {next : Fragment × List Fragment}
    (h : extend chain pending = some next) :
    ∃ pre f post, pending = pre ++ f :: post ∧ next.2 = pre ++ post ∧ Join chain f next.1 := by
  rcases Option.or_eq_some_iff.1 h with h | ⟨-, h⟩
  · exact extendTail_join h
  · exact extendHead_join h

/-! ## What a chain takes -/

/-- A chain of joined members that took some of the fragments, and the fragments that are left. -/
structure Takes (c : List Link) (sources : List Placed) (c' : List Link) (rest : List Placed) : Prop where
  joined : Joined (c'.map Link.run)
  keeps : ∀ l ∈ c, l ∈ c'
  sublist : rest.Sublist sources
  perm : (c'.map Link.source ++ rest).Perm (c.map Link.source ++ sources)

theorem Takes.refl {c : List Link} (h : Joined (c.map Link.run)) (sources : List Placed) : Takes c sources c sources :=
  ⟨h, fun _ hl => hl, .refl _, .refl _⟩

theorem Takes.trans {c c' c'' : List Link} {sources rest rest' : List Placed} (h : Takes c sources c' rest)
    (h' : Takes c' rest c'' rest') : Takes c sources c'' rest' :=
  ⟨h'.joined, fun l hl => h'.keeps l (h.keeps l hl), h'.sublist.trans h.sublist, h'.perm.trans h.perm⟩

theorem Takes.one {c c' : List Link} {l : Link} {pre post : List Placed} (hc : c' = c ++ [l] ∨ c' = l :: c)
    (hj : Joined (c'.map Link.run)) : Takes c (pre ++ l.source :: post) c' (pre ++ post) := by
  have hperm : c'.Perm (l :: c) := by
    rcases hc with rfl | rfl
    · exact List.perm_append_singleton l c
    · exact .refl _
  have hsource := (hperm.map Link.source).append_right (pre ++ post)
  refine ⟨hj, fun x hx => hperm.mem_iff.2 (List.mem_cons_of_mem l hx), ?_, ?_⟩
  · exact List.Sublist.append (List.Sublist.refl pre) (List.sublist_cons_self l.source post)
  · refine hsource.trans ?_
    rw [List.map_cons, List.cons_append]
    exact List.perm_middle.symm.trans (List.perm_middle.symm.append_left _)

theorem getLast?_path {c : List Link} {g : Fragment} (h : Joined (c.map Link.run))
    (hg : g ∈ (c.map Link.run).getLast?) : (path c).getLast? = g.getLast? := by
  rw [path, getLast?_stitch h, Option.mem_def.1 hg]; rfl

theorem head?_path {c : List Link} {g : Fragment} (h : Joined (c.map Link.run)) (hg : g ∈ (c.map Link.run).head?) :
    (path c).head? = g.head? := by
  cases c with
  | nil => cases hg
  | cons l c =>
    rw [List.map_cons, List.head?_cons, Option.mem_some_iff] at hg
    rw [path, List.map_cons, head?_stitch h, hg]

theorem Join.takes_one {c : List Link} {s : Placed} {pre post : List Placed} {chain : Fragment} (hc : c ≠ [])
    (hj : Joined (c.map Link.run)) (h : Join (path c) s.1 chain) :
    ∃ c', chain = path c' ∧ Takes c (pre ++ s :: post) c' (pre ++ post) := by
  cases h with
  | @tail g turned _ joined =>
    obtain ⟨p, hlast, hhead⟩ := joined.shared
    refine ⟨c ++ [⟨s, g, turned⟩], ?_, Takes.one (l := ⟨s, g, turned⟩) (Or.inl rfl) ?_⟩
    · rw [stitch_pair, path, path, List.map_append, List.map_singleton, stitch_concat (mt List.map_eq_nil_iff.1 hc)]
    · rw [List.map_append]
      exact hj.concat (joined.ne_nil g (by simp)) fun x hx => by rw [← getLast?_path hj hx, hlast, hhead]
  | @head g turned _ joined =>
    obtain ⟨p, hlast, hhead⟩ := joined.shared
    refine ⟨⟨s, g, turned⟩ :: c, ?_, Takes.one (l := ⟨s, g, turned⟩) (Or.inr rfl) ?_⟩
    · rw [stitch_pair, path, path, List.map_cons, stitch_cons (mt List.map_eq_nil_iff.1 hc) hj.ne_nil]
    · rw [List.map_cons]
      exact hj.cons (joined.ne_nil g (by simp)) fun x hx => by rw [← head?_path hj hx, hlast, hhead]

/-- **A step** takes one fragment. -/
theorem extend_takes {c : List Link} {sources : List Placed} {next : Fragment × List Fragment} (hc : c ≠ [])
    (hj : Joined (c.map Link.run)) (h : extend (path c) (sources.map Prod.fst) = some next) :
    ∃ c' rest, next = (path c', rest.map Prod.fst) ∧ Takes c sources c' rest := by
  obtain ⟨pre', f, post', heq, hrest, hjoin⟩ := extend_join h
  obtain ⟨pre, rest, rfl, rfl, hplaced⟩ := List.map_eq_append_iff.1 heq
  obtain ⟨s, post, rfl, rfl, rfl⟩ := List.map_eq_cons_iff.1 hplaced
  obtain ⟨c', hchain, htakes⟩ := hjoin.takes_one hc hj
  exact ⟨c', pre ++ post, Prod.ext hchain (hrest.trans List.map_append.symm), htakes⟩

/-! ## A whole chain, and all chains -/

/-- **Growing** takes some fragments, whatever the chain started with. -/
theorem grow_takes (c : List Link) (sources : List Placed) (hc : c ≠ []) (hj : Joined (c.map Link.run)) :
    ∃ c' rest, grow (path c) (sources.map Prod.fst) = (path c', rest.map Prod.fst) ∧ Takes c sources c' rest := by
  unfold grow
  split
  · exact ⟨c, sources, rfl, Takes.refl hj sources⟩
  · split
    · exact ⟨c, sources, rfl, Takes.refl hj sources⟩
    · rename_i next h
      obtain ⟨c₁, rest₁, rfl, ht₁⟩ := extend_takes hc hj h
      have hlen : rest₁.length + 1 = sources.length := by simpa using length_extend h
      have hc₁ : c₁ ≠ [] := by
        obtain ⟨l, hl⟩ := List.exists_mem_of_ne_nil c hc
        exact List.ne_nil_of_mem (ht₁.keeps l hl)
      obtain ⟨c₂, rest₂, hg, ht₂⟩ := grow_takes c₁ rest₁ hc₁ ht₁.joined
      exact ⟨c₂, rest₂, hg, ht₁.trans ht₂⟩
termination_by sources.length

theorem exists_firstPlace {c : List Link} (hc : c ≠ []) :
    ∃ l ∈ c, firstPlace c = l.source.2 ∧ ∀ y ∈ c, firstPlace c ≤ y.source.2 := by
  cases hm : (c.map fun l => l.source.2).min? with
  | none => exact absurd (List.map_eq_nil_iff.1 (List.min?_eq_none_iff.1 hm)) hc
  | some m =>
    obtain ⟨hmem, hle⟩ := List.min?_eq_some_iff.1 hm
    obtain ⟨l, hl, rfl⟩ := List.mem_map.1 hmem
    have hfirst : firstPlace c = l.source.2 := by rw [firstPlace, hm]; rfl
    exact ⟨l, hl, hfirst, fun y hy => hfirst ▸ hle _ (List.mem_map.2 ⟨y, hy, rfl⟩)⟩

theorem firstPlace_lt {a b : List Link} (hb : b ≠ []) (h : ∃ x ∈ a, ∀ y ∈ b, x.source.2 < y.source.2) :
    firstPlace a < firstPlace b := by
  obtain ⟨x, hx, hlt⟩ := h
  obtain ⟨-, -, -, ha⟩ := exists_firstPlace (List.ne_nil_of_mem hx)
  obtain ⟨y, hy, hyb, -⟩ := exists_firstPlace hb
  rw [hyb]
  exact Nat.lt_of_le_of_lt (ha x hx) (hlt y hy)

/-- **The chains are a partition of the fragments.** -/
theorem chains_partition (sources : List Placed) (hs : ∀ s ∈ sources, s.1 ≠ [])
    (hinc : sources.Pairwise fun a b => a.2 < b.2) :
    ∃ parts, IsPartition sources parts ∧ parts.map path = chains (sources.map Prod.fst) := by
  match sources, hs, hinc with
  | [], _, _ => exact ⟨[], ⟨.refl _, nofun, nofun, .nil⟩, by rw [List.map_nil, List.map_nil, chains]⟩
  | s :: pending, hs, hinc =>
    have hs' : ∀ t ∈ pending, t.1 ≠ [] := fun t ht => hs t (List.mem_cons_of_mem s ht)
    have hj : Joined ([Link.ofPlaced s].map Link.run) := Joined.singleton (hs s List.mem_cons_self)
    obtain ⟨c, rest, hgrow, ht⟩ := grow_takes [Link.ofPlaced s] pending (List.cons_ne_nil _ _) hj
    have hlen := ht.sublist.length_le
    obtain ⟨hlt, hinc'⟩ := List.pairwise_cons.1 hinc
    obtain ⟨parts, hp, hchains⟩ := chains_partition rest (fun t h => hs' t (ht.sublist.subset h))
      (hinc'.sublist ht.sublist)
    have hfirst : Link.ofPlaced s ∈ c := ht.keeps _ List.mem_cons_self
    refine ⟨c :: parts, ⟨?_, ?_, ?_, List.pairwise_cons.2 ⟨fun b hb => ?_, hp.increasing⟩⟩, ?_⟩
    · rw [List.flatten_cons, List.map_append]
      exact (hp.sources.append_left _).trans ht.perm
    · exact List.forall_mem_cons.2 ⟨List.ne_nil_of_mem hfirst, hp.ne_nil⟩
    · exact List.forall_mem_cons.2 ⟨ht.joined, hp.joined⟩
    · refine firstPlace_lt (hp.ne_nil b hb) ⟨_, hfirst, fun y hy => hlt _ (ht.sublist.subset ?_)⟩
      exact hp.sources.mem_iff.1 (List.mem_map_of_mem (List.mem_flatten_of_mem hb hy))
    · have hpath : path [Link.ofPlaced s] = s.1 := stitch_singleton s.1
      rw [hpath] at hgrow
      rw [List.map_cons, List.map_cons, chains, hgrow, hchains]
termination_by sources.length
decreasing_by simp only [List.length_cons]; omega

/-! ## The fragments of an input -/

theorem placed_ne_nil {fragments : List Fragment} : ∀ s ∈ placed fragments, s.1 ≠ [] := by
  intro s hs hn
  have := (List.mem_filter.1 hs).2
  rw [hn] at this
  cases this

theorem placed_increasing (fragments : List Fragment) : (placed fragments).Pairwise fun a b => a.2 < b.2 := by
  refine List.Pairwise.filter _ ?_
  rw [← List.pairwise_map (f := Prod.snd), List.zipIdx_map_snd]
  exact List.pairwise_lt_range'

theorem map_fst_placed (fragments : List Fragment) :
    (placed fragments).map Prod.fst = fragments.filter fun f => !f.isEmpty := by
  conv => rhs; rw [← List.zipIdx_map_fst 0 fragments, List.filter_map]
  rfl

theorem exists_partition (fragments : List Fragment) : ∃ parts, IsPartition (placed fragments) parts ∧
    parts.map path = chains (fragments.filter fun f => !f.isEmpty) := by
  rw [← map_fst_placed]
  exact chains_partition (placed fragments) placed_ne_nil (placed_increasing fragments)

theorem flatMap_filter_eq {α β : Type} (e : α → List β) (q : α → Bool) : ∀ {l : List α},
    (∀ x ∈ l, q x = false → e x = []) → (l.filter q).flatMap e = l.flatMap e
  | [], _ => rfl
  | x :: l, h => by
    have ih := flatMap_filter_eq e q fun y hy => h y (List.mem_cons_of_mem x hy)
    by_cases hx : q x = true
    · rw [List.filter_cons_of_pos hx, List.flatMap_cons, List.flatMap_cons, ih]
    · rw [List.filter_cons_of_neg hx, List.flatMap_cons, h x List.mem_cons_self (Bool.not_eq_true _ ▸ hx), ih]
      rfl

/-- What is the same for a fragment turned round is the same for all members and for the input. -/
theorem IsPartition.flatMap_perm {α : Type} (e : Fragment → List α) (he : e [] = [])
    (hrun : ∀ l : Link, (e l.run).Perm (e l.source.1)) {fragments : List Fragment} {parts : List (List Link)}
    (h : IsPartition (placed fragments) parts) :
    (parts.flatMap fun c => (c.map Link.run).flatMap e).Perm (fragments.flatMap e) := by
  have hruns : (parts.flatMap fun c => (c.map Link.run).flatMap e) = parts.flatten.flatMap fun l => e l.run := by
    rw [List.flatten_eq_flatMap, List.flatMap_assoc]
    simp only [List.flatMap_map, id]
  have hsources : (parts.flatten.flatMap fun l => e l.source.1) = (parts.flatten.map Link.source).flatMap (e ·.1) := by
    rw [List.flatMap_map]
  have hplaced : (placed fragments).flatMap (e ·.1) = fragments.flatMap e := by
    have hempty : ∀ f ∈ fragments, (!f.isEmpty) = false → e f = [] := fun f _ hf => by
      rw [Bool.not_eq_false'] at hf
      rw [List.isEmpty_iff.1 hf, he]
    rw [← flatMap_filter_eq e _ hempty, ← map_fst_placed, List.flatMap_map]
  rw [hruns, ← hplaced]
  refine (List.Perm.flatMap_left _ fun l _ => hrun l).trans ?_
  rw [hsources]
  exact h.sources.flatMap_right _

/-- **The chains have the segments of the input.** -/
theorem IsPartition.segments_perm {fragments : List Fragment} {parts : List (List Link)}
    (h : IsPartition (placed fragments) parts) :
    ((parts.map path).flatMap segments).Perm (fragments.flatMap segments) := by
  refine .trans ?_ (h.flatMap_perm segments rfl Link.segments_run)
  rw [List.flatMap_map]
  exact List.Perm.flatMap_left _ fun c hc => by rw [path, segments_stitch (h.joined c hc)]

/-! ## The closed rings -/

theorem not_isRing_cases {f : Fragment} (hne : f ≠ []) (h : isRing f = false) :
    f.head? ≠ f.getLast? ∨ f.length = 1 ∨ f.head? = f.getLast? ∧ 1 < f.length ∧ f.length ≤ 3 := by
  by_cases hends : f.head? = f.getLast?
  · have hpos := List.length_pos_iff.2 hne
    by_cases hone : f.length = 1
    · exact Or.inr (Or.inl hone)
    · refine Or.inr (Or.inr ⟨hends, by omega, ?_⟩)
      have hclosed : isClosed f = true := (isClosed_iff f).2 ⟨by omega, hends⟩
      rw [isRing, hclosed, Bool.true_and, decide_eq_false_iff_not, minRing] at h
      omega
  · exact Or.inl hends

/-- **Closed rings are stitched fragments**: the fragments that are not empty are partitioned into chains, each the
stitching of its members, and the rings are the chains that close with at least four locations, in the order of their
first places.  No fragment is in two chains, and no segment is in the rings more often than in the fragments. -/
theorem mergeRings_partition (fragments : List Fragment) :
    ∃ parts : List (List Link),
      IsPartition (placed fragments) parts ∧
      (parts.flatten.map fun l => l.source.2).Nodup ∧
      mergeRings fragments =
        (parts.map path).filter (fun f => 1 < f.length ∧ f.head? = f.getLast? ∧ 4 ≤ f.length) ∧
      (∀ c ∈ parts, path c ∉ mergeRings fragments →
        (path c).head? ≠ (path c).getLast? ∨ (path c).length = 1 ∨
          (path c).head? = (path c).getLast? ∧ 1 < (path c).length ∧ (path c).length ≤ 3) ∧
      ((mergeRings fragments).flatMap segments).Subperm (fragments.flatMap segments) := by
  obtain ⟨parts, hp, hchains⟩ := exists_partition fragments
  have hrings : mergeRings fragments = (parts.map path).filter isRing := by rw [hchains]; rfl
  refine ⟨parts, hp, ?_, ?_, fun c hc hno => ?_, ?_⟩
  · have hplaces : (parts.flatten.map fun l => l.source.2) = (parts.flatten.map Link.source).map Prod.snd := by
      rw [List.map_map]; rfl
    rw [hplaces, (hp.sources.map Prod.snd).nodup_iff]
    exact (List.pairwise_map.2 (placed_increasing fragments)).imp Nat.ne_of_lt
  · rw [hrings]
    refine List.filter_congr fun f _ => ?_
    rw [Bool.eq_iff_iff, isRing, Bool.and_eq_true, isClosed_iff, decide_eq_true_eq, decide_eq_true_eq, and_assoc]
    rfl
  · refine not_isRing_cases ?_ ?_
    · exact stitch_ne_nil (mt List.map_eq_nil_iff.1 (hp.ne_nil c hc)) (hp.joined c hc)
    · rw [← Bool.not_eq_true]
      intro hring
      exact hno (hrings ▸ List.mem_filter.2 ⟨List.mem_map_of_mem hc, hring⟩)
  · rw [hrings]
    exact (List.filter_sublist.flatMap segments).subperm.trans hp.segments_perm.subperm

end Fragment
end MapFeatures
