import MapFeatures.Proofs.Ring.OpenChains
/-!
# ClosedFragments — what becomes of fragments that are rings already

A chain takes whatever touches its ends, closed fragments too, but those it takes whole and as they are.  So a ring
stays as it is unless a chain that began before it comes to its first location (`grow_leaves_or_takes`), which it does
only if an open fragment ends there (`Reached.stitch`).
-/
namespace MapFeatures
namespace Fragment

/-! ## Two runs stitched -/

theorem within_stitch_pair {a b : Fragment} (h : Joined [a, b]) : a <:+: stitch [a, b] ∧ b <:+: stitch [a, b] := by
  refine ⟨(List.prefix_append a _).isInfix, ?_⟩
  rw [stitch_cons_dropLast h, stitch_singleton]
  exact (List.suffix_append a.dropLast b).isInfix

/-- Whether an open fragment of these ends at a location. -/
def OpenEnd (fs : List Fragment) (p : Location) : Prop := ∃ h ∈ fs, isOpen h = true ∧ p ∈ ends h

instance (fs : List Fragment) (p : Location) : Decidable (OpenEnd fs p) :=
  inferInstanceAs (Decidable (∃ h ∈ fs, isOpen h = true ∧ p ∈ ends h))

/-- Whether a run has its ends where open fragments have theirs, if it is open itself. -/
def Reached (fs : List Fragment) (run : Fragment) : Prop := isOpen run = true → ∀ p ∈ ends run, OpenEnd fs p

theorem Reached.turned {fs : List Fragment} {f g : Fragment} (h : Reached fs f) (hg : g = f ∨ g = f.reverse) :
    Reached fs g := by
  rcases hg with rfl | rfl
  · exact h
  · intro hopen p hp
    refine h ?_ p ((ends_reverse_perm f).mem_iff.1 hp)
    rw [isOpen_iff, List.length_reverse, List.head?_reverse, List.getLast?_reverse] at hopen
    exact (isOpen_iff f).2 ⟨hopen.1, hopen.2.symm⟩

/-- **Stitching** brings no other ends: a run that is not open ends where it starts. -/
theorem Reached.stitch {fs : List Fragment} {a b : Fragment} (ha : Reached fs a) (hb : Reached fs b)
    (h : Joined [a, b]) : Reached fs (stitch [a, b]) := by
  have hmeets : a.getLast? = b.head? := (List.isChain_cons_cons.1 h.meets).1
  have hhead := head?_stitch h
  have hlast : (Fragment.stitch [a, b]).getLast? = b.getLast? := getLast?_stitch h
  intro hopen p hp
  have hne := ((isOpen_iff _).1 hopen).2
  rw [hhead, hlast] at hne
  rw [mem_ends_iff, hhead, hlast] at hp
  cases haopen : isOpen a with
  | true =>
    cases hbopen : isOpen b with
    | true =>
      rcases hp with hp | hp
      · exact ha haopen p (mem_ends_iff.2 (.inl hp))
      · exact hb hbopen p (mem_ends_iff.2 (.inr hp))
    | false =>
      rw [← head?_eq_getLast?_of_not_isOpen hbopen, ← hmeets] at hp
      exact ha haopen p (mem_ends_iff.2 hp)
  | false =>
    rw [head?_eq_getLast?_of_not_isOpen haopen, hmeets] at hne hp
    have hbopen : isOpen b = true := by
      rw [← Bool.not_eq_false]
      exact fun hb => hne (head?_eq_getLast?_of_not_isOpen hb)
    exact hb hbopen p (mem_ends_iff.2 hp)

/-! ## One step -/

theorem Join.within {chain f c : Fragment} (h : Join chain f c) : chain <:+: c := by
  cases h with
  | tail _ _ joined => exact (within_stitch_pair joined).1
  | head _ _ joined => exact (within_stitch_pair joined).2

end Fragment
end MapFeatures
