import MapFeatures.Location
/-!
# Merge — chaining line fragments into closed rings

Fragments that share an end are joined greedily in their order: a chain takes the first fragment that touches its tail,
or else the first that touches its head, and turns it round if it has to.  The shared point is kept once.  Chains that
do not close, or close with fewer than four points, are dropped.
-/
namespace MapFeatures

/-- A run of locations that is to become part of a ring. -/
abbrev Fragment := List Location

namespace Fragment

/-- Whether a run of more than one location ends where it starts. -/
def isClosed (f : Fragment) : Bool := 1 < List.length f && f.head? = f.getLast?

def touches (p : Location) (f : Fragment) : Bool := f.head? = some p || f.getLast? = some p

/-- The first fragment that touches `p`, and the others. -/
def takeTouching (p : Location) : List Fragment → Option (Fragment × List Fragment)
  | [] => none
  | f :: rest =>
    if touches p f then some (f, rest)
    else (takeTouching p rest).map fun (found, others) => (found, f :: others)

theorem length_takeTouching {p : Location} : ∀ {fs : List Fragment} {f : Fragment} {rest : List Fragment},
    takeTouching p fs = some (f, rest) → rest.length + 1 = fs.length
  | [], _, _, h => nomatch h
  | g :: gs, f, rest, h => by
    unfold takeTouching at h
    split at h
    · obtain ⟨rfl, rfl⟩ := Prod.mk.inj (Option.some.inj h); rfl
    · obtain ⟨⟨found, others⟩, hr, he⟩ := Option.map_eq_some_iff.1 h
      obtain ⟨rfl, rfl⟩ := Prod.mk.inj he
      rw [List.length_cons, List.length_cons, length_takeTouching hr]

/-- The chain with the first fragment that touches its tail appended. -/
def extendTail (chain : Fragment) (pending : List Fragment) : Option (Fragment × List Fragment) :=
  match chain.getLast? with
  | none => none
  | some tail =>
    (takeTouching tail pending).map fun (next, rest) =>
      (chain ++ (if next.head? = some tail then next else next.reverse).tail, rest)

/-- The chain with the first fragment that touches its head put in front. -/
def extendHead (chain : Fragment) (pending : List Fragment) : Option (Fragment × List Fragment) :=
  match chain.head? with
  | none => none
  | some head =>
    (takeTouching head pending).map fun (previous, rest) =>
      ((if previous.getLast? = some head then previous else previous.reverse) ++ chain.tail, rest)

/-- One more fragment at the tail or, if none fits there, at the head. -/
def extend (chain : Fragment) (pending : List Fragment) : Option (Fragment × List Fragment) :=
  (extendTail chain pending).or (extendHead chain pending)

theorem exists_takeTouching_of_extend {chain : Fragment} {pending : List Fragment} {next : Fragment × List Fragment}
    (h : extend chain pending = some next) : ∃ p f, takeTouching p pending = some (f, next.2) := by
  rcases Option.or_eq_some_iff.1 h with h | ⟨-, h⟩
  · unfold extendTail at h
    split at h
    · cases h
    · obtain ⟨⟨f, rest⟩, hr, rfl⟩ := Option.map_eq_some_iff.1 h
      exact ⟨_, f, hr⟩
  · unfold extendHead at h
    split at h
    · cases h
    · obtain ⟨⟨f, rest⟩, hr, rfl⟩ := Option.map_eq_some_iff.1 h
      exact ⟨_, f, hr⟩

theorem length_extend {chain : Fragment} {pending : List Fragment} {next : Fragment × List Fragment}
    (h : extend chain pending = some next) : next.2.length + 1 = pending.length := by
  obtain ⟨p, f, hr⟩ := exists_takeTouching_of_extend h
  exact length_takeTouching hr

/-- The chain extended until it closes or nothing touches its ends, and the fragments that are left. -/
def grow (chain : Fragment) (pending : List Fragment) : Fragment × List Fragment :=
  if isClosed chain then (chain, pending)
  else
    match _h : extend chain pending with
    | none => (chain, pending)
    | some next => grow next.1 next.2
termination_by pending.length
decreasing_by have := length_extend _h; omega

theorem length_grow_le (chain : Fragment) (pending : List Fragment) :
    (grow chain pending).2.length ≤ pending.length := by
  fun_induction grow chain pending with
  | case1 => exact Nat.le_refl _
  | case2 => exact Nat.le_refl _
  | case3 chain pending hc next h ih => have := length_extend h; omega

/-- All chains in the order of their first fragments: each starts with the first fragment that is left. -/
def chains : List Fragment → List Fragment
  | [] => []
  | f :: pending =>
    (grow f pending).1 :: chains (grow f pending).2
termination_by fs => fs.length
decreasing_by
  have := length_grow_le f pending
  simp only [List.length_cons]; omega

/-- Fewest locations of a ring, the closing one included. -/
def minRing : Nat := 4

def isRing (f : Fragment) : Bool := isClosed f && minRing ≤ List.length f

/-- **The closed rings** that the fragments chain up to. -/
def mergeRings (fragments : List Fragment) : List Fragment :=
  (chains (fragments.filter fun f => !f.isEmpty)).filter isRing

end Fragment
end MapFeatures
