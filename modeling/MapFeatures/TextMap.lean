/-!
# TextMap — maps keyed by text, in the order of their keys

The entries are kept strictly increasing in their keys, by code points, so two maps with the same entries are equal.
-/
namespace MapFeatures

/-- A map from texts to `β` that lists its entries in the order of the keys. -/
structure TextMap (β : Type) where
  entries : List (String × β)
  increasing : entries.Pairwise (fun a b => a.1 < b.1)

namespace TextMap

variable {β : Type}

protected def empty : TextMap β := ⟨[], .nil⟩

instance : EmptyCollection (TextMap β) := ⟨TextMap.empty⟩

instance : Inhabited (TextMap β) := ⟨∅⟩

instance [DecidableEq β] : DecidableEq (TextMap β) := fun a b =>
  decidable_of_iff (a.entries = b.entries) ⟨fun h => by cases a; cases b; cases h; rfl, fun h => h ▸ rfl⟩

/-- The entries with `key` set to `value`. -/
def insertEntry (key : String) (value : β) : List (String × β) → List (String × β)
  | [] => [(key, value)]
  | e :: rest =>
    if key < e.1 then (key, value) :: e :: rest
    else if key = e.1 then (key, value) :: rest
    else e :: insertEntry key value rest

theorem mem_insertEntry {key : String} {value : β} {e : String × β} :
    ∀ {l : List (String × β)}, e ∈ insertEntry key value l → e = (key, value) ∨ e ∈ l
  | [], h => Or.inl (List.mem_singleton.1 h)
  | d :: rest, h => by
    unfold insertEntry at h
    split at h
    · exact (List.mem_cons.1 h).imp_right id
    · split at h
      · exact (List.mem_cons.1 h).imp_right (List.mem_cons_of_mem d)
      · rcases List.mem_cons.1 h with rfl | h
        · exact Or.inr List.mem_cons_self
        · exact (mem_insertEntry h).imp_right (List.mem_cons_of_mem d)

theorem lt_of_not_lt_of_ne {a b : String} (h : ¬ a < b) (hne : a ≠ b) : b < a :=
  Classical.byContradiction fun hn => hne (String.le_antisymm (String.not_lt.1 hn) (String.not_lt.1 h))

theorem increasing_insertEntry (key : String) (value : β) :
    ∀ {l : List (String × β)}, l.Pairwise (fun a b => a.1 < b.1) →
      (insertEntry key value l).Pairwise (fun a b => a.1 < b.1)
  | [], _ => List.pairwise_singleton _ _
  | d :: rest, h => by
    obtain ⟨hd, hr⟩ := List.pairwise_cons.1 h
    unfold insertEntry
    split
    · next hlt =>
      refine List.pairwise_cons.2 ⟨fun e he => ?_, h⟩
      rcases List.mem_cons.1 he with rfl | he
      · exact hlt
      · exact String.lt_trans hlt (hd e he)
    · next hlt =>
      split
      · next heq => exact List.pairwise_cons.2 ⟨fun e he => heq ▸ hd e he, hr⟩
      · next hne =>
        refine List.pairwise_cons.2 ⟨fun e he => ?_, increasing_insertEntry key value hr⟩
        rcases mem_insertEntry he with rfl | he
        · exact lt_of_not_lt_of_ne hlt hne
        · exact hd e he

/-- The map with `key` set to `value`. -/
def insert (m : TextMap β) (key : String) (value : β) : TextMap β :=
  ⟨insertEntry key value m.entries, increasing_insertEntry key value m.increasing⟩

def get? (m : TextMap β) (key : String) : Option β := m.entries.lookup key

def contains (m : TextMap β) (key : String) : Bool := (m.get? key).isSome

def size (m : TextMap β) : Nat := m.entries.length

def isEmpty (m : TextMap β) : Bool := m.entries.isEmpty

def keys (m : TextMap β) : List String := m.entries.map (·.1)

/-- The map of the pairs, of which the last one with a key counts. -/
def ofList (pairs : List (String × β)) : TextMap β := pairs.foldl (fun m p => m.insert p.1 p.2) ∅

/-- Both maps together; where both have a key, the second one counts. -/
def merge (m other : TextMap β) : TextMap β := other.entries.foldl (fun m p => m.insert p.1 p.2) m

end TextMap

/-- The tags of an element, in the order of their keys. -/
abbrev Tags := TextMap String

end MapFeatures
