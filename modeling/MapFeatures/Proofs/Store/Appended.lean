import Mathlib.Data.List.Induction
import MapFeatures.Proofs.Store.Reuse
import MapFeatures.Proofs.Store.WayLists
/-!
# Appended — way lists are found as if they had never been sorted

`appended` are the entries that some calls leave, in the order they were appended.  A store that `Keeps` them has them
in another order at most, those of one relation in the same; appending and sorting leave it so in whatever order they
are called (`Keeps.reply`).  The first entry of a relation is therefore found by either search (`found_as_appended`).
-/
namespace MapFeatures
namespace WayListStore

/-- What a call makes of the entries that were appended before. -/
def appendedBy (entries : List WayLists) : WayListCall → List WayLists
  | .append batch => entries ++ batch
  | .clear => []
  | .reopen => []
  | _ => entries

/-- The entries appended since the store was last emptied, in the order they came in. -/
def appended (calls : List WayListCall) : List WayLists := calls.foldl appendedBy []

/-- Whether a store has some entries, with those of one relation in their order, and is in order if it counts as
sorted. -/
structure Keeps (s : WayListStore) (entries : List WayLists) : Prop where
  sound : s.Sound
  perm : s.toList.Perm entries
  stable : ∀ relation, s.toList.filter (·.relation = relation) = entries.filter (·.relation = relation)

variable {s : WayListStore} {entries : List WayLists}

theorem keeps_nil (h : s.entries = #[]) : s.Keeps [] := by
  have hnone : s.toList = [] := by rw [toList, h]
  refine ⟨fun _ => ?_, by rw [hnone], fun relation => by rw [hnone]⟩
  rw [hnone]
  exact List.Pairwise.nil

theorem Keeps.append (h : s.Keeps entries) (batch : List WayLists) : (s.append batch).Keeps (entries ++ batch) where
  sound := h.sound.append batch
  perm := by
    rw [toList_append]
    exact h.perm.append_right batch
  stable relation := by rw [toList_append, List.filter_append, List.filter_append, h.stable]

theorem Keeps.sort (h : s.Keeps entries) : s.sort.Keeps entries where
  sound _ := h.sound.sort.1
  perm := s.toList_sort_perm.trans h.perm
  stable relation := (h.sound.sort.2.2 relation).trans (h.stable relation)

/-- **Every call leaves what was appended**, whether the store is sorted or not. -/
theorem Keeps.reply (h : s.Keeps entries) (c : WayListCall) : (s.reply c).2.Keeps (appendedBy entries c) := by
  cases c with
  | append batch => exact h.append batch
  | sort => exact h.sort
  | clear => exact keeps_nil rfl
  | reopen => exact keeps_nil rfl
  | find relation => exact h
  | snapshot => exact h
  | size => exact h

theorem Keeps.stateAfter : ∀ (calls : List WayListCall) {s : WayListStore} {entries : List WayLists},
    s.Keeps entries → (stateAfter WayListStore.reply s calls).Keeps (calls.foldl appendedBy entries)
  | [], _, _, h => h
  | c :: calls, _, _, h => Keeps.stateAfter calls (h.reply c)

theorem Keeps.find?_eq (h : s.Keeps entries) (relation : RelationId) :
    s.find? relation = entries.find? (·.relation = relation) := by
  rw [h.sound.find?_eq, ← List.head?_filter, ← List.head?_filter, h.stable]

/-- **Way lists are found as they were appended**: after any calls the first entry of a relation is found that was
appended since the store was last emptied.  It counts as sorted only if it is in order, and it has just these entries,
those of one relation in the order they came in. -/
theorem found_as_appended (calls : List WayListCall) :
    let s := stateAfter reply empty calls
    (∀ relation, s.find? relation = (appended calls).find? (·.relation = relation)) ∧
      (s.sorted = true → Ordered s.toList) ∧ s.toList.Perm (appended calls) ∧
      ∀ relation, s.toList.filter (·.relation = relation) = (appended calls).filter (·.relation = relation) := by
  intro s
  have h : s.Keeps (appended calls) := Keeps.stateAfter calls (keeps_nil rfl)
  exact ⟨h.find?_eq, h.sound, h.perm, h.stable⟩

end WayListStore
end MapFeatures
