import Mathlib.Data.List.AList
import Mathlib.Data.List.Dedup
import Mathlib.Data.List.Induction
import Mathlib.Data.List.Perm.Subperm

/-!
# Maps in which the last write wins

A map is built from a list of entries by inserting each under its key.  When
the entries come out of a hashed set, their order is not determined; what a
reader of the map sees is determined exactly when entries with equal keys look
the same to that reader.
-/

namespace BlockchainDataCollection.LastWrite

section Iteration

variable {α : Type*}

/-- A list in which the elements of a hashed set, built from `objects`, may be
visited: each value occurs, and no more often than it was added. -/
structure SetIteration (objects order : List α) : Prop where
  complete : objects ⊆ order
  subperm : List.Subperm order objects

namespace SetIteration

variable {objects order : List α}

theorem mem_iff (h : SetIteration objects order) {x : α} : x ∈ order ↔ x ∈ objects :=
  ⟨fun hx => h.subperm.subset hx, fun hx => h.complete hx⟩

/-- Every permutation of the distinct values is a possible order. -/
theorem of_perm_dedup [DecidableEq α] (h : List.Perm order objects.dedup) :
    SetIteration objects order where
  complete := fun _ hx => h.mem_iff.mpr (List.mem_dedup.mpr hx)
  subperm := h.subperm.trans (List.dedup_sublist objects).subperm

/-- Any value may be visited last. -/
theorem exists_last [DecidableEq α] {x : α} (hx : x ∈ objects) :
    ∃ before, SetIteration objects (before ++ [x]) := by
  refine ⟨objects.dedup.erase x, of_perm_dedup ?_⟩
  have hperm := List.perm_cons_erase (List.mem_dedup.mpr hx)
  exact (List.perm_append_singleton x _).trans hperm.symm

end SetIteration

end Iteration

section Index

variable {κ α : Type*} [DecidableEq κ] (key : α → κ)

def index (entries : List α) : AList fun _ : κ => α :=
  entries.foldl (fun table entry => table.insert (key entry) entry) ∅

@[simp]
theorem index_concat (entries : List α) (last : α) :
    index key (entries ++ [last]) = (index key entries).insert (key last) last := by
  rw [index, List.foldl_append]
  rfl

theorem lookup_index_concat (entries : List α) (last : α) :
    (index key (entries ++ [last])).lookup (key last) = some last := by
  rw [index_concat, AList.lookup_insert]

/-- What is found under a key was entered under that key. -/
theorem mem_of_lookup_index {entries : List α} {k : κ} {found : α}
    (h : (index key entries).lookup k = some found) : found ∈ entries ∧ key found = k := by
  induction entries using List.reverseRecOn with
  | nil =>
      rw [index, List.foldl_nil, AList.lookup_empty] at h
      cases h
  | append_singleton entries last ih =>
      rw [index_concat] at h
      by_cases hk : k = key last
      · subst hk
        rw [AList.lookup_insert, Option.some.injEq] at h
        subst h
        exact ⟨by simp, rfl⟩
      · rw [AList.lookup_insert_ne hk] at h
        obtain ⟨hmem, hkey⟩ := ih h
        exact ⟨List.mem_append_left _ hmem, hkey⟩

/-- Every key that was entered is found. -/
theorem exists_lookup_index {entries : List α} {entry : α} (h : entry ∈ entries) :
    ∃ found, (index key entries).lookup (key entry) = some found := by
  induction entries using List.reverseRecOn with
  | nil => cases h
  | append_singleton entries last ih =>
      rw [index_concat]
      by_cases hk : key entry = key last
      · exact ⟨last, by rw [hk, AList.lookup_insert]⟩
      · have hentry : entry ∈ entries := by
          rcases List.mem_append.mp h with hmem | hlast
          · exact hmem
          · exact absurd (congrArg key (List.mem_singleton.mp hlast)) hk
        rw [AList.lookup_insert_ne hk]
        exact ih hentry

theorem lookup_index_eq_none_iff {entries : List α} {k : κ} :
    (index key entries).lookup k = none ↔ ∀ entry ∈ entries, key entry ≠ k := by
  constructor
  · intro hnone entry hentry hkey
    obtain ⟨found, hfound⟩ := exists_lookup_index key hentry
    rw [hkey, hnone] at hfound
    cases hfound
  · intro hkeys
    cases hfound : (index key entries).lookup k with
    | none => rfl
    | some found =>
        obtain ⟨hmem, hkey⟩ := mem_of_lookup_index key hfound
        exact absurd hkey (hkeys found hmem)

variable {β : Type*} (observe : α → β)

/-- Entries under one key look the same. -/
def Agree (entries : List α) : Prop :=
  ∀ left ∈ entries, ∀ right ∈ entries, key left = key right → observe left = observe right

/-- When the entries agree, the map looks the same in every order. -/
theorem lookup_eq_of_agree {objects left right : List α} (hagree : Agree key observe objects)
    (hleft : SetIteration objects left) (hright : SetIteration objects right) (k : κ) :
    ((index key left).lookup k).map observe = ((index key right).lookup k).map observe := by
  cases hl : (index key left).lookup k with
  | none =>
      have hkeys := (lookup_index_eq_none_iff key).mp hl
      have hr : (index key right).lookup k = none :=
        (lookup_index_eq_none_iff key).mpr fun entry hentry =>
          hkeys entry (hleft.mem_iff.mpr (hright.mem_iff.mp hentry))
      rw [hr]
  | some found =>
      obtain ⟨hmem, hkey⟩ := mem_of_lookup_index key hl
      have hobject : found ∈ objects := hleft.mem_iff.mp hmem
      obtain ⟨other, hother⟩ := exists_lookup_index key (hright.mem_iff.mpr hobject)
      rw [hkey] at hother
      obtain ⟨hmem', hkey'⟩ := mem_of_lookup_index key hother
      rw [hother, Option.map_some, Option.map_some]
      exact congrArg some
        (hagree found hobject other (hright.mem_iff.mp hmem') (hkey.trans hkey'.symm))

end Index

end BlockchainDataCollection.LastWrite
