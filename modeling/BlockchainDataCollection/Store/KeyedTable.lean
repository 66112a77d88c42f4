import Mathlib

/-!
# Tables that keep the first row of each key

`INSERT … ON CONFLICT DO NOTHING` keeps the row that is already there.  A
table without a primary key never has a conflict, so the key is optional.  As
a multiset of rows such a table is determined by its keyless rows and by the
first row written under each key; every result below is read off from these.
-/

namespace BlockchainDataCollection.KeyedTable

variable {R K : Type}

/-- Rows whose keys, where they have one, are pairwise different. -/
structure Table (key : R → Option K) where
  rows : List R
  nodup : (rows.filterMap key).Nodup

variable {key : R → Option K}

namespace Table

def empty : Table key := ⟨[], List.nodup_nil⟩

/-- The key of `row` is taken. -/
def Conflicts (table : Table key) (row : R) : Prop :=
  ∃ k, key row = some k ∧ k ∈ table.rows.filterMap key

/-- Two tables with the same rows, in whatever order they were written. -/
def Same (left right : Table key) : Prop :=
  left.rows.Perm right.rows

@[refl]
theorem Same.refl (table : Table key) : table.Same table := List.Perm.refl _

theorem Same.symm {left right : Table key} (h : left.Same right) : right.Same left :=
  List.Perm.symm h

theorem Same.trans {first second third : Table key} (h : first.Same second)
    (h' : second.Same third) : first.Same third :=
  List.Perm.trans h h'

variable [DecidableEq K]

instance (table : Table key) (row : R) : Decidable (table.Conflicts row) :=
  match h : key row with
  | none => isFalse (by simp [Conflicts, h])
  | some k => decidable_of_iff (k ∈ table.rows.filterMap key) (by simp [Conflicts, h])

omit [DecidableEq K] in
private theorem nodup_append_of_not_conflicts (table : Table key) (row : R)
    (hrow : ¬ table.Conflicts row) :
    ((table.rows ++ [row]).filterMap key).Nodup := by
  rw [List.filterMap_append]
  cases hkey : key row with
  | none => simpa [hkey] using table.nodup
  | some k =>
      have hk : k ∉ table.rows.filterMap key := fun hmem => hrow ⟨k, hkey, hmem⟩
      have hsingle : List.filterMap key [row] = [k] := by simp [hkey]
      rw [hsingle]
      exact List.nodup_append.mpr ⟨table.nodup, List.nodup_singleton k, by
        intro other hother _ hk' heq
        rw [List.mem_singleton] at hk'
        exact hk (hk' ▸ heq ▸ hother)⟩

/-- `INSERT … ON CONFLICT DO NOTHING`. -/
def insertNew (table : Table key) (row : R) : Table key :=
  if h : table.Conflicts row then table
  else ⟨table.rows ++ [row], nodup_append_of_not_conflicts table row h⟩

def insertAll (table : Table key) (rows : List R) : Table key :=
  rows.foldl insertNew table

@[simp]
theorem insertAll_nil (table : Table key) : table.insertAll [] = table := rfl

theorem insertAll_cons (table : Table key) (row : R) (rows : List R) :
    table.insertAll (row :: rows) = (table.insertNew row).insertAll rows := rfl

theorem insertAll_append (table : Table key) (first second : List R) :
    table.insertAll (first ++ second) = (table.insertAll first).insertAll second :=
  List.foldl_append

theorem rows_insertNew_of_conflicts {table : Table key} {row : R}
    (h : table.Conflicts row) : table.insertNew row = table :=
  dif_pos h

theorem rows_insertNew_of_not_conflicts {table : Table key} {row : R}
    (h : ¬ table.Conflicts row) : (table.insertNew row).rows = table.rows ++ [row] := by
  rw [insertNew, dif_neg h]

/-- Nothing is ever deleted, and nothing but the inserted row appears. -/
theorem mem_insertNew_iff {table : Table key} {row other : R} :
    other ∈ (table.insertNew row).rows ↔
      other ∈ table.rows ∨ other = row ∧ ¬ table.Conflicts row := by
  by_cases h : table.Conflicts row
  · simp [rows_insertNew_of_conflicts h, h]
  · simp [rows_insertNew_of_not_conflicts h, h]

theorem mem_of_mem_insertAll {table : Table key} {rows : List R} {row : R}
    (h : row ∈ (table.insertAll rows).rows) : row ∈ table.rows ∨ row ∈ rows := by
  induction rows generalizing table with
  | nil => exact .inl h
  | cons first rows ih =>
      rcases ih h with h | h
      · rcases mem_insertNew_iff.mp h with h | ⟨rfl, _⟩
        · exact .inl h
        · exact .inr List.mem_cons_self
      · exact .inr (List.mem_cons_of_mem _ h)

theorem rows_prefix_insertNew (table : Table key) (row : R) :
    table.rows <+: (table.insertNew row).rows := by
  by_cases h : table.Conflicts row
  · rw [rows_insertNew_of_conflicts h]
  · rw [rows_insertNew_of_not_conflicts h]
    exact List.prefix_append _ _

theorem rows_prefix_insertAll (table : Table key) (rows : List R) :
    table.rows <+: (table.insertAll rows).rows := by
  induction rows generalizing table with
  | nil => exact List.prefix_refl _
  | cons row rows ih => exact (table.rows_prefix_insertNew row).trans (ih _)

/-- The row is there, or another one has its key. -/
def Holds (table : Table key) (row : R) : Prop :=
  row ∈ table.rows ∨ table.Conflicts row

theorem Holds.insertAll {table : Table key} {row : R} (h : table.Holds row) (rows : List R) :
    (table.insertAll rows).Holds row := by
  have hkept := table.rows_prefix_insertAll rows
  rcases h with hrow | ⟨k, hk, htaken⟩
  · exact .inl (hkept.subset hrow)
  · exact .inr ⟨k, hk, (hkept.filterMap key).subset htaken⟩

/-- Whatever was inserted is held from then on. -/
theorem holds_insertAll {table : Table key} {rows : List R} {row : R} (h : row ∈ rows) :
    (table.insertAll rows).Holds row := by
  induction rows generalizing table with
  | nil => cases h
  | cons first rows ih =>
      rw [insertAll_cons]
      rcases List.mem_cons.mp h with rfl | h
      · apply Holds.insertAll
        by_cases hconflict : table.Conflicts row
        · rw [rows_insertNew_of_conflicts hconflict]
          exact .inr hconflict
        · exact .inl (mem_insertNew_iff.mpr (.inr ⟨rfl, hconflict⟩))
      · exact ih h

/-- Inserting rows changes nothing exactly when all of their keys are taken. -/
theorem insertAll_eq_self_iff {table : Table key} {rows : List R} :
    table.insertAll rows = table ↔ ∀ row ∈ rows, table.Conflicts row := by
  induction rows with
  | nil => simp
  | cons row rows ih =>
      rw [insertAll_cons, List.forall_mem_cons]
      by_cases h : table.Conflicts row
      · rw [rows_insertNew_of_conflicts h, ih, and_iff_right h]
      · refine iff_of_false (fun heq => ?_) fun hall => h hall.1
        have hlength := ((table.insertNew row).rows_prefix_insertAll rows).length_le
        rw [heq, rows_insertNew_of_not_conflicts h, List.length_append] at hlength
        simp at hlength

/-! ## Lookups and keyless rows determine a table -/

/-- The first row of a list written under a key. -/
def firstWith (key : R → Option K) (k : K) (rows : List R) : Option R :=
  rows.find? fun row => key row = some k

/-- The rows that no constraint protects. -/
def keyless (key : R → Option K) (rows : List R) : List R :=
  rows.filter fun row => key row = none

def lookup (table : Table key) (k : K) : Option R :=
  firstWith key k table.rows

theorem key_of_firstWith {k : K} {rows : List R} {row : R}
    (h : firstWith key k rows = some row) : key row = some k := by
  simpa using List.find?_some h

theorem mem_of_firstWith {k : K} {rows : List R} {row : R}
    (h : firstWith key k rows = some row) : row ∈ rows :=
  List.mem_of_find?_eq_some h

theorem firstWith_eq_none_iff {k : K} {rows : List R} :
    firstWith key k rows = none ↔ ∀ row ∈ rows, key row ≠ some k := by
  simp [firstWith]

/-- Where a key leads to one row only, the first row is that row. -/
theorem firstWith_eq_some_iff_mem {k : K} {rows : List R} {row : R} (hrow : key row = some k)
    (hunique : ∀ other ∈ rows, key other = some k → other = row) :
    firstWith key k rows = some row ↔ row ∈ rows := by
  refine ⟨mem_of_firstWith, fun hmem => ?_⟩
  cases hfirst : firstWith key k rows with
  | none => exact absurd hrow (firstWith_eq_none_iff.mp hfirst row hmem)
  | some found =>
      rw [hunique found (mem_of_firstWith hfirst) (key_of_firstWith hfirst)]

/-- A selection that depends on the key alone keeps the first row of a key it
selects. -/
theorem firstWith_of_firstWith_filter {k : K} {rows : List R} {row : R} {keep : R → Bool}
    (hkeep : ∀ left right, key left = some k → key right = some k → keep left = keep right)
    (h : firstWith key k (rows.filter keep) = some row) : firstWith key k rows = some row := by
  have hrow : keep row = true := (List.mem_filter.mp (mem_of_firstWith h)).2
  have hkey := key_of_firstWith h
  rw [← h, firstWith, firstWith, List.find?_filter]
  congr
  funext other
  by_cases hother : key other = some k
  · simp [hkeep other row hother hkey, hrow]
  · simp [hother]

theorem firstWith_append (k : K) (first second : List R) :
    firstWith key k (first ++ second) =
      (firstWith key k first).or (firstWith key k second) :=
  List.find?_append

theorem firstWith_flatMap {I : Type} (k : K) (items : List I) (rowsOf : I → List R) :
    firstWith key k (items.flatMap rowsOf) =
      items.findSome? fun item => firstWith key k (rowsOf item) :=
  List.find?_flatMap

theorem conflicts_iff {table : Table key} {row : R} :
    table.Conflicts row ↔ ∃ k, key row = some k ∧ table.lookup k ≠ none := by
  simp only [Conflicts, lookup, ne_eq, firstWith_eq_none_iff, List.mem_filterMap, not_forall,
    not_not, exists_prop]

theorem lookup_insertNew (table : Table key) (row : R) (k : K) :
    (table.insertNew row).lookup k = (table.lookup k).or (firstWith key k [row]) := by
  by_cases h : table.Conflicts row
  · rw [rows_insertNew_of_conflicts h]
    obtain ⟨k', hrow, htaken⟩ := conflicts_iff.mp h
    by_cases hk : k = k'
    · subst k'
      obtain ⟨old, hold⟩ := Option.ne_none_iff_exists'.mp htaken
      rw [hold, Option.some_or]
    · have hother : firstWith key k [row] = none := by
        rw [firstWith_eq_none_iff]
        simpa [hrow] using fun heq => hk heq.symm
      rw [hother, Option.or_none]
  · rw [lookup, rows_insertNew_of_not_conflicts h, firstWith_append]
    rfl

/-- A key ends up with the row it had, else with the first row written. -/
theorem lookup_insertAll (table : Table key) (rows : List R) (k : K) :
    (table.insertAll rows).lookup k = (table.lookup k).or (firstWith key k rows) := by
  induction rows generalizing table with
  | nil => simp [firstWith]
  | cons row rows ih =>
      rw [insertAll_cons, ih, lookup_insertNew, Option.or_assoc, ← firstWith_append]
      rfl

theorem keyless_insertAll (table : Table key) (rows : List R) :
    keyless key (table.insertAll rows).rows =
      keyless key table.rows ++ keyless key rows := by
  induction rows generalizing table with
  | nil => simp [keyless]
  | cons row rows ih =>
      have hstep : keyless key (table.insertNew row).rows =
          keyless key table.rows ++ keyless key [row] := by
        by_cases h : table.Conflicts row
        · obtain ⟨k, hrow, _⟩ := h
          rw [rows_insertNew_of_conflicts ⟨k, hrow, ‹_›⟩]
          simp [keyless, hrow]
        · rw [rows_insertNew_of_not_conflicts h]
          exact List.filter_append ..
      rw [insertAll_cons, ih, hstep, List.append_assoc]
      exact congrArg _ (List.filter_append ..).symm

omit [DecidableEq K] in
/-- A primary key identifies its row. -/
theorem eq_of_key_eq {table : Table key} {left right : R} {k : K}
    (hleft : left ∈ table.rows) (hright : right ∈ table.rows)
    (hkleft : key left = some k) (hkright : key right = some k) : left = right := by
  by_contra hne
  have hpair := List.pairwise_filterMap.mp table.nodup
  have : Std.Symm fun a b : R => ∀ x, key a = some x → ∀ y, key b = some y → x ≠ y :=
    ⟨fun a b h x hx y hy heq => h y hy x hx heq.symm⟩
  exact hpair.forall hleft hright hne k hkleft k hkright rfl

theorem mem_rows_iff_lookup {table : Table key} {row : R} {k : K} (hrow : key row = some k) :
    row ∈ table.rows ↔ table.lookup k = some row := by
  constructor
  · intro hmem
    obtain ⟨found, hfound⟩ : ∃ found, table.lookup k = some found :=
      Option.ne_none_iff_exists'.mp fun hnone =>
        firstWith_eq_none_iff.mp hnone row hmem hrow
    rw [hfound, eq_of_key_eq hmem (mem_of_firstWith hfound) hrow (key_of_firstWith hfound)]
  · exact mem_of_firstWith

/-- A row is there afterwards when it was there before, or when it was the
first row written under a free key. -/
theorem mem_insertAll_iff {table : Table key} {rows : List R} {row : R} {k : K}
    (hrow : key row = some k) :
    row ∈ (table.insertAll rows).rows ↔
      row ∈ table.rows ∨ table.lookup k = none ∧ firstWith key k rows = some row := by
  rw [mem_rows_iff_lookup hrow, mem_rows_iff_lookup hrow, lookup_insertAll]
  cases table.lookup k with
  | none => simp
  | some old => simp

omit [DecidableEq K] in
private theorem perm_keyed_append_keyless (rows : List R) :
    rows.Perm ((rows.filter fun row => ¬ key row = none) ++ keyless key rows) := by
  simpa [keyless] using
    (List.filter_append_perm (fun row => ¬ key row = none) rows).symm

omit [DecidableEq K] in
private theorem nodup_keyed (table : Table key) :
    (table.rows.filter fun row => ¬ key row = none).Nodup := by
  have hpair := List.pairwise_filterMap.mp table.nodup
  rw [List.Nodup, List.pairwise_filter]
  refine hpair.imp ?_
  intro left right hne hleft _ heq
  obtain ⟨k, hk⟩ := Option.ne_none_iff_exists'.mp (of_decide_eq_true hleft)
  exact hne k hk k (heq ▸ hk) rfl

omit [DecidableEq K] in
/-- Rows that all have a key are pairwise different. -/
theorem nodup_rows {table : Table key} (hkey : ∀ row ∈ table.rows, key row ≠ none) :
    table.rows.Nodup := by
  have hkeyed := table.nodup_keyed
  rwa [List.filter_eq_self.mpr fun row hrow => decide_eq_true (hkey row hrow)] at hkeyed

/-- From an empty table, a row that no other row shares its key with is written. -/
theorem mem_insertAll_iff_of_unique {table : Table key} (hempty : table.rows = [])
    {rows : List R} {row : R} {k : K} (hrow : key row = some k)
    (hunique : ∀ other ∈ rows, key other = some k → other = row) :
    row ∈ (table.insertAll rows).rows ↔ row ∈ rows := by
  have hlookup : table.lookup k = none := by simp [lookup, hempty, firstWith]
  rw [mem_insertAll_iff hrow, hempty, firstWith_eq_some_iff_mem hrow hunique]
  simp [hlookup]

/-- Two tables are the same multiset of rows exactly when their keyless rows
are and every key leads to the same row. -/
theorem same_iff {left right : Table key} :
    left.Same right ↔
      (keyless key left.rows).Perm (keyless key right.rows) ∧
        ∀ k, left.lookup k = right.lookup k := by
  constructor
  · intro h
    refine ⟨h.filter _, fun k => Option.ext fun row => ?_⟩
    constructor
    · intro hrow
      have hkey := key_of_firstWith hrow
      exact (mem_rows_iff_lookup hkey).mp (h.mem_iff.mp ((mem_rows_iff_lookup hkey).mpr hrow))
    · intro hrow
      have hkey := key_of_firstWith hrow
      exact (mem_rows_iff_lookup hkey).mp (h.mem_iff.mpr ((mem_rows_iff_lookup hkey).mpr hrow))
  · rintro ⟨hkeyless, hlookup⟩
    have hkeyed : (left.rows.filter fun row => ¬ key row = none).Perm
        (right.rows.filter fun row => ¬ key row = none) := by
      refine (List.perm_ext_iff_of_nodup (nodup_keyed left) (nodup_keyed right)).mpr ?_
      intro row
      simp only [List.mem_filter, decide_eq_true_eq]
      refine and_congr_left fun hrow => ?_
      obtain ⟨k, hk⟩ := Option.ne_none_iff_exists'.mp hrow
      rw [mem_rows_iff_lookup hk, mem_rows_iff_lookup hk, hlookup]
    exact (perm_keyed_append_keyless left.rows).trans
      ((hkeyed.append hkeyless).trans (perm_keyed_append_keyless right.rows).symm)

/-- A row that is new after an insertion was the first one of its key, and no
row of its key is among rows that were held before. -/
theorem firstWith_append_of_mem_insertAll {table : Table key} {held rows : List R} {row : R}
    (hheld : ∀ other ∈ held, table.Holds other) (hnew : row ∉ table.rows)
    (hrow : row ∈ (table.insertAll rows).rows) :
    row ∈ rows ∧ ∀ k, key row = some k → firstWith key k (held ++ rows) = some row := by
  refine ⟨(mem_of_mem_insertAll hrow).resolve_left hnew, fun k hk => ?_⟩
  obtain ⟨hfree, hfirst⟩ := ((mem_insertAll_iff hk).mp hrow).resolve_left hnew
  have hnone : firstWith key k held = none := by
    rw [firstWith_eq_none_iff]
    intro other hother hkey
    rcases hheld other hother with hmem | hconflict
    · exact firstWith_eq_none_iff.mp hfree other hmem hkey
    · obtain ⟨k', hk', htaken⟩ := conflicts_iff.mp hconflict
      obtain rfl := Option.some.inj (hkey.symm.trans hk')
      exact htaken hfree
  rw [firstWith_append, hnone, Option.none_or, hfirst]

/-! ## Writing twice, in another order, or in another interleaving -/

/-- The tables that two lists of rows lead to, compared. -/
theorem insertAll_same_iff {table : Table key} {left right : List R} :
    (table.insertAll left).Same (table.insertAll right) ↔
      (keyless key left).Perm (keyless key right) ∧
        ∀ k, table.lookup k = none → firstWith key k left = firstWith key k right := by
  simp only [same_iff, keyless_insertAll, lookup_insertAll, List.perm_append_left_iff]
  refine and_congr_right fun _ => forall_congr' fun k => ?_
  cases table.lookup k with
  | none => simp
  | some old => simp

/-- Writing the same rows again changes nothing exactly when each of them has a
key. -/
theorem insertAll_twice_same_iff {table : Table key} {rows : List R} :
    ((table.insertAll rows).insertAll rows).Same (table.insertAll rows) ↔
      ∀ row ∈ rows, key row ≠ none := by
  rw [← insertAll_append, insertAll_same_iff]
  have hkeyless : (keyless key (rows ++ rows)).Perm (keyless key rows) ↔
      keyless key rows = [] := by
    rw [keyless, List.filter_append]
    constructor
    · intro h
      have hlength := h.length_eq
      rw [List.length_append] at hlength
      exact List.eq_nil_of_length_eq_zero (by unfold keyless at *; omega)
    · intro h
      rw [keyless] at h
      simp [h, keyless]
  rw [hkeyless]
  have hfirst : ∀ k, firstWith key k (rows ++ rows) = firstWith key k rows := by
    intro k
    rw [firstWith_append, Option.or_self]
  simp [hfirst, keyless]

theorem firstWith_eq_of_perm {k : K} {left right : List R} (hperm : left.Perm right)
    (hagree : ∀ a b, firstWith key k left = some a → firstWith key k right = some b → a = b) :
    firstWith key k left = firstWith key k right := by
  cases hleft : firstWith key k left with
  | none =>
      rw [eq_comm, firstWith_eq_none_iff]
      intro row hrow
      exact firstWith_eq_none_iff.mp hleft row (hperm.mem_iff.mpr hrow)
  | some a =>
      cases hright : firstWith key k right with
      | none =>
          exact absurd (key_of_firstWith hleft)
            (firstWith_eq_none_iff.mp hright a (hperm.mem_iff.mp (mem_of_firstWith hleft)))
      | some b => rw [hagree a b hleft hright]

/-- Two arrangements of the same rows agree when they agree on the first row
of every key. -/
theorem insertAll_same_of_perm {table : Table key} {left right : List R}
    (hperm : left.Perm right)
    (hagree : ∀ k a b, firstWith key k left = some a → firstWith key k right = some b → a = b) :
    (table.insertAll left).Same (table.insertAll right) :=
  insertAll_same_iff.mpr
    ⟨hperm.filter _, fun k _ => firstWith_eq_of_perm hperm (hagree k)⟩

/-- Batches of rows may be written in any order exactly when any two batches
that write the same free key write the same first row under it. -/
theorem insertAll_flatMap_same_iff {I : Type} [DecidableEq I] {table : Table key}
    {items : List I} {rowsOf : I → List R} :
    (∀ left right : List I, left.Perm items → right.Perm items →
        (table.insertAll (left.flatMap rowsOf)).Same (table.insertAll (right.flatMap rowsOf))) ↔
      ∀ i ∈ items, ∀ j ∈ items, ∀ k a b, table.lookup k = none →
        firstWith key k (rowsOf i) = some a → firstWith key k (rowsOf j) = some b → a = b := by
  constructor
  · intro h i hi j hj k a b hfree ha hb
    have hsame := h (i :: items.erase i) (j :: items.erase j)
      (List.perm_cons_erase hi).symm (List.perm_cons_erase hj).symm
    have hfirst := (insertAll_same_iff.mp hsame).2 k hfree
    simpa [firstWith_append, ha, hb] using hfirst
  · intro h left right hleft hright
    have hperm : (left.flatMap rowsOf).Perm (right.flatMap rowsOf) :=
      (hleft.trans hright.symm).flatMap_right rowsOf
    refine insertAll_same_iff.mpr
      ⟨hperm.filter _, fun k hfree => firstWith_eq_of_perm hperm fun a b ha hb => ?_⟩
    rw [firstWith_flatMap] at ha hb
    obtain ⟨i, hi, ha⟩ := List.exists_of_findSome?_eq_some ha
    obtain ⟨j, hj, hb⟩ := List.exists_of_findSome?_eq_some hb
    exact h i (hleft.mem_iff.mp hi) j (hright.mem_iff.mp hj) k a b hfree ha hb

end Table

end BlockchainDataCollection.KeyedTable
