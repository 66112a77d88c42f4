import BlockchainDataCollection.Store.KeyedTable

/-!
# Joins on a primary key

An inner join pairs the rows of two tables that satisfy its condition.  Where the
condition compares with the primary key of the right table, no row of the left one
has two partners, and the join is a lookup.
-/

namespace BlockchainDataCollection.KeyedTable

section Join

variable {A B : Type}

/-- `INNER JOIN … ON`. -/
def innerJoin (left : List A) (right : List B) (on : A → B → Bool) : List (A × B) :=
  left.flatMap fun a => (right.filter (on a)).map fun b => (a, b)

@[simp]
theorem mem_innerJoin {left : List A} {right : List B} {on : A → B → Bool} {pair : A × B} :
    pair ∈ innerJoin left right on ↔ pair.1 ∈ left ∧ pair.2 ∈ right ∧ on pair.1 pair.2 := by
  obtain ⟨a, b⟩ := pair
  simp [innerJoin]

/-- A selection that is cut into two disjoint ones. -/
theorem filterMap_perm_append {f g h : A → Option B} {items : List A}
    (hparts : ∀ a ∈ items, f a = g a ∧ h a = none ∨ g a = none ∧ f a = h a) :
    (items.filterMap f).Perm (items.filterMap g ++ items.filterMap h) := by
  induction items with
  | nil => exact .refl _
  | cons a items ih =>
      obtain ⟨hfirst, hlater⟩ := List.forall_mem_cons.mp hparts
      have hperm := ih hlater
      rcases hfirst with ⟨hf, hh⟩ | ⟨hg, hf⟩
      · rw [List.filterMap_cons, List.filterMap_cons, List.filterMap_cons, hf, hh]
        cases g a with
        | none => exact hperm
        | some b => exact hperm.cons b
      · rw [List.filterMap_cons, List.filterMap_cons, List.filterMap_cons, hf, hg]
        cases h a with
        | none => exact hperm
        | some b => exact (hperm.cons b).trans List.perm_middle.symm

end Join

section Keyed

variable {A R K : Type} {key : R → Option K} [DecidableEq K]

/-- A key selects at most one of the rows. -/
theorem filter_key_eq {rows : List R} (hnodup : (rows.filterMap key).Nodup) (k : K) :
    rows.filter (fun row => key row = some k) = (Table.firstWith key k rows).toList := by
  induction rows with
  | nil => rfl
  | cons row rows ih =>
      have htail : (rows.filterMap key).Nodup :=
        hnodup.sublist ((List.sublist_cons_self row rows).filterMap key)
      by_cases hrow : key row = some k
      · have hnone : rows.filter (fun other => key other = some k) = [] := by
          rw [List.filter_eq_nil_iff]
          intro other hother hkey
          rw [List.filterMap_cons_some hrow] at hnodup
          exact (List.nodup_cons.mp hnodup).1
            (List.mem_filterMap.mpr ⟨other, hother, of_decide_eq_true hkey⟩)
        rw [List.filter_cons_of_pos (by simpa using hrow), hnone, Table.firstWith,
          List.find?_cons_of_pos (by simpa using hrow)]
        rfl
      · rw [List.filter_cons_of_neg (by simpa using hrow), ih htail, Table.firstWith,
          Table.firstWith, List.find?_cons_of_neg (by simpa using hrow)]

/-- A join on the primary key looks each row of the left table up. -/
theorem innerJoin_eq_filterMap {left : List A} {table : Table key} {on : A → R → Bool}
    {keyOf : A → K} {selects : A → Bool}
    (hon : ∀ a row, on a row = (selects a && decide (key row = some (keyOf a)))) :
    innerJoin left table.rows on = left.filterMap fun a =>
      if selects a then (table.lookup (keyOf a)).map fun row => (a, row) else none := by
  induction left with
  | nil => rfl
  | cons a left ih =>
      have hpartners : (table.rows.filter (on a)).map (fun row => (a, row)) =
          (if selects a then
            (table.lookup (keyOf a)).map fun row => (a, row) else none).toList := by
        cases hselects : selects a with
        | true =>
            have hfilter : table.rows.filter (on a) = (table.lookup (keyOf a)).toList := by
              rw [Table.lookup, ← filter_key_eq table.nodup]
              exact List.filter_congr fun row _ => by rw [hon, hselects, Bool.true_and]
            rw [hfilter, if_pos rfl]
            cases table.lookup (keyOf a) <;> rfl
        | false =>
            have hfilter : table.rows.filter (on a) = [] := by
              simp [List.filter_eq_nil_iff, hon, hselects]
            simp [hfilter]
      rw [innerJoin, List.flatMap_cons, hpartners, ← innerJoin, ih, List.filterMap_cons]
      cases if selects a then (table.lookup (keyOf a)).map fun row => (a, row) else none <;> rfl

end Keyed

end BlockchainDataCollection.KeyedTable
