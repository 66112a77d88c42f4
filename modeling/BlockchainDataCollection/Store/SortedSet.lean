import Mathlib

/-!
# Sorted sets

A sorted set of Redis: members with integer scores.  `ZINCRBY` adds to the score
of a member and inserts it when it is missing; a missing member counts as 0.
-/

namespace BlockchainDataCollection.Storage

structure SortedSet (M : Type) where
  members : Finset M
  score : M → ℤ
  score_eq_zero : ∀ member ∉ members, score member = 0

namespace SortedSet

variable {M : Type} [DecidableEq M]

def empty : SortedSet M := ⟨∅, fun _ => 0, fun _ _ => rfl⟩

/-- `ZINCRBY`. -/
def incrBy (set : SortedSet M) (member : M) (amount : ℤ) : SortedSet M where
  members := insert member set.members
  score := Function.update set.score member (set.score member + amount)
  score_eq_zero := by
    intro other hother
    rw [Finset.mem_insert, not_or] at hother
    rw [Function.update_of_ne hother.1, set.score_eq_zero other hother.2]

/-- The sum of all scores. -/
def total (set : SortedSet M) : ℤ := ∑ member ∈ set.members, set.score member

/-- A member that `ZRANGE` may return first. -/
def IsLowest (set : SortedSet M) (member : M) : Prop :=
  member ∈ set.members ∧ ∀ other ∈ set.members, set.score member ≤ set.score other

instance (set : SortedSet M) (member : M) : Decidable (set.IsLowest member) :=
  inferInstanceAs (Decidable (_ ∧ ∀ other ∈ set.members, _))

@[simp]
theorem members_incrBy (set : SortedSet M) (member : M) (amount : ℤ) :
    (set.incrBy member amount).members = insert member set.members := rfl

theorem score_incrBy (set : SortedSet M) (member other : M) (amount : ℤ) :
    (set.incrBy member amount).score other =
      set.score other + if member = other then amount else 0 := by
  by_cases h : member = other
  · subst other
    simp [incrBy]
  · rw [if_neg h, add_zero]
    exact Function.update_of_ne (Ne.symm h) ..

/-- The sum of the scores, weighted by their members. -/
def weigh (set : SortedSet M) (weight : M → ℤ) : ℤ :=
  ∑ member ∈ set.members, weight member * set.score member

omit [DecidableEq M] in
/-- The weighted sum over more than the members. -/
theorem weigh_eq_sum (set : SortedSet M) (weight : M → ℤ) {members : Finset M}
    (h : set.members ⊆ members) :
    set.weigh weight = ∑ member ∈ members, weight member * set.score member :=
  Finset.sum_subset h fun member _ hmember => by rw [set.score_eq_zero member hmember, mul_zero]

theorem weigh_incrBy (set : SortedSet M) (weight : M → ℤ) (member : M) (amount : ℤ) :
    (set.incrBy member amount).weigh weight = set.weigh weight + weight member * amount := by
  rw [set.weigh_eq_sum weight (Finset.subset_insert member _), weigh, members_incrBy]
  simp only [score_incrBy, mul_add, Finset.sum_add_distrib]
  simp

omit [DecidableEq M] in
theorem weigh_one (set : SortedSet M) : set.weigh (fun _ => 1) = set.total := by
  simp [weigh, total]

theorem weigh_single (set : SortedSet M) (member : M) :
    set.weigh (fun other => if other = member then 1 else 0) = set.score member := by
  rw [set.weigh_eq_sum _ (Finset.subset_insert member _)]
  simp

/-- No two scores of members differ by more than a bound. -/
def Level (set : SortedSet M) (bound : ℤ) : Prop :=
  ∀ member ∈ set.members, ∀ other ∈ set.members, set.score member ≤ set.score other + bound

/-- Adding at most the bound to a lowest member keeps the scores level. -/
theorem Level.incrBy {set : SortedSet M} {bound amount : ℤ} {lowest : M} (h : set.Level bound)
    (hlowest : set.IsLowest lowest) (hnonneg : 0 ≤ amount) (hamount : amount ≤ bound) :
    (set.incrBy lowest amount).Level bound := by
  intro member hmember other hother
  rw [members_incrBy, Finset.insert_eq_of_mem hlowest.1] at hmember hother
  have hlevel := h member hmember other hother
  have hleast := hlowest.2 other hother
  rw [score_incrBy, score_incrBy]
  split
  next heq =>
      subst heq
      split <;> omega
  · split <;> omega

end SortedSet

end BlockchainDataCollection.Storage
