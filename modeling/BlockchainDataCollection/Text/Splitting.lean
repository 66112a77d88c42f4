import Mathlib.Data.List.Basic

/-!
# Splitting on a separator

A list splits into one part more than it has separators, and no part holds a
separator.  So it splits into two parts exactly when it is a first part, one
separator and a second part.
-/

namespace BlockchainDataCollection.Splitting

variable {α : Type*} [DecidableEq α] {separator : α}

theorem length_splitOn (separator : α) (text : List α) :
    (text.splitOn separator).length = text.count separator + 1 := by
  induction text with
  | nil => rfl
  | cons head text ih =>
      rw [List.splitOn_cons_eq_if_modifyHead, List.count_cons]
      split
      · rw [List.length_cons, ih]
      · rw [List.length_modifyHead, ih]

theorem not_mem_of_mem_splitOn {text part : List α} (h : part ∈ text.splitOn separator) :
    separator ∉ part := by
  induction text generalizing part with
  | nil =>
      rw [List.splitOn_nil, List.mem_singleton] at h
      subst part
      exact List.not_mem_nil
  | cons head text ih =>
      obtain ⟨first, parts, hparts⟩ :=
        List.exists_cons_of_ne_nil (List.splitOn_ne_nil separator text)
      have hfirst : separator ∉ first := ih (hparts ▸ List.mem_cons_self)
      rw [List.splitOn_cons_eq_if_modifyHead, hparts] at h
      split at h
      · rcases List.mem_cons.mp h with rfl | hpart
        · exact List.not_mem_nil
        · exact ih (hparts ▸ hpart)
      · rename_i hhead
        rw [List.modifyHead_cons] at h
        rcases List.mem_cons.mp h with rfl | hpart
        · have hne : separator ≠ head := fun heq => hhead (beq_iff_eq.mpr heq.symm)
          exact List.not_mem_cons_of_ne_of_not_mem hne hfirst
        · exact ih (hparts ▸ List.mem_cons_of_mem first hpart)

theorem splitOn_eq_pair_iff {text before after : List α} :
    text.splitOn separator = [before, after] ↔
      text = before ++ separator :: after ∧ separator ∉ before ∧ separator ∉ after := by
  constructor
  · intro hsplit
    have hjoin : List.intercalate [separator] (text.splitOn separator) = text :=
      List.intercalate_splitOn separator
    rw [hsplit] at hjoin
    refine ⟨?_, not_mem_of_mem_splitOn (hsplit ▸ List.mem_cons_self), ?_⟩
    · rw [← hjoin]
      simp
    · apply not_mem_of_mem_splitOn
      rw [hsplit]
      simp
  · rintro ⟨rfl, hbefore, hafter⟩
    rw [List.splitOn_append_cons_self_of_not_mem hbefore, List.splitOn_eq_singleton hafter]

/-- Two parts are what one separator makes. -/
theorem exists_splitOn_eq_pair_iff {text : List α} :
    (∃ before after, text.splitOn separator = [before, after]) ↔ text.count separator = 1 := by
  rw [← List.length_eq_two, length_splitOn]
  omega

theorem count_eq_one_iff {text : List α} :
    text.count separator = 1 ↔
      ∃ before after, text = before ++ separator :: after ∧
        separator ∉ before ∧ separator ∉ after := by
  rw [← exists_splitOn_eq_pair_iff]
  simp only [splitOn_eq_pair_iff]

/-- The first part is what stands before the first separator. -/
theorem takeWhile_append_cons {before : List α} (hbefore : separator ∉ before) (after : List α) :
    (before ++ separator :: after).takeWhile (· ≠ separator) = before := by
  rw [List.takeWhile_append_of_pos, List.takeWhile_cons_of_neg (by simp), List.append_nil]
  intro other hother
  exact decide_eq_true fun heq => hbefore (heq ▸ hother)

end BlockchainDataCollection.Splitting
