import BlockchainDataCollection.Effect.Program

/-!
# Interleavings of programs

Several programs share one state and take turns at their calls.  When the
answers do not depend on the state, a complete run is a merge of the call
lists of the programs, whatever the scheduler did.
-/

namespace BlockchainDataCollection.Interleaving

open BlockchainDataCollection.Effect

variable {A B : Type}

/-- `word` merges the lists and keeps the order inside each of them. -/
inductive Interleaves : List (List A) → List A → Prop
  | nil {lists} : (∀ list ∈ lists, list = []) → Interleaves lists []
  | cons {before head tail after word} :
      Interleaves (before ++ tail :: after) word →
      Interleaves (before ++ (head :: tail) :: after) (head :: word)

theorem Interleaves.perm_flatten {lists : List (List A)} {word : List A}
    (h : Interleaves lists word) : word.Perm lists.flatten := by
  induction h with
  | @nil lists hempty => rw [List.flatten_eq_nil_iff.mpr hempty]
  | @cons before head tail after word _ ih =>
      simp only [List.flatten_append, List.flatten_cons] at ih ⊢
      exact (ih.cons head).trans List.perm_middle.symm

/-- The first element of a merge with a property is the first one of some list. -/
theorem Interleaves.findSome?_eq_some {lists : List (List A)} {word : List A}
    (h : Interleaves lists word) {f : A → Option B} {value : B}
    (hfirst : word.findSome? f = some value) :
    ∃ list ∈ lists, list.findSome? f = some value := by
  induction h with
  | nil => simp at hfirst
  | @cons before head tail after word _ ih =>
      cases hhead : f head with
      | some found =>
          rw [List.findSome?_cons, hhead] at hfirst
          refine ⟨head :: tail, by simp, ?_⟩
          rw [List.findSome?_cons, hhead]
          exact hfirst
      | none =>
          rw [List.findSome?_cons, hhead] at hfirst
          obtain ⟨list, hlist, hvalue⟩ := ih hfirst
          rcases List.mem_append.mp hlist with hmem | hmem
          · exact ⟨list, List.mem_append_left _ hmem, hvalue⟩
          rcases List.mem_cons.mp hmem with rfl | hmem
          · refine ⟨head :: list, by simp, ?_⟩
            rw [List.findSome?_cons, hhead]
            exact hvalue
          · exact ⟨list, by simp [hmem], hvalue⟩

/-! ## Pools of programs -/

section Pool

variable {S : Signature} {E σ : Type}
variable (answer : (op : S.Call) → Except E (S.Answer op)) (effect : S.Call → σ → σ)

/-- One program of the pool makes its next call. -/
inductive PoolStep :
    List (Program S E A) × σ → List (Program S E A) × σ → Prop
  | call (before after op next state) :
      PoolStep (before ++ .call op next :: after, state)
        (before ++ next (answer op) :: after, effect op state)

/-- Every program of the pool has returned. -/
def Finished (pool : List (Program S E A)) : Prop :=
  ∀ program ∈ pool, ∃ value, program = .done value

variable {answer effect}

theorem returned_of_finished {pool : List (Program S E A)} (h : Finished pool) :
    ∀ program ∈ pool, ∃ value, program.outcome answer = .returned value := by
  intro program hmem
  obtain ⟨value, rfl⟩ := h program hmem
  exact ⟨value, rfl⟩

/-- A complete run of a pool performs a merge of the programs' call lists, and
every program returns. -/
theorem interleaves_of_poolRun {pool pool' : List (Program S E A)} {state state' : σ}
    (hrun : Relation.ReflTransGen (PoolStep answer effect) (pool, state) (pool', state'))
    (hfinished : Finished pool') :
    (∀ program ∈ pool, ∃ value, program.outcome answer = .returned value) ∧
      ∃ word, Interleaves (pool.map (Program.calls answer)) word ∧
        state' = word.foldl (fun current op => effect op current) state := by
  generalize hstart : (pool, state) = start at hrun
  induction hrun using Relation.ReflTransGen.head_induction_on generalizing pool state with
  | refl =>
      cases hstart
      refine ⟨returned_of_finished hfinished, [], .nil ?_, rfl⟩
      intro list hlist
      obtain ⟨program, hprogram, rfl⟩ := List.mem_map.mp hlist
      obtain ⟨value, rfl⟩ := hfinished program hprogram
      rfl
  | head hstep _ ih =>
      subst hstart
      cases hstep with
      | call before after op next =>
          obtain ⟨hreturned, word, hword, hstate⟩ := ih rfl
          refine ⟨?_, op :: word, ?_, hstate⟩
          · intro program hmem
            rcases List.mem_append.mp hmem with hmem | hmem
            · exact hreturned program (List.mem_append_left _ hmem)
            rcases List.mem_cons.mp hmem with rfl | hmem
            · exact hreturned (next (answer op)) (by simp)
            · exact hreturned program (by simp [hmem])
          · rw [List.map_append, List.map_cons] at hword ⊢
            exact .cons hword

/-- One program can run to its end while the others wait. -/
theorem poolRun_single (before after : List (Program S E A)) {program : Program S E A} {value : A}
    (h : program.outcome answer = .returned value) (state : σ) :
    ∃ state', Relation.ReflTransGen (PoolStep answer effect)
      (before ++ program :: after, state) (before ++ .done value :: after, state') := by
  induction program generalizing state with
  | done found =>
      obtain rfl := Outcome.returned.inj h
      exact ⟨state, .refl⟩
  | raise error => cases h
  | suspended => cases h
  | call op next ih =>
      obtain ⟨state', hrun⟩ := ih _ h (effect op state)
      exact ⟨state', .head (.call before after op next state) hrun⟩

/-- Programs that return on their own have complete runs together. -/
theorem exists_poolRun {pool : List (Program S E A)}
    (h : ∀ program ∈ pool, ∃ value, program.outcome answer = .returned value) (state : σ) :
    ∃ finished state', Relation.ReflTransGen (PoolStep answer effect)
      (pool, state) (finished, state') ∧ Finished finished := by
  suffices hfrom : ∀ before : List (Program S E A), Finished before → ∃ finished state',
      Relation.ReflTransGen (PoolStep answer effect) (before ++ pool, state) (finished, state') ∧
        Finished finished from hfrom [] (by simp [Finished])
  induction pool generalizing state with
  | nil =>
      intro before hbefore
      exact ⟨before, state, by rw [List.append_nil], hbefore⟩
  | cons program rest ih =>
      intro before hbefore
      obtain ⟨value, hvalue⟩ := h program List.mem_cons_self
      obtain ⟨middle, hsingle⟩ := poolRun_single before rest hvalue state
      have hfinished : Finished (before ++ [.done value]) := by
        intro other hother
        rcases List.mem_append.mp hother with hother | hother
        · exact hbefore other hother
        · exact ⟨value, List.mem_singleton.mp hother⟩
      obtain ⟨finished, state', hrun, hdone⟩ :=
        ih (fun other hother => h other (List.mem_cons_of_mem _ hother)) middle
          (before ++ [.done value]) hfinished
      rw [List.append_assoc, List.singleton_append] at hrun
      exact ⟨finished, state', hsingle.trans hrun, hdone⟩

end Pool

end BlockchainDataCollection.Interleaving
