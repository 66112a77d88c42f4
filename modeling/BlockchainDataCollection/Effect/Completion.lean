import BlockchainDataCollection.Effect.Environment

/-!
# Total correctness in an environment

A program completes when it returns from every history; what it returned and
the events it went through are then related by a postcondition.  The rules
follow the program: a value, a call that is answered, a sequence, a handler
that is not needed.
-/

namespace BlockchainDataCollection.Effect

namespace Program

variable {S : Signature} {E A B : Type} {environment : Environment S E}

/-- From every history the program returns, through events as in `post`. -/
def Completes (environment : Environment S E) (program : Program S E A)
    (post : A → List (Event S E) → Prop) : Prop :=
  ∀ history, ∃ value events,
    program.runIn environment history = (.returned value, history ++ events) ∧ post value events

section Rules

variable {program : Program S E A} {post : A → List (Event S E) → Prop}

theorem completes_done {value : A} (hpost : post value []) :
    Completes environment (.done value) post := by
  intro history
  exact ⟨value, [], by rw [List.append_nil]; rfl, hpost⟩

theorem completes_perform {op : S.Call} {post : S.Answer op → List (Event S E) → Prop}
    (hanswer : ∀ history, ∃ answer, environment history op = .ok answer)
    (hpost : ∀ answer, post answer [⟨op, .ok answer⟩]) :
    Completes environment (perform op) post := by
  intro history
  obtain ⟨answer, hanswer⟩ := hanswer history
  exact ⟨answer, _, run_perform_ok (by rw [hanswer]), hpost answer⟩

theorem Completes.mono {post' : A → List (Event S E) → Prop}
    (h : Completes environment program post)
    (hpost : ∀ value events, post value events → post' value events) :
    Completes environment program post' := by
  intro history
  obtain ⟨value, events, hrun, hvalue⟩ := h history
  exact ⟨value, events, hrun, hpost value events hvalue⟩

theorem Completes.bind {rest : A → Program S E B} {post' : B → List (Event S E) → Prop}
    (h : Completes environment program post)
    (hrest : ∀ value events, post value events →
      Completes environment (rest value) fun result later => post' result (events ++ later)) :
    Completes environment (program >>= rest) post' := by
  intro history
  obtain ⟨value, events, hrun, hvalue⟩ := h history
  obtain ⟨result, later, hrun', hresult⟩ := hrest value events hvalue (history ++ events)
  refine ⟨result, events ++ later, ?_, hresult⟩
  rw [← List.append_assoc]
  exact (run_bind_of_returned hrun).trans hrun'

/-- A handler does not change a program that completes. -/
theorem Completes.rescue {handler : E → Option (Program S E A)}
    (h : Completes environment program post) :
    Completes environment (program.rescue handler) post := by
  intro history
  obtain ⟨value, events, hrun, hvalue⟩ := h history
  refine ⟨value, events, ?_, hvalue⟩
  rw [runIn] at hrun ⊢
  rw [run_rescue, hrun]

end Rules

end Program

end BlockchainDataCollection.Effect
