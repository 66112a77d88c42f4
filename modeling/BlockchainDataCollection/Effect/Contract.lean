import BlockchainDataCollection.Effect.Program

/-!
# Contracts of programs

What a program guarantees in every partial run, as long as the answers it gets
are as assumed: what its events are, what they amount to when it returns, and
which errors it raises.
-/

namespace BlockchainDataCollection.Effect

namespace Program

variable {S : Signature} {E A B : Type}

/-- In a partial run in which every event is as `given`, every event is as
`shown`, a returned value satisfies `post` of the events, and a raised error
satisfies `fail`. -/
def Establishes (given shown : Event S E → Prop) (fail : E → Prop) (program : Program S E A)
    (post : List (Event S E) → A → Prop) : Prop :=
  ∀ events outcome, Runs program events outcome → (∀ event ∈ events, given event) →
    (∀ event ∈ events, shown event) ∧
      (∀ value, outcome = .returned value → post events value) ∧
      ∀ error, outcome = .raised error → fail error

section Rules

variable {given shown : Event S E → Prop} {fail : E → Prop} {program : Program S E A}
  {post : List (Event S E) → A → Prop}

theorem establishes_done {value : A} (hpost : post [] value) :
    Establishes given shown fail (.done value) post := by
  intro events outcome hruns _
  cases hruns with
  | observed => simp
  | done => simpa using hpost

theorem establishes_raise {error : E} (hfail : fail error) :
    Establishes given shown fail (.raise error) post := by
  intro events outcome hruns _
  cases hruns with
  | observed => simp
  | raise => simpa using hfail

theorem establishes_suspended : Establishes given shown fail (.suspended) post := by
  intro events outcome hruns _
  cases hruns
  simp

/-- A call establishes what its continuations do, for every answer that is as given. -/
theorem establishes_call_iff {op : S.Call} {next : Except E (S.Answer op) → Program S E A} :
    Establishes given shown fail (.call op next) post ↔
      ∀ answer, given ⟨op, answer⟩ → shown ⟨op, answer⟩ ∧
        Establishes given shown fail (next answer) fun events => post (⟨op, answer⟩ :: events) := by
  constructor
  · intro h answer hop
    have hseen := (h _ _ (.call (.observed (next answer))) (by simpa using hop)).1
    refine ⟨hseen _ List.mem_cons_self, fun events outcome hruns hgiven => ?_⟩
    obtain ⟨hshown, houtcome⟩ := h _ _ (.call hruns) (List.forall_mem_cons.mpr ⟨hop, hgiven⟩)
    exact ⟨(List.forall_mem_cons.mp hshown).2, houtcome⟩
  · intro h events outcome hruns hgiven
    cases hruns with
    | observed => simp
    | call hruns =>
        obtain ⟨hop, hgiven⟩ := List.forall_mem_cons.mp hgiven
        obtain ⟨hseen, hnext⟩ := h _ hop
        obtain ⟨hshown, houtcome⟩ := hnext _ _ hruns hgiven
        exact ⟨List.forall_mem_cons.mpr ⟨hseen, hshown⟩, houtcome⟩

theorem establishes_perform {op : S.Call} {post : List (Event S E) → S.Answer op → Prop}
    (hshown : ∀ answer, shown ⟨op, answer⟩)
    (hpost : ∀ answer, given ⟨op, .ok answer⟩ → post [⟨op, .ok answer⟩] answer)
    (hfail : ∀ error, given ⟨op, .error error⟩ → fail error) :
    Establishes given shown fail (perform op) post := by
  apply establishes_call_iff.mpr
  intro answer hgiven
  refine ⟨hshown answer, ?_⟩
  cases answer with
  | ok answer => exact establishes_done (hpost answer hgiven)
  | error error => exact establishes_raise (hfail error hgiven)

theorem Establishes.mono {post' : List (Event S E) → A → Prop}
    (h : Establishes given shown fail program post)
    (hpost : ∀ events value, post events value → post' events value) :
    Establishes given shown fail program post' := by
  intro events outcome hruns hgiven
  obtain ⟨hshown, hvalue, herror⟩ := h events outcome hruns hgiven
  exact ⟨hshown, fun value hout => hpost _ _ (hvalue value hout), herror⟩

theorem Establishes.weaken_fail {fail' : E → Prop}
    (h : Establishes given shown fail program post) (hfail : ∀ error, fail error → fail' error) :
    Establishes given shown fail' program post := by
  intro events outcome hruns hgiven
  obtain ⟨hshown, hvalue, herror⟩ := h events outcome hruns hgiven
  exact ⟨hshown, hvalue, fun error hout => hfail error (herror error hout)⟩

theorem Establishes.bind {rest : A → Program S E B} {post' : List (Event S E) → B → Prop}
    (hfirst : Establishes given shown fail program post)
    (hrest : ∀ first value, post first value →
      Establishes given shown fail (rest value) fun second => post' (first ++ second)) :
    Establishes given shown fail (program >>= rest) post' := by
  intro events outcome hruns hgiven
  rcases runs_bind_iff.mp hruns with ⟨hrun, rfl⟩ | ⟨error, hrun, rfl⟩ |
    ⟨value, first, second, rfl, hrun, hrun'⟩
  · exact ⟨(hfirst _ _ hrun hgiven).1, by simp⟩
  · obtain ⟨hshown, _, herror⟩ := hfirst _ _ hrun hgiven
    exact ⟨hshown, by simp, by simpa using herror⟩
  · rw [List.forall_mem_append] at hgiven
    obtain ⟨hshown, hvalue, _⟩ := hfirst _ _ hrun hgiven.1
    obtain ⟨hshown', houtcome⟩ := hrest first value (hvalue value rfl) _ _ hrun' hgiven.2
    exact ⟨List.forall_mem_append.mpr ⟨hshown, hshown'⟩, houtcome⟩

/-- Whatever the answers are, the events are as shown. -/
theorem Establishes.ensures {post : A → Prop}
    (h : Establishes (fun _ => True) shown fail program fun _ => post) :
    program.Ensures shown post := by
  intro events outcome hruns
  obtain ⟨hshown, hvalue, _⟩ := h events outcome hruns fun _ _ => trivial
  exact ⟨hshown, hvalue⟩

/-- A handler is not reached by errors that it passes on. -/
theorem Establishes.rescue {handler : E → Option (Program S E A)}
    (h : Establishes given shown fail program post)
    (hpassed : ∀ error, fail error → handler error = none) :
    Establishes given shown fail (program.rescue handler) post := by
  induction program generalizing post with
  | done value => exact h
  | raise error =>
      have hfail := (h [] _ (.raise error) (by simp)).2.2 error rfl
      rw [Program.rescue, hpassed error hfail]
      exact h
  | suspended => exact h
  | call op next ih =>
      apply establishes_call_iff.mpr
      intro answer hgiven
      obtain ⟨hshown, hnext⟩ := establishes_call_iff.mp h answer hgiven
      exact ⟨hshown, ih answer hnext⟩

/-- A handler takes over from every error that may be raised. -/
theorem Establishes.handle {handler : E → Option (Program S E A)} {fail' : E → Prop}
    {post : A → Prop} (h : Establishes given shown fail program fun _ => post)
    (hhandler : ∀ error, fail error →
      Establishes given shown fail' ((handler error).getD (.raise error)) fun _ => post) :
    Establishes given shown fail' (program.rescue handler) fun _ => post := by
  induction program with
  | done value => exact establishes_done ((h [] _ (.done value) (by simp)).2.1 value rfl)
  | raise error => exact hhandler error ((h [] _ (.raise error) (by simp)).2.2 error rfl)
  | suspended => exact establishes_suspended
  | call op next ih =>
      apply establishes_call_iff.mpr
      intro answer hgiven
      obtain ⟨hshown, hnext⟩ := establishes_call_iff.mp h answer hgiven
      exact ⟨hshown, ih answer hnext⟩

end Rules

/-- Handlers that make no calls leave the events of a run as they are. -/
theorem exists_runs_of_rescue {handler : E → Option (Program S E A)} {program : Program S E A}
    (hhandler : ∀ error rescued, handler error = some rescued → ∃ value, rescued = .done value)
    {events : List (Event S E)} {outcome : Outcome E A}
    (hruns : Runs (program.rescue handler) events outcome) :
    ∃ outcome', Runs program events outcome' := by
  induction program generalizing events with
  | done value => exact ⟨outcome, hruns⟩
  | raise error =>
      rw [rescue] at hruns
      cases hcaught : handler error with
      | none => exact ⟨outcome, by simpa [hcaught] using hruns⟩
      | some rescued =>
          obtain ⟨value, rfl⟩ := hhandler error rescued hcaught
          rw [hcaught, Option.getD_some] at hruns
          cases hruns <;> exact ⟨.running, .observed _⟩
  | suspended => exact ⟨outcome, hruns⟩
  | call op next ih =>
      cases hruns with
      | observed => exact ⟨.running, .observed _⟩
      | call hruns =>
          obtain ⟨outcome', hruns'⟩ := ih _ hruns
          exact ⟨outcome', .call hruns'⟩

end Program

end BlockchainDataCollection.Effect
