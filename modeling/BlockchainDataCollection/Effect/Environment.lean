import BlockchainDataCollection.Effect.Program

/-!
# Runs in an environment

An environment answers each call from the calls and answers before it.  A
coroutine that loops is a family of programs, one for each amount of fuel; what
it yields is what all members with enough fuel agree on.
-/

namespace BlockchainDataCollection.Effect

/-- The answer to a call, given everything that happened before. -/
abbrev Environment (S : Signature) (E : Type) :=
  List (Program.Event S E) → (op : S.Call) → Except E (S.Answer op)

/-- Answers as always, but for the call with number `k`, which fails. -/
def failingAt {S : Signature} {E : Type} (answer : (op : S.Call) → Except E (S.Answer op)) (k : ℕ)
    (error : E) : Environment S E :=
  fun history op => if history.length = k then .error error else answer op

namespace Program

variable {S : Signature} {E A B O : Type}

def runIn (environment : Environment S E) (program : Program S E A)
    (history : List (Event S E)) : Outcome E A × List (Event S E) :=
  program.run (fun op seen => (environment seen op, seen ++ [⟨op, environment seen op⟩])) history

/-- A run in an environment is one of the partial runs of the program. -/
theorem runs_runIn (environment : Environment S E) (program : Program S E A)
    (history : List (Event S E)) :
    ∃ events, (program.runIn environment history).2 = history ++ events ∧
      Runs program events (program.runIn environment history).1 := by
  induction program generalizing history with
  | done value => exact ⟨[], (List.append_nil _).symm, .done value⟩
  | raise error => exact ⟨[], (List.append_nil _).symm, .raise error⟩
  | suspended => exact ⟨[], (List.append_nil _).symm, .observed _⟩
  | call op next ih =>
      obtain ⟨events, hevents, hruns⟩ :=
        ih (environment history op) (history ++ [⟨op, environment history op⟩])
      exact ⟨_, by rw [List.append_cons]; exact hevents, .call hruns⟩

theorem runs_of_runIn {environment : Environment S E} {program : Program S E A}
    {history events : List (Event S E)} {outcome : Outcome E A}
    (hrun : program.runIn environment history = (outcome, history ++ events)) :
    Runs program events outcome := by
  obtain ⟨later, hlater, hruns⟩ := runs_runIn environment program history
  rw [hrun] at hlater hruns
  obtain rfl : events = later := List.append_cancel_left hlater
  exact hruns

/-- All answers of a run are the environment's. -/
theorem answered_runIn {environment : Environment S E} {program : Program S E A}
    {history events : List (Event S E)} {outcome : Outcome E A}
    (hrun : program.runIn environment history = (outcome, history ++ events)) {event : Event S E}
    (hevent : event ∈ events) : ∃ seen, event.answer = environment seen event.op := by
  induction program generalizing history events with
  | done value | raise error | suspended =>
      obtain rfl : events = [] := List.self_eq_append_right.mp (Prod.mk.inj hrun).2
      cases hevent
  | call op next ih =>
      obtain ⟨later, hlater, _⟩ := runs_runIn environment (next (environment history op))
        (history ++ [⟨op, environment history op⟩])
      have hrest : (next (environment history op)).runIn environment
          (history ++ [⟨op, environment history op⟩]) = (outcome, history ++ events) := hrun
      have hevents : history ++ events = history ++ [⟨op, environment history op⟩] ++ later := by
        rw [← hlater, hrest]
      rw [List.append_assoc] at hevents
      obtain rfl := List.append_cancel_left hevents
      rcases List.mem_append.mp hevent with hevent | hevent
      · obtain rfl := List.mem_singleton.mp hevent
        exact ⟨history, rfl⟩
      · exact ih _ (hrest.trans (by rw [List.append_assoc])) hevent

/-- A first call that is answered. -/
theorem runIn_perform_bind_ok {environment : Environment S E} {history : List (Event S E)}
    {op : S.Call} {answer : S.Answer op} (hanswer : environment history op = .ok answer)
    (rest : S.Answer op → Program S E A) :
    (perform op >>= rest).runIn environment history =
      (rest answer).runIn environment (history ++ [⟨op, .ok answer⟩]) :=
  run_bind_of_returned (run_perform_ok (by rw [hanswer]))

/-- A first call that fails. -/
theorem runIn_perform_bind_error {environment : Environment S E} {history : List (Event S E)}
    {op : S.Call} {error : E} (hanswer : environment history op = .error error)
    (rest : S.Answer op → Program S E A) :
    (perform op >>= rest).runIn environment history =
      (.raised error, history ++ [⟨op, .error error⟩]) :=
  run_bind_of_raised (run_perform_error (by rw [hanswer]))

/-! ## More fuel -/

/-- The second program goes on where the first one is cut off. -/
inductive Extends : Program S E A → Program S E A → Prop
  | suspended (program) : Extends .suspended program
  | done (value) : Extends (.done value) (.done value)
  | raise (error) : Extends (.raise error) (.raise error)
  | call {op next next'} :
      (∀ answer, Extends (next answer) (next' answer)) → Extends (.call op next) (.call op next')

theorem Extends.refl (program : Program S E A) : Extends program program := by
  induction program with
  | done value => exact .done value
  | raise error => exact .raise error
  | suspended => exact .suspended _
  | call op next ih => exact .call ih

theorem Extends.bind {first second : Program S E A} {rest rest' : A → Program S E B}
    (hfirst : Extends first second) (hrest : ∀ value, Extends (rest value) (rest' value)) :
    Extends (first >>= rest) (second >>= rest') := by
  induction hfirst with
  | suspended program => exact .suspended _
  | done value => exact hrest value
  | raise error => exact .raise error
  | call _ ih => exact .call ih

/-- A run that came to an end is not changed by more fuel. -/
theorem Extends.run {σ : Type} {handler : (op : S.Call) → σ → Except E (S.Answer op) × σ}
    {first second : Program S E A} (hextends : Extends first second) {state state' : σ}
    {outcome : Outcome E A} (hrun : first.run handler state = (outcome, state'))
    (hended : outcome ≠ .running) : second.run handler state = (outcome, state') := by
  induction hextends generalizing state with
  | suspended program =>
      rw [run_suspended] at hrun
      exact absurd (Prod.mk.inj hrun).1.symm hended
  | done value => exact hrun
  | raise error => exact hrun
  | call _ ih => exact ih _ hrun

/-! ## What a loop yields -/

variable (environment : Environment S E) (observe : Event S E → List O)

/-- From every history, all runs with enough fuel end in one outcome, which
satisfies `post`, after events in which one observes `output`. -/
def Yields (program : ℕ → Program S E A) (post : Outcome E A → Prop) (output : List O) : Prop :=
  ∀ history, ∃ outcome events, post outcome ∧ events.flatMap observe = output ∧
    ∀ᶠ fuel in Filter.atTop,
      (program fuel).runIn environment history = (outcome, history ++ events)

/-- The outcome of a run that returned a value with the property. -/
def Returned (post : A → Prop) (outcome : Outcome E A) : Prop :=
  ∃ value, outcome = .returned value ∧ post value

variable {environment observe}

section Rules

variable {program : ℕ → Program S E A} {post : A → Prop} {output output' : List O}

theorem yields_done {value : A} (hpost : post value) :
    Yields environment observe (fun _ => .done value) (Returned post) [] := by
  intro history
  refine ⟨.returned value, [], ⟨value, rfl, hpost⟩, rfl, Filter.Eventually.of_forall ?_⟩
  intro fuel
  rw [runIn, run_done, List.append_nil]

theorem yields_raise (error : E) :
    Yields environment observe (fun _ => (.raise error : Program S E A)) (· = .raised error)
      [] := by
  intro history
  refine ⟨.raised error, [], rfl, rfl, Filter.Eventually.of_forall ?_⟩
  intro fuel
  rw [runIn, run_raise, List.append_nil]

theorem yields_perform {op : S.Call} {post : S.Answer op → Prop}
    (hanswer : ∀ history, ∃ answer, environment history op = .ok answer ∧
      observe ⟨op, .ok answer⟩ = output ∧ post answer) :
    Yields environment observe (fun _ => perform op) (Returned post) output := by
  intro history
  obtain ⟨answer, hok, hobserve, hpost⟩ := hanswer history
  refine ⟨.returned answer, [⟨op, .ok answer⟩], ⟨answer, rfl, hpost⟩, by simpa using hobserve,
    Filter.Eventually.of_forall ?_⟩
  intro fuel
  exact run_perform_ok (by rw [hok])

theorem yields_perform_error {op : S.Call} {error : E}
    (hanswer : ∀ history, environment history op = .error error)
    (hobserve : observe ⟨op, .error error⟩ = output) :
    Yields environment observe (fun _ => perform op) (· = .raised error) output := by
  intro history
  refine ⟨.raised error, [⟨op, .error error⟩], rfl, by simpa using hobserve,
    Filter.Eventually.of_forall ?_⟩
  intro fuel
  exact run_perform_error (by rw [hanswer])

theorem Yields.mono {post post' : Outcome E A → Prop}
    (h : Yields environment observe program post output)
    (hpost : ∀ outcome, post outcome → post' outcome) :
    Yields environment observe program post' output := by
  intro history
  obtain ⟨outcome, events, hout, hevents, hrun⟩ := h history
  exact ⟨outcome, events, hpost outcome hout, hevents, hrun⟩

theorem Yields.bind {rest : A → ℕ → Program S E B} {post' : Outcome E B → Prop}
    (hfirst : Yields environment observe program (Returned post) output)
    (hrest : ∀ value, post value → Yields environment observe (rest value) post' output') :
    Yields environment observe (fun fuel => program fuel >>= fun value => rest value fuel) post'
      (output ++ output') := by
  intro history
  obtain ⟨_, events, ⟨value, rfl, hvalue⟩, hevents, hrun⟩ := hfirst history
  obtain ⟨outcome, events', hout, hevents', hrun'⟩ := hrest value hvalue (history ++ events)
  refine ⟨outcome, events ++ events', hout, by rw [List.flatMap_append, hevents, hevents'], ?_⟩
  filter_upwards [hrun, hrun'] with fuel hfuel hfuel'
  rw [← List.append_assoc, ← hfuel']
  exact run_bind_of_returned hfuel

/-- A first part that shows nothing. -/
theorem Yields.bind_silent {rest : A → ℕ → Program S E B} {post' : Outcome E B → Prop}
    (hfirst : Yields environment observe program (Returned post) [])
    (hrest : ∀ value, post value → Yields environment observe (rest value) post' output) :
    Yields environment observe (fun fuel => program fuel >>= fun value => rest value fuel) post'
      output :=
  hfirst.bind hrest

/-- A rest that shows nothing. -/
theorem Yields.bind_rest_silent {rest : A → ℕ → Program S E B} {post' : Outcome E B → Prop}
    (hfirst : Yields environment observe program (Returned post) output)
    (hrest : ∀ value, post value → Yields environment observe (rest value) post' []) :
    Yields environment observe (fun fuel => program fuel >>= fun value => rest value fuel) post'
      output :=
  List.append_nil output ▸ hfirst.bind hrest

theorem Yields.bind_raised {rest : A → ℕ → Program S E B} {error : E}
    (hfirst : Yields environment observe program (· = .raised error) output) :
    Yields environment observe (fun fuel => program fuel >>= fun value => rest value fuel)
      (· = .raised error) output := by
  intro history
  obtain ⟨_, events, rfl, hevents, hrun⟩ := hfirst history
  refine ⟨_, events, rfl, hevents, ?_⟩
  filter_upwards [hrun] with fuel hfuel
  exact run_bind_of_raised hfuel

/-- The first fuel does not count. -/
theorem Yields.of_succ {post : Outcome E A → Prop}
    (h : Yields environment observe (fun fuel => program (fuel + 1)) post output) :
    Yields environment observe program post output := by
  intro history
  obtain ⟨outcome, events, hout, hevents, hrun⟩ := h history
  refine ⟨outcome, events, hout, hevents, ?_⟩
  obtain ⟨enough, henough⟩ := Filter.eventually_atTop.mp hrun
  refine Filter.eventually_atTop.mpr ⟨enough + 1, ?_⟩
  rintro (_ | fuel) hfuel
  · exact absurd hfuel (Nat.not_succ_le_zero _)
  · exact henough fuel (Nat.le_of_succ_le_succ hfuel)

/-- Where more fuel only extends the program, one amount of fuel that ends the
run is enough. -/
theorem yields_of_extends {post : Outcome E A → Prop}
    (hextends : ∀ fuel, Extends (program fuel) (program (fuel + 1)))
    (hrun : ∀ history, ∃ fuel outcome events, post outcome ∧ events.flatMap observe = output ∧
      outcome ≠ .running ∧
      (program fuel).runIn environment history = (outcome, history ++ events)) :
    Yields environment observe program post output := by
  intro history
  obtain ⟨enough, outcome, events, hout, hevents, hended, henough⟩ := hrun history
  refine ⟨outcome, events, hout, hevents, Filter.eventually_atTop.mpr ⟨enough, ?_⟩⟩
  intro fuel hfuel
  induction fuel, hfuel using Nat.le_induction with
  | base => exact henough
  | succ fuel _ ih => exact (hextends fuel).run ih hended

section Rescue

variable {handler : E → Option (Program S E A)}

theorem run_rescue {σ : Type} {answer : (op : S.Call) → σ → Except E (S.Answer op) × σ}
    (program : Program S E A) (state : σ) :
    (program.rescue handler).run answer state =
      match program.run answer state with
      | (.raised error, state') => ((handler error).getD (.raise error)).run answer state'
      | result => result := by
  induction program generalizing state with
  | done value => rfl
  | raise error => rfl
  | suspended => rfl
  | call op next ih => exact ih _ _

theorem Yields.rescue_returned
    (h : Yields environment observe program (Returned post) output) :
    Yields environment observe (fun fuel => (program fuel).rescue handler) (Returned post)
      output := by
  intro history
  obtain ⟨_, events, ⟨value, rfl, hvalue⟩, hevents, hrun⟩ := h history
  refine ⟨_, events, ⟨value, rfl, hvalue⟩, hevents, ?_⟩
  filter_upwards [hrun] with fuel hfuel
  rw [runIn] at hfuel ⊢
  rw [run_rescue, hfuel]

/-- The handler decides how a raising run ends. -/
theorem Yields.rescue_raised {error : E} {post : Outcome E A → Prop}
    (h : Yields environment observe program (· = .raised error) output)
    (hhandler : Yields environment observe (fun _ => (handler error).getD (.raise error)) post
      output') :
    Yields environment observe (fun fuel => (program fuel).rescue handler) post
      (output ++ output') := by
  intro history
  obtain ⟨_, events, rfl, hevents, hrun⟩ := h history
  obtain ⟨outcome, events', hout, hevents', hrun'⟩ := hhandler (history ++ events)
  refine ⟨outcome, events ++ events', hout, by rw [List.flatMap_append, hevents, hevents'], ?_⟩
  filter_upwards [hrun, hrun'] with fuel hfuel hfuel'
  rw [runIn] at hfuel hfuel' ⊢
  rw [run_rescue, hfuel, ← List.append_assoc]
  exact hfuel'

end Rescue

/-- A loop yields one outcome and one output. -/
theorem Yields.unique {post post' : Outcome E A → Prop}
    (h : Yields environment observe program post output)
    (h' : Yields environment observe program post' output') :
    output = output' ∧ ∃ outcome, post outcome ∧ post' outcome := by
  obtain ⟨outcome, events, hout, hevents, hrun⟩ := h []
  obtain ⟨outcome', events', hout', hevents', hrun'⟩ := h' []
  obtain ⟨fuel, hfuel, hfuel'⟩ := (hrun.and hrun').exists
  obtain ⟨rfl, hsame⟩ := Prod.mk.inj (hfuel.symm.trans hfuel')
  rw [List.nil_append, List.nil_append] at hsame
  exact ⟨by rw [← hevents, hsame, hevents'], outcome, hout, hout'⟩

end Rules

end Program

end BlockchainDataCollection.Effect
