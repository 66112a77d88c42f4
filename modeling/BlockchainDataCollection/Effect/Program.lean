import Mathlib

/-!
# Programs that call an environment

A coroutine is a tree: it either stops, or makes one call and continues with
whatever the environment answers, an error included.  One tree is read in
several ways below: as a run against a stateful handler, as the list of calls
it makes when the answers do not depend on the state, and as the set of all
its partial runs under an arbitrary environment.
-/

namespace BlockchainDataCollection.Effect

/-- The calls a program can make and the type each of them answers with. -/
structure Signature where
  Call : Type
  Answer : Call → Type

/-- A program over a signature.  `suspended` is a loop cut off by its fuel: it
has neither returned nor raised. -/
inductive Program (S : Signature) (E A : Type) where
  | done (value : A)
  | raise (error : E)
  | suspended
  | call (op : S.Call) (next : Except E (S.Answer op) → Program S E A)

/-- What is known about a run when it is observed. -/
inductive Outcome (E A : Type) where
  | returned (value : A)
  | raised (error : E)
  | running
  deriving DecidableEq

namespace Program

variable {S : Signature} {E A B C : Type}

protected def bind : Program S E A → (A → Program S E B) → Program S E B
  | .done value, rest => rest value
  | .raise error, _ => .raise error
  | .suspended, _ => .suspended
  | .call op next, rest => .call op fun answer => (next answer).bind rest

instance : Monad (Program S E) where
  pure := .done
  bind := Program.bind

@[simp]
theorem pure_eq_done (value : A) : (pure value : Program S E A) = .done value := rfl

@[simp]
theorem done_bind (value : A) (rest : A → Program S E B) :
    (Program.done value : Program S E A) >>= rest = rest value := rfl

@[simp]
theorem raise_bind (error : E) (rest : A → Program S E B) :
    (Program.raise error : Program S E A) >>= rest = .raise error := rfl

@[simp]
theorem suspended_bind (rest : A → Program S E B) :
    (Program.suspended : Program S E A) >>= rest = .suspended := rfl

@[simp]
theorem call_bind (op : S.Call) (next : Except E (S.Answer op) → Program S E A)
    (rest : A → Program S E B) :
    Program.call op next >>= rest = .call op fun answer => next answer >>= rest := rfl

theorem bind_done (program : Program S E A) : program >>= Program.done = program := by
  induction program with
  | done value => rfl
  | raise error => rfl
  | suspended => rfl
  | call op next ih => simp only [call_bind, ih]

protected theorem bind_assoc (program : Program S E A) (middle : A → Program S E B)
    (rest : B → Program S E C) :
    program >>= middle >>= rest = program >>= fun value => middle value >>= rest := by
  induction program with
  | done value => rfl
  | raise error => rfl
  | suspended => rfl
  | call op next ih => simp only [call_bind, ih]

instance : LawfulMonad (Program S E) :=
  LawfulMonad.mk' _ bind_done (fun _ _ => rfl) Program.bind_assoc

/-- Make one call; an error answered by the environment is raised. -/
def perform (op : S.Call) : Program S E (S.Answer op) :=
  .call op fun
    | .ok answer => .done answer
    | .error error => .raise error

def ofExcept : Except E A → Program S E A
  | .ok value => .done value
  | .error error => .raise error

@[simp]
theorem ofExcept_ok (value : A) : (ofExcept (.ok value) : Program S E A) = .done value := rfl

@[simp]
theorem ofExcept_error (error : E) :
    (ofExcept (.error error) : Program S E A) = .raise error := rfl

/-- `try … except`: the handler sees every raised error, and re-raises those it
returns `none` for. -/
def rescue (handler : E → Option (Program S E A)) : Program S E A → Program S E A
  | .done value => .done value
  | .raise error => (handler error).getD (.raise error)
  | .suspended => .suspended
  | .call op next => .call op fun answer => (next answer).rescue handler

/-! ## Runs against a stateful handler -/

section Run

variable {σ : Type} (handler : (op : S.Call) → σ → Except E (S.Answer op) × σ)

def run : Program S E A → σ → Outcome E A × σ
  | .done value, state => (.returned value, state)
  | .raise error, state => (.raised error, state)
  | .suspended, state => (.running, state)
  | .call op next, state => (next (handler op state).1).run (handler op state).2

@[simp]
theorem run_done (value : A) (state : σ) :
    (Program.done value).run handler state = (.returned value, state) := rfl

@[simp]
theorem run_raise (error : E) (state : σ) :
    (Program.raise error : Program S E A).run handler state = (.raised error, state) := rfl

@[simp]
theorem run_suspended (state : σ) :
    (Program.suspended : Program S E A).run handler state = (.running, state) := rfl

theorem run_call (op : S.Call) (next : Except E (S.Answer op) → Program S E A) (state : σ) :
    (Program.call op next).run handler state =
      (next (handler op state).1).run handler (handler op state).2 := rfl

/-- Run the rest after an outcome: only a returned value continues. -/
def continueWith (rest : A → Program S E B) : Outcome E A × σ → Outcome E B × σ
  | (.returned value, state) => (rest value).run handler state
  | (.raised error, state) => (.raised error, state)
  | (.running, state) => (.running, state)

theorem run_bind (program : Program S E A) (rest : A → Program S E B) (state : σ) :
    (program >>= rest).run handler state =
      continueWith handler rest (program.run handler state) := by
  induction program generalizing state with
  | done value => rfl
  | raise error => rfl
  | suspended => rfl
  | call op next ih => exact ih _ _

variable {handler}

theorem run_bind_of_returned {program : Program S E A} {rest : A → Program S E B}
    {state state' : σ} {value : A}
    (hrun : program.run handler state = (.returned value, state')) :
    (program >>= rest).run handler state = (rest value).run handler state' := by
  rw [run_bind, hrun]
  rfl

theorem run_bind_of_raised {program : Program S E A} {rest : A → Program S E B}
    {state state' : σ} {error : E}
    (hrun : program.run handler state = (.raised error, state')) :
    (program >>= rest).run handler state = (.raised error, state') := by
  rw [run_bind, hrun]
  rfl

theorem run_perform_ok {op : S.Call} {state state' : σ} {answer : S.Answer op}
    (hanswer : handler op state = (.ok answer, state')) :
    (perform op : Program S E (S.Answer op)).run handler state = (.returned answer, state') := by
  rw [perform, run_call, hanswer]
  rfl

theorem run_perform_error {op : S.Call} {state state' : σ} {error : E}
    (hanswer : handler op state = (.error error, state')) :
    (perform op : Program S E (S.Answer op)).run handler state = (.raised error, state') := by
  rw [perform, run_call, hanswer]
  rfl

end Run

/-! ## Answers that do not depend on the state

A consumer never reads what it wrote, so the calls it makes are fixed by the
answers alone and the state is a fold over them. -/

section Oblivious

variable (answer : (op : S.Call) → Except E (S.Answer op))

def outcome : Program S E A → Outcome E A
  | .done value => .returned value
  | .raise error => .raised error
  | .suspended => .running
  | .call op next => (next (answer op)).outcome

def calls : Program S E A → List S.Call
  | .done _ => []
  | .raise _ => []
  | .suspended => []
  | .call op next => op :: (next (answer op)).calls

@[simp]
theorem outcome_done (value : A) :
    (Program.done value : Program S E A).outcome answer = .returned value := rfl

@[simp]
theorem outcome_raise (error : E) :
    (Program.raise error : Program S E A).outcome answer = .raised error := rfl

@[simp]
theorem outcome_call (op : S.Call) (next : Except E (S.Answer op) → Program S E A) :
    (Program.call op next).outcome answer = (next (answer op)).outcome answer := rfl

@[simp]
theorem calls_done (value : A) : (Program.done value : Program S E A).calls answer = [] := rfl

@[simp]
theorem calls_raise (error : E) : (Program.raise error : Program S E A).calls answer = [] := rfl

@[simp]
theorem calls_call (op : S.Call) (next : Except E (S.Answer op) → Program S E A) :
    (Program.call op next).calls answer = op :: (next (answer op)).calls answer := rfl

variable {answer}

theorem outcome_ofExcept_returned_iff {value : Except E A} {result : A} :
    (ofExcept value : Program S E A).outcome answer = .returned result ↔ value = .ok result := by
  cases value <;> simp

theorem outcome_perform_returned_iff {op : S.Call} {result : S.Answer op} :
    (perform op : Program S E (S.Answer op)).outcome answer = .returned result ↔
      answer op = .ok result := by
  rw [perform, outcome_call]
  cases answer op <;> simp

theorem outcome_bind_of_returned {program : Program S E A} {value : A}
    (hout : program.outcome answer = .returned value) (rest : A → Program S E B) :
    (program >>= rest).outcome answer = (rest value).outcome answer := by
  induction program with
  | done first => cases hout; rfl
  | raise error => cases hout
  | suspended => cases hout
  | call op next ih => exact ih _ hout

theorem calls_bind_of_returned {program : Program S E A} {value : A}
    (hout : program.outcome answer = .returned value) (rest : A → Program S E B) :
    (program >>= rest).calls answer =
      program.calls answer ++ (rest value).calls answer := by
  induction program with
  | done first => cases hout; rfl
  | raise error => cases hout
  | suspended => cases hout
  | call op next ih => exact congrArg (op :: ·) (ih _ hout)

/-- Nothing is called after a part that does not return. -/
theorem calls_bind_of_not_returned {program : Program S E A}
    (hout : ∀ value, program.outcome answer ≠ .returned value) (rest : A → Program S E B) :
    (program >>= rest).calls answer = program.calls answer := by
  induction program with
  | done first => exact absurd rfl (hout first)
  | raise error => rfl
  | suspended => rfl
  | call op next ih => exact congrArg (op :: ·) (ih _ hout)

/-- A sequence returns only when both of its parts do. -/
theorem outcome_bind_returned_iff {program : Program S E A} {rest : A → Program S E B}
    {result : B} :
    (program >>= rest).outcome answer = .returned result ↔
      ∃ value, program.outcome answer = .returned value ∧
        (rest value).outcome answer = .returned result := by
  induction program with
  | done first => simp
  | raise error => simp
  | suspended => simp [outcome]
  | call op next ih => exact ih _

/-- With state-independent answers, a run folds the effects of the calls. -/
theorem run_oblivious {σ : Type} (effect : S.Call → σ → σ) (program : Program S E A)
    (state : σ) :
    program.run (fun op current => (answer op, effect op current)) state =
      (program.outcome answer,
        (program.calls answer).foldl (fun current op => effect op current) state) := by
  induction program generalizing state with
  | done value => rfl
  | raise error => rfl
  | suspended => rfl
  | call op next ih => exact ih _ _

end Oblivious

/-! ## All partial runs under an arbitrary environment -/

/-- A call together with the answer it got. -/
structure Event (S : Signature) (E : Type) where
  op : S.Call
  answer : Except E (S.Answer op)

/-- The events seen so far and the outcome: any environment, observed anywhere. -/
inductive Runs : Program S E A → List (Event S E) → Outcome E A → Prop
  | observed (program) : Runs program [] .running
  | done (value) : Runs (.done value) [] (.returned value)
  | raise (error) : Runs (.raise error) [] (.raised error)
  | call {op next answer events outcome} :
      Runs (next answer) events outcome →
      Runs (.call op next) (⟨op, answer⟩ :: events) outcome

/-- The calls of a run with fixed answers, each with its answer. -/
def history (answer : (op : S.Call) → Except E (S.Answer op)) :
    Program S E A → List (Event S E)
  | .done _ => []
  | .raise _ => []
  | .suspended => []
  | .call op next => ⟨op, answer op⟩ :: (next (answer op)).history answer

theorem history_eq (answer : (op : S.Call) → Except E (S.Answer op)) (program : Program S E A) :
    program.history answer = (program.calls answer).map fun op => ⟨op, answer op⟩ := by
  induction program with
  | call op next ih => exact congrArg (⟨op, answer op⟩ :: ·) (ih _)
  | _ => rfl

theorem runs_history (answer : (op : S.Call) → Except E (S.Answer op))
    (program : Program S E A) : Runs program (program.history answer) (program.outcome answer) := by
  induction program with
  | done value => exact .done value
  | raise error => exact .raise error
  | suspended => exact .observed _
  | call op next ih => exact .call (ih _)

/-- A partial run of a sequence is a partial run of its first part that did not
return, or a returning run of it followed by a run of the rest. -/
theorem runs_bind_iff {program : Program S E A} {rest : A → Program S E B}
    {events : List (Event S E)} {result : Outcome E B} :
    Runs (program >>= rest) events result ↔
      (Runs program events .running ∧ result = .running) ∨
      (∃ error, Runs program events (.raised error) ∧ result = .raised error) ∨
      ∃ value first second, events = first ++ second ∧
        Runs program first (.returned value) ∧ Runs (rest value) second result := by
  induction program generalizing events with
  | done value =>
      constructor
      · intro h
        exact .inr (.inr ⟨value, [], events, rfl, .done value, h⟩)
      · rintro (⟨h, rfl⟩ | ⟨error, h, rfl⟩ | ⟨value', first, second, rfl, h, h'⟩)
        · cases h
          exact .observed _
        · cases h
        · cases h
          exact h'
  | raise error =>
      constructor
      · intro h
        cases h with
        | observed => exact .inl ⟨.observed _, rfl⟩
        | raise => exact .inr (.inl ⟨error, .raise _, rfl⟩)
      · rintro (⟨h, rfl⟩ | ⟨error', h, rfl⟩ | ⟨value', first, second, rfl, h, h'⟩)
        · cases h
          exact .observed _
        · cases h
          exact .raise _
        · cases h
  | suspended =>
      constructor
      · intro h
        cases h with
        | observed => exact .inl ⟨.observed _, rfl⟩
      · rintro (⟨h, rfl⟩ | ⟨error', h, rfl⟩ | ⟨value', first, second, rfl, h, h'⟩)
        · cases h
          exact .observed _
        · cases h
        · cases h
  | call op next ih =>
      constructor
      · intro h
        cases h with
        | observed => exact .inl ⟨.observed _, rfl⟩
        | call h =>
            rcases (ih _).mp h with ⟨hrun, rfl⟩ | ⟨error, hrun, rfl⟩ |
              ⟨value, first, second, rfl, hrun, hrest⟩
            · exact .inl ⟨.call hrun, rfl⟩
            · exact .inr (.inl ⟨error, .call hrun, rfl⟩)
            · exact .inr (.inr ⟨value, _ :: first, second, rfl, .call hrun, hrest⟩)
      · rintro (⟨h, rfl⟩ | ⟨error', h, rfl⟩ | ⟨value', first, second, rfl, h, h'⟩)
        · cases h with
          | observed => exact .observed _
          | call h => exact .call ((ih _).mpr (.inl ⟨h, rfl⟩))
        · cases h with
          | call h => exact .call ((ih _).mpr (.inr (.inl ⟨error', h, rfl⟩)))
        · cases h with
          | call h =>
              exact .call ((ih _).mpr (.inr (.inr ⟨value', _, second, rfl, h, h'⟩)))

/-- Whatever the environment does, every event satisfies `allowed` and every
returned value satisfies `post`. -/
def Ensures (program : Program S E A) (allowed : Event S E → Prop) (post : A → Prop) : Prop :=
  ∀ events outcome, Runs program events outcome →
    (∀ event ∈ events, allowed event) ∧ ∀ value, outcome = .returned value → post value

section Ensures

variable {allowed : Event S E → Prop} {post : A → Prop} {post' : B → Prop}

theorem ensures_done {value : A} (hpost : post value) :
    (Program.done value : Program S E A).Ensures allowed post := by
  intro events outcome h
  cases h with
  | observed => simp
  | done => simpa using hpost

theorem ensures_raise (error : E) :
    (Program.raise error : Program S E A).Ensures allowed post := by
  intro events outcome h
  cases h <;> simp

theorem ensures_ofExcept {value : Except E A} (hpost : ∀ result, value = .ok result → post result) :
    (ofExcept value : Program S E A).Ensures allowed post := by
  cases value with
  | ok result => exact ensures_done (hpost result rfl)
  | error error => exact ensures_raise error

theorem ensures_call {op : S.Call} {next : Except E (S.Answer op) → Program S E A}
    (hop : ∀ answer, allowed ⟨op, answer⟩)
    (hnext : ∀ answer, (next answer).Ensures allowed post) :
    (Program.call op next).Ensures allowed post := by
  intro events outcome h
  cases h with
  | observed => simp
  | call h =>
      obtain ⟨hevents, hvalue⟩ := hnext _ _ _ h
      refine ⟨?_, hvalue⟩
      intro event hevent
      rcases List.mem_cons.mp hevent with rfl | hevent
      · exact hop _
      · exact hevents event hevent

theorem ensures_perform {op : S.Call} {post : S.Answer op → Prop}
    (hop : ∀ answer, allowed ⟨op, answer⟩) (hpost : ∀ answer, post answer) :
    (perform op : Program S E _).Ensures allowed post := by
  refine ensures_call hop ?_
  intro answer
  cases answer with
  | ok answer => exact ensures_done (hpost answer)
  | error error => exact ensures_raise error

theorem ensures_bind {program : Program S E A} {rest : A → Program S E B}
    (hfirst : program.Ensures allowed post)
    (hrest : ∀ value, post value → (rest value).Ensures allowed post') :
    (program >>= rest).Ensures allowed post' := by
  intro events outcome h
  rcases runs_bind_iff.mp h with ⟨hrun, rfl⟩ | ⟨error, hrun, rfl⟩ |
    ⟨value, first, second, rfl, hrun, hrest'⟩
  · exact ⟨(hfirst _ _ hrun).1, by simp⟩
  · exact ⟨(hfirst _ _ hrun).1, by simp⟩
  · obtain ⟨hevents, hvalue⟩ := hfirst _ _ hrun
    obtain ⟨hevents', hvalue'⟩ := hrest value (hvalue value rfl) _ _ hrest'
    refine ⟨?_, hvalue'⟩
    intro event hevent
    rcases List.mem_append.mp hevent with hevent | hevent
    · exact hevents event hevent
    · exact hevents' event hevent

end Ensures

end Program

end BlockchainDataCollection.Effect
