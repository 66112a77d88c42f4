import BlockchainDataCollection.Effect.Environment

/-!
# Processes

A process is a program together with what has happened to it so far.  It may be
left at any point, as a crash does, so its events are those of a partial run.
Programs without handlers stop at the first error they are answered with, and
their calls are then a prefix of the calls that the true answers lead to.
-/

namespace BlockchainDataCollection.Effect

open Program

variable {S : Signature} {E A B : Type}

/-- What is left of a program continues its partial run. -/
structure Process (S : Signature) (E A : Type) where
  program : Program S E A
  events : List (Event S E)
  rest : Program S E A
  follows : ∀ later outcome, Runs rest later outcome → Runs program (events ++ later) outcome

namespace Process

def start (program : Program S E A) : Process S E A :=
  ⟨program, [], program, fun _ _ hruns => hruns⟩

/-- The process after its next call is answered. -/
def answered (process : Process S E A) {op : S.Call}
    {next : Except E (S.Answer op) → Program S E A} (hrest : process.rest = .call op next)
    (answer : Except E (S.Answer op)) : Process S E A where
  program := process.program
  events := process.events ++ [⟨op, answer⟩]
  rest := next answer
  follows later outcome hruns := by
    rw [List.append_assoc, List.singleton_append]
    exact process.follows _ _ (hrest ▸ .call hruns)

/-- A process at its end has nothing to answer. -/
def resume (process : Process S E A) (answers : (op : S.Call) → Except E (S.Answer op)) :
    Process S E A :=
  match hrest : process.rest with
  | .call op _ => process.answered hrest (answers op)
  | _ => process

/-- The call that a process waits at, with its answer. -/
def nextEvent (process : Process S E A) (answers : (op : S.Call) → Except E (S.Answer op)) :
    Option (Event S E) :=
  match process.rest with
  | .call op _ => some ⟨op, answers op⟩
  | _ => none

section Resume

variable {process : Process S E A} {answers : (op : S.Call) → Except E (S.Answer op)}

@[simp]
theorem program_start (program : Program S E A) : (start program).program = program := rfl

@[simp]
theorem events_start (program : Program S E A) : (start program).events = [] := rfl

@[simp]
theorem program_resume : (process.resume answers).program = process.program := by
  unfold resume
  split <;> rfl

theorem events_resume : (process.resume answers).events =
    process.events ++ (process.nextEvent answers).toList := by
  unfold resume nextEvent
  split <;> simp_all [answered]

theorem rest_resume {op : S.Call} {next : Except E (S.Answer op) → Program S E A}
    (hrest : process.rest = .call op next) :
    (process.resume answers).rest = next (answers op) := by
  unfold resume
  split
  next found _ hfound =>
      obtain ⟨rfl, hnext⟩ := Program.call.inj (hrest.symm.trans hfound)
      rw [eq_of_heq hnext]
      rfl
  next hother => exact absurd hrest (hother _ _)

theorem nextEvent_of_rest {op : S.Call} {next : Except E (S.Answer op) → Program S E A}
    (hrest : process.rest = .call op next) :
    process.nextEvent answers = some ⟨op, answers op⟩ := by
  rw [nextEvent, hrest]

theorem runs (process : Process S E A) : Runs process.program process.events .running := by
  rw [← List.append_nil process.events]
  exact process.follows _ _ (.observed _)

theorem runs_returned {value : A} (hdone : process.rest = .done value) :
    Runs process.program process.events (.returned value) := by
  rw [← List.append_nil process.events]
  exact process.follows _ _ (hdone ▸ .done value)

/-- The next event goes on with the partial run. -/
theorem runs_nextEvent {event : Event S E} (hnext : process.nextEvent answers = some event) :
    Runs process.program (process.events ++ [event]) .running := by
  have hruns := (process.resume answers).runs
  rwa [program_resume, events_resume, hnext, Option.toList_some] at hruns

end Resume

end Process

/-! ## Programs that stop at the first error -/

namespace Program

/-- Every error that the program is answered with is raised, and no loop is cut off. -/
def StopsAtError : Program S E A → Prop
  | .done _ => True
  | .raise _ => True
  | .suspended => False
  | .call _ next => (∀ error, next (.error error) = .raise error) ∧
      ∀ answer, (next (.ok answer)).StopsAtError

theorem stopsAtError_perform (op : S.Call) :
    (perform op : Program S E (S.Answer op)).StopsAtError :=
  ⟨fun _ => rfl, fun _ => trivial⟩

theorem stopsAtError_ofExcept (value : Except E A) :
    (ofExcept value : Program S E A).StopsAtError := by
  cases value <;> trivial

theorem StopsAtError.bind {program : Program S E A} {rest : A → Program S E B}
    (hprogram : program.StopsAtError) (hrest : ∀ value, (rest value).StopsAtError) :
    (program >>= rest).StopsAtError := by
  induction program with
  | done value => exact hrest value
  | raise error => trivial
  | suspended => exact hprogram
  | call op next ih =>
      refine ⟨fun error => ?_, fun answer => ih _ (hprogram.2 answer)⟩
      exact congrArg (Program.bind · rest) (hprogram.1 error)

section Runs

variable {answer : (op : S.Call) → Except E (S.Answer op)} {program : Program S E A}
  {events : List (Event S E)} {outcome : Outcome E A}

theorem eq_nil_of_runs_raise {error : E}
    (hruns : Runs (.raise error : Program S E A) events outcome) :
    events = [] ∧ ∀ value, outcome ≠ .returned value := by
  cases hruns <;> simp

/-- An answered value is the one that the call is answered with in truth. -/
def Truthful (answer : (op : S.Call) → Except E (S.Answer op)) (event : Event S E) : Prop :=
  ∀ value, event.answer = .ok value → answer event.op = .ok value

/-- Only the last event of a partial run is an error. -/
theorem StopsAtError.answered_ok (hprogram : program.StopsAtError) {event : Event S E}
    (hruns : Runs program (events ++ [event]) outcome) :
    ∀ earlier ∈ events, ∃ value, earlier.answer = .ok value := by
  induction events generalizing program with
  | nil => simp
  | cons first events ih =>
      cases hruns with
      | @call op next found _ _ hruns =>
          cases found with
          | error error =>
              rw [hprogram.1 error] at hruns
              have hnil := (eq_nil_of_runs_raise hruns).1
              simp at hnil
          | ok value =>
              exact List.forall_mem_cons.mpr ⟨⟨value, rfl⟩, ih (hprogram.2 value) hruns⟩

/-- The calls of a partial run are among the first that the true answers lead to. -/
theorem StopsAtError.prefix_calls (hprogram : program.StopsAtError)
    (hruns : Runs program events outcome) (htruthful : ∀ event ∈ events, Truthful answer event) :
    events.map Event.op <+: program.calls answer := by
  induction hruns with
  | observed => exact List.nil_prefix
  | done => exact List.nil_prefix
  | raise => exact List.nil_prefix
  | @call op next found events outcome hruns ih =>
      obtain ⟨hfirst, hlater⟩ := List.forall_mem_cons.mp htruthful
      rw [List.map_cons, calls_call]
      refine (List.prefix_cons_inj op).mpr ?_
      cases found with
      | error error =>
          rw [hprogram.1 error] at hruns
          rw [(eq_nil_of_runs_raise hruns).1]
          exact List.nil_prefix
      | ok value =>
          have hanswer : answer op = .ok value := hfirst value rfl
          rw [hanswer]
          exact ih (hprogram.2 value) hlater

/-- A run that returns has made exactly the calls that the true answers lead to,
and all of them were answered. -/
theorem StopsAtError.of_returned (hprogram : program.StopsAtError) {value : A}
    (hruns : Runs program events (.returned value))
    (htruthful : ∀ event ∈ events, Truthful answer event) :
    program.outcome answer = .returned value ∧ events.map Event.op = program.calls answer ∧
      ∀ event ∈ events, ∃ found, event.answer = .ok found := by
  generalize houtcome : Outcome.returned value = outcome at hruns
  induction hruns with
  | observed => cases houtcome
  | done found =>
      obtain rfl := Outcome.returned.inj houtcome
      simp
  | raise => cases houtcome
  | @call op next found events outcome hruns ih =>
      subst houtcome
      obtain ⟨hfirst, hlater⟩ := List.forall_mem_cons.mp htruthful
      cases found with
      | error error =>
          rw [hprogram.1 error] at hruns
          exact absurd rfl ((eq_nil_of_runs_raise hruns).2 value)
      | ok result =>
          have hanswer : answer op = .ok result := hfirst result rfl
          obtain ⟨hout, hcalls, hok⟩ := ih (hprogram.2 result) hlater rfl
          refine ⟨?_, ?_, List.forall_mem_cons.mpr ⟨⟨result, rfl⟩, hok⟩⟩
          · rw [outcome_call, hanswer, hout]
          · rw [List.map_cons, calls_call, hanswer, hcalls]

/-- Such a program returns or raises. -/
theorem StopsAtError.outcome_ne_running (hprogram : program.StopsAtError) :
    program.outcome answer ≠ .running := by
  induction program with
  | done value => simp
  | raise error => simp
  | suspended => exact hprogram.elim
  | call op next ih =>
      rw [outcome_call]
      cases hanswer : answer op with
      | ok value => exact ih _ (hprogram.2 value)
      | error error => simp [hprogram.1 error]

/-- When a call fails, the calls before it were answered and none comes after. -/
theorem StopsAtError.runIn_failingAt (hprogram : program.StopsAtError) {k : ℕ} {op : S.Call}
    (hcall : (program.calls answer)[k]? = some op) (error : E) (history : List (Event S E)) :
    program.runIn (failingAt answer (history.length + k) error) history =
      (.raised error, history ++ ((program.history answer).take k ++ [⟨op, .error error⟩])) := by
  induction program generalizing k history with
  | done value => simp at hcall
  | raise error => simp at hcall
  | suspended => exact hprogram.elim
  | call first next ih =>
      cases k with
      | zero =>
          obtain rfl : first = op := by simpa using hcall
          have hanswer : failingAt answer (history.length + 0) error history first =
              .error error := if_pos rfl
          rw [runIn, run_call, hanswer, hprogram.1 error]
          rfl
      | succ k =>
          have hanswer : failingAt answer (history.length + (k + 1)) error history first =
              answer first := if_neg (by omega)
          rw [calls_call, List.getElem?_cons_succ] at hcall
          rw [runIn, run_call, hanswer]
          cases hfirst : answer first with
          | error earlier =>
              rw [hfirst, hprogram.1 earlier] at hcall
              simp at hcall
          | ok found =>
              rw [hfirst] at hcall
              have hrest := ih _ (hprogram.2 found) hcall (history ++ [⟨first, .ok found⟩])
              rw [List.length_append, List.length_singleton, Nat.add_assoc, Nat.add_comm 1 k,
                List.append_assoc] at hrest
              rw [Program.history, hfirst]
              exact hrest

end Runs

end Program

end BlockchainDataCollection.Effect
