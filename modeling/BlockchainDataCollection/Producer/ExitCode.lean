import BlockchainDataCollection.Effect.Machine
import BlockchainDataCollection.Model.Data

/-!
# The exit code of the producers

`start_producing_data` creates one task for each configuration and gathers
them all.  The loop that reports what they raised asks for the number of
contracts, which a configuration need not have, so the first such failure is
replaced by a `TypeError` of its own.
-/

namespace BlockchainDataCollection.ExitCode

open BlockchainDataCollection.Effect
open BlockchainDataCollection.Python
open BlockchainDataCollection.Data

/-! ## The report -/

/-- What `gather` with `return_exceptions=True` holds for a task. -/
abbrev TaskResult := Except PyError Unit

/-- The text of the logged error, with `len(cfg.contracts)` in it. -/
def exceptionMessage (cfg : DataCollectionConfig) : Except PyError String :=
  match cfg.contracts with
  | none => .error (.typeError "object of type 'NoneType' has no len()")
  | some contracts => .ok
      (s!"Data collection for mode=\"{cfg.mode.value}\" with {contracts.length} contracts " ++
        "resulted in an exception:")

/-- The loop over the results and their configurations. -/
def report : ℤ → List (TaskResult × DataCollectionConfig) → Except PyError ℤ
  | exitCode, [] => .ok exitCode
  | exitCode, (.ok (), _) :: rest => report exitCode rest
  | _, (.error _, cfg) :: rest => do
      let _ ← exceptionMessage cfg
      report 1 rest

/-- A task that raised. -/
def Raised (outcome : TaskResult × DataCollectionConfig) : Prop :=
  outcome.1.isOk = false

instance (outcome : TaskResult × DataCollectionConfig) : Decidable (Raised outcome) :=
  inferInstanceAs (Decidable (_ = _))

/-- One exactly when some task raised. -/
def expectedCode (outcomes : List (TaskResult × DataCollectionConfig)) : ℤ :=
  if ∃ outcome ∈ outcomes, Raised outcome then 1 else 0

theorem expectedCode_eq_of_perm {order outcomes : List (TaskResult × DataCollectionConfig)}
    (hperm : order.Perm outcomes) : expectedCode order = expectedCode outcomes := by
  simp only [expectedCode, hperm.mem_iff]

/-- Every failure comes with a list of contracts. -/
def FailuresHaveContracts (outcomes : List (TaskResult × DataCollectionConfig)) : Prop :=
  ∀ outcome ∈ outcomes, Raised outcome → outcome.2.contracts ≠ none

theorem report_eq_of_contracts {outcomes : List (TaskResult × DataCollectionConfig)}
    (h : FailuresHaveContracts outcomes) (exitCode : ℤ) :
    report exitCode outcomes =
      .ok (if ∃ outcome ∈ outcomes, Raised outcome then 1 else exitCode) := by
  induction outcomes generalizing exitCode with
  | nil => simp [report]
  | cons outcome outcomes ih =>
      have hrest : FailuresHaveContracts outcomes := fun other hother =>
        h other (List.mem_cons_of_mem _ hother)
      obtain ⟨result, cfg⟩ := outcome
      cases result with
      | ok value =>
          have hnot : ¬ Raised (.ok value, cfg) := Bool.noConfusion
          rw [report, ih hrest]
          simp only [List.mem_cons, exists_eq_or_imp, hnot, false_or]
      | error error =>
          have hraised : Raised (.error error, cfg) := rfl
          obtain ⟨contracts, hcontracts⟩ :=
            Option.ne_none_iff_exists'.mp (h _ List.mem_cons_self hraised)
          have hmessage : ∃ message, exceptionMessage cfg = .ok message := by
            rw [exceptionMessage, hcontracts]
            exact ⟨_, rfl⟩
          obtain ⟨message, hmessage⟩ := hmessage
          rw [report, hmessage]
          change report 1 outcomes = _
          rw [ih hrest]
          simp only [List.mem_cons, exists_eq_or_imp, hraised, true_or, if_true, ite_self]

theorem report_eq_error_of_missing {outcomes : List (TaskResult × DataCollectionConfig)}
    (h : ¬ FailuresHaveContracts outcomes) (exitCode : ℤ) :
    report exitCode outcomes = .error (.typeError "object of type 'NoneType' has no len()") := by
  induction outcomes generalizing exitCode with
  | nil => exact absurd (fun _ hmem => absurd hmem List.not_mem_nil) h
  | cons outcome outcomes ih =>
      rw [FailuresHaveContracts, List.forall_mem_cons, not_and_or] at h
      obtain ⟨result, cfg⟩ := outcome
      cases result with
      | ok value =>
          have hhead : Raised (.ok value, cfg) → cfg.contracts ≠ none := Bool.noConfusion
          exact ih (h.resolve_left (not_not.mpr hhead)) exitCode
      | error error =>
          cases hcontracts : cfg.contracts with
          | none =>
              rw [report, exceptionMessage, hcontracts]
              rfl
          | some contracts =>
              have hhead : Raised (.error error, cfg) → cfg.contracts ≠ none :=
                fun _ => hcontracts ▸ Option.some_ne_none contracts
              rw [report, exceptionMessage, hcontracts]
              exact ih (h.resolve_left (not_not.mpr hhead)) 1

/-! ## The event loop -/

/-- Where `start_producing_data` stands. -/
structure ProducingState where
  /-- The number of tasks that were created. -/
  created : ℕ
  /-- The tasks that have finished, by their position. -/
  finished : Finset ℕ
  /-- What the coroutine returned or raised. -/
  result : Option (Except PyError ℤ)
  deriving DecidableEq

def initial : ProducingState := ⟨0, ∅, none⟩

inductive ProducingAction where
  /-- Create the task of the next configuration. -/
  | createTask
  /-- A task that was created comes to its end. -/
  | finish (task : ℕ)
  /-- `gather` is done, and the coroutine runs to its end. -/
  | gathered
  deriving DecidableEq

/-- The task at each position comes to its outcome at any time after its creation,
and the coroutine only goes on when all of them have. -/
def Enabled (outcomes : List (TaskResult × DataCollectionConfig)) (state : ProducingState) :
    ProducingAction → Prop
  | .createTask => state.created < outcomes.length ∧ state.result = none
  | .finish task => task < state.created ∧ task ∉ state.finished
  | .gathered => state.created = outcomes.length ∧ (∀ task < outcomes.length,
      task ∈ state.finished) ∧ state.result = none

def effect (outcomes : List (TaskResult × DataCollectionConfig)) (state : ProducingState) :
    ProducingAction → ProducingState
  | .createTask => { state with created := state.created + 1 }
  | .finish task => { state with finished := insert task state.finished }
  | .gathered => { state with result := some (report 0 outcomes) }

instance (outcomes : List (TaskResult × DataCollectionConfig)) (state : ProducingState) :
    (action : ProducingAction) → Decidable (Enabled outcomes state action)
  | .createTask => inferInstanceAs (Decidable (_ ∧ _))
  | .finish _ => inferInstanceAs (Decidable (_ ∧ _))
  | .gathered => inferInstanceAs (Decidable (_ ∧ (∀ _ < _, _) ∧ _))

/-- `start_producing_data` for configurations whose tasks come to these outcomes. -/
def producing (outcomes : List (TaskResult × DataCollectionConfig)) :
    Machine ProducingState ProducingAction where
  Enabled := Enabled outcomes
  effect := effect outcomes
  decidableEnabled _ _ := inferInstance

/-- A coroutine that ended did so after all tasks, with the exit code expected in
any order of the configurations; and it has ended when nothing more can happen. -/
structure Correct (outcomes : List (TaskResult × DataCollectionConfig))
    (state : ProducingState) : Prop where
  exitCode : ∀ result, state.result = some result →
    ∀ order, order.Perm outcomes → result = .ok (expectedCode order)
  waits : state.result ≠ none → state.created = outcomes.length ∧
    ∀ task < outcomes.length, task ∈ state.finished
  ends : (∀ action, ¬ (producing outcomes).Enabled state action) → state.result ≠ none

/-! ## Runs -/

section Runs

variable {outcomes : List (TaskResult × DataCollectionConfig)} {state : ProducingState}

structure Invariant (outcomes : List (TaskResult × DataCollectionConfig))
    (state : ProducingState) : Prop where
  created : state.created ≤ outcomes.length
  waits : state.result ≠ none → state.created = outcomes.length ∧
    ∀ task < outcomes.length, task ∈ state.finished
  result : ∀ result, state.result = some result → result = report 0 outcomes

theorem invariant_initial : Invariant outcomes initial where
  created := Nat.zero_le _
  waits h := absurd rfl h
  result _ h := by cases h

theorem Invariant.step (h : Invariant outcomes state) {action : ProducingAction}
    (henabled : (producing outcomes).Enabled state action) :
    Invariant outcomes ((producing outcomes).effect state action) := by
  cases action with
  | createTask =>
      have hrunning : state.result = none := henabled.2
      exact ⟨henabled.1, fun hended => absurd hrunning hended, h.result⟩
  | finish task =>
      refine ⟨h.created, fun hended => ?_, h.result⟩
      obtain ⟨hcreated, hfinished⟩ := h.waits hended
      exact ⟨hcreated, fun other hother => Finset.mem_insert_of_mem (hfinished other hother)⟩
  | gathered =>
      exact ⟨h.created, fun _ => ⟨henabled.1, henabled.2.1⟩, fun _ hresult =>
        (Option.some.inj hresult).symm⟩

theorem invariant_of_reaches (hreaches : (producing outcomes).Reaches initial state) :
    Invariant outcomes state :=
  hreaches.invariant invariant_initial fun _ _ h henabled => h.step henabled

/-- A coroutine that has not ended can go on: a task is missing or unfinished, or
all of them are gathered. -/
theorem Invariant.result_ne_none (h : Invariant outcomes state)
    (hstuck : ∀ action, ¬ (producing outcomes).Enabled state action) : state.result ≠ none := by
  intro hrunning
  have hcreated : state.created = outcomes.length :=
    h.created.eq_of_not_lt fun hlt => hstuck .createTask ⟨hlt, hrunning⟩
  have hfinished : ∀ task < outcomes.length, task ∈ state.finished := by
    intro task htask
    by_contra hunfinished
    exact hstuck (.finish task) ⟨hcreated ▸ htask, hunfinished⟩
  exact hstuck .gathered ⟨hcreated, hfinished, hrunning⟩

theorem reaches_created {count : ℕ} (hcount : count ≤ outcomes.length) :
    (producing outcomes).Reaches initial ⟨count, ∅, none⟩ := by
  induction count with
  | zero => exact Machine.Reaches.refl initial
  | succ count ih =>
      have hreaches := ih (Nat.le_of_succ_le hcount)
      exact @Machine.Reaches.tail _ _ _ _ _ hreaches .createTask ⟨hcount, rfl⟩

theorem reaches_finished {count : ℕ} (hcount : count ≤ outcomes.length) :
    (producing outcomes).Reaches initial ⟨outcomes.length, Finset.range count, none⟩ := by
  induction count with
  | zero => exact reaches_created le_rfl
  | succ count ih =>
      have hreaches := ih (Nat.le_of_succ_le hcount)
      rw [Finset.range_add_one]
      exact @Machine.Reaches.tail _ _ _ _ _ hreaches (.finish count)
        ⟨hcount, Finset.notMem_range_self⟩

/-- Some run ends with what the report gives. -/
theorem reaches_report (outcomes : List (TaskResult × DataCollectionConfig)) :
    (producing outcomes).Reaches initial
      ⟨outcomes.length, Finset.range outcomes.length, some (report 0 outcomes)⟩ :=
  @Machine.Reaches.tail _ _ _ _ _ (reaches_finished le_rfl) .gathered
    ⟨rfl, fun _ htask => Finset.mem_range.mpr htask, rfl⟩

/-- Every run of `start_producing_data` waits for its tasks and returns the
expected exit code exactly when each failed configuration lists contracts. -/
theorem correct_iff (outcomes : List (TaskResult × DataCollectionConfig)) :
    (∀ state, (producing outcomes).Reaches initial state → Correct outcomes state) ↔
      FailuresHaveContracts outcomes := by
  constructor
  · intro hcorrect
    by_contra hmissing
    have hresult := (hcorrect _ (reaches_report outcomes)).exitCode _ rfl outcomes
      (List.Perm.refl _)
    rw [report_eq_error_of_missing hmissing] at hresult
    cases hresult
  · intro hcontracts state hreaches
    have hinvariant := invariant_of_reaches hreaches
    refine ⟨fun result hresult order hperm => ?_, hinvariant.waits, hinvariant.result_ne_none⟩
    rw [hinvariant.result result hresult, report_eq_of_contracts hcontracts,
      expectedCode_eq_of_perm hperm]
    rfl

end Runs

/-- Mode `full` without contracts. -/
def fullConfig : DataCollectionConfig where
  mode := .full
  startBlock := some 0
  endBlock := some 10
  contracts := none

/-- The node is down: the failure of the task ends in a `TypeError`. -/
theorem failure_without_contracts_raises :
    (producing [(.error (.nodeError "connection refused"), fullConfig)]).run initial
      [.createTask, .finish 0, .gathered] =
        some ⟨1, {0}, some (.error (.typeError "object of type 'NoneType' has no len()"))⟩ ∧
    ¬ ∀ state, (producing [(.error (.nodeError "connection refused"), fullConfig)]).Reaches
      initial state → Correct [(.error (.nodeError "connection refused"), fullConfig)] state := by
  have hrun : (producing [(.error (.nodeError "connection refused"), fullConfig)]).run initial
      [.createTask, .finish 0, .gathered] =
        some ⟨1, {0}, some (.error (.typeError "object of type 'NoneType' has no len()"))⟩ := rfl
  refine ⟨hrun, fun hcorrect => ?_⟩
  have hresult := (hcorrect _ ⟨_, hrun⟩).exitCode _ rfl _ (List.Perm.refl _)
  cases hresult

end BlockchainDataCollection.ExitCode
