import BlockchainDataCollection.Consumer.Attempts

/-!
# A transaction that fails

The calls of one `process_transaction` follow a plan that its inputs determine.
Nothing spans them, so what was committed before the call that raises stays.
The tables are then as before exactly when every row that the plan commits
before this call was stored already.
-/

namespace BlockchainDataCollection.Failures

open BlockchainDataCollection.Effect
open BlockchainDataCollection.Python
open BlockchainDataCollection.Data
open BlockchainDataCollection.Parser
open BlockchainDataCollection.Storage
open BlockchainDataCollection.TxProcessor
open BlockchainDataCollection.Processing
open BlockchainDataCollection.Saving
open BlockchainDataCollection.Relevance
open BlockchainDataCollection.Soundness
open BlockchainDataCollection.Consuming
open BlockchainDataCollection.Committing
open BlockchainDataCollection.Attempts
open ChecksumSpelling

section Failures

variable [ChecksumSpelling]

/-! ## The plan -/

/-- The trace request, and the internal transactions if there are any. -/
def tracePlan (node : Node) (txHash : String) : List ConsumerCall :=
  .traceReplayTransaction txHash ::
    if storedInternalTransactions node txHash = [] then []
    else [.execute (internalStatements node txHash)]

/-- The calls of `_handle_transaction`: the row, the logs, and then the trace. -/
def storePlan (node : Node) (txData : TransactionData) (txReceiptData : TransactionReceiptData)
    (logIndicesToSave : Finset ℕ) : List ConsumerCall :=
  (rowBlocks txData txReceiptData logIndicesToSave).map .execute ++
    tracePlan node txData.transactionHash

/-- The calls of `process_transaction`, each derived row on its own first. -/
def callPlan (node : Node) (settings : ParserSettings) (setOrder : SetOrder)
    (mode : DataCollectionMode) (tx : TxData) (receipt : TxReceipt) : List ConsumerCall :=
  match mode with
  | .full | .getLogs => storePlan node (.parse tx) (.parse receipt)
      ((TransactionReceiptData.parse receipt).logs.map TransactionLogsData.logIndex).toFinset
  | .partialMode => (singly (decisionStatements settings setOrder tx receipt)).map .execute ++
      if shouldSave settings setOrder tx receipt then
        storePlan node (.parse tx) (.parse receipt) (savedIndices settings setOrder tx receipt)
      else []
  | .logFilter => []

/-- The SQL transactions among some calls. -/
def sqlTransactions (ops : List ConsumerCall) : List (List Statement) :=
  ops.flatMap fun
    | .execute statements => [statements]
    | _ => []

/-! ## Rules -/

section Rules

variable {node : Node} {A B : Type} {program : ConsumerProgram A} {plan plan' : List ConsumerCall}
  {post : A → Prop}

/-- The calls of a run are the first ones of a plan, and all of them where it returns. -/
structure Follows (node : Node) (program : ConsumerProgram A) (plan : List ConsumerCall)
    (post : A → Prop) : Prop where
  calls : program.calls node.answer <+: plan
  returned : ∀ value, program.outcome node.answer = .returned value →
    program.calls node.answer = plan ∧ post value

theorem follows_done {value : A} (hpost : post value) : Follows node (.done value) [] post where
  calls := List.nil_prefix
  returned _ hreturned := ⟨rfl, Outcome.returned.inj hreturned ▸ hpost⟩

theorem follows_ofExcept {value : Except PyError A}
    (hpost : ∀ result, value = .ok result → post result) :
    Follows node (Program.ofExcept value) [] post := by
  cases value with
  | ok result => exact follows_done (hpost result rfl)
  | error error => exact ⟨List.nil_prefix, fun _ hreturned => by cases hreturned⟩

theorem follows_perform (op : ConsumerCall) :
    Follows node (@Program.perform consumerSignature _ op) [op]
      fun answer => node.answer op = .ok answer := by
  have hcalls : (@Program.perform consumerSignature PyError op).calls node.answer = [op] := by
    rw [Program.perform, Program.calls_call]
    cases node.answer op <;> rfl
  constructor
  · rw [hcalls]
  · intro answer hreturned
    exact ⟨hcalls, Program.outcome_perform_returned_iff.mp hreturned⟩

theorem Follows.bind {rest : A → ConsumerProgram B} {post' : B → Prop}
    (hfirst : Follows node program plan post)
    (hrest : ∀ value, post value → Follows node (rest value) plan' post') :
    Follows node (program >>= rest) (plan ++ plan') post' := by
  by_cases hreturns : ∃ value, program.outcome node.answer = .returned value
  · obtain ⟨value, hvalue⟩ := hreturns
    obtain ⟨hcalls, hpost⟩ := hfirst.returned value hvalue
    have hsplit := Program.calls_bind_of_returned hvalue rest
    rw [hcalls] at hsplit
    constructor
    · rw [hsplit]
      exact (List.prefix_append_right_inj plan).mpr (hrest value hpost).calls
    · intro result hreturned
      rw [Program.outcome_bind_of_returned hvalue] at hreturned
      obtain ⟨hcalls', hpost'⟩ := (hrest value hpost).returned result hreturned
      exact ⟨by rw [hsplit, hcalls'], hpost'⟩
  · constructor
    · rw [Program.calls_bind_of_not_returned (fun value hvalue => hreturns ⟨value, hvalue⟩)]
      exact hfirst.calls.trans (List.prefix_append _ _)
    · intro result hreturned
      obtain ⟨value, hvalue, _⟩ := Program.outcome_bind_returned_iff.mp hreturned
      exact absurd ⟨value, hvalue⟩ hreturns

theorem Follows.mono {post' : A → Prop} (h : Follows node program plan post)
    (hpost : ∀ value, post value → post' value) : Follows node program plan post' where
  calls := h.calls
  returned value hreturned :=
    ⟨(h.returned value hreturned).1, hpost value (h.returned value hreturned).2⟩

theorem follows_writeEach (value : A) (statements : List Statement) :
    Follows node (writeEach value statements) ((singly statements).map .execute)
      (· = value) := by
  induction statements with
  | nil => exact follows_done rfl
  | cons statement statements ih => exact (follows_perform _).bind fun _ _ => ih

end Rules

/-! ## The processors -/

section Processors

variable {node : Node} {settings : ParserSettings} {parser : ContractParser} {setOrder : SetOrder}
  {tx : TxData} {receipt : TxReceipt}

theorem follows_getInternalTransactions (txHash : String) :
    Follows node (getInternalTransactions txHash) [.traceReplayTransaction txHash]
      (· = storedInternalTransactions node txHash) := by
  have hcalls : Follows node (getInternalTransactions txHash) [.traceReplayTransaction txHash]
      fun _ => True :=
    (follows_perform (.traceReplayTransaction txHash)).bind fun _ _ =>
      follows_ofExcept fun _ _ => trivial
  refine ⟨hcalls.calls, fun value hreturned => ⟨(hcalls.returned value hreturned).1, ?_⟩⟩
  rw [outcome_getInternalTransactions] at hreturned
  rw [storedInternalTransactions]
  cases hparsed : internalTransactions node txHash with
  | ok internalTxData =>
      rw [hparsed] at hreturned
      exact (Outcome.returned.inj hreturned).symm
  | error error =>
      rw [hparsed] at hreturned
      cases hreturned

theorem follows_handleTransaction (txData : TransactionData)
    (txReceiptData : TransactionReceiptData) (indices : Finset ℕ) :
    Follows node (handleTransaction txData txReceiptData indices)
      (storePlan node txData txReceiptData indices) fun _ => True := by
  have hexecute : ∀ statements, Follows node (execute statements) [.execute statements]
      fun _ => True := fun _ => (follows_perform _).mono fun _ _ => trivial
  have hinternal : ∀ internalTxData, internalTxData =
      storedInternalTransactions node txData.transactionHash → Follows node
        (if internalTxData = [] then (pure () : ConsumerProgram Unit)
          else execute (internalTxData.map fun internalTx =>
            insertInternalTransaction (internalTransactionRow txData.transactionHash internalTx)))
        (if storedInternalTransactions node txData.transactionHash = [] then []
          else [.execute (internalStatements node txData.transactionHash)]) fun _ => True := by
    rintro _ rfl
    split
    · exact follows_done trivial
    · exact hexecute _
  exact (hexecute _).bind fun _ _ => (hexecute _).bind fun _ _ =>
    (follows_getInternalTransactions txData.transactionHash).bind hinternal

theorem follows_handleTransactionEvents {address : String} {config : ContractConfig}
    (hconfig : settings.config address = some config) (txData : TransactionData)
    (receipt : TxReceipt) :
    Follows node (handleTransactionEvents settings
        ⟨address, settings.getContractAbi config.category⟩ config.category txData receipt)
      ((singly (eventStatements settings txData.transactionHash receipt address)).map .execute)
      (· = eventIndices settings receipt address) := by
  rw [handleTransactionEvents_eq hconfig]
  exact follows_writeEach _ _

theorem follows_handleEventAddresses {txData : TransactionData} {addresses : List String}
    (indices : Finset ℕ) (haddresses : ∀ address ∈ addresses, isChecksumAddress address)
    (hparser : parser.Consistent) :
    Follows node
      (PartialTransactionProcessor.handleEventAddresses txData receipt addresses parser indices)
      ((singly (addresses.flatMap
        (eventStatements parser.settings txData.transactionHash receipt))).map .execute)
      fun result => result.1 = indices ∪ unionIndices parser.settings receipt addresses := by
  induction addresses generalizing parser indices with
  | nil => exact follows_done (by simp)
  | cons address addresses ih =>
      have htail : ∀ other ∈ addresses, isChecksumAddress other := fun other hother =>
        haddresses other (List.mem_cons_of_mem _ hother)
      rw [List.flatMap_cons, singly_append, unionIndices_cons, List.map_append]
      cases hcategory : parser.settings.getContractCategory address with
      | none =>
          have hconfig := getContractCategory_eq_none hcategory
          have hindices : eventIndices parser.settings receipt address = ∅ := by
            simp [eventIndices, hconfig]
          have hstatements : eventStatements parser.settings txData.transactionHash receipt
              address = [] := by
            simp [eventStatements, hconfig]
          simp only [PartialTransactionProcessor.handleEventAddresses, hcategory]
          rw [hindices, Finset.empty_union, hstatements]
          exact ih indices htail hparser
      | some category =>
          obtain ⟨config, hconfig, rfl⟩ := getContractCategory_eq_some hcategory
          have hcontract : Follows node
              (Program.ofExcept (parser.getContract address config.category)) [] fun result =>
                result.1 = ⟨address, parser.settings.getContractAbi config.category⟩ ∧
                  result.2.settings = parser.settings ∧ result.2.Consistent :=
            follows_ofExcept fun result hresult =>
              contract_of_getContract_ok hparser ⟨address, haddresses address List.mem_cons_self⟩
                hconfig hresult
          simp only [PartialTransactionProcessor.handleEventAddresses, hcategory]
          apply hcontract.bind
          rintro ⟨contract, parser₁⟩ ⟨rfl, hsettings, hconsistent⟩
          rw [hsettings]
          apply (follows_handleTransactionEvents hconfig txData receipt).bind
          rintro _ rfl
          have hrest := ih (indices ∪ eventIndices parser.settings receipt address) htail
            hconsistent
          rwa [hsettings, Finset.union_assoc] at hrest

theorem follows_decideSave (hparser : parser.Consistent) :
    Follows node
      (PartialTransactionProcessor.decideSave setOrder parser (.parse tx) (.parse receipt) receipt)
      ((singly (decisionStatements parser.settings setOrder tx receipt)).map .execute)
      fun result => result.1 = (shouldSave parser.settings setOrder tx receipt,
        savedIndices parser.settings setOrder tx receipt) := by
  rw [decideSave_eq, ← List.append_nil (List.map _ _)]
  apply (follows_handleEventAddresses ∅ (fun _ => isChecksumAddress_of_mem_handledAddresses)
    hparser).bind
  rintro ⟨indices, parser'⟩ rfl
  rw [Finset.empty_union]
  exact follows_done rfl

/-- In every mode the calls are the first ones of the plan; a run that returns
has made all of them. -/
theorem follows_processTransaction (hparser : parser.Consistent) (mode : DataCollectionMode) :
    Follows node (processTransaction setOrder mode parser tx receipt)
      (callPlan node parser.settings setOrder mode tx receipt) fun _ => True := by
  have hdone : ∀ {A : Type} (value : A), Follows node (.done value) [] fun _ => True :=
    fun _ => follows_done trivial
  have hstore : ∀ {A : Type} (value : A) indices, Follows node
      (handleTransaction (.parse tx) (.parse receipt) indices >>= fun _ => .done value)
      (storePlan node (.parse tx) (.parse receipt) indices) fun _ => True := by
    intro A value indices
    rw [← List.append_nil (storePlan _ _ _ _)]
    exact (follows_handleTransaction _ _ indices).bind fun _ _ => hdone value
  cases mode with
  | full | getLogs =>
      rw [callPlan, ← List.append_nil (storePlan _ _ _ _)]
      exact (hstore true _).bind fun _ _ => hdone _
  | partialMode =>
      apply (follows_decideSave hparser).bind
      rintro ⟨⟨save, indices⟩, parser'⟩ hresult
      obtain ⟨rfl, rfl⟩ := Prod.mk.inj hresult
      cases shouldSave parser.settings setOrder tx receipt with
      | false => exact hdone _
      | true => exact hstore _ _
  | logFilter => exact ⟨List.nil_prefix, fun _ hreturned => by cases hreturned⟩

end Processors

/-! ## The call that fails -/

section Calls

variable {node : Node}

/-- Every row of the blocks is there already, under its primary key. -/
def AlreadyStored (db : Database) (blocks : List (List Statement)) : Prop :=
  ∀ statement ∈ blocks.flatten, (db.table statement.table).Conflicts statement.row

theorem committed_take_history {A : Type} (program : ConsumerProgram A) (k : ℕ) :
    ((program.history node.answer).take k).flatMap committed =
      sqlTransactions ((program.calls node.answer).take k) := by
  have hcommitted : ∀ op, committed ⟨op, node.answer op⟩ = sqlTransactions [op] := by
    intro op
    cases op <;> rfl
  rw [Program.history_eq, ← List.map_take, List.flatMap_map, sqlTransactions]
  refine List.flatMap_congr fun op _ => ?_
  rw [hcommitted, sqlTransactions, List.flatMap_singleton]

/-- A call that fails leaves all tables as they were exactly when the rows that
the plan commits before it were stored already. -/
theorem failed_call_leaves_tables_iff {parser : ContractParser} (hparser : parser.Consistent)
    {setOrder : SetOrder} {mode : DataCollectionMode} {tx : TxData} {receipt : TxReceipt} {k : ℕ}
    {op : ConsumerCall}
    (hcall : ((processTransaction setOrder mode parser tx receipt).calls node.answer)[k]? = some op)
    (error : PyError) (db : Database) :
    ∃ events, (processTransaction setOrder mode parser tx receipt).runIn
        (failingAt node.answer k error) [] = (.raised error, events) ∧
      (callPlan node parser.settings setOrder mode tx receipt)[k]? = some op ∧
      (events.foldl applyEvent db = db ↔ AlreadyStored db
        (sqlTransactions ((callPlan node parser.settings setOrder mode tx receipt).take k))) := by
  have hrun := (stopsAtError_processTransaction setOrder mode parser tx receipt).runIn_failingAt
    hcall error []
  rw [List.length_nil, Nat.zero_add, List.nil_append] at hrun
  obtain ⟨later, hplan⟩ := (follows_processTransaction hparser mode :
    Follows node (processTransaction setOrder mode parser tx receipt) _ _).calls
  have hbound := (List.getElem?_eq_some_iff.mp hcall).1
  have hnone : committed ⟨op, .error error⟩ = [] := by cases op <;> rfl
  refine ⟨_, hrun, ?_, ?_⟩
  · rw [← hplan, List.getElem?_append_left hbound, hcall]
  · rw [foldl_applyEvent_eq, List.flatMap_append, committed_take_history, List.flatMap_singleton,
      hnone, List.append_nil, ← hplan, List.take_append_of_le_length hbound.le]
    exact Database.executeAll_eq_self_iff

end Calls

end Failures

section Deployment

open Deployment

/-- The transfer of a collectible, where the call with number three fails. -/
def failingRun : Outcome PyError (Bool × ContractParser) ×
    List (Program.Event consumerSignature PyError) :=
  (processTransaction setOrder .partialMode parser collectibleJob.tx collectibleJob.receipt).runIn
    (failingAt node.answer 3 (.nodeError "timeout")) []

/-- The transfer again, after a first attempt that failed in the same way. -/
theorem failed_call_leaves_tables_iff_of_failingRun :
    ∃ events, (processTransaction setOrder .partialMode parser collectibleJob.tx
        collectibleJob.receipt).runIn (failingAt node.answer 3 (.nodeError "timeout")) [] =
          (.raised (.nodeError "timeout"), events) ∧
      (callPlan node parser.settings setOrder .partialMode collectibleJob.tx
        collectibleJob.receipt)[3]? = some (.traceReplayTransaction txHash) ∧
      (events.foldl applyEvent (failingRun.2.foldl applyEvent Database.empty) =
          failingRun.2.foldl applyEvent Database.empty ↔
        AlreadyStored (failingRun.2.foldl applyEvent Database.empty)
          (sqlTransactions ((callPlan node parser.settings setOrder .partialMode collectibleJob.tx
            collectibleJob.receipt).take 3))) :=
  failed_call_leaves_tables_iff parser_consistent rfl _ _

/-- The failed trace request leaves the transaction, its log and its token
transfer behind in tables that were empty. -/
theorem failed_call_leaves_rows :
    ((processTransaction setOrder .partialMode parser collectibleJob.tx
        collectibleJob.receipt).calls node.answer)[3]? = some (.traceReplayTransaction txHash) ∧
      failingRun.1 = .raised (.nodeError "timeout") ∧
      ((Database.empty.table .transaction).rows = [] ∧
        (Database.empty.table .transactionLogs).rows = [] ∧
        (Database.empty.table .nftTransfer).rows = []) ∧
      ((failingRun.2.foldl applyEvent Database.empty).table .transaction).rows.map
        TransactionRow.transactionHash = [txHash] ∧
      ((failingRun.2.foldl applyEvent Database.empty).table .transactionLogs).rows.length = 1 ∧
      ((failingRun.2.foldl applyEvent Database.empty).table .nftTransfer).rows.length = 1 ∧
      failingRun.2.foldl applyEvent Database.empty ≠ Database.empty := by
  have hrows : ((failingRun.2.foldl applyEvent Database.empty).table .transaction).rows.map
      TransactionRow.transactionHash = [txHash] := by decide
  refine ⟨rfl, rfl, ⟨rfl, rfl, rfl⟩, hrows, by decide, by decide, fun heq => ?_⟩
  rw [heq] at hrows
  cases hrows

end Deployment

end BlockchainDataCollection.Failures
