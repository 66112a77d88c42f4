import BlockchainDataCollection.Consumer.TxProcessor

/-!
# What processing one transaction decides and writes

The node's answers are fixed and no statement is read back, so a processor is
described by the value it returns and the statements it writes, in order.  The
processors are computed here once in that form: which addresses of a receipt
are handled, which log indices each of them selects, and which rows it writes.
-/

namespace BlockchainDataCollection.Processing

open BlockchainDataCollection.Effect
open BlockchainDataCollection.Python
open BlockchainDataCollection.Data
open BlockchainDataCollection.Events
open BlockchainDataCollection.Parser
open BlockchainDataCollection.Storage
open BlockchainDataCollection.TxProcessor
open ChecksumSpelling

/-! ## Events of one contract -/

/-- The events `_handle_transaction_events` does not skip. -/
def IsHandled (allowed : Finset String) (contractAddress : String) (event : ContractEvent) :
    Prop :=
  event.body.typeName ∈ allowed ∧ event.address = contractAddress

instance (allowed : Finset String) (contractAddress : String) (event : ContractEvent) :
    Decidable (IsHandled allowed contractAddress event) :=
  inferInstanceAs (Decidable (_ ∧ _))

def supplyDelta (event : ContractEvent) : ℤ :=
  match event.body with
  | .mintFungible value => value
  | .burnFungible value => -value
  | _ => 0

def pairDelta0 (event : ContractEvent) : ℤ :=
  match event.body with
  | .mintPair _ amount0 _ => amount0
  | .burnPair _ _ amount0 _ => -amount0
  | .swapPair _ _ in0 _ out0 _ => in0 - out0
  | _ => 0

def pairDelta1 (event : ContractEvent) : ℤ :=
  match event.body with
  | .mintPair _ _ amount1 => amount1
  | .burnPair _ _ _ amount1 => -amount1
  | .swapPair _ _ _ in1 _ out1 => in1 - out1
  | _ => 0

theorem add_eq (totals : EventTotals) (event : ContractEvent) :
    totals.add event =
      { logIndicesToSave := insert event.logIndex totals.logIndicesToSave
        amountChanged := totals.amountChanged + supplyDelta event
        pairAmount0Changed := totals.pairAmount0Changed + pairDelta0 event
        pairAmount1Changed := totals.pairAmount1Changed + pairDelta1 event
        event := some event } := by
  obtain ⟨address, logIndex, body⟩ := event
  cases body <;>
    simp [EventTotals.add, supplyDelta, pairDelta0, pairDelta1, sub_eq_add_neg, add_assoc]

/-- The loop variables after the events of a receipt. -/
def totalsOf (allowed : Finset String) (contractAddress : String)
    (events : List ContractEvent) : EventTotals where
  logIndicesToSave := ((events.filter (IsHandled allowed contractAddress)).map
    ContractEvent.logIndex).toFinset
  amountChanged := ((events.filter (IsHandled allowed contractAddress)).map supplyDelta).sum
  pairAmount0Changed := ((events.filter (IsHandled allowed contractAddress)).map pairDelta0).sum
  pairAmount1Changed := ((events.filter (IsHandled allowed contractAddress)).map pairDelta1).sum
  event := events.getLast?

/-- The totals after further events, from totals already reached. -/
private def EventTotals.extend (totals later : EventTotals) : EventTotals where
  logIndicesToSave := totals.logIndicesToSave ∪ later.logIndicesToSave
  amountChanged := totals.amountChanged + later.amountChanged
  pairAmount0Changed := totals.pairAmount0Changed + later.pairAmount0Changed
  pairAmount1Changed := totals.pairAmount1Changed + later.pairAmount1Changed
  event := later.event.or totals.event

private theorem extend_start (later : EventTotals) :
    EventTotals.extend EventTotals.start later = later := by
  obtain ⟨indices, amount, amount0, amount1, event⟩ := later
  simp [EventTotals.extend, EventTotals.start]

private theorem extend_skip {allowed : Finset String} {contractAddress : String}
    (totals : EventTotals) {event : ContractEvent} (events : List ContractEvent)
    (hevent : ¬ IsHandled allowed contractAddress event) :
    EventTotals.extend (totals.skip event) (totalsOf allowed contractAddress events) =
      EventTotals.extend totals (totalsOf allowed contractAddress (event :: events)) := by
  simp [EventTotals.extend, EventTotals.skip, totalsOf, hevent, List.getLast?_cons]

private theorem extend_add {allowed : Finset String} {contractAddress : String}
    (totals : EventTotals) {event : ContractEvent} (events : List ContractEvent)
    (hevent : IsHandled allowed contractAddress event) :
    EventTotals.extend (totals.add event) (totalsOf allowed contractAddress events) =
      EventTotals.extend totals (totalsOf allowed contractAddress (event :: events)) := by
  simp [EventTotals.extend, add_eq, totalsOf, hevent, List.getLast?_cons, add_assoc]

/-- The rows of the loop: one NFT transfer for each handled transfer of a token. -/
def nftStatements (allowed : Finset String) (contractAddress txHash : String)
    (events : List ContractEvent) : List Statement :=
  (events.filter (IsHandled allowed contractAddress)).filterMap (nftTransferStatement txHash)

variable [ChecksumSpelling]

/-! ## A node that always gives the same answer -/

structure Node where
  getTransaction : String → Except PyError TxData
  getTransactionReceipt : String → Except PyError TxReceipt
  traceReplayTransaction : String → Except PyError (List TraceEntry)
  callText : String → String → Except PyError String
  callInt : String → String → Except PyError ℤ

/-- The answers of the node; the database accepts every statement. -/
def Node.answer (node : Node) : (op : ConsumerCall) → Except PyError op.Answer
  | .execute _ => .ok ()
  | .getTransaction txHash => node.getTransaction txHash
  | .getTransactionReceipt txHash => node.getTransactionReceipt txHash
  | .traceReplayTransaction txHash => node.traceReplayTransaction txHash
  | .callText address name => node.callText address name
  | .callInt address name => node.callInt address name

/-- The statements of a call: one SQL transaction, or none. -/
def callStatements : ConsumerCall → List Statement
  | .execute statements => statements
  | _ => []

def effect (op : ConsumerCall) (db : Database) : Database :=
  db.executeAll (callStatements op)

/-- Run a consumer program against the node and the database. -/
def process {A : Type} (node : Node) (program : ConsumerProgram A) (db : Database) :
    Outcome PyError A × Database :=
  program.run (fun op current => (node.answer op, effect op current)) db

/-- The statements a program writes, in order. -/
def written {A : Type} (node : Node) (program : ConsumerProgram A) : List Statement :=
  (program.calls node.answer).flatMap callStatements

omit [ChecksumSpelling] in
theorem foldl_effect (ops : List ConsumerCall) (db : Database) :
    ops.foldl (fun current op => effect op current) db =
      db.executeAll (ops.flatMap callStatements) := by
  induction ops generalizing db with
  | nil => rfl
  | cons op ops ih =>
      rw [List.foldl_cons, ih, List.flatMap_cons, Database.executeAll_append]
      rfl

theorem process_eq {A : Type} (node : Node) (program : ConsumerProgram A) (db : Database) :
    process node program db =
      (program.outcome node.answer, db.executeAll (written node program)) := by
  rw [process, Program.run_oblivious, foldl_effect]
  rfl

theorem outcome_of_process {A : Type} {node : Node} {program : ConsumerProgram A}
    {db db' : Database} {outcome : Outcome PyError A}
    (h : process node program db = (outcome, db')) : program.outcome node.answer = outcome := by
  rw [process_eq] at h
  exact (Prod.mk.inj h).1

/-- The program returns `value` and writes `statements`. -/
structure Performs {A : Type} (node : Node) (program : ConsumerProgram A) (value : A)
    (statements : List Statement) : Prop where
  outcome : program.outcome node.answer = .returned value
  written : written node program = statements

section Performs

variable {A B : Type} {node : Node}

theorem performs_done (value : A) : Performs node (.done value) value [] :=
  ⟨rfl, rfl⟩

theorem performs_perform {op : ConsumerCall} {result : op.Answer}
    (h : node.answer op = .ok result) :
    Performs node (@Program.perform consumerSignature _ op) result (callStatements op) := by
  refine ⟨Program.outcome_perform_returned_iff.mpr h, ?_⟩
  rw [Processing.written, Program.perform, Program.calls_call, h]
  exact List.append_nil _

theorem performs_execute (statements : List Statement) :
    Performs node (execute statements) () statements :=
  performs_perform rfl

theorem Performs.bind {program : ConsumerProgram A} {rest : A → ConsumerProgram B}
    {value : A} {result : B} {first second : List Statement}
    (hfirst : Performs node program value first)
    (hsecond : Performs node (rest value) result second) :
    Performs node (program >>= rest) result (first ++ second) := by
  constructor
  · rw [Program.outcome_bind_of_returned hfirst.outcome]
    exact hsecond.outcome
  · have hcalls := Program.calls_bind_of_returned hfirst.outcome rest
    rw [Processing.written, hcalls, List.flatMap_append]
    exact congrArg₂ _ hfirst.written hsecond.written

theorem Performs.process {program : ConsumerProgram A} {value : A}
    {statements : List Statement} (h : Performs node program value statements)
    (db : Database) :
    process node program db = (.returned value, db.executeAll statements) := by
  rw [process_eq, h.outcome, h.written]

/-- A program that returns performs what it is computed to perform. -/
theorem Performs.eq_of_returned {program : ConsumerProgram A} {value value' : A}
    {statements : List Statement} (h : Performs node program value statements)
    (hreturned : program.outcome node.answer = .returned value') : value' = value :=
  Outcome.returned.inj (hreturned.symm.trans h.outcome)

/-! ## Writing statements one after the other -/

/-- Commit each statement on its own, then return `value`. -/
def writeEach (value : A) : List Statement → ConsumerProgram A
  | [] => .done value
  | statement :: statements => do
      execute [statement]
      writeEach value statements

theorem writeEach_singleton (statement : Statement) :
    writeEach () [statement] = execute [statement] :=
  Program.bind_done _

theorem writeEach_bind {rest : A → ConsumerProgram B} {value : A} {result : B}
    {first second : List Statement} (hrest : rest value = writeEach result second) :
    writeEach value first >>= rest = writeEach result (first ++ second) := by
  induction first with
  | nil => exact hrest
  | cons statement first ih =>
      simp only [writeEach, List.cons_append, Program.bind_assoc, ih]

theorem performs_writeEach (value : A) (statements : List Statement) :
    Performs node (writeEach value statements) value statements := by
  induction statements with
  | nil => exact performs_done value
  | cons statement statements ih => exact (performs_execute [statement]).bind ih

end Performs

/-! ## The handler of one contract -/

private theorem handleEvents_eq_extend (allowed : Finset String) (contract : Contract)
    (txHash : String) (events : List ContractEvent) (totals : EventTotals) :
    handleEvents (some allowed) contract txHash events totals =
      writeEach (EventTotals.extend totals (totalsOf allowed contract.address events))
        (nftStatements allowed contract.address txHash events) := by
  induction events generalizing totals with
  | nil =>
      have htotals : EventTotals.extend totals (totalsOf allowed contract.address []) = totals := by
        simp [EventTotals.extend, totalsOf]
      rw [htotals]
      rfl
  | cons event events ih =>
      by_cases hevent : IsHandled allowed contract.address event
      · have hbranch : ¬ (event.body.typeName ∉ allowed ∨ event.address ≠ contract.address) :=
          not_or.mpr ⟨not_not.mpr hevent.1, not_not.mpr hevent.2⟩
        have hih := ih (totals.add event)
        rw [extend_add totals events hevent] at hih
        cases hstatement : nftTransferStatement txHash event with
        | none =>
            simp only [handleEvents, if_neg hbranch, hstatement, hih]
            simp [nftStatements, hevent, hstatement]
        | some statement =>
            simp only [handleEvents, if_neg hbranch, hstatement, hih]
            simp [nftStatements, hevent, hstatement, writeEach]
      · have hbranch : event.body.typeName ∉ allowed ∨ event.address ≠ contract.address := by
          simpa only [IsHandled, not_and_or] using hevent
        have hih := ih (totals.skip event)
        rw [extend_skip totals events hevent] at hih
        simp only [handleEvents, if_pos hbranch, hih]
        simp [nftStatements, hevent]

theorem handleEvents_eq (allowed : Finset String) (contract : Contract) (txHash : String)
    (events : List ContractEvent) :
    handleEvents (some allowed) contract txHash events EventTotals.start =
      writeEach (totalsOf allowed contract.address events)
        (nftStatements allowed contract.address txHash events) := by
  rw [handleEvents_eq_extend, extend_start]

/-- The supply row, under the address of the last event of the whole receipt. -/
def supplyStatements (txHash : String) (totals : EventTotals) : List Statement :=
  match totals.event with
  | none => []
  | some event =>
      if totals.amountChanged = 0 then []
      else [insertContractSupplyChange {
        address := event.address
        transactionHash := txHash
        amountChanged := totals.amountChanged }]

def pairStatements (contractAddress txHash : String) (totals : EventTotals) : List Statement :=
  if totals.pairAmount0Changed = 0 ∧ totals.pairAmount1Changed = 0 then []
  else [insertPairLiquidityChange {
    address := contractAddress
    amount0 := totals.pairAmount0Changed
    amount1 := totals.pairAmount1Changed
    transactionHash := txHash }]

omit [ChecksumSpelling] in
/-- A sum that is not zero was reached over some event. -/
theorem event_ne_none_of_amountChanged {allowed : Finset String} {contractAddress : String}
    {events : List ContractEvent}
    (h : (totalsOf allowed contractAddress events).amountChanged ≠ 0) :
    (totalsOf allowed contractAddress events).event ≠ none := by
  cases events with
  | nil => simp [totalsOf] at h
  | cons event events => simp [totalsOf, List.getLast?_cons]

theorem saveSupplyChange_eq (txHash : String) {totals : EventTotals}
    (hevent : totals.amountChanged ≠ 0 → totals.event ≠ none) :
    saveSupplyChange txHash totals = writeEach () (supplyStatements txHash totals) := by
  by_cases hamount : totals.amountChanged = 0
  · have hstatements : supplyStatements txHash totals = [] := by
      unfold supplyStatements
      split <;> simp [hamount]
    rw [hstatements, saveSupplyChange, if_neg (not_not.mpr hamount)]
    rfl
  · obtain ⟨event, hsome⟩ := Option.ne_none_iff_exists'.mp (hevent hamount)
    simp only [saveSupplyChange, supplyStatements, hsome, if_pos hamount, if_neg hamount]
    exact (writeEach_singleton _).symm

theorem savePairLiquidityChange_eq (contract : Contract) (txHash : String)
    (totals : EventTotals) :
    savePairLiquidityChange contract txHash totals =
      writeEach () (pairStatements contract.address txHash totals) := by
  by_cases hamount : totals.pairAmount0Changed = 0 ∧ totals.pairAmount1Changed = 0
  · have hbranch : ¬ (totals.pairAmount0Changed ≠ 0 ∨ totals.pairAmount1Changed ≠ 0) := by
      simpa [not_or] using hamount
    rw [pairStatements, if_pos hamount, savePairLiquidityChange, if_neg hbranch]
    rfl
  · have hbranch : totals.pairAmount0Changed ≠ 0 ∨ totals.pairAmount1Changed ≠ 0 :=
      not_and_or.mp hamount
    rw [pairStatements, if_neg hamount, savePairLiquidityChange, if_pos hbranch]
    exact (writeEach_singleton _).symm

/-- `_handle_transaction_events` on the events that the generator yields. -/
def handleYieldedEvents (allowedEvents : Option (Finset String)) (contract : Contract)
    (txHash : String) (events : List ContractEvent) : ConsumerProgram (Finset ℕ) := do
  let totals ← handleEvents allowedEvents contract txHash events EventTotals.start
  saveSupplyChange txHash totals
  savePairLiquidityChange contract txHash totals
  return totals.logIndicesToSave

/-- The handler commits its rows one by one and returns the indices it selects. -/
theorem handleYieldedEvents_eq (allowed : Finset String) (contract : Contract) (txHash : String)
    (events : List ContractEvent) :
    handleYieldedEvents (some allowed) contract txHash events =
      writeEach (totalsOf allowed contract.address events).logIndicesToSave
        (nftStatements allowed contract.address txHash events ++
          (supplyStatements txHash (totalsOf allowed contract.address events) ++
            pairStatements contract.address txHash
              (totalsOf allowed contract.address events))) := by
  rw [← List.append_nil (pairStatements _ _ _)]
  simp only [handleYieldedEvents, handleEvents_eq, savePairLiquidityChange_eq]
  refine writeEach_bind ?_
  rw [saveSupplyChange_eq _ event_ne_none_of_amountChanged]
  exact writeEach_bind (writeEach_bind rfl)

/-! ## What one configured address contributes -/

section Settings

variable (settings : ParserSettings)

/-- The events a configured contract's ABI finds in a receipt. -/
def receiptEvents (address : String) (config : ContractConfig) (receipt : TxReceipt) :
    List ContractEvent :=
  getTransactionEvents settings.w3 config.category
    ⟨address, settings.getContractAbi config.category⟩ receipt

def receiptTotals (address : String) (config : ContractConfig) (receipt : TxReceipt) :
    EventTotals :=
  totalsOf config.events address (receiptEvents settings address config receipt)

/-- The log indices `_handle_transaction_events` returns for an address. -/
def eventIndices (receipt : TxReceipt) (address : String) : Finset ℕ :=
  match settings.config address with
  | none => ∅
  | some config => (receiptTotals settings address config receipt).logIndicesToSave

/-- The statements `_handle_transaction_events` issues for an address. -/
def eventStatements (txHash : String) (receipt : TxReceipt) (address : String) :
    List Statement :=
  match settings.config address with
  | none => []
  | some config =>
      nftStatements config.events address txHash (receiptEvents settings address config receipt) ++
        (supplyStatements txHash (receiptTotals settings address config receipt) ++
          pairStatements address txHash (receiptTotals settings address config receipt))

variable {settings}

/-- For a configured address the handler writes the rows of the events that its
ABI finds in the receipt, and returns the log indices it selects. -/
theorem handleTransactionEvents_eq {address : String} {config : ContractConfig}
    (hconfig : settings.config address = some config) (txData : TransactionData)
    (receipt : TxReceipt) :
    handleTransactionEvents settings ⟨address, settings.getContractAbi config.category⟩
        config.category txData receipt =
      writeEach (eventIndices settings receipt address)
        (eventStatements settings txData.transactionHash receipt address) := by
  have hevents : settings.getContractEvents address = some config.events := by
    simp [ParserSettings.getContractEvents, hconfig]
  change handleYieldedEvents (settings.getContractEvents address)
    ⟨address, settings.getContractAbi config.category⟩ txData.transactionHash
    (receiptEvents settings address config receipt) = _
  rw [hevents, handleYieldedEvents_eq, eventIndices, eventStatements, hconfig]
  rfl

theorem handleTransactionEvents_performs {node : Node} {address : String}
    {config : ContractConfig} (hconfig : settings.config address = some config)
    (txData : TransactionData) (receipt : TxReceipt) :
    Performs node
      (handleTransactionEvents settings ⟨address, settings.getContractAbi config.category⟩
        config.category txData receipt)
      (eventIndices settings receipt address)
      (eventStatements settings txData.transactionHash receipt address) := by
  rw [handleTransactionEvents_eq hconfig]
  exact performs_writeEach _ _

end Settings

end BlockchainDataCollection.Processing
