import BlockchainDataCollection.Effect.Processes
import BlockchainDataCollection.Consumer.Committing
import BlockchainDataCollection.Consumer.Confluence
import BlockchainDataCollection.Consumer.IterationOrder

/-!
# Attempts at an event

A consumer may be answered with an error, and may crash, at every call.  What it
has attempted to write by then is a prefix of what the event writes, so the
first row an attempt writes under a key is the first one the event writes.
-/

namespace BlockchainDataCollection.Attempts

open BlockchainDataCollection.Effect
open BlockchainDataCollection.Effect.Program (Runs Truthful)
open BlockchainDataCollection.Python
open BlockchainDataCollection.Data
open BlockchainDataCollection.Events
open BlockchainDataCollection.KeyedTable
open BlockchainDataCollection.Parser
open BlockchainDataCollection.Storage
open BlockchainDataCollection.TxProcessor
open BlockchainDataCollection.Processing
open BlockchainDataCollection.Saving
open BlockchainDataCollection.Relevance
open BlockchainDataCollection.Consuming
open BlockchainDataCollection.Confluence
open BlockchainDataCollection.Committing
open BlockchainDataCollection.IterationOrder

variable [ChecksumSpelling]

/-! ## Consumers stop at the first error -/

section Stopping

theorem stopsAtError_execute (statements : List Statement) :
    (execute statements).StopsAtError :=
  Program.stopsAtError_perform _

theorem stopsAtError_getInternalTransactions (txHash : String) :
    (getInternalTransactions txHash).StopsAtError :=
  (Program.stopsAtError_perform _).bind fun _ => Program.stopsAtError_ofExcept _

theorem stopsAtError_handleTransaction (txData : TransactionData)
    (txReceiptData : TransactionReceiptData) (indices : Finset ℕ) :
    (handleTransaction txData txReceiptData indices).StopsAtError := by
  apply (stopsAtError_execute _).bind
  intro _
  apply (stopsAtError_execute _).bind
  intro _
  apply (stopsAtError_getInternalTransactions _).bind
  intro internalTxData
  split
  · trivial
  · exact stopsAtError_execute _

theorem stopsAtError_handleEvents (allowedEvents : Option (Finset String)) (contract : Contract)
    (txHash : String) (events : List ContractEvent) (totals : EventTotals) :
    (handleEvents allowedEvents contract txHash events totals).StopsAtError := by
  induction events generalizing totals with
  | nil => trivial
  | cons event events ih =>
      cases allowedEvents with
      | none => trivial
      | some allowed =>
          rw [handleEvents]
          split
          · exact ih _
          · split
            · exact (stopsAtError_execute _).bind fun _ => ih _
            · exact ih _

theorem stopsAtError_handleTransactionEvents (settings : ParserSettings) (contract : Contract)
    (category : ContractCategory) (txData : TransactionData) (receipt : TxReceipt) :
    (handleTransactionEvents settings contract category txData receipt).StopsAtError := by
  apply (stopsAtError_handleEvents _ _ _ _ _).bind
  intro totals
  have hsupply : (saveSupplyChange txData.transactionHash totals).StopsAtError := by
    unfold saveSupplyChange
    split
    · split
      · trivial
      · exact stopsAtError_execute _
    · trivial
  have hpair : (savePairLiquidityChange contract txData.transactionHash totals).StopsAtError := by
    unfold savePairLiquidityChange
    split
    · exact stopsAtError_execute _
    · trivial
  exact hsupply.bind fun _ => hpair.bind fun _ => trivial

theorem stopsAtError_handleEventAddresses (txData : TransactionData) (receipt : TxReceipt)
    (addresses : List String) (parser : ContractParser) (indices : Finset ℕ) :
    (PartialTransactionProcessor.handleEventAddresses txData receipt addresses parser
      indices).StopsAtError := by
  induction addresses generalizing parser indices with
  | nil => trivial
  | cons address addresses ih =>
      rw [PartialTransactionProcessor.handleEventAddresses]
      split
      · exact ih _ _
      · apply (Program.stopsAtError_ofExcept _).bind
        rintro ⟨contract, parser'⟩
        exact (stopsAtError_handleTransactionEvents _ _ _ _ _).bind fun _ => ih _ _

theorem stopsAtError_processTransaction (setOrder : SetOrder) (mode : DataCollectionMode)
    (parser : ContractParser) (tx : TxData) (receipt : TxReceipt) :
    (processTransaction setOrder mode parser tx receipt).StopsAtError := by
  have hstore : ∀ indices, (handleTransaction (.parse tx) (.parse receipt) indices).StopsAtError :=
    stopsAtError_handleTransaction _ _
  cases mode with
  | full | getLogs =>
      have hfull : (FullTransactionProcessor.processTransaction (.parse tx)
          (.parse receipt)).StopsAtError := (hstore _).bind fun _ => trivial
      exact hfull.bind fun _ => trivial
  | partialMode =>
      have hdecide : (PartialTransactionProcessor.decideSave setOrder parser (.parse tx)
          (.parse receipt) receipt).StopsAtError := by
        rw [decideSave_eq]
        exact (stopsAtError_handleEventAddresses _ _ _ _ _).bind fun _ => trivial
      apply hdecide.bind
      rintro ⟨⟨save, indices⟩, parser'⟩
      cases save with
      | false => trivial
      | true => exact (hstore indices).bind fun _ => trivial
  | logFilter => trivial

theorem stopsAtError_onKafkaEvent (setOrder : SetOrder) (consumer : DataConsumer)
    (event : String) : (onKafkaEvent setOrder consumer event).StopsAtError := by
  apply (Program.stopsAtError_ofExcept _).bind
  rintro ⟨mode, txHash⟩
  apply (Program.stopsAtError_perform _).bind
  intro tx
  apply (Program.stopsAtError_perform _).bind
  intro receipt
  exact (stopsAtError_processTransaction _ _ _ _ _).bind fun _ => trivial

end Stopping

/-! ## What is attempted is a prefix -/

section Prefixes

variable {node : Node} {settings : ParserSettings} {setOrder : SetOrder} {A : Type}

/-- The statements handed to the database, whether or not it failed. -/
def attempted (events : List (Program.Event consumerSignature PyError)) : List Statement :=
  events.flatMap fun event => callStatements event.op

theorem attempted_append (first second : List (Program.Event consumerSignature PyError)) :
    attempted (first ++ second) = attempted first ++ attempted second :=
  List.flatMap_append

theorem attempted_eq (events : List (Program.Event consumerSignature PyError)) :
    attempted events = (events.map Program.Event.op).flatMap callStatements := by
  rw [attempted, List.flatMap_map]

theorem flatten_committed_history (node : Node) (program : ConsumerProgram A) :
    ((program.history node.answer).flatMap committed).flatten = written node program := by
  induction program with
  | done value => rfl
  | raise error => rfl
  | suspended => rfl
  | call op next ih =>
      have hcommitted : (committed ⟨op, node.answer op⟩).flatten = callStatements op := by
        cases op with
        | execute statements => exact List.flatten_singleton
        | _ => rfl
      rw [Program.history, List.flatMap_cons, List.flatten_append, hcommitted, ih]
      rfl

/-- The internal transactions come last. -/
theorem flatten_saveBlocks_isPrefix (node : Node) (settings : ParserSettings) (setOrder : SetOrder)
    (mode : DataCollectionMode) (tx : TxData) (receipt : TxReceipt) :
    (saveBlocks settings setOrder mode tx receipt).flatten <+:
      modeStatements node settings setOrder mode tx receipt := by
  have hrows : ∀ indices, (rowBlocks (.parse tx) (.parse receipt) indices).flatten <+:
      saveStatements node (.parse tx) (.parse receipt) indices := by
    intro indices
    refine ⟨internalStatements node tx.hash, ?_⟩
    simp [rowBlocks, saveStatements, TransactionData.parse]
  cases mode with
  | full | getLogs => exact hrows _
  | partialMode =>
      rw [saveBlocks, List.flatten_append, flatten_singly, modeStatements, partialStatements]
      apply (List.prefix_append_right_inj _).mpr
      split
      · exact hrows _
      · exact List.prefix_refl _
  | logFilter => exact List.nil_prefix

theorem written_processTransaction_isPrefix {parser : ContractParser} (hparser : parser.Consistent)
    (mode : DataCollectionMode) (tx : TxData) (receipt : TxReceipt) :
    written node (processTransaction setOrder mode parser tx receipt) <+:
      modeStatements node parser.settings setOrder mode tx receipt := by
  cases houtcome : (processTransaction setOrder mode parser tx receipt).outcome node.answer with
  | returned result =>
      obtain ⟨saved, parser'⟩ := result
      rw [(processTransaction_of_returned hparser houtcome).2.2.written]
  | raised error =>
      have hruns := Program.runs_history node.answer
        (processTransaction setOrder mode parser tx receipt)
      rw [houtcome] at hruns
      have hcommitted := (commits_processTransaction hparser mode _ _ hruns).2 error rfl
      rw [← flatten_committed_history]
      obtain ⟨later, hlater⟩ := hcommitted
      refine List.IsPrefix.trans ⟨later.flatten, ?_⟩
        (flatten_saveBlocks_isPrefix node parser.settings setOrder mode tx receipt)
      rw [← List.flatten_append, hlater]
  | running => exact absurd houtcome (stopsAtError_processTransaction _ _ _ _ _).outcome_ne_running

theorem written_perform_bind_of_ok {op : ConsumerCall} {answer : op.Answer}
    (hanswer : node.answer op = .ok answer) (rest : op.Answer → ConsumerProgram A) :
    written node (@Program.perform consumerSignature _ op >>= rest) =
      callStatements op ++ written node (rest answer) := by
  rw [written, Program.perform, Program.call_bind, Program.calls_call, List.flatMap_cons, hanswer]
  rfl

theorem written_perform_bind_of_error {op : ConsumerCall} {error : PyError}
    (hanswer : node.answer op = .error error) (rest : op.Answer → ConsumerProgram A) :
    written node (@Program.perform consumerSignature _ op >>= rest) = callStatements op := by
  rw [written, Program.perform, Program.call_bind, Program.calls_call, List.flatMap_cons, hanswer]
  exact List.append_nil _

theorem written_bind_done {B : Type} (program : ConsumerProgram A) (value : A → B) :
    written node (program >>= fun result => .done (value result)) = written node program := by
  induction program with
  | call op next ih => exact congrArg (callStatements op ++ ·) (ih _)
  | _ => rfl

/-- What the true answers make an event write, also where they are errors. -/
theorem written_onKafkaEvent_isPrefix {consumer : DataConsumer}
    (hparser : consumer.contractParser.Consistent) (event : String) :
    written node (onKafkaEvent setOrder consumer event) <+:
      kafkaEventStatements node consumer.contractParser.settings setOrder event := by
  rw [onKafkaEvent]
  cases hdecode : decodeKafkaEvent event with
  | error error => exact List.nil_prefix
  | ok decoded =>
      obtain ⟨mode, txHash⟩ := decoded
      have htx : node.answer (.getTransaction txHash) = node.getTransaction txHash := rfl
      have hreceipt : node.answer (.getTransactionReceipt txHash) =
        node.getTransactionReceipt txHash := rfl
      simp only [Program.ofExcept_ok, Program.done_bind, getTransactionData,
        getTransactionReceiptData]
      cases hfound : node.getTransaction txHash with
      | error error =>
          rw [hfound] at htx
          rw [written_perform_bind_of_error htx]
          exact List.nil_prefix
      | ok tx =>
          rw [hfound] at htx
          rw [written_perform_bind_of_ok htx]
          cases hfound' : node.getTransactionReceipt txHash with
          | error error =>
              rw [hfound'] at hreceipt
              rw [written_perform_bind_of_error hreceipt]
              exact List.nil_prefix
          | ok receipt =>
              rw [hfound'] at hreceipt
              rw [written_perform_bind_of_ok hreceipt]
              have hstatements : kafkaEventStatements node consumer.contractParser.settings
                  setOrder event = modeStatements node consumer.contractParser.settings setOrder
                    mode tx receipt := by
                simp [kafkaEventStatements, hdecode, hfound, hfound']
              rw [hstatements]
              have hwritten := @written_bind_done _ node _ _
                (processTransaction setOrder mode consumer.contractParser tx receipt) fun result =>
                  ({ contractParser := result.2
                     txHash := some txHash
                     nConsumedTxs := consumer.nConsumedTxs + 1
                     nProcessedTxs := consumer.nProcessedTxs + result.1.toNat } : DataConsumer)
              exact hwritten ▸ written_processTransaction_isPrefix hparser mode tx receipt

variable {consumer : DataConsumer} {event : String}
  {events : List (Program.Event consumerSignature PyError)} {outcome : Outcome PyError DataConsumer}

/-- Whatever fails, and wherever a run stops, the statements attempted are the
first ones of the event. -/
theorem attempted_isPrefix (hparser : consumer.contractParser.Consistent)
    (hruns : Runs (onKafkaEvent setOrder consumer event) events outcome)
    (htruthful : ∀ answered ∈ events, Truthful node.answer answered) :
    attempted events <+:
      kafkaEventStatements node consumer.contractParser.settings setOrder event := by
  refine List.IsPrefix.trans ?_ (written_onKafkaEvent_isPrefix hparser event)
  obtain ⟨later, hlater⟩ := (stopsAtError_onKafkaEvent _ _ _).prefix_calls hruns htruthful
  refine ⟨later.flatMap callStatements, ?_⟩
  rw [attempted_eq, ← List.flatMap_append, hlater]
  rfl

/-- A run that returns has written all of them. -/
theorem attempted_of_returned (hparser : consumer.contractParser.Consistent)
    {consumer' : DataConsumer}
    (hruns : Runs (onKafkaEvent setOrder consumer event) events (.returned consumer'))
    (htruthful : ∀ answered ∈ events, Truthful node.answer answered) :
    attempted events =
        kafkaEventStatements node consumer.contractParser.settings setOrder event ∧
      (∀ answered ∈ events, ∃ found, answered.answer = .ok found) ∧
      consumer'.contractParser.settings = consumer.contractParser.settings ∧
      consumer'.contractParser.Consistent := by
  obtain ⟨houtcome, hcalls, hok⟩ :=
    (stopsAtError_onKafkaEvent _ _ _).of_returned hruns htruthful
  obtain ⟨hsettings, hconsistent, hperforms⟩ := onKafkaEvent_of_returned hparser houtcome
  refine ⟨?_, hok, hsettings, hconsistent⟩
  rw [attempted_eq, hcalls]
  exact hperforms.written

end Prefixes

/-! ## Consumers with different orders -/

section Orders

variable {node : Node} {settings : ParserSettings} {tx : TxData} {receipt : TxReceipt}

/-- No transaction the node knows shows in which order a set of addresses is
iterated. -/
def OrdersAgree (node : Node) (settings : ParserSettings) : Prop :=
  ∀ txHash tx receipt, node.getTransaction txHash = .ok tx →
    node.getTransactionReceipt txHash = .ok receipt →
      SupplyAgrees settings receipt tx.hash Database.empty ∧
        TransfersAgree settings receipt tx.hash Database.empty

/-- Two event addresses write the same first row under a key. -/
theorem firstWith_eventStatements_agrees
    (hsupply : SupplyAgrees settings receipt tx.hash Database.empty)
    (htransfers : TransfersAgree settings receipt tx.hash Database.empty) {name : TableName}
    {i j : String} (hi : i ∈ eventAddresses receipt) (hj : j ∈ eventAddresses receipt)
    {k : Key name} {a b : Row name}
    (ha : Table.firstWith (primaryKey name) k
      (rowsOf name (eventStatements settings tx.hash receipt i)) = some a)
    (hb : Table.firstWith (primaryKey name) k
      (rowsOf name (eventStatements settings tx.hash receipt j)) = some b) : a = b := by
  have hname : name ∈ eventTables :=
    table_of_mem_eventStatements (mem_rowsOf_iff.mp (Table.mem_of_firstWith ha))
  simp only [eventTables, List.mem_cons, List.not_mem_nil, or_false] at hname
  rcases hname with rfl | rfl | rfl
  · exact (supplyAgrees_iff tx.hash Database.empty).mpr hsupply i hi j hj k a b rfl ha hb
  · exact pairLiquidityChange_agrees ha hb
  · exact (transfersAgree_iff tx.hash Database.empty).mpr htransfers i hi j hj k a b rfl ha hb

theorem handledAddresses_perm (left right : SetOrder) :
    (handledAddresses settings left tx receipt).Perm
      (handledAddresses settings right tx receipt) := by
  unfold handledAddresses
  split
  · split
    · exact .refl _
    · exact (left.perm _).trans (right.perm _).symm
  · exact .refl _

/-- Either the same addresses are handled in all orders, or all of them emitted a log. -/
theorem handledAddresses_cases (settings : ParserSettings) (tx : TxData) (receipt : TxReceipt) :
    (∃ addresses, ∀ setOrder, handledAddresses settings setOrder tx receipt = addresses) ∨
      ∀ setOrder, ∀ address ∈ handledAddresses settings setOrder tx receipt,
        address ∈ eventAddresses receipt := by
  unfold handledAddresses
  split
  next toAddress _ =>
      by_cases hconfig : (settings.config toAddress.val).isSome
      · exact .inl ⟨[toAddress.val], fun _ => if_pos hconfig⟩
      · refine .inr fun setOrder address haddress => ?_
        rw [if_neg hconfig] at haddress
        exact List.mem_dedup.mp ((setOrder.perm _).mem_iff.mp haddress)
  next =>
      split
      next contractAddress _ => exact .inl ⟨[contractAddress.val], fun _ => rfl⟩
      next => exact .inl ⟨[], fun _ => rfl⟩

theorem savedIndices_eq (left right : SetOrder) :
    savedIndices settings left tx receipt = savedIndices settings right tx receipt := by
  rw [savedIndices, savedIndices, unionIndices, unionIndices,
    List.toFinset_eq_of_perm _ _ (handledAddresses_perm left right)]

theorem shouldSave_eq (left right : SetOrder) :
    shouldSave settings left tx receipt = shouldSave settings right tx receipt := by
  rw [shouldSave_eq_decision, shouldSave_eq_decision, savedIndices_eq left right]

theorem firstWith_decisionStatements_eq
    (hsupply : SupplyAgrees settings receipt tx.hash Database.empty)
    (htransfers : TransfersAgree settings receipt tx.hash Database.empty) (left right : SetOrder)
    (name : TableName) (k : Key name) :
    Table.firstWith (primaryKey name) k
        (rowsOf name (decisionStatements settings left tx receipt)) =
      Table.firstWith (primaryKey name) k
        (rowsOf name (decisionStatements settings right tx receipt)) := by
  rcases handledAddresses_cases settings tx receipt with ⟨addresses, hsame⟩ | hemitted
  · rw [decisionStatements, decisionStatements, hsame, hsame]
  · refine Table.firstWith_eq_of_perm
      (((handledAddresses_perm left right).flatMap_right _).filterMap _) ?_
    intro a b ha hb
    change Table.firstWith (primaryKey name) k
      (rowsOf name (decisionStatements settings left tx receipt)) = some a at ha
    change Table.firstWith (primaryKey name) k
      (rowsOf name (decisionStatements settings right tx receipt)) = some b at hb
    rw [decisionStatements, rowsOf_flatMap, Table.firstWith_flatMap] at ha hb
    obtain ⟨i, hi, ha⟩ := List.exists_of_findSome?_eq_some ha
    obtain ⟨j, hj, hb⟩ := List.exists_of_findSome?_eq_some hb
    exact firstWith_eventStatements_agrees hsupply htransfers (hemitted left i hi)
      (hemitted right j hj) ha hb

/-- The first row a transaction writes under a key is the same in all orders. -/
theorem firstWith_modeStatements_order_eq
    (hsupply : SupplyAgrees settings receipt tx.hash Database.empty)
    (htransfers : TransfersAgree settings receipt tx.hash Database.empty) (left right : SetOrder)
    (mode : DataCollectionMode) (name : TableName) (k : Key name) :
    Table.firstWith (primaryKey name) k
        (rowsOf name (modeStatements node settings left mode tx receipt)) =
      Table.firstWith (primaryKey name) k
        (rowsOf name (modeStatements node settings right mode tx receipt)) := by
  cases mode with
  | full | getLogs | logFilter => rfl
  | partialMode =>
      rw [modeStatements, modeStatements, partialStatements, partialStatements, rowsOf_append,
        rowsOf_append, Table.firstWith_append, Table.firstWith_append,
        firstWith_decisionStatements_eq hsupply htransfers left right, shouldSave_eq left right,
        savedIndices_eq left right]

theorem firstWith_kafkaEventStatements_order_eq (horders : OrdersAgree node settings)
    (event : String) (left right : SetOrder) (name : TableName) (k : Key name) :
    Table.firstWith (primaryKey name) k
        (rowsOf name (kafkaEventStatements node settings left event)) =
      Table.firstWith (primaryKey name) k
        (rowsOf name (kafkaEventStatements node settings right event)) := by
  unfold kafkaEventStatements
  split
  · rfl
  next mode txHash _ =>
      split
      next tx receipt htx hreceipt =>
          obtain ⟨hsupply, htransfers⟩ := horders txHash tx receipt htx hreceipt
          exact firstWith_modeStatements_order_eq hsupply htransfers left right mode name k
      next => rfl

/-- Any two events write the same first row under a key, in any two orders. -/
theorem firstWith_kafkaEventStatements_agrees (hnode : CoherentNode node)
    (horders : OrdersAgree node settings) {event event' : String} {left right : SetOrder}
    {name : TableName} {k : Key name} {a b : Row name}
    (ha : Table.firstWith (primaryKey name) k
      (rowsOf name (kafkaEventStatements node settings left event)) = some a)
    (hb : Table.firstWith (primaryKey name) k
      (rowsOf name (kafkaEventStatements node settings right event')) = some b) : a = b := by
  rw [firstWith_kafkaEventStatements_order_eq horders event' right left] at hb
  exact firstWith_kafkaEventStatements_eq hnode ha hb

end Orders

end BlockchainDataCollection.Attempts
