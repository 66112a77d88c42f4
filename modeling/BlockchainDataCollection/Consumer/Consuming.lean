import BlockchainDataCollection.Consumer.Saving

/-!
# The data consumer

`DataConsumer._on_kafka_event` decodes a message, asks the node for the
transaction and its receipt, and hands both to the processor of the message's
mode.  What a message writes depends on the message alone, not on what the
consumer handled before.
-/

namespace BlockchainDataCollection.Consuming

open BlockchainDataCollection.Effect
open BlockchainDataCollection.Python
open BlockchainDataCollection.Data
open BlockchainDataCollection.Parser
open BlockchainDataCollection.Storage
open BlockchainDataCollection.TxProcessor
open BlockchainDataCollection.Processing
open BlockchainDataCollection.Saving

variable [ChecksumSpelling]

structure DataConsumer where
  contractParser : ContractParser
  /-- Hash of the transaction that is being processed. -/
  txHash : Option String
  nConsumedTxs : ℕ
  nProcessedTxs : ℕ

/-- A consumer that was just created. -/
def DataConsumer.init (settings : ParserSettings) : DataConsumer where
  contractParser := ⟨settings, ∅⟩
  txHash := none
  nConsumedTxs := 0
  nProcessedTxs := 0

def getTransactionData (txHash : String) : ConsumerProgram TxData :=
  @Program.perform consumerSignature _ (.getTransaction txHash)

def getTransactionReceiptData (txHash : String) : ConsumerProgram TxReceipt :=
  @Program.perform consumerSignature _ (.getTransactionReceipt txHash)

/-- The processor of a mode: `get_logs` has none and takes the default one, and
that of `log_filter` inherits the unimplemented method. -/
def processTransaction (setOrder : SetOrder) (mode : DataCollectionMode)
    (contractParser : ContractParser) (tx : TxData) (receipt : TxReceipt) :
    ConsumerProgram (Bool × ContractParser) :=
  match mode with
  | .full | .getLogs => do
      let saved ← FullTransactionProcessor.processTransaction (.parse tx) (.parse receipt)
      return (saved, contractParser)
  | .partialMode => PartialTransactionProcessor.processTransaction setOrder contractParser
      (.parse tx) (.parse receipt) receipt
  | .logFilter => .raise (.notImplementedError "Implemented by subclasses")

def onKafkaEvent (setOrder : SetOrder) (consumer : DataConsumer) (event : String) :
    ConsumerProgram DataConsumer := do
  let (mode, txHash) ← Program.ofExcept (decodeKafkaEvent event)
  let tx ← getTransactionData txHash
  let receipt ← getTransactionReceiptData txHash
  let (saved, contractParser) ←
    processTransaction setOrder mode consumer.contractParser tx receipt
  return {
    contractParser
    txHash := some txHash
    nConsumedTxs := consumer.nConsumedTxs + 1
    nProcessedTxs := consumer.nProcessedTxs + saved.toNat }

/-- The events of a consumer's partitions, one after the other. -/
def consume (setOrder : SetOrder) (consumer : DataConsumer) :
    List String → ConsumerProgram DataConsumer
  | [] => .done consumer
  | event :: events => do
      let consumer ← onKafkaEvent setOrder consumer event
      consume setOrder consumer events

/-! ## What an event writes -/

section Statements

variable (node : Node) (settings : ParserSettings) (setOrder : SetOrder)

def modeStatements (mode : DataCollectionMode) (tx : TxData) (receipt : TxReceipt) :
    List Statement :=
  match mode with
  | .full | .getLogs => fullStatements node tx receipt
  | .partialMode => partialStatements node settings setOrder tx receipt
  | .logFilter => []

/-- Everything an event writes, in order. -/
def kafkaEventStatements (event : String) : List Statement :=
  match decodeKafkaEvent event with
  | .error _ => []
  | .ok (mode, txHash) =>
      match node.getTransaction txHash, node.getTransactionReceipt txHash with
      | .ok tx, .ok receipt => modeStatements node settings setOrder mode tx receipt
      | _, _ => []

variable {node settings setOrder}

private theorem performs_full {contractParser contractParser' : ContractParser} {tx : TxData}
    {receipt : TxReceipt} {saved : Bool}
    (hreturned : (do
        let saved ← FullTransactionProcessor.processTransaction (.parse tx) (.parse receipt)
        return (saved, contractParser) : ConsumerProgram (Bool × ContractParser)).outcome
          node.answer = .returned (saved, contractParser')) :
    contractParser' = contractParser ∧
      Performs node (do
        let saved ← FullTransactionProcessor.processTransaction (.parse tx) (.parse receipt)
        return (saved, contractParser)) (saved, contractParser')
        (fullStatements node tx receipt) := by
  obtain ⟨saved', hsaved, hrest⟩ := Program.outcome_bind_returned_iff.mp hreturned
  obtain ⟨rfl, rfl⟩ := Prod.mk.inj (Outcome.returned.inj hrest)
  refine ⟨rfl, ?_⟩
  rw [← List.append_nil (fullStatements node tx receipt)]
  exact (full_of_returned hsaved).2.bind (performs_done _)

theorem processTransaction_of_returned {mode : DataCollectionMode}
    {contractParser contractParser' : ContractParser} (hparser : contractParser.Consistent)
    {tx : TxData} {receipt : TxReceipt} {saved : Bool}
    (hreturned : (processTransaction setOrder mode contractParser tx receipt).outcome node.answer =
      .returned (saved, contractParser')) :
    contractParser'.settings = contractParser.settings ∧ contractParser'.Consistent ∧
      Performs node (processTransaction setOrder mode contractParser tx receipt)
        (saved, contractParser')
        (modeStatements node contractParser.settings setOrder mode tx receipt) := by
  cases mode with
  | full | getLogs =>
      obtain ⟨rfl, hperforms⟩ := performs_full hreturned
      exact ⟨rfl, hparser, hperforms⟩
  | partialMode => exact (partial_of_returned hparser hreturned).2
  | logFilter => cases hreturned

/-- An event that is handled without an error writes its own statements. -/
theorem onKafkaEvent_of_returned {consumer consumer' : DataConsumer}
    (hparser : consumer.contractParser.Consistent) {event : String}
    (hreturned : (onKafkaEvent setOrder consumer event).outcome node.answer =
      .returned consumer') :
    consumer'.contractParser.settings = consumer.contractParser.settings ∧
      consumer'.contractParser.Consistent ∧
      Performs node (onKafkaEvent setOrder consumer event) consumer'
        (kafkaEventStatements node consumer.contractParser.settings setOrder event) := by
  obtain ⟨⟨mode, txHash⟩, hdecode, hrest⟩ := Program.outcome_bind_returned_iff.mp hreturned
  rw [Program.outcome_ofExcept_returned_iff] at hdecode
  obtain ⟨tx, htx, hrest⟩ := Program.outcome_bind_returned_iff.mp hrest
  obtain ⟨receipt, hreceipt, hrest⟩ := Program.outcome_bind_returned_iff.mp hrest
  obtain ⟨⟨saved, contractParser'⟩, hprocess, hdone⟩ := Program.outcome_bind_returned_iff.mp hrest
  have htx' : node.answer (.getTransaction txHash) = .ok tx :=
    Program.outcome_perform_returned_iff.mp htx
  have hreceipt' : node.answer (.getTransactionReceipt txHash) = .ok receipt :=
    Program.outcome_perform_returned_iff.mp hreceipt
  obtain ⟨hsettings, hconsistent, hperforms⟩ := processTransaction_of_returned hparser hprocess
  obtain rfl := Outcome.returned.inj hdone
  refine ⟨hsettings, hconsistent, ?_⟩
  have hstatements : kafkaEventStatements node consumer.contractParser.settings setOrder event =
      [] ++ ([] ++ ([] ++ (modeStatements node consumer.contractParser.settings setOrder mode tx
        receipt ++ []))) := by
    change node.getTransaction txHash = _ at htx'
    change node.getTransactionReceipt txHash = _ at hreceipt'
    simp [kafkaEventStatements, hdecode, htx', hreceipt']
  rw [hstatements, onKafkaEvent, hdecode]
  exact (performs_done (mode, txHash)).bind
    ((performs_perform htx').bind
      ((performs_perform hreceipt').bind (hperforms.bind (performs_done _))))

/-- A consumer that handles all its events writes what each of them writes,
one after the other. -/
theorem consume_of_returned {consumer consumer' : DataConsumer}
    (hparser : consumer.contractParser.Consistent) {events : List String}
    (hreturned : (consume setOrder consumer events).outcome node.answer = .returned consumer') :
    Performs node (consume setOrder consumer events) consumer'
      (events.flatMap (kafkaEventStatements node consumer.contractParser.settings setOrder)) := by
  induction events generalizing consumer with
  | nil =>
      obtain rfl := Outcome.returned.inj hreturned
      exact performs_done _
  | cons event events ih =>
      obtain ⟨next, hnext, hrest⟩ := Program.outcome_bind_returned_iff.mp hreturned
      obtain ⟨hsettings, hconsistent, hperforms⟩ := onKafkaEvent_of_returned hparser hnext
      rw [List.flatMap_cons]
      exact hperforms.bind (hsettings ▸ ih hconsistent hrest)

end Statements

end BlockchainDataCollection.Consuming
