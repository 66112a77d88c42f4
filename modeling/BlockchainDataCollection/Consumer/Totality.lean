import BlockchainDataCollection.Consumer.Attempts

/-!
# Messages that can be handled

Where the node knows the transaction of a message and the processor of its mode can
go through it, the callback of a consumer returns, whatever it has seen before.
-/

namespace BlockchainDataCollection.Totality

open BlockchainDataCollection.Effect
open BlockchainDataCollection.Python
open BlockchainDataCollection.Data
open BlockchainDataCollection.Parser
open BlockchainDataCollection.TxProcessor
open BlockchainDataCollection.Processing
open BlockchainDataCollection.Saving
open BlockchainDataCollection.Consuming

variable [ChecksumSpelling] {node : Node} {settings : ParserSettings} {setOrder : SetOrder}

/-- The processor of a mode can go through a transaction without an error. -/
def CanProcess (node : Node) (settings : ParserSettings) (setOrder : SetOrder)
    (mode : DataCollectionMode) (tx : TxData) (receipt : TxReceipt) : Prop :=
  match mode with
  | .full | .getLogs => ∃ internalTxData, internalTransactions node tx.hash = .ok internalTxData
  | .partialMode => Succeeds node settings setOrder tx receipt
  | .logFilter => False

/-- The node knows the transaction of the message, and its mode can process it. -/
def Handleable (node : Node) (settings : ParserSettings) (setOrder : SetOrder)
    (message : String) : Prop :=
  ∃ mode txHash tx receipt, decodeKafkaEvent message = .ok (mode, txHash) ∧
    node.getTransaction txHash = .ok tx ∧ node.getTransactionReceipt txHash = .ok receipt ∧
    CanProcess node settings setOrder mode tx receipt

theorem returned_of_canProcess {mode : DataCollectionMode} {contractParser : ContractParser}
    (hparser : contractParser.Consistent) {tx : TxData} {receipt : TxReceipt}
    (hcan : CanProcess node contractParser.settings setOrder mode tx receipt) :
    ∃ result, (processTransaction setOrder mode contractParser tx receipt).outcome node.answer =
      .returned result := by
  cases mode with
  | full | getLogs =>
      obtain ⟨internalTxData, htrace⟩ := hcan
      have hperforms := full_performs htrace receipt
      exact ⟨_, Program.outcome_bind_returned_iff.mpr ⟨true, hperforms.outcome, rfl⟩⟩
  | partialMode =>
      obtain ⟨contractParser', _, _, hperforms⟩ := partial_performs hparser hcan
      exact ⟨_, hperforms.outcome⟩
  | logFilter => cases hcan

theorem returned_of_handleable {consumer : DataConsumer}
    (hparser : consumer.contractParser.Consistent) {message : String}
    (hmessage : Handleable node consumer.contractParser.settings setOrder message) :
    ∃ consumer', (onKafkaEvent setOrder consumer message).outcome node.answer =
      .returned consumer' := by
  obtain ⟨mode, txHash, tx, receipt, hdecode, htx, hreceipt, hcan⟩ := hmessage
  obtain ⟨⟨saved, contractParser⟩, hprocess⟩ := returned_of_canProcess hparser hcan
  have hdecoded : (Program.ofExcept (decodeKafkaEvent message) :
      ConsumerProgram (DataCollectionMode × String)).outcome node.answer =
        .returned (mode, txHash) := Program.outcome_ofExcept_returned_iff.mpr hdecode
  have htx' : (getTransactionData txHash).outcome node.answer = .returned tx :=
    Program.outcome_perform_returned_iff.mpr htx
  have hreceipt' : (getTransactionReceiptData txHash).outcome node.answer = .returned receipt :=
    Program.outcome_perform_returned_iff.mpr hreceipt
  refine ⟨⟨contractParser, some txHash, consumer.nConsumedTxs + 1,
    consumer.nProcessedTxs + saved.toNat⟩, ?_⟩
  refine Program.outcome_bind_returned_iff.mpr ⟨_, hdecoded, ?_⟩
  refine Program.outcome_bind_returned_iff.mpr ⟨_, htx', ?_⟩
  refine Program.outcome_bind_returned_iff.mpr ⟨_, hreceipt', ?_⟩
  exact Program.outcome_bind_returned_iff.mpr ⟨_, hprocess, rfl⟩

end BlockchainDataCollection.Totality
