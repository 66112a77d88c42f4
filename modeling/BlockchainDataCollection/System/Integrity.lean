import BlockchainDataCollection.Consumer.KafkaEvents
import BlockchainDataCollection.System.Progress

/-!
# Stored transactions have stored blocks

The producer and the consumers are different processes, and no foreign key ties
their tables.  A producer stores a block before its messages reach the topic,
though, so in every state that the pipeline reaches, a row of a transaction has
its block in the database, whatever failed or was handled twice on the way.
-/

namespace BlockchainDataCollection.Integrity

open BlockchainDataCollection.Effect
open BlockchainDataCollection.Python
open BlockchainDataCollection.Data
open BlockchainDataCollection.KeyedTable
open BlockchainDataCollection.Parser
open BlockchainDataCollection.Storage
open BlockchainDataCollection.TxProcessor
open BlockchainDataCollection.Processing
open BlockchainDataCollection.Consuming
open BlockchainDataCollection.Confluence
open BlockchainDataCollection.KafkaProducer
open BlockchainDataCollection.DataProducer
open BlockchainDataCollection.KafkaEvents
open BlockchainDataCollection.Backing
open BlockchainDataCollection.Pipeline
open BlockchainDataCollection.Progress

/-- The block table has a row for the number. -/
def BlockStored (db : Database) (number : ℤ) : Prop :=
  ∃ row ∈ (db.table .block).rows, row.blockNumber = number

theorem blockStored_of_holds {db : Database} {row : BlockRow} (h : db.Holds (insertBlock row)) :
    BlockStored db row.blockNumber := by
  rcases h with hrow | ⟨number, hnumber, htaken⟩
  · exact ⟨row, hrow, rfl⟩
  · obtain ⟨other, hother, hkey⟩ := List.mem_filterMap.mp htaken
    exact ⟨other, hother, Option.some.inj (hkey.trans hnumber.symm)⟩

section Messages

variable [ChecksumSpelling] {settings : ParserSettings} {node : Node} {system : System}

/-- What an event writes, it writes for the transaction it is decoded to. -/
theorem decoded_of_mem {setOrder : SetOrder} {event : String} {statement : Statement}
    (h : statement ∈ kafkaEventStatements node settings setOrder event) :
    ∃ mode txHash tx receipt, decodeKafkaEvent event = .ok (mode, txHash) ∧
      node.getTransaction txHash = .ok tx ∧ node.getTransactionReceipt txHash = .ok receipt ∧
      statement ∈ modeStatements node settings setOrder mode tx receipt := by
  unfold kafkaEventStatements at h
  split at h
  · cases h
  next mode txHash hdecode =>
      split at h
      next tx receipt htx hreceipt => exact ⟨mode, txHash, tx, receipt, hdecode, htx, hreceipt, h⟩
      next => cases h

/-- A message of the topic, as it was sent. -/
theorem backed_of_message (h : Sound node system)
    (hmodes : ∀ producer ∈ system.producers, producer.cfg.mode ≠ .getLogs) {message : String}
    (hmessage : message ∈ system.topic) :
    ∃ producer ∈ system.producers, Backed producer.cfg producer.process.events message := by
  obtain ⟨producer, hproducer, event, hevent, hsent⟩ := h.messages message hmessage
  have hgrounded := (grounded_of_runs producer.runs hevent).1 (hmodes producer hproducer)
  exact ⟨producer, hproducer, hgrounded.backed message hsent⟩

/-- The block of every message's transaction is stored. -/
theorem blockStored_of_message (h : Sound node system)
    (hmodes : ∀ producer ∈ system.producers, producer.cfg.mode ≠ .getLogs) {message : String}
    (hmessage : message ∈ system.topic) {mode : DataCollectionMode} {txHash : String}
    (hdecode : decodeKafkaEvent message = .ok (mode, txHash)) {tx : TxData}
    (htx : node.getTransaction txHash = .ok tx) : BlockStored system.db tx.blockNumber := by
  obtain ⟨producer, hproducer, number, blockData, reward, hblock, hstored, txHash', hlisted,
    hencode⟩ := backed_of_message h hmodes hmessage
  have hsound := h.producers producer hproducer
  -- the hash that was sent is the one that is decoded
  obtain rfl : txHash' = txHash := by
    have hsame : kafkaEventCodec.encode (producer.cfg.mode, txHash') =
        kafkaEventCodec.encode (mode, txHash) :=
      hencode.trans (decodeKafkaEvent_eq_ok_iff.mp hdecode).2.symm
    exact congrArg Prod.snd (encodeKafkaEvent_injective hsame)
  have hlists : blockData.blockNumber = number ∧ ∀ txHash ∈ blockData.transactions, ∀ tx,
      node.getTransaction txHash = .ok tx → tx.blockNumber = number :=
    hsound.lists _ hblock
  obtain ⟨hnumber, hnumbers⟩ := hlists
  have hholds : system.db.Holds (insertBlock (blockRow blockData reward)) :=
    hsound.stored _ hstored _ (List.mem_singleton_self _)
  have hfound := blockStored_of_holds hholds
  rw [hnumbers txHash' hlisted tx htx, ← hnumber]
  exact hfound

theorem blockStored_of_transactionRow (hreaches : Reaches node system)
    (hmodes : ∀ producer ∈ system.producers, producer.cfg.mode ≠ .getLogs) {row : TransactionRow}
    (hrow : row ∈ (system.db.table .transaction).rows) : BlockStored system.db row.blockNumber := by
  have hsound := sound_of_reaches hreaches
  obtain ⟨event, hevent, settings, _, setOrder, hmem, _⟩ :=
    hsound.rows .transaction TableName.noConfusion row hrow
  obtain ⟨mode, txHash, tx, receipt, hdecode, htx, _, hstatement⟩ :=
    decoded_of_mem (mem_rowsOf_iff.mp hmem)
  rw [eq_transactionRow_of_mem (mem_rowsOf_iff.mpr hstatement)]
  exact blockStored_of_message hsound hmodes hevent hdecode htx

/-- In every state that is reached, a stored row is the row of a transaction that
the node knows and whose block is stored; a row of the transaction table names
that block. -/
theorem rows_have_blocks (hnode : CoherentNode node) (hreaches : Reaches node system)
    (hmodes : ∀ producer ∈ system.producers, producer.cfg.mode ≠ .getLogs) :
    (∀ row ∈ (system.db.table .transaction).rows, BlockStored system.db row.blockNumber) ∧
      ∀ name, name ≠ .block → ∀ row ∈ (system.db.table name).rows, ∃ txHash tx,
        node.getTransaction txHash = .ok tx ∧ rowHash name row = some tx.hash ∧
          BlockStored system.db tx.blockNumber := by
  have hsound := sound_of_reaches hreaches
  constructor
  · exact fun row hrow => blockStored_of_transactionRow hreaches hmodes hrow
  · intro name hname row hrow
    obtain ⟨event, hevent, settings, _, setOrder, hmem, _⟩ := hsound.rows name hname row hrow
    obtain ⟨mode, txHash, tx, receipt, hdecode, htx, hreceipt, hstatement⟩ :=
      decoded_of_mem (mem_rowsOf_iff.mp hmem)
    exact ⟨txHash, tx, htx,
      rowHash_of_mem_modeStatements (hnode.transactionHash_eq htx hreceipt) hstatement,
      blockStored_of_message hsound hmodes hevent hdecode htx⟩

end Messages

section Deployment

open Relevance.Deployment

theorem coherent_mintNode : CoherentNode mintNode where
  eq_of_hash_eq := by
    intro _ _ tx tx' receipt receipt' htx hreceipt htx' hreceipt' _
    exact ⟨Except.ok.inj (htx.symm.trans htx'), Except.ok.inj (hreceipt.symm.trans hreceipt')⟩
  transactionHash_eq := by
    intro _ tx receipt htx hreceipt
    obtain rfl := Except.ok.inj htx
    obtain rfl := Except.ok.inj hreceipt
    decide

theorem rows_have_blocks_of_mint : ∃ system : System,
    Reaches mintNode system ∧ (system.db.table .transaction).rows ≠ [] ∧
    ∀ row ∈ (system.db.table .transaction).rows, BlockStored system.db row.blockNumber := by
  obtain ⟨system, hreaches, _, _, _, ⟨producer, hproducers, hcfg, _⟩, hrows⟩ := reaches_mint
  refine ⟨system, hreaches, fun hnil => by simp [hnil] at hrows, ?_⟩
  refine (rows_have_blocks coherent_mintNode hreaches ?_).1
  rw [hproducers]
  exact List.forall_mem_singleton.mpr (by rw [hcfg]; decide)

end Deployment

end BlockchainDataCollection.Integrity
