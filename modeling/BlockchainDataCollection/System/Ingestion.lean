import BlockchainDataCollection.Consumer.Selection
import BlockchainDataCollection.Producer.Recording
import BlockchainDataCollection.System.Convergence

/-!
# Blocks are ingested completely

What the producers and the consumers guarantee together.  The block table has no
gaps below the counter of any producer.  Where no send of a producer was lost and
every message was handled, the transactions of these blocks are in the tables as
well, with all that their mode selects.
-/

namespace BlockchainDataCollection.Ingestion

open BlockchainDataCollection.Effect
open BlockchainDataCollection.Effect.Program (Runs)
open BlockchainDataCollection.Python
open BlockchainDataCollection.Data
open BlockchainDataCollection.KeyedTable
open BlockchainDataCollection.Parser
open BlockchainDataCollection.Storage
open BlockchainDataCollection.TxProcessor
open BlockchainDataCollection.Processing
open BlockchainDataCollection.Saving
open BlockchainDataCollection.Relevance
open BlockchainDataCollection.Completeness
open BlockchainDataCollection.Consuming
open BlockchainDataCollection.Confluence
open BlockchainDataCollection.KafkaProducer
open BlockchainDataCollection.DataProducer
open BlockchainDataCollection.Connection
open BlockchainDataCollection.Delivery
open BlockchainDataCollection.Recording
open BlockchainDataCollection.KafkaEvents
open BlockchainDataCollection.Attempts
open BlockchainDataCollection.Backing
open BlockchainDataCollection.IterationOrder (exists_lastEmitter)
open BlockchainDataCollection.Selection
open BlockchainDataCollection.Pipeline
open BlockchainDataCollection.Progress
open BlockchainDataCollection.Integrity
open BlockchainDataCollection.Convergence

/-! ## Handled messages -/

section Handled

variable [ChecksumSpelling] {node : Node} {settings : ParserSettings} {system : System}
  {mode : DataCollectionMode} {tx : TxData} {receipt : TxReceipt}

/-- The callback has returned for a message that asks for the transaction in this mode. -/
def Handles (node : Node) (system : System) (mode : DataCollectionMode) (tx : TxData)
    (receipt : TxReceipt) : Prop :=
  ∃ event ∈ system.handled, ∃ txHash, decodeKafkaEvent event = .ok (mode, txHash) ∧
    node.getTransaction txHash = .ok tx ∧ node.getTransactionReceipt txHash = .ok receipt

/-- A key that a handled message writes is taken, by a row of the same transaction. -/
theorem exists_row_of_handles (hnode : CoherentNode node) (hreaches : Reaches node system)
    (hsame : SameSettings system.workers settings) (hhandles : Handles node system mode tx receipt)
    {name : TableName} (hname : name ≠ .block) {k : Key name}
    (hwrites : ∀ setOrder, ∃ row ∈ rowsOf name
      (modeStatements node settings setOrder mode tx receipt), primaryKey name row = some k) :
    ∃ row ∈ (system.db.table name).rows, primaryKey name row = some k ∧ ∃ mode' setOrder,
      row ∈ rowsOf name (modeStatements node settings setOrder mode' tx receipt) := by
  obtain ⟨event, hevent, txHash, hdecode, htx, hreceipt⟩ := hhandles
  obtain ⟨_, setOrder, hheld⟩ := held_of_handled hreaches hsame hevent
  have hstatements : kafkaEventStatements node settings setOrder event =
      modeStatements node settings setOrder mode tx receipt := by
    simp [kafkaEventStatements, hdecode, htx, hreceipt]
  rw [hstatements] at hheld
  obtain ⟨row, hrow, hk⟩ := hwrites setOrder
  obtain ⟨found, hfound, hkey⟩ :
      ∃ found ∈ (system.db.table name).rows, primaryKey name found = some k := by
    rcases hheld _ (mem_rowsOf_iff.mp hrow) with hmem | ⟨k', hk', htaken⟩
    · exact ⟨row, hmem, hk⟩
    · obtain ⟨other, hother, hkother⟩ := List.mem_filterMap.mp htaken
      exact ⟨other, hother, hkother.trans (hk'.symm.trans hk)⟩
  refine ⟨found, hfound, hkey, ?_⟩
  -- the row under the key carries the hash of the transaction
  obtain ⟨event', _, settings, rfl, setOrder', hmem, _⟩ :=
    original_of_reaches hreaches hsame hname hfound
  obtain ⟨mode', txHash', tx', receipt', _, htx', hreceipt', hstatement⟩ :=
    decoded_of_mem (mem_rowsOf_iff.mp hmem)
  have hhash : rowHash name row = some tx.hash :=
    rowHash_of_mem_modeStatements (hnode.transactionHash_eq htx hreceipt) (mem_rowsOf_iff.mp hrow)
  have hhash' : rowHash name found = some tx'.hash :=
    rowHash_of_mem_modeStatements (hnode.transactionHash_eq htx' hreceipt') hstatement
  rw [rowHash_eq_of_key_eq hkey hk, hhash] at hhash'
  obtain ⟨rfl, rfl⟩ :=
    hnode.eq_of_hash_eq htx hreceipt htx' hreceipt' (Option.some.inj hhash')
  exact ⟨mode', setOrder', mem_rowsOf_iff.mpr hstatement⟩

/-- A row that is the only one of its transaction under its key is stored. -/
theorem mem_of_unique (hnode : CoherentNode node) (hreaches : Reaches node system)
    (hsame : SameSettings system.workers settings) (hhandles : Handles node system mode tx receipt)
    {name : TableName} (hname : name ≠ .block) {row : Row name} {k : Key name}
    (hk : primaryKey name row = some k)
    (hrow : ∀ setOrder, row ∈ rowsOf name (modeStatements node settings setOrder mode tx receipt))
    (hunique : ∀ mode' setOrder other,
      other ∈ rowsOf name (modeStatements node settings setOrder mode' tx receipt) →
        primaryKey name other = some k → other = row) :
    row ∈ (system.db.table name).rows := by
  obtain ⟨found, hfound, hkey, mode', setOrder, hmem⟩ := exists_row_of_handles hnode hreaches hsame
    hhandles hname fun setOrder => ⟨row, hrow setOrder, hk⟩
  rwa [hunique mode' setOrder found hmem hkey] at hfound

/-- A message that was handled has left the row of its transaction, if it is saved. -/
theorem transaction_of_handles (hnode : CoherentNode node) (hreaches : Reaches node system)
    (hsame : SameSettings system.workers settings) (hhandles : Handles node system mode tx receipt)
    (hsaves : Saves settings mode tx receipt) :
    transactionRow (.parse tx) (.parse receipt) ∈ (system.db.table .transaction).rows := by
  apply mem_of_unique hnode hreaches hsame hhandles TableName.noConfusion rfl
  · intro setOrder
    obtain ⟨indices, hrows, _⟩ := @exists_saveStatements _ node settings setOrder _ _ _ hsaves
    rw [hrows .transaction (by decide), rowsOf_transaction_saveStatements]
    exact List.mem_singleton_self _
  · exact fun _ _ _ hother _ => eq_transactionRow_of_mem hother

/-- A message that was handled has left all that its mode selects. -/
theorem ingested_of_handles (hnode : CoherentNode node) (hindices : DistinctIndices receipt)
    (hreaches : Reaches node system) (hsame : SameSettings system.workers settings)
    (hhandles : Handles node system mode tx receipt) :
    Ingested node settings mode system.db tx receipt := by
  constructor
  case transaction => exact transaction_of_handles hnode hreaches hsame hhandles
  case logs =>
    intro hsaves log hlog hselects
    have hk : primaryKey .transactionLogs (logRow log) =
        some (log.transactionHash, log.logIndex) := rfl
    apply mem_of_unique hnode hreaches hsame hhandles TableName.noConfusion hk
    · intro setOrder
      obtain ⟨indices, hrows, hindex⟩ :=
        @exists_saveStatements _ node settings setOrder _ _ _ hsaves
      rw [hrows .transactionLogs (by decide), rowsOf_transactionLogs_saveStatements]
      exact List.mem_filter.mpr ⟨List.mem_map_of_mem hlog,
        decide_eq_true (hindex hindices log hlog hselects)⟩
    · intro _ _ other hother hkey
      exact eq_logRow_of_mem_modeStatements hindices hlog hother (hkey.trans hk.symm)
  case internalTransactions =>
    intro hsaves internalTx hinternal
    obtain ⟨event, hevent, txHash, hdecode, htx, hreceipt⟩ := hhandles
    obtain ⟨_, setOrder, _⟩ := held_of_handled hreaches hsame hevent
    obtain ⟨indices, hrows, _⟩ := @exists_saveStatements _ node settings setOrder _ _ _ hsaves
    apply @mem_internalTransaction_of_handled _ _ _ _ hreaches hsame _ hevent setOrder
    have hstatements : kafkaEventStatements node settings setOrder event =
        modeStatements node settings setOrder mode tx receipt := by
      simp [kafkaEventStatements, hdecode, htx, hreceipt]
    rw [hstatements, hrows .internalTransaction (by decide),
      rowsOf_internalTransaction_saveStatements]
    exact List.mem_map_of_mem hinternal
  case transfers =>
    rintro rfl log hlog hhandled args hargs
    have hk : primaryKey .nftTransfer (nftTransferRow tx.hash log args) =
        some (tx.hash, log.logIndex) := rfl
    apply mem_of_unique hnode hreaches hsame hhandles TableName.noConfusion hk
    · exact fun _ =>
        mem_nftTransfer_modeStatements_iff.mpr ⟨log, hlog, hhandled, args, hargs, rfl⟩
    · exact fun _ _ _ hother => eq_nftTransferRow_of_mem hindices hlog hargs hother
  case supplyChanges =>
    rintro rfl log hlog hhandled hnet
    obtain ⟨emitter, hemitter⟩ := exists_lastEmitter hnet
    obtain ⟨row, hrow, _, mode', setOrder, hmem⟩ := @exists_row_of_handles _ _ _ _ _ _ _ hnode
      hreaches hsame hhandles .contractSupplyChange TableName.noConfusion (emitter, tx.hash)
        fun setOrder => ⟨_, mem_contractSupplyChange_modeStatements_iff.mpr
          ⟨log, hlog, hhandled, hnet, emitter, hemitter, rfl⟩, rfl⟩
    obtain rfl := eq_partialMode_of_mem (by decide) (by decide) (by decide) hmem
    obtain ⟨other, hother, hothers, hchanged, _, hlast, rfl⟩ :=
      mem_contractSupplyChange_modeStatements_iff.mp hmem
    obtain rfl := Option.some.inj (hlast.symm.trans hemitter)
    exact ⟨_, hemitter, other, hother, hothers, hchanged, hrow⟩
  case liquidityChanges =>
    rintro rfl log hlog hhandled row hrow
    have hk : primaryKey .pairLiquidityChange row = some (row.address, row.transactionHash) := rfl
    apply mem_of_unique hnode hreaches hsame hhandles TableName.noConfusion hk
    · exact fun _ => (mem_rowsOf_modeStatements_iff (by decide)).mpr ⟨log, hlog, hhandled, hrow⟩
    · intro _ _ other hother hkey
      exact eq_pairLiquidityChangeRow_of_mem hrow hother (hkey.trans hk.symm)

/-- The message of a transaction was handled. -/
theorem ingested_of_mem_handled (hnode : CoherentNode node)
    (hindices : ∀ txHash receipt, node.getTransactionReceipt txHash = .ok receipt →
      DistinctIndices receipt)
    (hreaches : Reaches node system) (hsame : SameSettings system.workers settings)
    {txHash : String} (hevent : encodeKafkaEvent txHash mode ∈ system.handled) :
    ∃ tx receipt, node.getTransaction txHash = .ok tx ∧
      node.getTransactionReceipt txHash = .ok receipt ∧
      Ingested node settings mode system.db tx receipt := by
  obtain ⟨mode', txHash', tx, receipt, hdecode, htx, hreceipt⟩ :=
    ((sound_of_reaches hreaches).handled _ hevent).answered
  -- the message is decoded to what was encoded
  have hdecoded : (mode', txHash') = (mode, txHash) :=
    encodeKafkaEvent_injective (decodeKafkaEvent_eq_ok_iff.mp hdecode).2
  obtain ⟨rfl, rfl⟩ := Prod.mk.inj hdecoded
  exact ⟨tx, receipt, htx, hreceipt, ingested_of_handles hnode (hindices txHash' receipt hreceipt)
    hreaches hsame ⟨_, hevent, txHash', hdecode, htx, hreceipt⟩⟩

/-- Once all messages were handled, the transaction of every row is stored. -/
theorem exists_transactionRow_of_mem (hnode : CoherentNode node) (hreaches : Reaches node system)
    (hsame : SameSettings system.workers settings) (hall : AllHandled system) {name : TableName}
    (hname : name ≠ .block) {row : Row name} (hrow : row ∈ (system.db.table name).rows) :
    ∃ txRow ∈ (system.db.table .transaction).rows,
      rowHash name row = some txRow.transactionHash := by
  obtain ⟨event, hevent, settings, rfl, setOrder, hmem, _⟩ :=
    original_of_reaches hreaches hsame hname hrow
  obtain ⟨mode, txHash, tx, receipt, hdecode, htx, hreceipt, hstatement⟩ :=
    decoded_of_mem (mem_rowsOf_iff.mp hmem)
  exact ⟨transactionRow (.parse tx) (.parse receipt),
    transaction_of_handles hnode hreaches hsame
      ⟨event, hall event hevent, txHash, hdecode, htx, hreceipt⟩
      (saves_of_mem_modeStatements hstatement),
    rowHash_of_mem_modeStatements (hnode.transactionHash_eq htx hreceipt) hstatement⟩

end Handled

/-! ## Producers -/

section Producers

variable [ChecksumSpelling] {node : Node} {settings : ParserSettings} {system : System}
  {producer : Producer} {i b : ℤ}

omit [ChecksumSpelling] in
theorem exists_runs_startProducer (hstores : storesBlocks producer.cfg.mode) :
    ∃ withReward, Runs (startProducer producer.fuel producer.cfg withReward)
      producer.process.events .running := by
  have hruns := producer.runs
  rw [startProducerTask] at hruns
  split at hruns
  · exact ⟨true, hruns⟩
  · exact ⟨false, hruns⟩
  next hmode => rw [hmode] at hstores; cases hstores
  next hmode => rw [hmode] at hstores; cases hstores

/-- In every state that is reached, whatever has failed, the block table has all
blocks from the first one of a producer up to its counter. -/
theorem blocks_without_gaps (hreaches : Reaches node system)
    (hproducer : producer ∈ system.producers) (hstores : storesBlocks producer.cfg.mode)
    (hprocessed : Processed producer.process.events i)
    (hfirst : producer.cfg.startBlock.getD 0 ≤ b) (hle : b ≤ i) : BlockStored system.db b := by
  have hsound := (sound_of_reaches hreaches).producers producer hproducer
  obtain ⟨withReward, hruns⟩ := exists_runs_startProducer hstores
  obtain ⟨blockData, reward, hblock, hstored⟩ := recorded_of_processed hruns hprocessed hfirst hle
  have hnumber : blockData.blockNumber = b := (hsound.lists _ hblock).1
  have hholds : system.db.Holds (insertBlock (blockRow blockData reward)) :=
    hsound.stored _ hstored _ (List.mem_singleton_self _)
  rw [← hnumber]
  exact blockStored_of_holds hholds

end Producers

section Deployment

open Relevance.Deployment

theorem processed_mintEvents : Processed mintEvents 7 :=
  List.mem_of_getElem? (show mintEvents[17]? = _ from rfl)

theorem distinctIndices_mint : ∀ txHash receipt,
    mintNode.getTransactionReceipt txHash = .ok receipt → DistinctIndices receipt := by
  intro _ receipt hreceipt
  obtain rfl := Except.ok.inj hreceipt
  decide

theorem blocks_without_gaps_of_mint : ∃ system : System, Reaches mintNode system ∧
    ∀ number, 5 ≤ number → number ≤ 7 → BlockStored system.db number := by
  obtain ⟨system, hreaches, _, _, _, ⟨producer, hproducers, hcfg, hevents⟩, _⟩ := reaches_mint
  refine ⟨system, hreaches, fun number hfirst hle => ?_⟩
  exact blocks_without_gaps hreaches (hproducers ▸ List.mem_singleton_self _) (by rw [hcfg]; rfl)
    (hevents ▸ processed_mintEvents) (by rw [hcfg]; exact hfirst) hle

end Deployment

end BlockchainDataCollection.Ingestion
