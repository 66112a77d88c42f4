import BlockchainDataCollection.Consumer.IterationOrder
import BlockchainDataCollection.Consumer.Joining

/-!
# What a mode selects

Which transactions a mode saves, and which rows of a transaction it selects.  In
most tables a transaction writes only one row under a key.  The supply changes of
a transaction share one key, so one of their rows is stored.
-/

namespace BlockchainDataCollection.Selection

open BlockchainDataCollection.Effect
open BlockchainDataCollection.Python
open BlockchainDataCollection.Data
open BlockchainDataCollection.Events
open BlockchainDataCollection.KeyedTable
open BlockchainDataCollection.Parser
open BlockchainDataCollection.Storage
open BlockchainDataCollection.TxProcessor
open BlockchainDataCollection.Processing
open BlockchainDataCollection.Saving
open BlockchainDataCollection.Relevance
open BlockchainDataCollection.Completeness
open BlockchainDataCollection.Consuming
open BlockchainDataCollection.Confluence
open BlockchainDataCollection.Joining
open BlockchainDataCollection.IterationOrder (netSupply lastEmitter supplyRows
  rowsOf_contractSupplyChange_eventStatements eq_of_mem_pairLiquidityChange)

variable [ChecksumSpelling] {node : Node} {settings : ParserSettings} {setOrder : SetOrder}
  {tx : TxData} {receipt : TxReceipt} {mode : DataCollectionMode}

/-- The mode saves the transaction. -/
def Saves (settings : ParserSettings) (mode : DataCollectionMode) (tx : TxData)
    (receipt : TxReceipt) : Prop :=
  match mode with
  | .full | .getLogs => True
  | .partialMode => SaveCase settings tx receipt
  | .logFilter => False

/-- The mode selects the log of a saved transaction. -/
def SelectsLog (settings : ParserSettings) (mode : DataCollectionMode) (tx : TxData)
    (receipt : TxReceipt) (log : LogReceipt) : Prop :=
  match mode with
  | .full | .getLogs => True
  | .partialMode => EmitterHandled settings tx receipt log ∧ RelevantLog settings log
  | .logFilter => False

/-- The tables have all that the mode selects of a transaction. -/
structure Ingested (node : Node) (settings : ParserSettings) (mode : DataCollectionMode)
    (db : Database) (tx : TxData) (receipt : TxReceipt) : Prop where
  transaction : Saves settings mode tx receipt →
    transactionRow (.parse tx) (.parse receipt) ∈ (db.table .transaction).rows
  logs : Saves settings mode tx receipt → ∀ log ∈ receipt.logs,
    SelectsLog settings mode tx receipt log → logRow log ∈ (db.table .transactionLogs).rows
  internalTransactions : Saves settings mode tx receipt →
    ∀ internalTx ∈ storedInternalTransactions node tx.hash,
      internalTransactionRow tx.hash internalTx ∈ (db.table .internalTransaction).rows
  transfers : mode = .partialMode → ∀ log ∈ receipt.logs, EmitterHandled settings tx receipt log →
    ∀ args, recordedTransfer settings log = some args →
      nftTransferRow tx.hash log args ∈ (db.table .nftTransfer).rows
  /-- The supply changes of the handled emitters share the key of the last emitter:
  one of them is stored. -/
  supplyChanges : mode = .partialMode → ∀ log ∈ receipt.logs,
    EmitterHandled settings tx receipt log → netSupply settings receipt log.address.val ≠ 0 →
      ∃ emitter, lastEmitter settings receipt = some emitter ∧ ∃ other ∈ receipt.logs,
        EmitterHandled settings tx receipt other ∧
          netSupply settings receipt other.address.val ≠ 0 ∧
          ⟨emitter, netSupply settings receipt other.address.val, tx.hash⟩ ∈
            (db.table .contractSupplyChange).rows
  liquidityChanges : mode = .partialMode → ∀ log ∈ receipt.logs,
    EmitterHandled settings tx receipt log →
      ∀ row ∈ rowsOf .pairLiquidityChange
          (eventStatements settings tx.hash receipt log.address.val),
        row ∈ (db.table .pairLiquidityChange).rows

/-! ## Saved transactions -/

/-- A mode that saves a transaction does so for some of the log indices. -/
theorem exists_saveStatements (hsaves : Saves settings mode tx receipt) :
    ∃ indices, (∀ name, name ∉ eventTables →
        rowsOf name (modeStatements node settings setOrder mode tx receipt) =
          rowsOf name (saveStatements node (.parse tx) (.parse receipt) indices)) ∧
      (DistinctIndices receipt → ∀ log ∈ receipt.logs, SelectsLog settings mode tx receipt log →
        log.logIndex ∈ indices) := by
  cases mode with
  | full | getLogs =>
      refine ⟨_, fun _ _ => rfl, fun _ log hlog _ => List.mem_toFinset.mpr ?_⟩
      rw [TransactionReceiptData.parse, List.map_map]
      exact List.mem_map.mpr ⟨log, hlog, rfl⟩
  | partialMode =>
      refine ⟨savedIndices settings setOrder tx receipt, fun name hname => ?_, ?_⟩
      · rw [modeStatements, partialStatements, rowsOf_append,
          rowsOf_decisionStatements_eq_nil hname, if_pos (shouldSave_iff.mpr hsaves),
          List.nil_append]
      · rintro hindices log hlog ⟨hhandled, hrelevant⟩
        exact (logIndex_mem_unionIndices_iff hindices hlog).mpr
          ⟨(mem_handledAddresses_iff hlog).mpr hhandled, hrelevant⟩
  | logFilter => exact hsaves.elim

/-- Whatever a mode writes, it writes for a transaction that it saves. -/
theorem saves_of_mem_modeStatements {statement : Statement}
    (h : statement ∈ modeStatements node settings setOrder mode tx receipt) :
    Saves settings mode tx receipt := by
  cases mode with
  | full | getLogs => trivial
  | partialMode =>
      rcases List.mem_append.mp h with h | h
      · exact shouldSave_iff.mp (shouldSave_of_mem_decisionStatements h)
      · split at h
        · exact shouldSave_iff.mp ‹_›
        · cases h
  | logFilter => cases h

/-- The row of a log is the only one under its key. -/
theorem eq_logRow_of_mem_modeStatements (hindices : DistinctIndices receipt) {log : LogReceipt}
    (hlog : log ∈ receipt.logs) {row : TransactionLogsRow}
    (hrow : row ∈ rowsOf .transactionLogs (modeStatements node settings setOrder mode tx receipt))
    (hkey : primaryKey .transactionLogs row = primaryKey .transactionLogs (logRow log)) :
    row = logRow log := by
  obtain ⟨indices, hrows⟩ :=
    @exists_rowsOf_transactionLogs _ node settings setOrder tx receipt mode
  rw [hrows] at hrow
  obtain ⟨other, hother, rfl⟩ := List.mem_map.mp (List.mem_of_mem_filter hrow)
  have hsame : other.logIndex = log.logIndex := (Prod.mk.inj (Option.some.inj hkey)).2
  rw [hindices.eq_of_logIndex_eq hother hlog hsame]

/-! ## Events of the handled emitters -/

/-- An address writes rows only for events that it has emitted. -/
theorem exists_log_of_mem_eventStatements {txHash address : String} {statement : Statement}
    (h : statement ∈ eventStatements settings txHash receipt address) :
    ∃ log ∈ receipt.logs, log.address.val = address := by
  obtain ⟨index, hindex⟩ : (eventIndices settings receipt address).Nonempty := by
    rw [Finset.nonempty_iff_ne_empty]
    intro hempty
    rw [eventStatements_eq_nil hempty] at h
    cases h
  obtain ⟨log, hlog, haddress, _⟩ := mem_eventIndices_iff.mp hindex
  exact ⟨log, hlog, haddress⟩

/-- In the tables of events, mode `partial` writes the rows of the handled emitters. -/
theorem mem_rowsOf_modeStatements_iff {name : TableName} (hname : name ∈ eventTables)
    {row : Row name} :
    row ∈ rowsOf name (modeStatements node settings setOrder .partialMode tx receipt) ↔
      ∃ log ∈ receipt.logs, EmitterHandled settings tx receipt log ∧
        row ∈ rowsOf name (eventStatements settings tx.hash receipt log.address.val) := by
  have hsaved : rowsOf name (if shouldSave settings setOrder tx receipt then
      saveStatements node (.parse tx) (.parse receipt) (savedIndices settings setOrder tx receipt)
        else []) = [] := by
    split
    · apply rowsOf_saveStatements_eq_nil <;> (rintro rfl; exact absurd hname (by decide))
    · rfl
  rw [modeStatements, partialStatements, rowsOf_append, hsaved, List.append_nil,
    decisionStatements, rowsOf_flatMap, List.mem_flatMap]
  constructor
  · rintro ⟨address, haddress, hrow⟩
    obtain ⟨log, hlog, rfl⟩ := exists_log_of_mem_eventStatements (mem_rowsOf_iff.mp hrow)
    exact ⟨log, hlog, (mem_handledAddresses_iff hlog).mp haddress, hrow⟩
  · rintro ⟨log, hlog, hhandled, hrow⟩
    exact ⟨_, (mem_handledAddresses_iff hlog).mpr hhandled, hrow⟩

theorem mem_nftTransfer_modeStatements_iff {row : NftTransferRow} :
    row ∈ rowsOf .nftTransfer (modeStatements node settings setOrder .partialMode tx receipt) ↔
      ∃ log ∈ receipt.logs, EmitterHandled settings tx receipt log ∧
        ∃ args, recordedTransfer settings log = some args ∧
          row = nftTransferRow tx.hash log args := by
  rw [mem_rowsOf_modeStatements_iff (by decide)]
  constructor
  · rintro ⟨log, hlog, hhandled, hrow⟩
    obtain ⟨other, hother, haddress, hargs⟩ := mem_nftTransfer_eventStatements_iff.mp hrow
    have hsame : other.address = log.address := ChecksumAddress.val_inj.mp haddress
    refine ⟨other, hother, ?_, hargs⟩
    rwa [EmitterHandled, hsame]
  · rintro ⟨log, hlog, hhandled, hargs⟩
    exact ⟨log, hlog, hhandled, mem_nftTransfer_eventStatements_iff.mpr ⟨log, hlog, rfl, hargs⟩⟩

theorem mem_contractSupplyChange_modeStatements_iff {row : ContractSupplyChangeRow} :
    row ∈ rowsOf .contractSupplyChange
        (modeStatements node settings setOrder .partialMode tx receipt) ↔
      ∃ log ∈ receipt.logs, EmitterHandled settings tx receipt log ∧
        netSupply settings receipt log.address.val ≠ 0 ∧
        ∃ emitter, lastEmitter settings receipt = some emitter ∧
          row = ⟨emitter, netSupply settings receipt log.address.val, tx.hash⟩ := by
  rw [mem_rowsOf_modeStatements_iff (by decide)]
  refine exists_congr fun log => and_congr_right fun _ => and_congr_right fun _ => ?_
  rw [rowsOf_contractSupplyChange_eventStatements, supplyRows]
  cases lastEmitter settings receipt with
  | none => simp
  | some emitter => by_cases hnet : netSupply settings receipt log.address.val = 0 <;> simp [hnet]

/-- A token transfer is the only one of its log. -/
theorem eq_nftTransferRow_of_mem (hindices : DistinctIndices receipt) {log : LogReceipt}
    (hlog : log ∈ receipt.logs) {args : TokenTransferArgs}
    (hargs : recordedTransfer settings log = some args) {row : NftTransferRow}
    (hrow : row ∈ rowsOf .nftTransfer (modeStatements node settings setOrder mode tx receipt))
    (hkey : primaryKey .nftTransfer row = some (tx.hash, log.logIndex)) :
    row = nftTransferRow tx.hash log args := by
  obtain rfl := eq_partialMode_of_mem (by decide) (by decide) (by decide) hrow
  obtain ⟨other, hother, _, _, hothers, rfl⟩ := mem_nftTransfer_modeStatements_iff.mp hrow
  have hsame : other.logIndex = log.logIndex := (Prod.mk.inj (Option.some.inj hkey)).2
  obtain rfl := hindices.eq_of_logIndex_eq hother hlog hsame
  rw [Option.some.inj (hothers.symm.trans hargs)]

/-- A liquidity change is the only one of its contract. -/
theorem eq_pairLiquidityChangeRow_of_mem {log : LogReceipt} {row other : PairLiquidityChangeRow}
    (hrow : row ∈ rowsOf .pairLiquidityChange
      (eventStatements settings tx.hash receipt log.address.val))
    (hother : other ∈ rowsOf .pairLiquidityChange
      (modeStatements node settings setOrder mode tx receipt))
    (hkey : primaryKey .pairLiquidityChange other = primaryKey .pairLiquidityChange row) :
    other = row := by
  obtain rfl := eq_partialMode_of_mem (by decide) (by decide) (by decide) hother
  obtain ⟨emitting, _, _, hother⟩ := (mem_rowsOf_modeStatements_iff (by decide)).mp hother
  obtain ⟨config, hconfig, rfl⟩ := eq_of_mem_pairLiquidityChange hrow
  obtain ⟨config', hconfig', rfl⟩ := eq_of_mem_pairLiquidityChange hother
  have haddress : emitting.address.val = log.address.val :=
    (Prod.mk.inj (Option.some.inj hkey)).1
  rw [haddress] at hconfig' ⊢
  obtain rfl := Option.some.inj (hconfig'.symm.trans hconfig)
  rfl

end BlockchainDataCollection.Selection
