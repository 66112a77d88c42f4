import BlockchainDataCollection.Consumer.Committing
import BlockchainDataCollection.Consumer.Confluence

/-!
# Derived rows join to their transaction

No foreign key ties the rows derived from a transaction to its row, and most of
them are written before the decision to save the transaction.  Every one of
them marks a log, though, and a transaction with a marked log is saved.
-/

namespace BlockchainDataCollection.Joining

open BlockchainDataCollection.Effect
open BlockchainDataCollection.Python
open BlockchainDataCollection.Data
open BlockchainDataCollection.KeyedTable
open BlockchainDataCollection.Parser
open BlockchainDataCollection.Storage
open BlockchainDataCollection.TxProcessor
open BlockchainDataCollection.Processing
open BlockchainDataCollection.Saving
open BlockchainDataCollection.Relevance
open BlockchainDataCollection.Completeness
open BlockchainDataCollection.Soundness
open BlockchainDataCollection.Consuming
open BlockchainDataCollection.Confluence
open BlockchainDataCollection.Committing

section Joining

variable [ChecksumSpelling] {settings : ParserSettings} {setOrder : SetOrder} {tx : TxData}
  {receipt : TxReceipt}

/-! ## Written rows mark logs -/

/-- An address that selects no log writes no row. -/
theorem eventStatements_eq_nil {address txHash : String}
    (h : eventIndices settings receipt address = ∅) :
    eventStatements settings txHash receipt address = [] := by
  unfold eventStatements
  unfold eventIndices at h
  split
  · rfl
  next config hconfig =>
      rw [hconfig] at h
      simp only [receiptTotals, totalsOf, List.toFinset_eq_empty_iff, List.map_eq_nil_iff] at h
      have htotals :
          supplyStatements txHash (receiptTotals settings address config receipt) = [] := by
        unfold supplyStatements
        split
        · rfl
        · simp [receiptTotals, totalsOf, h]
      rw [htotals, nftStatements, h]
      simp [pairStatements, receiptTotals, totalsOf, h]

/-- Whatever is written before the decision makes the decision positive. -/
theorem shouldSave_of_mem_decisionStatements {statement : Statement}
    (h : statement ∈ decisionStatements settings setOrder tx receipt) :
    shouldSave settings setOrder tx receipt = true := by
  obtain ⟨address, haddress, hstatement⟩ := List.mem_flatMap.mp h
  obtain ⟨index, hindex⟩ : (eventIndices settings receipt address).Nonempty := by
    rw [Finset.nonempty_iff_ne_empty]
    intro hempty
    rw [eventStatements_eq_nil hempty] at hstatement
    cases hstatement
  obtain ⟨log, hlog, rfl, ⟨config, hconfig, hrelevant⟩, _⟩ := mem_eventIndices_iff.mp hindex
  rw [shouldSave_iff, SaveCase]
  cases hto : tx.toAddress with
  | some toAddress =>
      right
      exact ⟨log, hlog, config, hconfig, hrelevant⟩
  | none =>
      rw [handledAddresses, hto] at haddress
      cases hcreated : receipt.contractAddress with
      | none =>
          rw [hcreated] at haddress
          cases haddress
      | some contractAddress =>
          rw [hcreated] at haddress
          refine ⟨contractAddress, rfl, ?_⟩
          rw [← List.mem_singleton.mp haddress, hconfig]
          rfl

/-! ## The blocks of one transaction -/

/-- The tables with rows derived from a transaction. -/
def derivedTables : List TableName :=
  [.contractSupplyChange, .pairLiquidityChange, .nftTransfer, .transactionLogs,
    .internalTransaction]

/-- The logs of a receipt carry the hash of its transaction, as the node
documents them. -/
def LogsCarryHash (tx : TxData) (receipt : TxReceipt) : Prop :=
  ∀ log ∈ receipt.logs, log.transactionHash = tx.hash

instance (tx : TxData) (receipt : TxReceipt) : Decidable (LogsCarryHash tx receipt) :=
  inferInstanceAs (Decidable (∀ log ∈ receipt.logs, _))

/-- A derived row carries the hash of its transaction; a log carries its own. -/
def Derives (tx : TxData) (receipt : TxReceipt) (statement : Statement) : Prop :=
  (statement.table = .transactionLogs → LogsCarryHash tx receipt) →
    rowHash statement.table statement.row = some tx.hash

theorem derives_of_mem_rowBlocks {indices : Finset ℕ} {statement : Statement}
    (h : statement ∈ (rowBlocks (.parse tx) (.parse receipt) indices).flatten) :
    Derives tx receipt statement := by
  intro hlogs
  simp only [rowBlocks, List.flatten_cons, List.flatten_nil, List.append_nil,
    List.singleton_append, List.mem_cons] at h
  rcases h with rfl | h
  · rfl
  · obtain ⟨txLog, htxLog, rfl⟩ := List.mem_map.mp h
    obtain ⟨log, hlog, rfl⟩ := List.mem_map.mp (List.mem_of_mem_filter htxLog)
    exact congrArg some (hlogs rfl log hlog)

theorem mem_saveBlocks_derives {mode : DataCollectionMode} {statement : Statement}
    (h : statement ∈ (saveBlocks settings setOrder mode tx receipt).flatten) :
    Derives tx receipt statement ∧
      StoresTransaction tx.hash (saveBlocks settings setOrder mode tx receipt) := by
  cases mode with
  | full | getLogs =>
      exact ⟨derives_of_mem_rowBlocks h, storesTransaction_rowBlocks (.parse tx) _ _⟩
  | logFilter => cases h
  | partialMode =>
      rw [saveBlocks, List.flatten_append, flatten_singly, List.mem_append] at h
      have hsave : shouldSave settings setOrder tx receipt = true := by
        rcases h with h | h
        · exact shouldSave_of_mem_decisionStatements h
        · by_contra hsave
          rw [if_neg hsave] at h
          cases h
      rw [saveBlocks, if_pos hsave]
      rw [if_pos hsave] at h
      obtain ⟨row, hrow, hmem⟩ := storesTransaction_rowBlocks (.parse tx) (.parse receipt)
        (savedIndices settings setOrder tx receipt)
      refine ⟨?_, row, hrow, List.mem_append_right _ hmem⟩
      rcases h with h | h
      · obtain ⟨_, _, hevent⟩ := List.mem_flatMap.mp h
        exact fun _ => rowHash_of_mem_eventStatements hevent
      · exact derives_of_mem_rowBlocks h

/-- Whatever a completed run has committed, it stored the transaction with it. -/
theorem mem_committed_derives {mode : DataCollectionMode} {all : List (List Statement)}
    {statement : Statement}
    (hall : CompletedBy tx.hash (saveBlocks settings setOrder mode tx receipt) all)
    (h : statement ∈ all.flatten) :
    Derives tx receipt statement ∧ StoresTransaction tx.hash all := by
  obtain ⟨internal, rfl, hinternal⟩ := hall
  rw [List.flatten_append, List.mem_append] at h
  rcases h with h | h
  · obtain ⟨hderives, row, hrow, hmem⟩ := mem_saveBlocks_derives h
    exact ⟨hderives, row, hrow, List.mem_append_left _ hmem⟩
  · obtain ⟨⟨internalTx, rfl⟩, row, hrow, hmem⟩ := hinternal statement h
    exact ⟨fun _ => rfl, row, hrow, List.mem_append_left _ hmem⟩

/-! ## The tables of all runs -/

/-- The states after sequences of transactions, from empty tables, that were
processed without an exception, each in its mode. -/
inductive Completed (settings : ParserSettings) : ContractParser → List Job → Database → Prop
  | start : Completed settings ⟨settings, ∅⟩ [] Database.empty
  | next {parser jobs db} (mode : DataCollectionMode) (job : Job) {events saved parser'} :
      Completed settings parser jobs db →
      Program.Runs (processTransaction job.setOrder mode parser job.tx job.receipt) events
        (.returned (saved, parser')) →
      Completed settings parser' (job :: jobs) (events.foldl applyEvent db)

/-- Some stored transaction has the hash that the row refers to. -/
def Joins (db : Database) (name : TableName) (row : Row name) : Prop :=
  ∃ txRow ∈ (db.table .transaction).rows, rowHash name row = some txRow.transactionHash

omit [ChecksumSpelling] in
theorem Joins.executeAll {db : Database} {name : TableName} {row : Row name}
    (h : Joins db name row) (statements : List Statement) :
    Joins (db.executeAll statements) name row := by
  obtain ⟨txRow, htxRow, hhash⟩ := h
  refine ⟨txRow, ?_, hhash⟩
  rw [Database.table_executeAll]
  exact (Table.rows_prefix_insertAll _ _).subset htxRow

theorem parser_of_completed {parser : ContractParser} {jobs : List Job} {db : Database}
    (h : Completed settings parser jobs db) : parser.settings = settings ∧ parser.Consistent := by
  induction h with
  | start => exact ⟨rfl, fun _ _ hcached => by cases hcached⟩
  | next mode job _ hruns ih =>
      obtain ⟨rfl, hparser⟩ := ih
      exact ((commits_processTransaction hparser mode _ _ hruns).1 _ rfl).1

/-- One more transaction: what it wrote joins to it. -/
theorem joins_of_committed {job : Job} {mode : DataCollectionMode} {all : List (List Statement)}
    (hall : CompletedBy job.tx.hash
      (saveBlocks settings job.setOrder mode job.tx job.receipt) all)
    (db : Database) {name : TableName} {row : Row name}
    (hlogs : name = .transactionLogs → LogsCarryHash job.tx job.receipt)
    (hrow : .insert name row ∈ all.flatten) : Joins (db.executeAll all.flatten) name row := by
  obtain ⟨hderives, txRow, htxRow, hmem⟩ := mem_committed_derives hall hrow
  have hwritten : insertTransaction txRow ∈ all.flatten :=
    List.mem_flatten.mpr ⟨_, hmem, List.mem_singleton_self _⟩
  obtain ⟨stored, hstored, hhash⟩ := exists_transactionRow_of_mem hwritten
  exact ⟨stored, hstored, by rw [hhash, htxRow]; exact hderives hlogs⟩

/-- Every derived row of every reachable state joins to a stored transaction;
for the logs, provided the receipts were those of their transactions. -/
theorem derived_rows_join {parser : ContractParser} {jobs : List Job} {db : Database}
    (h : Completed settings parser jobs db) :
    ∀ name ∈ derivedTables,
      (name = .transactionLogs → ∀ job ∈ jobs, LogsCarryHash job.tx job.receipt) →
        ∀ row ∈ (db.table name).rows, Joins db name row := by
  intro name hname hlogs row hrow
  induction h with
  | start => cases hrow
  | @next parser jobs db mode job events saved parser' hprevious hruns ih =>
      obtain ⟨rfl, hparser⟩ := parser_of_completed hprevious
      have hall := ((commits_processTransaction hparser mode _ _ hruns).1 _ rfl).2
      rw [foldl_applyEvent_eq] at hrow ⊢
      rw [Database.table_executeAll] at hrow
      rcases Table.mem_of_mem_insertAll hrow with hrow | hrow
      · have hjoins := ih (fun hname job hjob => hlogs hname job (List.mem_cons_of_mem _ hjob)) hrow
        exact hjoins.executeAll _
      · exact joins_of_committed hall db (fun hname => hlogs hname job List.mem_cons_self)
          (mem_rowsOf_iff.mp hrow)

end Joining

section Deployment

open Deployment

/-- The transfer of a collectible, once in full and once more in part. -/
theorem derived_rows_join_of_collectible : ∃ parser' db,
    Completed parser.settings parser' [collectibleJob, collectibleJob] db ∧
      (db.table .nftTransfer).rows ≠ [] ∧ (db.table .transactionLogs).rows ≠ [] ∧
      (∀ row ∈ (db.table .nftTransfer).rows, Joins db .nftTransfer row) ∧
      ∀ row ∈ (db.table .transactionLogs).rows, Joins db .transactionLogs row := by
  have hfull := Program.runs_history node.answer
    (processTransaction setOrder .full parser collectibleJob.tx collectibleJob.receipt)
  have hpartial := Program.runs_history node.answer
    (processTransaction setOrder .partialMode parser collectibleJob.tx collectibleJob.receipt)
  have hfirst : Completed parser.settings _ _ _ := .next .full collectibleJob .start hfull
  have hsecond := Completed.next .partialMode collectibleJob hfirst hpartial
  exact ⟨_, _, hsecond, by decide, by decide,
    derived_rows_join hsecond .nftTransfer (by decide) (by simp),
    derived_rows_join hsecond .transactionLogs (by decide) fun _ => by decide⟩

end Deployment

end BlockchainDataCollection.Joining
