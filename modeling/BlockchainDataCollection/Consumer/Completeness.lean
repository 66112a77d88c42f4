import BlockchainDataCollection.Consumer.Relevance

/-!
# What mode `partial` saves

The class documents three cases in which a transaction is saved together with
its events.  The code makes the cases exclusive: it looks at the addresses of
the logs only when `to_address` is set and not configured.  Both results here
say exactly when the exclusive cases still do what is documented.
-/

namespace BlockchainDataCollection.Completeness

open BlockchainDataCollection.Effect
open BlockchainDataCollection.Python
open BlockchainDataCollection.Data
open BlockchainDataCollection.Events
open BlockchainDataCollection.KeyedTable
open BlockchainDataCollection.Parser
open BlockchainDataCollection.Storage
open BlockchainDataCollection.TxProcessor
open BlockchainDataCollection.Processing
open BlockchainDataCollection.Saving
open BlockchainDataCollection.Relevance
open ChecksumSpelling

/-! ## The logs of a saved transaction -/

section Logs

variable [ChecksumSpelling] {node : Node} {settings : ParserSettings} {setOrder : SetOrder}
  {tx : TxData} {receipt : TxReceipt}

/-- Mode `partial` handles the events of the log's emitter: only those of
`to_address` when it is configured, those of every emitter when `to_address` is
set but not configured, and those of the created contract without one. -/
def EmitterHandled (settings : ParserSettings) (tx : TxData) (receipt : TxReceipt)
    (log : LogReceipt) : Prop :=
  match tx.toAddress with
  | some toAddress => (settings.config toAddress.val).isSome → log.address = toAddress
  | none => receipt.contractAddress = some log.address

theorem mem_handledAddresses_iff {log : LogReceipt} (hlog : log ∈ receipt.logs) :
    log.address.val ∈ handledAddresses settings setOrder tx receipt ↔
      EmitterHandled settings tx receipt log := by
  cases hto : tx.toAddress with
  | some toAddress =>
      simp only [handledAddresses, EmitterHandled, hto]
      by_cases hconfig : (settings.config toAddress.val).isSome
      · simp [hconfig]
      · simp only [hconfig, if_false, Bool.false_eq_true, false_implies, iff_true]
        refine (setOrder.perm _).mem_iff.mpr (List.mem_dedup.mpr ?_)
        exact List.mem_map_of_mem hlog
  | none =>
      cases hcreated : receipt.contractAddress with
      | none => simp [handledAddresses, EmitterHandled, hto, hcreated]
      | some contractAddress =>
          simp [handledAddresses, EmitterHandled, hto, hcreated, eq_comm]

/-- The log rows a saved transaction writes. -/
theorem rowsOf_transactionLogs_partialStatements
    (hsave : shouldSave settings setOrder tx receipt = true) :
    rowsOf .transactionLogs (partialStatements node settings setOrder tx receipt) =
      (receipt.logs.map logRow).filter fun row =>
        row.logIndex ∈ savedIndices settings setOrder tx receipt := by
  rw [partialStatements, if_pos hsave, rowsOf_append,
    rowsOf_decisionStatements_eq_nil (by decide), rowsOf_transactionLogs_saveStatements,
    List.nil_append]

/-- A log of the receipt is among the written rows exactly when it is relevant
and its emitter is handled. -/
theorem logRow_mem_partialStatements_iff (hindices : DistinctIndices receipt)
    (hsave : shouldSave settings setOrder tx receipt = true) {log : LogReceipt}
    (hlog : log ∈ receipt.logs) :
    logRow log ∈ rowsOf .transactionLogs (partialStatements node settings setOrder tx receipt) ↔
      EmitterHandled settings tx receipt log ∧ RelevantLog settings log := by
  rw [rowsOf_transactionLogs_partialStatements hsave, ← mem_handledAddresses_iff hlog,
    ← logIndex_mem_unionIndices_iff hindices hlog, List.mem_filter, decide_eq_true_eq]
  exact and_iff_right (List.mem_map_of_mem hlog)

/-- The rows written for one key are all the same row. -/
theorem eq_logRow_of_mem_partialStatements (hindices : DistinctIndices receipt)
    (hsave : shouldSave settings setOrder tx receipt = true) {log : LogReceipt}
    (hlog : log ∈ receipt.logs) {row : TransactionLogsRow}
    (hrow : row ∈ rowsOf .transactionLogs (partialStatements node settings setOrder tx receipt))
    (hkey : primaryKey .transactionLogs row = primaryKey .transactionLogs (logRow log)) :
    row = logRow log := by
  rw [rowsOf_transactionLogs_partialStatements hsave] at hrow
  obtain ⟨other, hother, rfl⟩ := List.mem_map.mp (List.mem_of_mem_filter hrow)
  have hindex : other.logIndex = log.logIndex := (Prod.mk.inj (Option.some.inj hkey)).2
  rw [hindices.eq_of_logIndex_eq hother hlog hindex]

variable {parser parser' : ContractParser} {db db' : Database}

/-- When a transaction is saved, all its relevant logs are stored afterwards
exactly when each of them was stored before, or had a free key and an emitter
whose events are handled. -/
theorem relevantLogs_stored_iff (hparser : parser.Consistent) (hindices : DistinctIndices receipt)
    (hrun : process node (PartialTransactionProcessor.processTransaction setOrder parser
      (.parse tx) (.parse receipt) receipt) db = (.returned (true, parser'), db')) :
    (∀ log ∈ receipt.logs, RelevantLog parser.settings log →
        logRow log ∈ (db'.table .transactionLogs).rows) ↔
      ∀ log ∈ receipt.logs, RelevantLog parser.settings log →
        logRow log ∈ (db.table .transactionLogs).rows ∨
          (db.table .transactionLogs).lookup (log.transactionHash, log.logIndex) = none ∧
            EmitterHandled parser.settings tx receipt log := by
  rw [process_eq] at hrun
  obtain ⟨houtcome, rfl⟩ := Prod.mk.inj hrun
  obtain ⟨hsave, _, _, hperforms⟩ := partial_of_returned hparser houtcome
  refine forall₂_congr fun log hlog => forall_congr' fun hrelevant => ?_
  have hkey : primaryKey .transactionLogs (logRow log) =
      some (log.transactionHash, log.logIndex) := rfl
  rw [hperforms.written, Database.table_executeAll, Table.mem_insertAll_iff hkey,
    Table.firstWith_eq_some_iff_mem hkey fun row hrow hrowKey =>
      eq_logRow_of_mem_partialStatements hindices hsave.symm hlog hrow (hrowKey.trans hkey.symm),
    logRow_mem_partialStatements_iff hindices hsave.symm hlog]
  simp [hrelevant]

end Logs

section Deployment

open Deployment

/-- Both tokens emit in the same transaction. -/
def mixedReceipt : TxReceipt where
  gasUsed := 21000
  logs := [transferLog coin 0 zeroAddress holder "0x10" [],
    transferLog token 1 zeroAddress holder "0x20" []]
  contractAddress := none

/-- Sent to an address that is not configured, both logs are stored. -/
theorem relevantLogs_stored_of_mixedReceipt : ∃ parser' db',
    process node (PartialTransactionProcessor.processTransaction setOrder parser
      (.parse (transaction (some holder))) (.parse mixedReceipt) mixedReceipt) Database.empty =
        (.returned (true, parser'), db') ∧
      ∀ log ∈ mixedReceipt.logs, RelevantLog parser.settings log →
        logRow log ∈ (db'.table .transactionLogs).rows := by
  obtain ⟨parser', _, _, hperforms⟩ := partial_performs parser_consistent
    (succeeds (transaction (some holder)) mixedReceipt)
  have hsave : shouldSave parser.settings setOrder (transaction (some holder)) mixedReceipt =
      true := by decide
  rw [hsave] at hperforms
  refine ⟨parser', _, hperforms.process _,
    (relevantLogs_stored_iff parser_consistent (by decide) (hperforms.process _)).mpr ?_⟩
  intro log _ _
  exact .inr ⟨rfl, fun hconfig => absurd hconfig (by decide)⟩

/-- Sent to one token, the relevant log of the other token is not stored. -/
theorem relevantLog_lost :
    DistinctIndices mixedReceipt ∧
    ∃ log ∈ mixedReceipt.logs, RelevantLog parser.settings log ∧
      let run := process node (PartialTransactionProcessor.processTransaction setOrder parser
        (.parse (transaction (some coin))) (.parse mixedReceipt) mixedReceipt) Database.empty
      (∃ parser', run.1 = .returned (true, parser')) ∧
        logRow log ∉ (run.2.table .transactionLogs).rows := by
  refine ⟨by decide, transferLog token 1 zeroAddress holder "0x20" [], by simp [mixedReceipt],
    by decide, ?_, by decide⟩
  obtain ⟨parser', _, _, hperforms⟩ := partial_performs parser_consistent
    (succeeds (transaction (some coin)) mixedReceipt)
  exact ⟨parser', by rw [hperforms.process]; rfl⟩

end Deployment

/-! ## The decision -/

section Decision

variable [ChecksumSpelling] {node : Node} {settings : ParserSettings} {setOrder : SetOrder}
  {tx : TxData} {receipt : TxReceipt} {parser parser' : ContractParser} {db db' : Database}

/-- `contract_address` of the receipt, or `to_address`, is a configured contract. -/
def IsConfigured (settings : ParserSettings) (address : Option ChecksumAddress) : Prop :=
  ∃ found, address = some found ∧ (settings.config found.val).isSome

/-- The three documented cases: a configured `to_address`, the creation of a
configured contract, a relevant log. -/
def DocumentedCase (settings : ParserSettings) (tx : TxData) (receipt : TxReceipt) : Prop :=
  IsConfigured settings tx.toAddress ∨
    (tx.toAddress = none ∧ IsConfigured settings receipt.contractAddress) ∨
    ∃ log ∈ receipt.logs, RelevantLog settings log

theorem card_savedIndices_pos_iff :
    0 < (savedIndices settings setOrder tx receipt).card ↔
      ∃ log ∈ receipt.logs, EmitterHandled settings tx receipt log ∧ RelevantLog settings log := by
  rw [Finset.card_pos]
  constructor
  · rintro ⟨index, hindex⟩
    obtain ⟨log, hlog, haddress, hrelevant, _⟩ := mem_unionIndices_iff.mp hindex
    exact ⟨log, hlog, (mem_handledAddresses_iff hlog).mp haddress, hrelevant⟩
  · rintro ⟨log, hlog, hhandled, hrelevant⟩
    exact ⟨log.logIndex, mem_unionIndices_iff.mpr
      ⟨log, hlog, (mem_handledAddresses_iff hlog).mpr hhandled, hrelevant, rfl⟩⟩

/-- The cases as the code tells them apart, one after the other. -/
def SaveCase (settings : ParserSettings) (tx : TxData) (receipt : TxReceipt) : Prop :=
  match tx.toAddress with
  | some toAddress => (settings.config toAddress.val).isSome ∨
      ∃ log ∈ receipt.logs, RelevantLog settings log
  | none => IsConfigured settings receipt.contractAddress

theorem shouldSave_iff :
    shouldSave settings setOrder tx receipt = true ↔ SaveCase settings tx receipt := by
  unfold SaveCase
  cases hto : tx.toAddress with
  | some toAddress =>
      by_cases hconfig : (settings.config toAddress.val).isSome
      · simp [shouldSave, hto, hconfig]
      · simp only [shouldSave, hto, hconfig, Bool.false_or, decide_eq_true_eq,
          card_savedIndices_pos_iff, EmitterHandled, Bool.false_eq_true, false_implies, true_and,
          false_or]
  | none =>
      cases hcreated : receipt.contractAddress with
      | none => simp [shouldSave, IsConfigured, hto, hcreated]
      | some contractAddress => simp [shouldSave, IsConfigured, hto, hcreated]

/-- A saved transaction has its row afterwards. -/
theorem transactionRow_stored (hsave : shouldSave settings setOrder tx receipt = true) :
    ∃ row ∈ ((db.executeAll (partialStatements node settings setOrder tx receipt)).table
      .transaction).rows, row.transactionHash = tx.hash := by
  have hmem : insertTransaction (transactionRow (.parse tx) (.parse receipt)) ∈
      partialStatements node settings setOrder tx receipt := by
    rw [partialStatements, if_pos hsave]
    apply List.mem_append_right
    apply mem_rowsOf_iff.mp
    rw [rowsOf_transaction_saveStatements]
    exact List.mem_singleton_self _
  exact exists_transactionRow_of_mem hmem

/-- The decision is the documented one exactly when the transaction is not a
creation of an unconfigured contract with a relevant log. -/
theorem decision_documented_iff (hparser : parser.Consistent) {save : Bool}
    (hrun : process node (PartialTransactionProcessor.processTransaction setOrder parser
      (.parse tx) (.parse receipt) receipt) db = (.returned (save, parser'), db')) :
    ((save = true ∧ ∃ row ∈ (db'.table .transaction).rows, row.transactionHash = tx.hash) ↔
        DocumentedCase parser.settings tx receipt) ↔
      ¬ (tx.toAddress = none ∧ ¬ IsConfigured parser.settings receipt.contractAddress ∧
        ∃ log ∈ receipt.logs, RelevantLog parser.settings log) := by
  rw [process_eq] at hrun
  obtain ⟨houtcome, rfl⟩ := Prod.mk.inj hrun
  obtain ⟨rfl, _, _, hperforms⟩ := partial_of_returned hparser houtcome
  rw [hperforms.written, and_iff_left_of_imp transactionRow_stored, shouldSave_iff, SaveCase]
  cases hto : tx.toAddress with
  | some toAddress =>
      simp [DocumentedCase, IsConfigured, hto]
  | none =>
      by_cases hcreated : IsConfigured parser.settings receipt.contractAddress
      · simp [DocumentedCase, hto, hcreated]
      · have habsent : ¬ IsConfigured parser.settings none := by simp [IsConfigured]
        simp only [DocumentedCase, hto, habsent, hcreated, and_false, false_or, false_iff, true_and,
          not_false_eq_true]

end Decision

section Deployment

open Deployment

/-- The contract that created an address pays out in the constructor. -/
def creationReceipt (contractAddress : ChecksumAddress) : TxReceipt where
  gasUsed := 21000
  logs := [transferLog coin 0 zeroAddress holder "0x10" []]
  contractAddress := some contractAddress

theorem decision_documented_of_creation : ∃ parser' db',
    process node (PartialTransactionProcessor.processTransaction setOrder parser
      (.parse (transaction none)) (.parse (creationReceipt collectible))
      (creationReceipt collectible)) Database.empty = (.returned (true, parser'), db') ∧
      ((true = true ∧ ∃ row ∈ (db'.table .transaction).rows, row.transactionHash = txHash) ↔
        DocumentedCase parser.settings (transaction none) (creationReceipt collectible)) := by
  obtain ⟨parser', _, _, hperforms⟩ := partial_performs parser_consistent
    (succeeds (transaction none) (creationReceipt collectible))
  have hsave : shouldSave parser.settings setOrder (transaction none)
      (creationReceipt collectible) = true := by decide
  rw [hsave] at hperforms
  refine ⟨parser', _, hperforms.process _,
    (decision_documented_iff parser_consistent (hperforms.process _)).mpr ?_⟩
  rintro ⟨_, hcreated, _⟩
  exact hcreated ⟨collectible, rfl, by decide⟩

/-- The creation of an unconfigured contract with a relevant log is not saved. -/
theorem documentedCase_not_saved :
    DocumentedCase parser.settings (transaction none) (creationReceipt holder) ∧
      ∃ parser', (process node (PartialTransactionProcessor.processTransaction setOrder parser
        (.parse (transaction none)) (.parse (creationReceipt holder)) (creationReceipt holder))
        Database.empty).1 = .returned (false, parser') := by
  refine ⟨.inr (.inr ⟨_, List.mem_singleton_self _, by decide⟩), ?_⟩
  obtain ⟨parser', _, _, hperforms⟩ := partial_performs parser_consistent
    (succeeds (transaction none) (creationReceipt holder))
  exact ⟨parser', by rw [hperforms.process]; rfl⟩

end Deployment

end BlockchainDataCollection.Completeness
