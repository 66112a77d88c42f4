import BlockchainDataCollection.Consumer.Completeness
import BlockchainDataCollection.Consumer.Consuming
import BlockchainDataCollection.Effect.Interleaving

/-!
# Consumers in any interleaving

Any number of consumers share the database and take turns at their statements.
The rows they write do not depend on who handles an event, and every row that
can be the first one under a key is the same whoever writes it, so the final
tables depend only on the events.
-/

namespace BlockchainDataCollection.Confluence

open BlockchainDataCollection.Effect
open BlockchainDataCollection.Interleaving
open BlockchainDataCollection.Python
open BlockchainDataCollection.Data
open BlockchainDataCollection.KeyedTable
open BlockchainDataCollection.Parser
open BlockchainDataCollection.Storage
open BlockchainDataCollection.TxProcessor
open BlockchainDataCollection.Processing
open BlockchainDataCollection.Saving
open BlockchainDataCollection.Relevance
open BlockchainDataCollection.Completeness
open BlockchainDataCollection.Consuming

section Modes

variable [ChecksumSpelling] {node : Node} {settings : ParserSettings} {setOrder : SetOrder}
  {tx : TxData} {receipt : TxReceipt} {mode mode' : DataCollectionMode}

/-! ## The rows of one transaction, whatever the mode -/

/-- Every mode stores a selection of the logs by their index. -/
theorem exists_rowsOf_transactionLogs (mode : DataCollectionMode) :
    ∃ indices : Finset ℕ,
      rowsOf .transactionLogs (modeStatements node settings setOrder mode tx receipt) =
        (receipt.logs.map logRow).filter fun row => row.logIndex ∈ indices := by
  cases mode with
  | full | getLogs => exact ⟨_, rowsOf_transactionLogs_saveStatements _ _ _⟩
  | partialMode =>
      cases hsave : shouldSave settings setOrder tx receipt with
      | true => exact ⟨_, rowsOf_transactionLogs_partialStatements hsave⟩
      | false =>
          refine ⟨∅, ?_⟩
          rw [modeStatements, partialStatements, hsave, rowsOf_append,
            rowsOf_decisionStatements_eq_nil (by decide)]
          simp
  | logFilter => exact ⟨∅, by simp [modeStatements]⟩

theorem firstWith_transactionLogs {k : Key .transactionLogs} {row : TransactionLogsRow}
    (h : Table.firstWith (primaryKey .transactionLogs) k
      (rowsOf .transactionLogs (modeStatements node settings setOrder mode tx receipt)) =
        some row) :
    Table.firstWith (primaryKey .transactionLogs) k (receipt.logs.map logRow) = some row := by
  obtain ⟨indices, hindices⟩ : ∃ indices : Finset ℕ,
      rowsOf .transactionLogs (modeStatements node settings setOrder mode tx receipt) =
        (receipt.logs.map logRow).filter fun row => row.logIndex ∈ indices :=
    exists_rowsOf_transactionLogs mode
  rw [hindices] at h
  refine Table.firstWith_of_firstWith_filter ?_ h
  intro left right hleft hright
  have hkey : (left.transactionHash, left.logIndex) = (right.transactionHash, right.logIndex) :=
    Option.some.inj (hleft.trans hright.symm)
  rw [(Prod.mk.inj hkey).2]

theorem eq_transactionRow_of_mem {row : TransactionRow}
    (h : row ∈ rowsOf .transaction (modeStatements node settings setOrder mode tx receipt)) :
    row = transactionRow (.parse tx) (.parse receipt) := by
  cases mode with
  | full | getLogs =>
      rw [modeStatements, fullStatements, rowsOf_transaction_saveStatements] at h
      exact List.mem_singleton.mp h
  | partialMode =>
      rw [modeStatements, partialStatements, rowsOf_append,
        rowsOf_decisionStatements_eq_nil (by decide), List.nil_append] at h
      split at h
      · rw [rowsOf_transaction_saveStatements] at h
        exact List.mem_singleton.mp h
      · cases h
  | logFilter => cases h

/-- Only mode `partial` writes any other table with a primary key. -/
theorem eq_partialMode_of_mem {name : TableName} {row : Row name}
    (htransaction : name ≠ .transaction) (hlogs : name ≠ .transactionLogs)
    (hinternal : name ≠ .internalTransaction)
    (h : row ∈ rowsOf name (modeStatements node settings setOrder mode tx receipt)) :
    mode = .partialMode := by
  cases mode with
  | full | getLogs =>
      rw [modeStatements, fullStatements,
        rowsOf_saveStatements_eq_nil htransaction hlogs hinternal] at h
      cases h
  | partialMode => rfl
  | logFilter => cases h

/-- The first row under a key does not depend on the mode. -/
theorem firstWith_modeStatements_eq {name : TableName} {k : Key name} {a b : Row name}
    (ha : Table.firstWith (primaryKey name) k
      (rowsOf name (modeStatements node settings setOrder mode tx receipt)) = some a)
    (hb : Table.firstWith (primaryKey name) k
      (rowsOf name (modeStatements node settings setOrder mode' tx receipt)) = some b) :
    a = b := by
  by_cases htransaction : name = .transaction
  · subst name
    rw [eq_transactionRow_of_mem (Table.mem_of_firstWith ha),
      eq_transactionRow_of_mem (Table.mem_of_firstWith hb)]
  by_cases hinternal : name = .internalTransaction
  · subst name
    exact k.elim
  by_cases hlogs : name = .transactionLogs
  · subst name
    exact Option.some.inj
      ((firstWith_transactionLogs ha).symm.trans (firstWith_transactionLogs hb))
  · obtain rfl := eq_partialMode_of_mem htransaction hlogs hinternal (Table.mem_of_firstWith ha)
    obtain rfl := eq_partialMode_of_mem htransaction hlogs hinternal (Table.mem_of_firstWith hb)
    exact Option.some.inj (ha.symm.trans hb)

/-! ## The rows of different transactions -/

/-- The transaction a row belongs to, in the tables whose key holds it. -/
def rowHash : (name : TableName) → Row name → Option String
  | .transaction, row => some row.transactionHash
  | .internalTransaction, row => some row.transactionHash
  | .transactionLogs, row => some row.transactionHash
  | .nftTransfer, row => some row.transactionHash
  | .contractSupplyChange, row => some row.transactionHash
  | .pairLiquidityChange, row => some row.transactionHash
  | .block, _ => none
  | .contract, _ => none
  | .tokenContract, _ => none
  | .pairContract, _ => none

omit [ChecksumSpelling] in
theorem rowHash_eq_of_key_eq {name : TableName} {k : Key name} {a b : Row name}
    (ha : primaryKey name a = some k) (hb : primaryKey name b = some k) :
    rowHash name a = rowHash name b := by
  have hkey := ha.trans hb.symm
  cases name with
  | internalTransaction => cases ha
  | block | contract | tokenContract | pairContract => rfl
  | transaction => exact hkey
  | transactionLogs | nftTransfer =>
      exact congrArg some (Prod.mk.inj (Option.some.inj hkey)).1
  | contractSupplyChange | pairLiquidityChange =>
      exact congrArg some (Prod.mk.inj (Option.some.inj hkey)).2

theorem rowHash_of_mem_eventStatements {txHash address : String} {statement : Statement}
    (h : statement ∈ eventStatements settings txHash receipt address) :
    rowHash statement.table statement.row = some txHash := by
  unfold eventStatements at h
  split at h
  · cases h
  rcases List.mem_append.mp h with h | h
  · obtain ⟨event, _, hevent⟩ := List.mem_filterMap.mp h
    unfold nftTransferStatement at hevent
    split at hevent
    · exact Option.some.inj hevent ▸ rfl
    · cases hevent
  rcases List.mem_append.mp h with h | h
  · unfold supplyStatements at h
    split at h
    · cases h
    · split at h
      · cases h
      · exact List.mem_singleton.mp h ▸ rfl
  · unfold pairStatements at h
    split at h
    · cases h
    · exact List.mem_singleton.mp h ▸ rfl

theorem rowHash_of_mem_saveStatements
    (hlogs : ∀ log ∈ receipt.logs, log.transactionHash = tx.hash) {indices : Finset ℕ}
    {statement : Statement}
    (h : statement ∈ saveStatements node (.parse tx) (.parse receipt) indices) :
    rowHash statement.table statement.row = some tx.hash := by
  rcases List.mem_cons.mp h with rfl | h
  · rfl
  rcases List.mem_append.mp h with h | h
  · obtain ⟨txLog, htxLog, rfl⟩ := List.mem_map.mp h
    obtain ⟨log, hlog, rfl⟩ := List.mem_map.mp (List.mem_of_mem_filter htxLog)
    exact congrArg some (hlogs log hlog)
  · obtain ⟨_, _, rfl⟩ := List.mem_map.mp h
    rfl

/-- Every row a transaction writes carries its hash. -/
theorem rowHash_of_mem_modeStatements
    (hlogs : ∀ log ∈ receipt.logs, log.transactionHash = tx.hash) {statement : Statement}
    (h : statement ∈ modeStatements node settings setOrder mode tx receipt) :
    rowHash statement.table statement.row = some tx.hash := by
  cases mode with
  | full | getLogs => exact rowHash_of_mem_saveStatements hlogs h
  | partialMode =>
      rcases List.mem_append.mp h with h | h
      · obtain ⟨_, _, h⟩ := List.mem_flatMap.mp h
        exact rowHash_of_mem_eventStatements h
      · split at h
        · exact rowHash_of_mem_saveStatements hlogs h
        · cases h
  | logFilter => cases h

end Modes

/-! ## The rows of all events -/

section Events

variable [ChecksumSpelling]

/-- The node describes a transaction in one way, whatever spelling of its hash
was asked for, and the logs of a receipt carry the hash of its transaction. -/
structure CoherentNode (node : Node) : Prop where
  eq_of_hash_eq : ∀ {left right tx tx' receipt receipt'},
    node.getTransaction left = .ok tx → node.getTransactionReceipt left = .ok receipt →
    node.getTransaction right = .ok tx' → node.getTransactionReceipt right = .ok receipt' →
    tx.hash = tx'.hash → tx = tx' ∧ receipt = receipt'
  transactionHash_eq : ∀ {txHash tx receipt}, node.getTransaction txHash = .ok tx →
    node.getTransactionReceipt txHash = .ok receipt →
    ∀ log ∈ receipt.logs, log.transactionHash = tx.hash

variable {node : Node} {settings : ParserSettings} {setOrder : SetOrder}

/-- An event that writes anything is about a transaction the node knows. -/
theorem exists_of_mem_kafkaEventStatements {event : String} {statement : Statement}
    (h : statement ∈ kafkaEventStatements node settings setOrder event) :
    ∃ mode txHash tx receipt, node.getTransaction txHash = .ok tx ∧
      node.getTransactionReceipt txHash = .ok receipt ∧
      kafkaEventStatements node settings setOrder event =
        modeStatements node settings setOrder mode tx receipt := by
  unfold kafkaEventStatements at h ⊢
  cases hdecode : decodeKafkaEvent event with
  | error error => simp [hdecode] at h
  | ok decoded =>
      obtain ⟨mode, txHash⟩ := decoded
      cases htx : node.getTransaction txHash with
      | error error => simp [hdecode, htx] at h
      | ok tx =>
          cases hreceipt : node.getTransactionReceipt txHash with
          | error error => simp [hdecode, htx, hreceipt] at h
          | ok receipt => exact ⟨mode, txHash, tx, receipt, htx, hreceipt, by simp [htx, hreceipt]⟩

/-- Any two events write the same first row under a key. -/
theorem firstWith_kafkaEventStatements_eq (hnode : CoherentNode node) {event event' : String}
    {name : TableName} {k : Key name} {a b : Row name}
    (ha : Table.firstWith (primaryKey name) k
      (rowsOf name (kafkaEventStatements node settings setOrder event)) = some a)
    (hb : Table.firstWith (primaryKey name) k
      (rowsOf name (kafkaEventStatements node settings setOrder event')) = some b) :
    a = b := by
  obtain ⟨mode, txHash, tx, receipt, htx, hreceipt, hevent⟩ :=
    exists_of_mem_kafkaEventStatements (mem_rowsOf_iff.mp (Table.mem_of_firstWith ha))
  obtain ⟨mode', txHash', tx', receipt', htx', hreceipt', hevent'⟩ :=
    exists_of_mem_kafkaEventStatements (mem_rowsOf_iff.mp (Table.mem_of_firstWith hb))
  rw [hevent] at ha
  rw [hevent'] at hb
  have hhash : rowHash name a = some tx.hash :=
    rowHash_of_mem_modeStatements (hnode.transactionHash_eq htx hreceipt)
      (mem_rowsOf_iff.mp (Table.mem_of_firstWith ha))
  have hhash' : rowHash name b = some tx'.hash :=
    rowHash_of_mem_modeStatements (hnode.transactionHash_eq htx' hreceipt')
      (mem_rowsOf_iff.mp (Table.mem_of_firstWith hb))
  have heq : tx.hash = tx'.hash := by
    rw [rowHash_eq_of_key_eq (Table.key_of_firstWith ha) (Table.key_of_firstWith hb), hhash']
      at hhash
    exact (Option.some.inj hhash).symm
  obtain ⟨rfl, rfl⟩ := hnode.eq_of_hash_eq htx hreceipt htx' hreceipt' heq
  exact firstWith_modeStatements_eq ha hb

/-! ## Complete runs of a pool of consumers -/

/-- One consumer for each list of events. -/
def pool (settings : ParserSettings) (setOrder : SetOrder) (assignment : List (List String)) :
    List (ConsumerProgram DataConsumer) :=
  assignment.map (consume setOrder (DataConsumer.init settings))

/-- All consumers together issue the statements of all events. -/
theorem flatMap_calls_pool {assignment : List (List String)}
    (hwritten : ∀ events ∈ assignment,
      written node (consume setOrder (DataConsumer.init settings) events) =
        events.flatMap (kafkaEventStatements node settings setOrder)) :
    ((pool settings setOrder assignment).map (Program.calls node.answer)).flatten.flatMap
        callStatements =
      assignment.flatten.flatMap (kafkaEventStatements node settings setOrder) := by
  have hcalls : ((pool settings setOrder assignment).map (Program.calls node.answer)).flatten =
      assignment.flatMap fun events =>
        (consume setOrder (DataConsumer.init settings) events).calls node.answer := by
    rw [pool, List.map_map, List.flatMap_def]
    rfl
  calc
    _ = assignment.flatMap fun events =>
        written node (consume setOrder (DataConsumer.init settings) events) := by
      rw [hcalls, List.flatMap_assoc]
      rfl
    _ = assignment.flatMap fun events =>
        events.flatMap (kafkaEventStatements node settings setOrder) :=
      List.flatMap_congr hwritten
    _ = assignment.flatten.flatMap (kafkaEventStatements node settings setOrder) := by
      rw [← List.flatMap_id, List.flatMap_assoc]
      rfl

/-- The first row under a key in an interleaving is the first one of some event. -/
theorem exists_firstWith_of_interleaves {assignment : List (List String)} {word : List ConsumerCall}
    (hword : Interleaves ((pool settings setOrder assignment).map (Program.calls node.answer)) word)
    (hwritten : ∀ events ∈ assignment,
      written node (consume setOrder (DataConsumer.init settings) events) =
        events.flatMap (kafkaEventStatements node settings setOrder))
    {name : TableName} {k : Key name} {row : Row name}
    (hrow : Table.firstWith (primaryKey name) k (rowsOf name (word.flatMap callStatements)) =
      some row) :
    ∃ event ∈ assignment.flatten, Table.firstWith (primaryKey name) k
      (rowsOf name (kafkaEventStatements node settings setOrder event)) = some row := by
  rw [rowsOf_flatMap, Table.firstWith_flatMap] at hrow
  obtain ⟨ops, hops, hfirst⟩ := hword.findSome?_eq_some hrow
  rw [pool, List.map_map] at hops
  obtain ⟨events, hevents, rfl⟩ := List.mem_map.mp hops
  rw [← Table.firstWith_flatMap, ← rowsOf_flatMap] at hfirst
  have hfirst' : Table.firstWith (primaryKey name) k (rowsOf name
      (written node (consume setOrder (DataConsumer.init settings) events))) = some row := hfirst
  rw [hwritten events hevents, rowsOf_flatMap, Table.firstWith_flatMap] at hfirst'
  obtain ⟨event, hevent, hrow⟩ := List.exists_of_findSome?_eq_some hfirst'
  exact ⟨event, List.mem_flatten.mpr ⟨events, hevents, hevent⟩, hrow⟩

/-- A complete run executes the statements of all events in some order, and the
first row under a key is the first one of some event. -/
theorem exists_statements_of_run {assignment : List (List String)} {db db' : Database}
    {finished : List (ConsumerProgram DataConsumer)}
    (hrun : Relation.ReflTransGen (PoolStep node.answer effect)
      (pool settings setOrder assignment, db) (finished, db'))
    (hfinished : Finished finished) :
    ∃ statements : List Statement, db' = db.executeAll statements ∧
      statements.Perm
        (assignment.flatten.flatMap (kafkaEventStatements node settings setOrder)) ∧
      ∀ name k row, Table.firstWith (primaryKey name) k (rowsOf name statements) = some row →
        ∃ event ∈ assignment.flatten, Table.firstWith (primaryKey name) k
          (rowsOf name (kafkaEventStatements node settings setOrder event)) = some row := by
  obtain ⟨hreturned, word, hword, hdb⟩ := interleaves_of_poolRun hrun hfinished
  have hwritten : ∀ events ∈ assignment,
      written node (consume setOrder (DataConsumer.init settings) events) =
        events.flatMap (kafkaEventStatements node settings setOrder) := by
    intro events hevents
    obtain ⟨consumer, hconsumer⟩ := hreturned _ (List.mem_map_of_mem hevents)
    exact (consume_of_returned (by intro _ _ h; cases h) hconsumer).written
  refine ⟨word.flatMap callStatements, ?_, ?_, fun _ _ _ => exists_firstWith_of_interleaves hword
    hwritten⟩
  · rw [hdb, foldl_effect]
  · rw [← flatMap_calls_pool hwritten]
    exact hword.perm_flatten.flatMap_right _

/-- Complete runs over the same events leave the same rows in every table, for
any number of consumers, any distribution of the events over them and any
interleaving of their statements. -/
theorem final_tables_same (hnode : CoherentNode node) {left right : List (List String)}
    (hevents : left.flatten.Perm right.flatten) {db leftDb rightDb : Database}
    {leftFinished rightFinished : List (ConsumerProgram DataConsumer)}
    (hleft : Relation.ReflTransGen (PoolStep node.answer effect)
      (pool settings setOrder left, db) (leftFinished, leftDb))
    (hleftFinished : Finished leftFinished)
    (hright : Relation.ReflTransGen (PoolStep node.answer effect)
      (pool settings setOrder right, db) (rightFinished, rightDb))
    (hrightFinished : Finished rightFinished) :
    leftDb.Same rightDb := by
  obtain ⟨leftStatements, rfl, hleftPerm, hleftFirst⟩ :=
    exists_statements_of_run hleft hleftFinished
  obtain ⟨rightStatements, rfl, hrightPerm, hrightFirst⟩ :=
    exists_statements_of_run hright hrightFinished
  refine Database.executeAll_same_of_perm db
    (hleftPerm.trans ((hevents.flatMap_right _).trans hrightPerm.symm)) ?_
  intro name k a b ha hb
  obtain ⟨_, _, haFirst⟩ := hleftFirst name k a ha
  obtain ⟨_, _, hbFirst⟩ := hrightFirst name k b hb
  exact firstWith_kafkaEventStatements_eq hnode haFirst hbFirst

end Events

section Deployment

open Deployment

/-- Every hash asked for is that of one transaction with two logs. -/
def eventNode : Node :=
  { node with
    getTransaction := fun _ => .ok (transaction (some holder))
    getTransactionReceipt := fun _ => .ok mixedReceipt }

theorem coherent_eventNode : CoherentNode eventNode where
  eq_of_hash_eq := by
    intro _ _ tx tx' receipt receipt' htx hreceipt htx' hreceipt' _
    exact ⟨Except.ok.inj (htx.symm.trans htx'), Except.ok.inj (hreceipt.symm.trans hreceipt')⟩
  transactionHash_eq := by
    intro _ tx receipt htx hreceipt
    obtain rfl := Except.ok.inj htx
    obtain rfl := Except.ok.inj hreceipt
    decide

/-- The same transaction in two modes: two consumers, or one in the other order. -/
theorem final_tables_same_of_two_modes : ∃ leftFinished leftDb rightFinished rightDb,
    Relation.ReflTransGen (PoolStep eventNode.answer effect)
      (pool parser.settings setOrder [["full:0x01"], ["partial:0x01"]], Database.empty)
      (leftFinished, leftDb) ∧ Finished leftFinished ∧
    Relation.ReflTransGen (PoolStep eventNode.answer effect)
      (pool parser.settings setOrder [["partial:0x01", "full:0x01"]], Database.empty)
      (rightFinished, rightDb) ∧ Finished rightFinished ∧ leftDb.Same rightDb := by
  have hleft : ∀ program ∈ pool parser.settings setOrder [["full:0x01"], ["partial:0x01"]],
      ∃ value, program.outcome eventNode.answer = .returned value := by
    simp only [pool, List.map_cons, List.map_nil, List.forall_mem_cons]
    exact ⟨⟨_, rfl⟩, ⟨_, rfl⟩, by simp⟩
  have hright : ∀ program ∈ pool parser.settings setOrder [["partial:0x01", "full:0x01"]],
      ∃ value, program.outcome eventNode.answer = .returned value := by
    simp only [pool, List.map_cons, List.map_nil, List.forall_mem_cons]
    exact ⟨⟨_, rfl⟩, by simp⟩
  obtain ⟨leftFinished, leftDb, hleftRun, hleftFinished⟩ := exists_poolRun hleft Database.empty
  obtain ⟨rightFinished, rightDb, hrightRun, hrightFinished⟩ :=
    exists_poolRun hright Database.empty
  exact ⟨leftFinished, leftDb, rightFinished, rightDb, hleftRun, hleftFinished, hrightRun,
    hrightFinished, final_tables_same coherent_eventNode (by decide) hleftRun hleftFinished
      hrightRun hrightFinished⟩

end Deployment

end BlockchainDataCollection.Confluence
