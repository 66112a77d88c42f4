import BlockchainDataCollection.Consumer.Completeness
import BlockchainDataCollection.Consumer.Consuming
import BlockchainDataCollection.Consumer.Soundness

/-!
# Contract creations

`_handle_contract_creation` asks two category predicates that never hold, so
that no statement ever writes a contract, a token or a pair.  A creation is
recorded afterwards exactly when it was recorded before.
-/

namespace BlockchainDataCollection.Creation

open BlockchainDataCollection.Effect
open BlockchainDataCollection.Python
open BlockchainDataCollection.Data
open BlockchainDataCollection.Parser
open BlockchainDataCollection.Storage
open BlockchainDataCollection.TxProcessor
open BlockchainDataCollection.Processing
open BlockchainDataCollection.Saving
open BlockchainDataCollection.Relevance
open BlockchainDataCollection.Completeness
open BlockchainDataCollection.Soundness
open BlockchainDataCollection.Consuming
open ChecksumSpelling

/-! ## Recorded contracts -/

/-- The tables that a creation should write. -/
def contractTables : List TableName := [.contract, .tokenContract, .pairContract]

/-- The contract has its row, and the row its category calls for. -/
def Recorded (db : Database) (address : String) (category : ContractCategory) : Prop :=
  (∃ row ∈ (db.table .contract).rows, row.address = address) ∧
    if category = .uniSwapV2Pair then ∃ row ∈ (db.table .pairContract).rows, row.address = address
    else ∃ row ∈ (db.table .tokenContract).rows, row.address = address

/-- Every token and every pair has its contract row. -/
structure ContractsJoined (db : Database) : Prop where
  tokenContract : ∀ row ∈ (db.table .tokenContract).rows,
    ∃ contract ∈ (db.table .contract).rows, contract.address = row.address
  pairContract : ∀ row ∈ (db.table .pairContract).rows,
    ∃ contract ∈ (db.table .contract).rows, contract.address = row.address

theorem recorded_congr {left right : Database} (h : ∀ name ∈ contractTables,
    left.table name = right.table name) (address : String) (category : ContractCategory) :
    Recorded left address category ↔ Recorded right address category := by
  rw [Recorded, Recorded, h .contract (by decide), h .tokenContract (by decide),
    h .pairContract (by decide)]

/-! ## Runs -/

section Runs

variable [ChecksumSpelling]

/-- The states of all runs from empty tables, in any modes: every call may
fail, and the last transaction may still be in progress. -/
inductive Reached (settings : ParserSettings) : ContractParser → Database → Prop
  | start : Reached settings ⟨settings, ∅⟩ Database.empty
  | next {parser db} (mode : DataCollectionMode) (job : Job) {events outcome} :
      Reached settings parser db →
      Program.Runs (processTransaction job.setOrder mode parser job.tx job.receipt) events
        outcome →
      Reached settings (parserAfter parser outcome) (events.foldl applyEvent db)

end Runs

section Processors

variable [ChecksumSpelling] {node : Node} {settings : ParserSettings} {setOrder : SetOrder}
  {tx : TxData} {receipt : TxReceipt} {parser : ContractParser} {db : Database}

/-! ## One creation -/

theorem table_partialStatements {name : TableName} (hname : name ∈ contractTables) :
    (db.executeAll (partialStatements node settings setOrder tx receipt)).table name =
      db.table name := by
  have hdisjoint : ∀ name ∈ contractTables, name ∉ eventTables := by decide
  have hrows : rowsOf name (partialStatements node settings setOrder tx receipt) = [] := by
    rw [partialStatements, rowsOf_append, rowsOf_decisionStatements_eq_nil (hdisjoint name hname),
      List.nil_append]
    split
    · apply rowsOf_saveStatements_eq_nil <;> rintro rfl <;> simp [contractTables] at hname
    · rfl
  rw [Database.table_executeAll, hrows]
  rfl

/-! ## All reachable states -/

/-- No statement of any run writes one of the three tables. -/
def SparesContracts (statement : Statement) : Prop :=
  statement.table ∉ contractTables

theorem sparesContracts_of_mem_eventStatements {txHash address : String} {statement : Statement}
    (h : statement ∈ eventStatements settings txHash receipt address) :
    SparesContracts statement := by
  have hdisjoint : ∀ name ∈ eventTables, name ∉ contractTables := by decide
  exact hdisjoint _ (table_of_mem_eventStatements h)

theorem sparesContracts_of_mem_logStatements {indices : Finset ℕ} {statement : Statement}
    (h : statement ∈ logStatements (.parse receipt) indices) : SparesContracts statement := by
  obtain ⟨_, _, rfl⟩ := List.mem_map.mp h
  exact (by decide : TableName.transactionLogs ∉ contractTables)

theorem ensures_sparesContracts (hparser : parser.Consistent) (mode : DataCollectionMode) :
    (processTransaction setOrder mode parser tx receipt).Ensures (Writes SparesContracts)
      fun result => result.2.settings = parser.settings ∧ result.2.Consistent := by
  have htransaction : ∀ row, SparesContracts (insertTransaction row) := fun _ =>
    (by decide : TableName.transaction ∉ contractTables)
  have hinternal : ∀ row, SparesContracts (insertInternalTransaction row) := fun _ =>
    (by decide : TableName.internalTransaction ∉ contractTables)
  cases mode with
  | full | getLogs =>
      have hfull : (FullTransactionProcessor.processTransaction (.parse tx)
          (.parse receipt)).Ensures (Writes SparesContracts) fun _ => True :=
        Program.ensures_bind (ensures_handleTransaction (htransaction _)
          (fun _ => sparesContracts_of_mem_logStatements) hinternal)
          fun _ _ => Program.ensures_done trivial
      exact Program.ensures_bind hfull fun _ _ => Program.ensures_done ⟨rfl, hparser⟩
  | partialMode =>
      refine ensures_processTransaction hparser (fun statement h => ?_) htransaction
        (fun _ => sparesContracts_of_mem_logStatements) hinternal
      obtain ⟨_, _, hevent⟩ := List.mem_flatMap.mp h
      exact sparesContracts_of_mem_eventStatements hevent
  | logFilter => exact Program.ensures_raise _

theorem table_foldl_applyEvent {events : List (Program.Event consumerSignature PyError)}
    (hevents : ∀ event ∈ events, Writes SparesContracts event) (db : Database) {name : TableName}
    (hname : name ∈ contractTables) : (events.foldl applyEvent db).table name = db.table name := by
  induction events generalizing db with
  | nil => rfl
  | cons event events ih =>
      rw [List.foldl_cons, ih fun other hother => hevents other (List.mem_cons_of_mem _ hother)]
      unfold applyEvent
      split
      · have hrows : rowsOf name (callStatements event.op) = [] := by
          refine rowsOf_eq_nil fun statement hstatement htable => ?_
          exact hevents event List.mem_cons_self statement hstatement (htable ▸ hname)
        rw [effect, Database.table_executeAll, hrows]
        rfl
      · rfl

/-- The three tables are empty in every reachable state. -/
theorem table_of_reached (h : Reached settings parser db) :
    (parser.settings = settings ∧ parser.Consistent) ∧
      ∀ name ∈ contractTables, db.table name = Database.empty.table name := by
  induction h with
  | start => exact ⟨⟨rfl, fun _ _ hcached => by cases hcached⟩, fun _ _ => rfl⟩
  | @next parser db mode job events outcome _ hruns ih =>
      obtain ⟨⟨rfl, hparser⟩, htables⟩ := ih
      obtain ⟨hevents, hresult⟩ := ensures_sparesContracts hparser mode events outcome hruns
      refine ⟨?_, fun name hname => ?_⟩
      · cases outcome with
        | returned result => exact hresult result rfl
        | raised error => exact ⟨rfl, hparser⟩
        | running => exact ⟨rfl, hparser⟩
      · rw [table_foldl_applyEvent hevents db hname, htables name hname]

theorem contractsJoined_of_reached (h : Reached settings parser db) : ContractsJoined db := by
  obtain ⟨_, htables⟩ := table_of_reached h
  constructor
  · rw [htables .tokenContract (by decide)]
    simp [Database.empty, KeyedTable.Table.empty]
  · rw [htables .pairContract (by decide)]
    simp [Database.empty, KeyedTable.Table.empty]

/-- Processing a transaction returns, with a contract recorded, exactly when its
calls succeed and the contract was recorded before, whatever contract it
creates; and in every reachable state the tokens and pairs have their contract
rows. -/
theorem creation_recorded_iff (hparser : parser.Consistent) (setOrder : SetOrder) (tx : TxData)
    (receipt : TxReceipt) (db : Database) (contractAddress : ChecksumAddress)
    (category : ContractCategory) :
    ((∃ result db', process node (PartialTransactionProcessor.processTransaction setOrder parser
            (.parse tx) (.parse receipt) receipt) db = (.returned result, db') ∧
          Recorded db' contractAddress.val category) ↔
        Succeeds node parser.settings setOrder tx receipt ∧
          Recorded db contractAddress.val category) ∧
      ∀ parser' db', Reached parser.settings parser' db' → ContractsJoined db' := by
  refine ⟨?_, fun _ _ => contractsJoined_of_reached⟩
  have hrecorded : Recorded (db.executeAll (partialStatements node parser.settings setOrder tx
      receipt)) contractAddress.val category ↔ Recorded db contractAddress.val category :=
    recorded_congr (fun _ => table_partialStatements) _ _
  constructor
  · rintro ⟨result, db', hrun, hafter⟩
    have hreturned := outcome_of_process hrun
    have hperforms := (partial_of_returned hparser hreturned).2.2.2
    rw [hperforms.process] at hrun
    obtain ⟨_, rfl⟩ := Prod.mk.inj hrun
    exact ⟨succeeds_of_returned hparser hreturned, hrecorded.mp hafter⟩
  · rintro ⟨hsucceeds, hbefore⟩
    obtain ⟨parser', _, _, hperforms⟩ := partial_performs hparser hsucceeds
    exact ⟨_, _, hperforms.process db, hrecorded.mpr hbefore⟩

end Processors

section Deployment

open Deployment

/-- A contract row and a token row, written by hand. -/
def recordedDatabase : Database :=
  Database.empty.executeAll
    [.insert .contract ⟨coin.val, txHash, false⟩,
      insertTokenContract ⟨coin.val, some "COIN", some "Coin", some 18, some 1000, "erc20"⟩]

theorem creation_recorded_iff_of_coin :
    (∃ result db', process node (PartialTransactionProcessor.processTransaction setOrder parser
          (.parse (transaction none)) (.parse (creationReceipt coin)) (creationReceipt coin))
          recordedDatabase = (.returned result, db') ∧
        Recorded db' coin.val .erc20) ↔
      Succeeds node parser.settings setOrder (transaction none) (creationReceipt coin) ∧
        Recorded recordedDatabase coin.val .erc20 :=
  (creation_recorded_iff parser_consistent _ _ _ _ _ _).1

/-- The creation of a configured ERC20 contract is processed and leaves no row. -/
theorem creation_not_recorded :
    (transaction none).toAddress = none ∧ (creationReceipt coin).contractAddress = some coin ∧
      (parser.settings.config coin.val).map ContractConfig.category = some .erc20 ∧
      (∃ parser', (process node (PartialTransactionProcessor.processTransaction setOrder parser
        (.parse (transaction none)) (.parse (creationReceipt coin)) (creationReceipt coin))
        Database.empty).1 = .returned (true, parser')) ∧
      ¬ Recorded (process node (PartialTransactionProcessor.processTransaction setOrder parser
        (.parse (transaction none)) (.parse (creationReceipt coin)) (creationReceipt coin))
        Database.empty).2 coin.val .erc20 := by
  refine ⟨rfl, rfl, rfl, ⟨_, rfl⟩, ?_⟩
  rintro ⟨⟨row, hrow, _⟩, _⟩
  have hempty : ((process node (PartialTransactionProcessor.processTransaction setOrder parser
      (.parse (transaction none)) (.parse (creationReceipt coin)) (creationReceipt coin))
      Database.empty).2.table .contract).rows = [] := by decide
  rw [hempty] at hrow
  cases hrow

end Deployment

end BlockchainDataCollection.Creation
