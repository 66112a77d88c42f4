import BlockchainDataCollection.Consumer.Completeness

/-!
# Nothing irrelevant is stored

Mode `partial` runs here against any node and any database, which may fail at
every call, and is observed after any number of calls.  Every statement it has
issued by then is sound on its own, so the tables only ever hold sound rows.
-/

namespace BlockchainDataCollection.Soundness

open BlockchainDataCollection.Effect
open BlockchainDataCollection.Python
open BlockchainDataCollection.Data
open BlockchainDataCollection.Events
open BlockchainDataCollection.KeyedTable
open BlockchainDataCollection.Parser
open BlockchainDataCollection.Storage
open BlockchainDataCollection.TxProcessor
open BlockchainDataCollection.Processing
open BlockchainDataCollection.Saving
open BlockchainDataCollection.Relevance
open BlockchainDataCollection.Completeness
open ChecksumSpelling

/-! ## The statements of any run -/

section Writes

variable [ChecksumSpelling]

/-- Every statement of the event's call is good. -/
def Writes (good : Statement → Prop) (event : Program.Event consumerSignature PyError) : Prop :=
  ∀ statement ∈ callStatements event.op, good statement

variable {A B : Type} {good : Statement → Prop}

theorem ensures_execute {statements : List Statement}
    (h : ∀ statement ∈ statements, good statement) :
    (execute statements).Ensures (Writes good) fun _ => True :=
  Program.ensures_perform (fun _ => h) fun _ => trivial

theorem ensures_writeEach (value : A) {statements : List Statement}
    (h : ∀ statement ∈ statements, good statement) :
    (writeEach value statements).Ensures (Writes good) (· = value) := by
  induction statements with
  | nil => exact Program.ensures_done rfl
  | cons statement statements ih =>
      refine Program.ensures_bind (ensures_execute ?_) fun _ _ =>
        ih fun other hother => h other (List.mem_cons_of_mem _ hother)
      simpa using h statement List.mem_cons_self

theorem ensures_getInternalTransactions (txHash : String) :
    (getInternalTransactions txHash).Ensures (Writes good) fun _ => True := by
  refine Program.ensures_bind (Program.ensures_perform ?_ fun _ => trivial) fun data _ =>
    Program.ensures_ofExcept fun _ _ => trivial
  intro answer statement hstatement
  cases hstatement

theorem ensures_handleTransaction {txData : TransactionData}
    {txReceiptData : TransactionReceiptData} {indices : Finset ℕ}
    (htransaction : good (insertTransaction (transactionRow txData txReceiptData)))
    (hlogs : ∀ statement ∈ logStatements txReceiptData indices, good statement)
    (hinternal : ∀ row, good (insertInternalTransaction row)) :
    (handleTransaction txData txReceiptData indices).Ensures (Writes good) fun _ => True := by
  refine Program.ensures_bind (ensures_execute (by simpa using htransaction)) fun _ _ => ?_
  refine Program.ensures_bind (ensures_execute hlogs) fun _ _ => ?_
  refine Program.ensures_bind (ensures_getInternalTransactions _) fun internalTxData _ => ?_
  split
  · exact Program.ensures_done trivial
  · refine ensures_execute fun statement hstatement => ?_
    obtain ⟨internalTx, _, rfl⟩ := List.mem_map.mp hstatement
    exact hinternal _

theorem ensures_handleTransactionEvents {settings : ParserSettings} {address : String}
    {config : ContractConfig} (hconfig : settings.config address = some config)
    (txData : TransactionData) {receipt : TxReceipt}
    (h : ∀ statement ∈ eventStatements settings txData.transactionHash receipt address,
      good statement) :
    (handleTransactionEvents settings ⟨address, settings.getContractAbi config.category⟩
      config.category txData receipt).Ensures (Writes good)
      (· = eventIndices settings receipt address) := by
  rw [handleTransactionEvents_eq hconfig]
  exact ensures_writeEach _ h

/-- Building a contract leaves the settings alone and the cache consistent. -/
theorem contract_of_getContract_ok {parser : ContractParser} (hparser : parser.Consistent)
    (address : ChecksumAddress) {config : ContractConfig}
    (hconfig : parser.settings.config address.val = some config)
    {result : Contract × ContractParser}
    (hresult : parser.getContract address.val config.category = .ok result) :
    result.1 = ⟨address.val, parser.settings.getContractAbi config.category⟩ ∧
      result.2.settings = parser.settings ∧ result.2.Consistent := by
  obtain ⟨parser', hsettings, hconsistent, hcontract⟩ := getContract_performs hparser address
    hconfig (buildable_of_getContract_ok hparser address hconfig hresult)
  obtain rfl := Except.ok.inj (hresult.symm.trans hcontract)
  exact ⟨rfl, hsettings, hconsistent⟩

theorem ensures_getContract {parser : ContractParser} (hparser : parser.Consistent)
    (address : ChecksumAddress) {config : ContractConfig}
    (hconfig : parser.settings.config address.val = some config) :
    (Program.ofExcept (parser.getContract address.val config.category) :
      ConsumerProgram _).Ensures (Writes good) fun result =>
        result.1 = ⟨address.val, parser.settings.getContractAbi config.category⟩ ∧
          result.2.settings = parser.settings ∧ result.2.Consistent :=
  Program.ensures_ofExcept fun _ => contract_of_getContract_ok hparser address hconfig

theorem ensures_handleEventAddresses {txData : TransactionData} {receipt : TxReceipt}
    {addresses : List String} {parser : ContractParser} (indices : Finset ℕ)
    (haddresses : ∀ address ∈ addresses, isChecksumAddress address) (hparser : parser.Consistent)
    (h : ∀ address ∈ addresses, ∀ statement ∈
      eventStatements parser.settings txData.transactionHash receipt address, good statement) :
    (PartialTransactionProcessor.handleEventAddresses txData receipt addresses parser
      indices).Ensures (Writes good) fun result =>
        result.1 = indices ∪ unionIndices parser.settings receipt addresses ∧
          result.2.settings = parser.settings ∧ result.2.Consistent := by
  induction addresses generalizing parser indices with
  | nil => exact Program.ensures_done ⟨by simp, rfl, hparser⟩
  | cons address addresses ih =>
      have htail : ∀ other ∈ addresses, isChecksumAddress other := fun other hother =>
        haddresses other (List.mem_cons_of_mem _ hother)
      have hgood : ∀ other ∈ addresses, ∀ statement ∈
          eventStatements parser.settings txData.transactionHash receipt other,
          good statement := fun other hother => h other (List.mem_cons_of_mem _ hother)
      cases hcategory : parser.settings.getContractCategory address with
      | none =>
          have hindices : eventIndices parser.settings receipt address = ∅ := by
            simp [eventIndices, getContractCategory_eq_none hcategory]
          simp only [PartialTransactionProcessor.handleEventAddresses, hcategory]
          rw [unionIndices_cons, hindices, Finset.empty_union]
          exact ih indices htail hparser hgood
      | some category =>
          obtain ⟨config, hconfig, rfl⟩ := getContractCategory_eq_some hcategory
          simp only [PartialTransactionProcessor.handleEventAddresses, hcategory]
          refine Program.ensures_bind (ensures_getContract hparser
            ⟨address, haddresses address List.mem_cons_self⟩ hconfig) ?_
          rintro ⟨contract, parser₁⟩ ⟨rfl, hsettings, hconsistent⟩
          rw [hsettings]
          refine Program.ensures_bind (ensures_handleTransactionEvents hconfig txData
            (h address List.mem_cons_self)) ?_
          rintro _ rfl
          have hrest := ih (indices ∪ eventIndices parser.settings receipt address) htail
            hconsistent (hsettings ▸ hgood)
          rw [hsettings, Finset.union_assoc, ← unionIndices_cons] at hrest
          exact hrest

variable {parser : ContractParser} {setOrder : SetOrder} {tx : TxData} {receipt : TxReceipt}

theorem ensures_decideSave (hparser : parser.Consistent)
    (h : ∀ statement ∈ decisionStatements parser.settings setOrder tx receipt, good statement) :
    (PartialTransactionProcessor.decideSave setOrder parser (.parse tx) (.parse receipt)
      receipt).Ensures (Writes good) fun result =>
        result.1.2 = savedIndices parser.settings setOrder tx receipt ∧
          result.2.settings = parser.settings ∧ result.2.Consistent := by
  rw [decideSave_eq]
  refine Program.ensures_bind (ensures_handleEventAddresses ∅
    (fun _ => isChecksumAddress_of_mem_handledAddresses) hparser
    fun address haddress statement hstatement =>
      h statement (List.mem_flatMap.mpr ⟨address, haddress, hstatement⟩)) ?_
  rintro ⟨indices, parser'⟩ ⟨rfl, hsettings, hconsistent⟩
  exact Program.ensures_done ⟨Finset.empty_union _, hsettings, hconsistent⟩

theorem ensures_processTransaction (hparser : parser.Consistent)
    (hdecision : ∀ statement ∈ decisionStatements parser.settings setOrder tx receipt,
      good statement)
    (htransaction : ∀ row, good (insertTransaction row))
    (hlogs : ∀ statement ∈ logStatements (.parse receipt)
      (savedIndices parser.settings setOrder tx receipt), good statement)
    (hinternal : ∀ row, good (insertInternalTransaction row)) :
    (PartialTransactionProcessor.processTransaction setOrder parser (.parse tx) (.parse receipt)
      receipt).Ensures (Writes good) fun result =>
        result.2.settings = parser.settings ∧ result.2.Consistent := by
  refine Program.ensures_bind (ensures_decideSave hparser hdecision) ?_
  rintro ⟨⟨save, indices⟩, parser'⟩ ⟨rfl, hsettings, hconsistent⟩
  cases save with
  | false => exact Program.ensures_done ⟨hsettings, hconsistent⟩
  | true =>
      exact Program.ensures_bind
        (ensures_handleTransaction (htransaction _) hlogs hinternal)
        fun _ _ => Program.ensures_done ⟨hsettings, hconsistent⟩

end Writes

/-! ## Sound rows -/

section Sound

variable [ChecksumSpelling]

/-- `row` records the transfer that `log`, emitted by a configured ERC721
contract which allows the event, decodes to. -/
def IsNftTransfer (settings : ParserSettings) (log : LogReceipt) (row : NftTransferRow) : Prop :=
  ∃ config args, settings.config log.address.val = some config ∧ config.category = .erc721 ∧
    "TransferNonFungibleEvent" ∈ config.events ∧
    settings.w3.decodeLog (some settings.contractAbi.erc721) .erc721Transfer log = some args ∧
    row.address = log.address.val ∧ row.logIndex = log.logIndex ∧ row.tokenId = args.tokenId

/-- What a statement may write for a receipt. -/
def SoundStatement (settings : ParserSettings) (receipt : TxReceipt) (statement : Statement) :
    Prop :=
  (∀ row, statement = .insert .transactionLogs row →
    ∃ log ∈ receipt.logs, RelevantLog settings log ∧ row = logRow log) ∧
  ∀ row, statement = .insert .nftTransfer row →
    ∃ log ∈ receipt.logs, IsNftTransfer settings log row

variable {settings : ParserSettings} {receipt : TxReceipt}

theorem soundStatement_of_table_ne {statement : Statement}
    (hlogs : statement.table ≠ .transactionLogs) (hnft : statement.table ≠ .nftTransfer) :
    SoundStatement settings receipt statement := by
  constructor
  · rintro row rfl
    exact absurd rfl hlogs
  · rintro row rfl
    exact absurd rfl hnft

theorem isNftTransfer_of_recordedTransfer {txHash : String} {log : LogReceipt}
    {args : TokenTransferArgs} (h : recordedTransfer settings log = some args) :
    IsNftTransfer settings log (nftTransferRow txHash log args) := by
  obtain ⟨config, hconfig, hcategory, hallowed, hargs⟩ := recordedTransfer_eq_some_iff.mp h
  exact ⟨config, args, hconfig, hcategory, hallowed, hargs, rfl, rfl, rfl⟩

theorem soundStatement_of_mem_eventStatements {txHash address : String} {statement : Statement}
    (h : statement ∈ eventStatements settings txHash receipt address) :
    SoundStatement settings receipt statement := by
  constructor
  · rintro row rfl
    exact absurd (table_of_mem_eventStatements h)
      (by decide : TableName.transactionLogs ∉ eventTables)
  · rintro row rfl
    obtain ⟨log, hlog, _, args, hargs, rfl⟩ :=
      mem_nftTransfer_eventStatements_iff.mp (mem_rowsOf_iff.mpr h)
    exact ⟨log, hlog, isNftTransfer_of_recordedTransfer hargs⟩

theorem soundStatement_of_mem_logStatements (hindices : DistinctIndices receipt)
    {addresses : List String} {statement : Statement}
    (h : statement ∈ logStatements (.parse receipt) (unionIndices settings receipt addresses)) :
    SoundStatement settings receipt statement := by
  obtain ⟨txLog, htxLog, rfl⟩ := List.mem_map.mp h
  obtain ⟨hmem, hindex⟩ := List.mem_filter.mp htxLog
  obtain ⟨log, hlog, rfl⟩ := List.mem_map.mp hmem
  have hrelevant := (logIndex_mem_unionIndices_iff hindices hlog).mp (of_decide_eq_true hindex)
  constructor
  · intro row hrow
    exact ⟨log, hlog, hrelevant.2, (Statement.insert_inj.mp hrow).symm⟩
  · intro row hrow
    cases congrArg Statement.table hrow

/-- Whatever the node and the database answer, the statements are sound. -/
theorem ensures_soundStatement {parser : ContractParser} (hparser : parser.Consistent)
    (setOrder : SetOrder) (tx : TxData) (hindices : DistinctIndices receipt) :
    (PartialTransactionProcessor.processTransaction setOrder parser (.parse tx) (.parse receipt)
      receipt).Ensures (Writes (SoundStatement parser.settings receipt)) fun result =>
        result.2.settings = parser.settings ∧ result.2.Consistent := by
  refine ensures_processTransaction hparser ?_ (fun _ => ?_)
    (fun _ => soundStatement_of_mem_logStatements hindices) fun _ => ?_
  · intro statement hstatement
    obtain ⟨address, _, hmem⟩ := List.mem_flatMap.mp hstatement
    exact soundStatement_of_mem_eventStatements hmem
  · exact soundStatement_of_table_ne TableName.noConfusion TableName.noConfusion
  · exact soundStatement_of_table_ne TableName.noConfusion TableName.noConfusion

end Sound

/-! ## Sequences of transactions -/

section Sequences

variable [ChecksumSpelling]

/-- A call that fails is rolled back. -/
def applyEvent (db : Database) (event : Program.Event consumerSignature PyError) : Database :=
  match event.answer with
  | .ok _ => effect event.op db
  | .error _ => db

/-- A transaction handed to the processor, with the iteration order of its set. -/
structure Job where
  setOrder : SetOrder
  tx : TxData
  receipt : TxReceipt

/-- The contract cache the next transaction finds. -/
def parserAfter (parser : ContractParser) :
    Outcome PyError (Bool × ContractParser) → ContractParser
  | .returned (_, parser') => parser'
  | .raised _ => parser
  | .running => parser

/-- The states of all runs over sequences of transactions from empty tables.
Every call may fail, and the last transaction may still be in progress. -/
inductive Processed (settings : ParserSettings) :
    ContractParser → List Job → Database → Prop
  | start : Processed settings ⟨settings, ∅⟩ [] Database.empty
  | next {parser jobs db} (job : Job) {events outcome} :
      Processed settings parser jobs db →
      DistinctIndices job.receipt →
      Program.Runs (PartialTransactionProcessor.processTransaction job.setOrder parser
        (.parse job.tx) (.parse job.receipt) job.receipt) events outcome →
      Processed settings (parserAfter parser outcome) (job :: jobs) (events.foldl applyEvent db)

theorem foldl_applyEvent_history {A : Type} (node : Node) (program : ConsumerProgram A)
    (db : Database) :
    (program.history node.answer).foldl applyEvent db = (process node program db).2 := by
  induction program generalizing db with
  | done value => rfl
  | raise error => rfl
  | suspended => rfl
  | call op next ih =>
      have hstep : applyEvent db ⟨op, node.answer op⟩ = effect op db := by
        unfold applyEvent
        cases op with
        | execute statements => rfl
        | getTransaction | getTransactionReceipt | traceReplayTransaction | callText | callInt =>
            split <;> rfl
      rw [Program.history, List.foldl_cons, hstep]
      exact ih _ _

/-- Every row of the two tables is sound for one of the receipts. -/
structure SoundTables (settings : ParserSettings) (jobs : List Job) (db : Database) : Prop where
  transactionLogs : ∀ row ∈ (db.table .transactionLogs).rows,
    ∃ job ∈ jobs, ∃ log ∈ job.receipt.logs, RelevantLog settings log ∧ row = logRow log
  nftTransfer : ∀ row ∈ (db.table .nftTransfer).rows,
    ∃ job ∈ jobs, ∃ log ∈ job.receipt.logs, IsNftTransfer settings log row

variable {settings : ParserSettings} {jobs : List Job} {db : Database}

theorem SoundTables.executeAll (h : SoundTables settings jobs db) {job : Job} (hjob : job ∈ jobs)
    {statements : List Statement}
    (hstatements : ∀ statement ∈ statements, SoundStatement settings job.receipt statement) :
    SoundTables settings jobs (db.executeAll statements) := by
  constructor
  · intro row hrow
    rw [Database.table_executeAll] at hrow
    rcases Table.mem_of_mem_insertAll hrow with hrow | hrow
    · exact h.transactionLogs row hrow
    · exact ⟨job, hjob, (hstatements _ (mem_rowsOf_iff.mp hrow)).1 row rfl⟩
  · intro row hrow
    rw [Database.table_executeAll] at hrow
    rcases Table.mem_of_mem_insertAll hrow with hrow | hrow
    · exact h.nftTransfer row hrow
    · exact ⟨job, hjob, (hstatements _ (mem_rowsOf_iff.mp hrow)).2 row rfl⟩

theorem SoundTables.foldl_applyEvent (h : SoundTables settings jobs db) {job : Job}
    (hjob : job ∈ jobs) {events : List (Program.Event consumerSignature PyError)}
    (hevents : ∀ event ∈ events, Writes (SoundStatement settings job.receipt) event) :
    SoundTables settings jobs (events.foldl applyEvent db) := by
  induction events generalizing db with
  | nil => exact h
  | cons event events ih =>
      refine ih ?_ fun other hother => hevents other (List.mem_cons_of_mem _ hother)
      unfold applyEvent
      split
      · exact h.executeAll hjob (hevents event List.mem_cons_self)
      · exact h

theorem SoundTables.cons (h : SoundTables settings jobs db) (job : Job) :
    SoundTables settings (job :: jobs) db := by
  constructor
  · intro row hrow
    obtain ⟨other, hother, hlog⟩ := h.transactionLogs row hrow
    exact ⟨other, List.mem_cons_of_mem _ hother, hlog⟩
  · intro row hrow
    obtain ⟨other, hother, hlog⟩ := h.nftTransfer row hrow
    exact ⟨other, List.mem_cons_of_mem _ hother, hlog⟩

variable {parser : ContractParser}

/-- One more transaction keeps the settings, the cache and the tables sound. -/
theorem soundTables_of_processed (h : Processed settings parser jobs db) :
    parser.settings = settings ∧ parser.Consistent ∧ SoundTables settings jobs db := by
  induction h with
  | start =>
      refine ⟨rfl, ?_, ⟨?_, ?_⟩⟩
      · intro addressLower contract hcached
        cases hcached
      · intro row hrow
        cases hrow
      · intro row hrow
        cases hrow
  | @next parser jobs db job events outcome _ hindices hrun ih =>
      obtain ⟨rfl, hparser, htables⟩ := ih
      obtain ⟨hevents, hpost⟩ := ensures_soundStatement hparser job.setOrder job.tx hindices
        events outcome hrun
      refine ⟨?_, ?_, (htables.cons job).foldl_applyEvent List.mem_cons_self hevents⟩
      · cases outcome with
        | returned result => exact (hpost result rfl).1
        | raised error => rfl
        | running => rfl
      · cases outcome with
        | returned result => exact (hpost result rfl).2
        | raised error => exact hparser
        | running => exact hparser

theorem distinctIndices_of_processed (h : Processed settings parser jobs db) :
    ∀ job ∈ jobs, DistinctIndices job.receipt := by
  induction h with
  | start => simp
  | next job _ hindices _ ih => simpa using ⟨hindices, ih⟩

/-- Handling the events of a configured contract in a receipt returns `indices`. -/
def HandledUnder (settings : ParserSettings) (job : Job) (address : String)
    (indices : Finset ℕ) : Prop :=
  ∃ config events, settings.config address = some config ∧
    Program.Runs (handleTransactionEvents settings
      ⟨address, settings.getContractAbi config.category⟩ config.category (.parse job.tx)
      job.receipt) events (.returned indices)

theorem eq_eventIndices_of_handledUnder {job : Job} {address : String} {indices : Finset ℕ}
    (h : HandledUnder settings job address indices) :
    indices = eventIndices settings job.receipt address := by
  obtain ⟨config, events, hconfig, hrun⟩ := h
  have hensures := ensures_handleTransactionEvents hconfig (.parse job.tx)
    (fun _ _ => trivial : ∀ statement ∈ eventStatements settings job.tx.hash job.receipt address,
      (fun _ => True) statement)
  exact (hensures events _ hrun).2 indices rfl

/-- Every stored log and token transfer is one of a configured contract that
allows it, and no log is handled under two contracts. -/
theorem stored_rows_sound (h : Processed settings parser jobs db) :
    (∀ row ∈ (db.table .transactionLogs).rows, ∃ job ∈ jobs, ∃ log ∈ job.receipt.logs,
      RelevantLog settings log ∧ row = logRow log) ∧
    (∀ row ∈ (db.table .nftTransfer).rows, ∃ job ∈ jobs, ∃ log ∈ job.receipt.logs,
      IsNftTransfer settings log row) ∧
    ∀ job ∈ jobs, ∀ left right leftIndices rightIndices,
      HandledUnder settings job left leftIndices → HandledUnder settings job right rightIndices →
        left ≠ right → Disjoint leftIndices rightIndices := by
  obtain ⟨_, _, htables⟩ := soundTables_of_processed h
  refine ⟨htables.transactionLogs, htables.nftTransfer, ?_⟩
  intro job hjob left right leftIndices rightIndices hleft hright hne
  rw [eq_eventIndices_of_handledUnder hleft, eq_eventIndices_of_handledUnder hright]
  exact disjoint_eventIndices (distinctIndices_of_processed h job hjob) hne

end Sequences

section Deployment

open Deployment

/-- The transfer of a collectible, in a transaction sent to its contract. -/
def collectibleJob : Job where
  setOrder := setOrder
  tx := transaction (some collectible)
  receipt :=
    { gasUsed := 21000
      logs := [transferLog collectible 4 zeroAddress holder "0x"
        ["0x000000000000000000000000000000000000000000000000000000000000002a"]]
      contractAddress := none }

theorem stored_rows_sound_of_collectible : ∃ parser' db,
    Processed parser.settings parser' [collectibleJob] db ∧ (db.table .nftTransfer).rows ≠ [] ∧
      ∀ row ∈ (db.table .nftTransfer).rows, ∃ job ∈ [collectibleJob], ∃ log ∈ job.receipt.logs,
        IsNftTransfer parser.settings log row := by
  have hrun := Program.runs_history node.answer
    (PartialTransactionProcessor.processTransaction setOrder parser
      (.parse collectibleJob.tx) (.parse collectibleJob.receipt) collectibleJob.receipt)
  have hprocessed := Processed.next collectibleJob (.start : Processed parser.settings _ _ _)
    (by decide) hrun
  rw [foldl_applyEvent_history] at hprocessed
  exact ⟨_, _, hprocessed, by decide, (stored_rows_sound hprocessed).2.1⟩

end Deployment

end BlockchainDataCollection.Soundness
