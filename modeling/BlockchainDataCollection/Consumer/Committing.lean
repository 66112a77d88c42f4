import BlockchainDataCollection.Consumer.Consuming
import BlockchainDataCollection.Consumer.Soundness

/-!
# What a processed transaction commits

The SQL transactions that `process_transaction` commits, in order, whatever the
node and the database answer.  A call that raises leaves the committed ones
behind, so a run that raises has committed a prefix of `saveBlocks`.
-/

namespace BlockchainDataCollection.Committing

open BlockchainDataCollection.Effect
open BlockchainDataCollection.Python
open BlockchainDataCollection.Data
open BlockchainDataCollection.Parser
open BlockchainDataCollection.Storage
open BlockchainDataCollection.TxProcessor
open BlockchainDataCollection.Processing
open BlockchainDataCollection.Saving
open BlockchainDataCollection.Soundness
open BlockchainDataCollection.Consuming
open ChecksumSpelling

variable [ChecksumSpelling]

/-- The SQL transaction that a call commits, if it commits one. -/
def committed : Program.Event consumerSignature PyError → List (List Statement)
  | ⟨.execute statements, .ok _⟩ => [statements]
  | _ => []

theorem applyEvent_eq (db : Database) (event : Program.Event consumerSignature PyError) :
    applyEvent db event = db.executeAll (committed event).flatten := by
  obtain ⟨op, answer⟩ := event
  cases answer with
  | error error => cases op <;> rfl
  | ok answer =>
      cases op with
      | execute statements =>
          simp only [applyEvent, effect, callStatements, committed, List.flatten_singleton]
      | _ => rfl

/-- The tables after a run hold what it committed. -/
theorem foldl_applyEvent_eq (events : List (Program.Event consumerSignature PyError))
    (db : Database) :
    events.foldl applyEvent db = db.executeAll (events.flatMap committed).flatten := by
  induction events generalizing db with
  | nil => rfl
  | cons event events ih =>
      rw [List.foldl_cons, ih, applyEvent_eq, List.flatMap_cons, List.flatten_append,
        Database.executeAll_append]

/-! ## Rules -/

section Rules

variable {A B : Type} {program : ConsumerProgram A} {post : A → List (List Statement) → Prop}
  {fail : List (List Statement) → Prop}

/-- What every run that returns, and every run that raises, has committed. -/
def Commits (program : ConsumerProgram A) (post : A → List (List Statement) → Prop)
    (fail : List (List Statement) → Prop) : Prop :=
  ∀ events outcome, Program.Runs program events outcome →
    (∀ value, outcome = .returned value → post value (events.flatMap committed)) ∧
      ∀ error, outcome = .raised error → fail (events.flatMap committed)

theorem commits_done {value : A} (hpost : post value []) :
    Commits (.done value) post fail := by
  intro events outcome hruns
  cases hruns with
  | observed => simp
  | done => simpa using hpost

theorem commits_raise {error : PyError} (hfail : fail []) : Commits (.raise error) post fail := by
  intro events outcome hruns
  cases hruns with
  | observed => simp
  | raise => simpa using hfail

theorem commits_ofExcept {value : Except PyError A} (hpost : ∀ result, value = .ok result →
    post result []) (hfail : fail []) : Commits (Program.ofExcept value) post fail := by
  cases value with
  | ok result => exact commits_done (hpost result rfl)
  | error error => exact commits_raise hfail

theorem commits_perform {op : ConsumerCall} {post : op.Answer → List (List Statement) → Prop}
    (hpost : ∀ answer, post answer (committed ⟨op, .ok answer⟩)) (hfail : fail []) :
    Commits (@Program.perform consumerSignature _ op) post fail := by
  intro events outcome hruns
  cases hruns with
  | observed => simp
  | @call _ _ answer _ _ hruns =>
      cases answer with
      | ok answer =>
          cases hruns with
          | observed => simp
          | done => simpa using hpost answer
      | error error =>
          have hnone : committed ⟨op, .error error⟩ = [] := by cases op <;> rfl
          cases hruns with
          | observed => simp
          | raise => simpa [hnone] using hfail

theorem commits_execute (statements : List Statement) (hfail : fail []) :
    Commits (execute statements) (fun _ blocks => blocks = [statements]) fail :=
  commits_perform (fun _ => rfl) hfail

theorem Commits.bind {rest : A → ConsumerProgram B} {post' : B → List (List Statement) → Prop}
    (hfirst : Commits program post fail)
    (hrest : ∀ value first, post value first →
      Commits (rest value) (fun result second => post' result (first ++ second))
        fun second => fail (first ++ second)) :
    Commits (program >>= rest) post' fail := by
  intro events outcome hruns
  rcases Program.runs_bind_iff.mp hruns with ⟨_, rfl⟩ | ⟨error, hrun, rfl⟩ |
    ⟨value, first, second, rfl, hrun, hrun'⟩
  · simp
  · exact ⟨by simp, fun _ _ => (hfirst _ _ hrun).2 error rfl⟩
  · rw [List.flatMap_append]
    exact hrest value _ ((hfirst _ _ hrun).1 value rfl) _ _ hrun'

theorem Commits.mono {post' : A → List (List Statement) → Prop}
    {fail' : List (List Statement) → Prop} (h : Commits program post fail)
    (hpost : ∀ value blocks, post value blocks → post' value blocks)
    (hfail : ∀ blocks, fail blocks → fail' blocks) : Commits program post' fail' := by
  intro events outcome hruns
  obtain ⟨hvalue, herror⟩ := h events outcome hruns
  exact ⟨fun value hout => hpost _ _ (hvalue value hout),
    fun error hout => hfail _ (herror error hout)⟩

/-- Each statement on its own. -/
def singly (statements : List Statement) : List (List Statement) :=
  statements.map fun statement => [statement]

omit [ChecksumSpelling] in
theorem singly_append (first second : List Statement) :
    singly (first ++ second) = singly first ++ singly second :=
  List.map_append

omit [ChecksumSpelling] in
theorem flatten_singly (statements : List Statement) :
    (singly statements).flatten = statements := by
  simp [singly, ← List.flatMap_def]

theorem commits_writeEach (value : A) (statements : List Statement) :
    Commits (writeEach value statements)
      (fun result blocks => result = value ∧ blocks = singly statements)
      (· <+: singly statements) := by
  induction statements with
  | nil => exact commits_done ⟨rfl, rfl⟩
  | cons statement statements ih =>
      refine Commits.bind (commits_execute [statement] ?_) ?_
      · exact List.nil_prefix
      rintro _ _ rfl
      apply ih.mono
      · rintro _ _ ⟨rfl, rfl⟩
        exact ⟨rfl, rfl⟩
      · intro blocks hblocks
        exact (List.prefix_append_right_inj _).mpr hblocks

end Rules

/-! ## The processors -/

section Processors

variable {settings : ParserSettings} {parser : ContractParser} {setOrder : SetOrder} {tx : TxData}
  {receipt : TxReceipt}

/-- The transaction row on its own, and then the logs together. -/
def rowBlocks (txData : TransactionData) (txReceiptData : TransactionReceiptData)
    (indices : Finset ℕ) : List (List Statement) :=
  [[insertTransaction (transactionRow txData txReceiptData)], logStatements txReceiptData indices]

/-- The internal transactions of a transaction, stored last and together. -/
def IsInternal (txHash : String) (statement : Statement) : Prop :=
  ∃ internalTx, statement =
    insertInternalTransaction (internalTransactionRow txHash internalTx)

/-- One of the blocks is the row of the transaction. -/
def StoresTransaction (txHash : String) (blocks : List (List Statement)) : Prop :=
  ∃ row : TransactionRow, row.transactionHash = txHash ∧ [insertTransaction row] ∈ blocks

/-- Only internal transactions are committed after the blocks, and only of a
transaction that is stored. -/
def CompletedBy (txHash : String) (blocks all : List (List Statement)) : Prop :=
  ∃ internal, all = blocks ++ internal ∧
    ∀ statement ∈ internal.flatten, IsInternal txHash statement ∧ StoresTransaction txHash blocks

omit [ChecksumSpelling] in
theorem storesTransaction_rowBlocks (txData : TransactionData)
    (txReceiptData : TransactionReceiptData) (indices : Finset ℕ) :
    StoresTransaction txData.transactionHash (rowBlocks txData txReceiptData indices) :=
  ⟨transactionRow txData txReceiptData, rfl, List.mem_cons_self⟩

theorem commits_getInternalTransactions {fail : List (List Statement) → Prop} (txHash : String)
    (hfail : fail []) :
    Commits (getInternalTransactions txHash) (fun _ blocks => blocks = []) fail := by
  have htrace : Commits (@Program.perform consumerSignature _ (.traceReplayTransaction txHash))
      (fun _ blocks => blocks = []) fail := commits_perform (fun _ => rfl) hfail
  apply htrace.bind
  rintro data _ rfl
  exact commits_ofExcept (fun _ _ => rfl) hfail

theorem commits_handleTransaction (txData : TransactionData)
    (txReceiptData : TransactionReceiptData) (indices : Finset ℕ) :
    Commits (handleTransaction txData txReceiptData indices)
      (fun _ => CompletedBy txData.transactionHash (rowBlocks txData txReceiptData indices))
      (· <+: rowBlocks txData txReceiptData indices) := by
  refine Commits.bind (commits_execute _ ?_) ?_
  · exact List.nil_prefix
  rintro _ _ rfl
  refine Commits.bind (commits_execute _ ?_) ?_
  · exact List.prefix_append [_] [_]
  rintro _ _ rfl
  refine Commits.bind (commits_getInternalTransactions _ ?_) ?_
  · exact List.prefix_refl _
  rintro internalTxData _ rfl
  split
  · exact commits_done ⟨[], rfl, by simp⟩
  · refine Commits.mono (commits_execute _ ?_) ?_ (fun _ h => h)
    · exact List.prefix_refl _
    · rintro _ _ rfl
      refine ⟨[_], rfl, ?_⟩
      intro statement hstatement
      rw [List.flatten_singleton] at hstatement
      obtain ⟨internalTx, _, rfl⟩ := List.mem_map.mp hstatement
      exact ⟨⟨internalTx, rfl⟩, storesTransaction_rowBlocks _ _ _⟩

theorem commits_handleTransactionEvents {address : String} {config : ContractConfig}
    (hconfig : settings.config address = some config) (txData : TransactionData)
    (receipt : TxReceipt) :
    Commits (handleTransactionEvents settings ⟨address, settings.getContractAbi config.category⟩
        config.category txData receipt)
      (fun indices blocks => indices = eventIndices settings receipt address ∧
        blocks = singly (eventStatements settings txData.transactionHash receipt address))
      (· <+: singly (eventStatements settings txData.transactionHash receipt address)) := by
  rw [handleTransactionEvents_eq hconfig]
  exact commits_writeEach _ _

theorem commits_getContract {fail : List (List Statement) → Prop} (hparser : parser.Consistent)
    (address : ChecksumAddress) {config : ContractConfig}
    (hconfig : parser.settings.config address.val = some config) (hfail : fail []) :
    Commits (Program.ofExcept (parser.getContract address.val config.category))
      (fun result blocks =>
        (result.1 = ⟨address.val, parser.settings.getContractAbi config.category⟩ ∧
          result.2.settings = parser.settings ∧ result.2.Consistent) ∧ blocks = []) fail :=
  commits_ofExcept
    (fun _ hresult => ⟨contract_of_getContract_ok hparser address hconfig hresult, rfl⟩) hfail

theorem commits_handleEventAddresses {txData : TransactionData} {addresses : List String}
    (indices : Finset ℕ) (haddresses : ∀ address ∈ addresses, isChecksumAddress address)
    (hparser : parser.Consistent) :
    Commits (PartialTransactionProcessor.handleEventAddresses txData receipt addresses parser
        indices)
      (fun result blocks =>
        (result.1 = indices ∪ unionIndices parser.settings receipt addresses ∧
          result.2.settings = parser.settings ∧ result.2.Consistent) ∧
        blocks = singly (addresses.flatMap
          (eventStatements parser.settings txData.transactionHash receipt)))
      (· <+: singly (addresses.flatMap
        (eventStatements parser.settings txData.transactionHash receipt))) := by
  induction addresses generalizing parser indices with
  | nil => exact commits_done ⟨⟨by simp, rfl, hparser⟩, rfl⟩
  | cons address addresses ih =>
      have htail : ∀ other ∈ addresses, isChecksumAddress other := fun other hother =>
        haddresses other (List.mem_cons_of_mem _ hother)
      rw [List.flatMap_cons, singly_append, unionIndices_cons]
      cases hcategory : parser.settings.getContractCategory address with
      | none =>
          have hconfig := getContractCategory_eq_none hcategory
          have hindices : eventIndices parser.settings receipt address = ∅ := by
            simp [eventIndices, hconfig]
          have hstatements : eventStatements parser.settings txData.transactionHash receipt
              address = [] := by
            simp [eventStatements, hconfig]
          simp only [PartialTransactionProcessor.handleEventAddresses, hcategory]
          rw [hindices, Finset.empty_union, hstatements]
          exact ih indices htail hparser
      | some category =>
          obtain ⟨config, hconfig, rfl⟩ := getContractCategory_eq_some hcategory
          simp only [PartialTransactionProcessor.handleEventAddresses, hcategory]
          refine Commits.bind (commits_getContract hparser
            ⟨address, haddresses address List.mem_cons_self⟩ hconfig ?_) ?_
          · exact List.nil_prefix
          rintro ⟨contract, parser₁⟩ _ ⟨⟨rfl, hsettings, hconsistent⟩, rfl⟩
          have hevents := commits_handleTransactionEvents hconfig txData receipt
          rw [hsettings]
          apply (hevents.mono (fun _ _ h => h)
            fun _ h => h.trans (List.prefix_append _ _)).bind
          rintro _ _ ⟨rfl, rfl⟩
          have hrest := ih (indices ∪ eventIndices parser.settings receipt address) htail
            hconsistent
          rw [hsettings, Finset.union_assoc] at hrest
          apply hrest.mono
          · rintro _ _ ⟨hresult, rfl⟩
            exact ⟨hresult, rfl⟩
          · exact fun _ h => (List.prefix_append_right_inj _).mpr h

theorem commits_decideSave (hparser : parser.Consistent) :
    Commits (PartialTransactionProcessor.decideSave setOrder parser (.parse tx) (.parse receipt)
        receipt)
      (fun result blocks =>
        (result.1 = (shouldSave parser.settings setOrder tx receipt,
            savedIndices parser.settings setOrder tx receipt) ∧
          result.2.settings = parser.settings ∧ result.2.Consistent) ∧
        blocks = singly (decisionStatements parser.settings setOrder tx receipt))
      (· <+: singly (decisionStatements parser.settings setOrder tx receipt)) := by
  rw [decideSave_eq]
  apply (commits_handleEventAddresses ∅ (fun _ => isChecksumAddress_of_mem_handledAddresses)
    hparser).bind
  rintro ⟨indices, parser'⟩ _ ⟨⟨rfl, hsettings, hconsistent⟩, rfl⟩
  rw [Finset.empty_union]
  exact commits_done ⟨⟨rfl, hsettings, hconsistent⟩, List.append_nil _⟩

/-- The SQL transactions of `process_transaction` in order, the one for the
internal transactions apart. -/
def saveBlocks (settings : ParserSettings) (setOrder : SetOrder) (mode : DataCollectionMode)
    (tx : TxData) (receipt : TxReceipt) : List (List Statement) :=
  match mode with
  | .full | .getLogs => rowBlocks (.parse tx) (.parse receipt)
      ((TransactionReceiptData.parse receipt).logs.map TransactionLogsData.logIndex).toFinset
  | .partialMode => singly (decisionStatements settings setOrder tx receipt) ++
      if shouldSave settings setOrder tx receipt then
        rowBlocks (.parse tx) (.parse receipt) (savedIndices settings setOrder tx receipt)
      else []
  | .logFilter => []

theorem commits_full (settings : ParserSettings) (setOrder : SetOrder) (tx : TxData)
    (receipt : TxReceipt) :
    Commits (FullTransactionProcessor.processTransaction (.parse tx) (.parse receipt))
      (fun _ => CompletedBy tx.hash (saveBlocks settings setOrder .full tx receipt))
      (· <+: saveBlocks settings setOrder .full tx receipt) := by
  apply (commits_handleTransaction (.parse tx) (.parse receipt) _).bind
  intro _ blocks hblocks
  exact commits_done ((List.append_nil blocks).symm ▸ hblocks)

theorem commits_partial (hparser : parser.Consistent) :
    Commits (PartialTransactionProcessor.processTransaction setOrder parser (.parse tx)
        (.parse receipt) receipt)
      (fun result blocks => (result.2.settings = parser.settings ∧ result.2.Consistent) ∧
        CompletedBy tx.hash (saveBlocks parser.settings setOrder .partialMode tx receipt) blocks)
      (· <+: saveBlocks parser.settings setOrder .partialMode tx receipt) := by
  apply ((commits_decideSave hparser).mono (fun _ _ h => h)
    fun _ h => h.trans (List.prefix_append _ _)).bind
  rintro ⟨⟨save, indices⟩, parser'⟩ _ ⟨⟨hsave, hsettings, hconsistent⟩, rfl⟩
  obtain ⟨rfl, rfl⟩ := Prod.mk.inj hsave
  simp only [saveBlocks]
  cases shouldSave parser.settings setOrder tx receipt with
  | false =>
      simp only [Bool.false_eq_true, if_false, List.append_nil]
      exact commits_done ⟨⟨hsettings, hconsistent⟩, [], rfl, by simp⟩
  | true =>
      simp only [if_true]
      apply ((commits_handleTransaction (.parse tx) (.parse receipt) _).mono (fun _ _ h => h)
        fun _ h => (List.prefix_append_right_inj _).mpr h).bind
      rintro _ _ ⟨internal, rfl, hinternal⟩
      refine commits_done ⟨⟨hsettings, hconsistent⟩, internal, ?_, ?_⟩
      · rw [List.append_nil, List.append_assoc]
      · intro statement hstatement
        obtain ⟨hinternal, row, hrow, hmem⟩ := hinternal statement hstatement
        exact ⟨hinternal, row, hrow, List.mem_append_right _ hmem⟩

/-- In every mode a run that raises has committed a prefix of the blocks, and a
run that returns all of them. -/
theorem commits_processTransaction (hparser : parser.Consistent) (mode : DataCollectionMode) :
    Commits (processTransaction setOrder mode parser tx receipt)
      (fun result blocks => (result.2.settings = parser.settings ∧ result.2.Consistent) ∧
        CompletedBy tx.hash (saveBlocks parser.settings setOrder mode tx receipt) blocks)
      (· <+: saveBlocks parser.settings setOrder mode tx receipt) := by
  cases mode with
  | full | getLogs =>
      apply (commits_full parser.settings setOrder tx receipt).bind
      intro _ blocks hblocks
      exact commits_done ⟨⟨rfl, hparser⟩, (List.append_nil blocks).symm ▸ hblocks⟩
  | partialMode => exact commits_partial hparser
  | logFilter => exact commits_raise List.nil_prefix

end Processors

end BlockchainDataCollection.Committing
