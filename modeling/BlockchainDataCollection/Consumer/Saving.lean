import BlockchainDataCollection.Consumer.Processing

/-!
# The save decision and everything a transaction writes

`process_transaction` in modes `full` and `partial`, summarised: the addresses
whose events are handled, the decision to save, the selected log indices, and
the full list of statements.  Each summary comes with its converse: when the
processor returns, every call it depends on succeeded.
-/

namespace BlockchainDataCollection.Saving

open BlockchainDataCollection.Effect
open BlockchainDataCollection.Python
open BlockchainDataCollection.Data
open BlockchainDataCollection.Events
open BlockchainDataCollection.Parser
open BlockchainDataCollection.Storage
open BlockchainDataCollection.TxProcessor
open BlockchainDataCollection.Processing
open ChecksumSpelling

variable [ChecksumSpelling]

/-! ## Saving one transaction -/

/-- The parsed trace of a transaction. -/
def internalTransactions (node : Node) (txHash : String) :
    Except PyError (List InternalTransactionData) := do
  let data ← node.traceReplayTransaction txHash
  data.mapM fun entry => InternalTransactionData.parse (TraceEntry.txData entry)

/-- The internal transactions that get stored: none when the trace fails. -/
def storedInternalTransactions (node : Node) (txHash : String) : List InternalTransactionData :=
  match internalTransactions node txHash with
  | .ok internalTxData => internalTxData
  | .error _ => []

def logStatements (txReceiptData : TransactionReceiptData) (logIndicesToSave : Finset ℕ) :
    List Statement :=
  (txReceiptData.logs.filter fun log => log.logIndex ∈ logIndicesToSave).map fun txLog =>
    insertTransactionLogs (transactionLogsRow txLog)

def internalStatements (node : Node) (txHash : String) : List Statement :=
  (storedInternalTransactions node txHash).map fun internalTx =>
    insertInternalTransaction (internalTransactionRow txHash internalTx)

def saveStatements (node : Node) (txData : TransactionData)
    (txReceiptData : TransactionReceiptData) (logIndicesToSave : Finset ℕ) : List Statement :=
  insertTransaction (transactionRow txData txReceiptData) ::
    (logStatements txReceiptData logIndicesToSave ++ internalStatements node txData.transactionHash)

section Node

variable {node : Node}

theorem outcome_getInternalTransactions (txHash : String) :
    (getInternalTransactions txHash).outcome node.answer =
      match internalTransactions node txHash with
      | .ok internalTxData => .returned internalTxData
      | .error error => .raised error := by
  have hanswer : node.answer (.traceReplayTransaction txHash) =
      node.traceReplayTransaction txHash := rfl
  unfold getInternalTransactions internalTransactions Program.perform
  rw [Program.call_bind, Program.outcome_call, hanswer]
  cases node.traceReplayTransaction txHash with
  | error error => rfl
  | ok data =>
      change (Program.ofExcept (data.mapM _) : ConsumerProgram _).outcome node.answer = _
      simp only [bind, Except.bind]
      cases data.mapM fun entry => InternalTransactionData.parse (TraceEntry.txData entry) <;> rfl

theorem getInternalTransactions_performs {txHash : String}
    {internalTxData : List InternalTransactionData}
    (h : internalTransactions node txHash = .ok internalTxData) :
    Performs node (getInternalTransactions txHash) internalTxData [] := by
  constructor
  · rw [outcome_getInternalTransactions, h]
  · unfold internalTransactions at h
    unfold getInternalTransactions Program.perform written
    have hanswer : node.answer (.traceReplayTransaction txHash) =
        node.traceReplayTransaction txHash := rfl
    rw [Program.call_bind, Program.calls_call, hanswer]
    cases hdata : node.traceReplayTransaction txHash with
    | error error => simp [hdata, bind, Except.bind] at h
    | ok data =>
        simp only [hdata, bind, Except.bind] at h
        change List.flatMap callStatements (_ :: (Program.ofExcept (data.mapM _) :
          ConsumerProgram _).calls node.answer) = []
        rw [h]
        rfl

theorem handleTransaction_performs (txData : TransactionData)
    {internalTxData : List InternalTransactionData}
    (h : internalTransactions node txData.transactionHash = .ok internalTxData)
    (txReceiptData : TransactionReceiptData) (logIndicesToSave : Finset ℕ) :
    Performs node (handleTransaction txData txReceiptData logIndicesToSave) ()
      (saveStatements node txData txReceiptData logIndicesToSave) := by
  have hstored : storedInternalTransactions node txData.transactionHash = internalTxData := by
    simp [storedInternalTransactions, h]
  have hinternal : Performs node
      (if internalTxData = [] then (pure () : ConsumerProgram Unit)
        else execute (internalTxData.map fun internalTx =>
          insertInternalTransaction (internalTransactionRow txData.transactionHash internalTx)))
      () (internalStatements node txData.transactionHash) := by
    rw [internalStatements, hstored]
    by_cases hempty : internalTxData = []
    · subst hempty
      exact performs_done ()
    · rw [if_neg hempty]
      exact performs_execute _
  exact (performs_execute _).bind ((performs_execute _).bind
    ((getInternalTransactions_performs h).bind hinternal))

/-- Saving returns only when the trace was answered and parsed. -/
theorem internalTransactions_of_returned {txData : TransactionData}
    {txReceiptData : TransactionReceiptData} {logIndicesToSave : Finset ℕ}
    (hreturned : (handleTransaction txData txReceiptData logIndicesToSave).outcome node.answer =
      .returned ()) :
    ∃ internalTxData, internalTransactions node txData.transactionHash = .ok internalTxData := by
  obtain ⟨_, _, hrest⟩ := Program.outcome_bind_returned_iff.mp hreturned
  obtain ⟨_, _, hrest⟩ := Program.outcome_bind_returned_iff.mp hrest
  obtain ⟨internalTxData, htrace, _⟩ := Program.outcome_bind_returned_iff.mp hrest
  rw [outcome_getInternalTransactions] at htrace
  cases hinternal : internalTransactions node txData.transactionHash with
  | ok found => exact ⟨found, rfl⟩
  | error error => simp [hinternal] at htrace

end Node

/-! ## Handling the event addresses -/

/-- web3 can build the contract configured for an address. -/
def Buildable (settings : ParserSettings) (address : String) : Prop :=
  ∀ config, settings.config address = some config →
    ∃ contract, settings.buildContract address config.category = .ok contract

section Addresses

variable {node : Node} {parser : ContractParser}

theorem getContractCategory_eq_some {settings : ParserSettings} {address : String}
    {category : ContractCategory} (h : settings.getContractCategory address = some category) :
    ∃ config, settings.config address = some config ∧ config.category = category :=
  Option.map_eq_some_iff.mp h

theorem getContractCategory_eq_none {settings : ParserSettings} {address : String}
    (h : settings.getContractCategory address = none) : settings.config address = none :=
  Option.map_eq_none_iff.mp h

/-- A configured checksum address gets the contract of its own spelling. -/
theorem getContract_performs (hparser : parser.Consistent) (address : ChecksumAddress)
    {config : ContractConfig} (hconfig : parser.settings.config address.val = some config)
    (hbuild : Buildable parser.settings address.val) :
    ∃ parser' : ContractParser, parser'.settings = parser.settings ∧ parser'.Consistent ∧
      parser.getContract address.val config.category =
        .ok (⟨address.val, parser.settings.getContractAbi config.category⟩, parser') := by
  obtain ⟨contract, hcontract⟩ := hbuild config hconfig
  have hcategory : parser.settings.getContractCategory address.val = some config.category := by
    simp [ParserSettings.getContractCategory, hconfig]
  obtain ⟨parser', hsettings, hconsistent, heq⟩ :=
    ContractParser.getContract_eq hparser address hcategory
  obtain rfl := parser.settings.buildContract_ok hcontract
  exact ⟨parser', hsettings, hconsistent, by rw [heq, hcontract]; rfl⟩

theorem buildable_of_getContract_ok (hparser : parser.Consistent) (address : ChecksumAddress)
    {config : ContractConfig} (hconfig : parser.settings.config address.val = some config)
    {result : Contract × ContractParser}
    (hok : parser.getContract address.val config.category = .ok result) :
    Buildable parser.settings address.val := by
  intro config' hconfig'
  obtain rfl : config = config' := Option.some.inj (hconfig.symm.trans hconfig')
  have hcategory : parser.settings.getContractCategory address.val = some config.category := by
    simp [ParserSettings.getContractCategory, hconfig]
  obtain ⟨_, _, _, heq⟩ := ContractParser.getContract_eq hparser address hcategory
  rw [heq] at hok
  cases hbuild : parser.settings.buildContract address.val config.category with
  | ok contract => exact ⟨contract, rfl⟩
  | error error =>
      rw [hbuild] at hok
      cases hok

/-- The indices selected by several addresses together. -/
def unionIndices (settings : ParserSettings) (receipt : TxReceipt) (addresses : List String) :
    Finset ℕ :=
  addresses.toFinset.biUnion (eventIndices settings receipt)

@[simp]
theorem unionIndices_nil (settings : ParserSettings) (receipt : TxReceipt) :
    unionIndices settings receipt [] = ∅ := rfl

theorem unionIndices_cons (settings : ParserSettings) (receipt : TxReceipt) (address : String)
    (addresses : List String) :
    unionIndices settings receipt (address :: addresses) =
      eventIndices settings receipt address ∪ unionIndices settings receipt addresses := by
  simp [unionIndices]

theorem handleEventAddresses_performs (node : Node) (txData : TransactionData) (receipt : TxReceipt)
    {addresses : List String} (haddresses : ∀ address ∈ addresses, isChecksumAddress address)
    (hparser : parser.Consistent)
    (hbuild : ∀ address ∈ addresses, Buildable parser.settings address)
    (logIndicesToSave : Finset ℕ) :
    ∃ parser' : ContractParser, parser'.settings = parser.settings ∧ parser'.Consistent ∧
      Performs node
        (PartialTransactionProcessor.handleEventAddresses txData receipt addresses parser
          logIndicesToSave)
        (logIndicesToSave ∪ unionIndices parser.settings receipt addresses, parser')
        (addresses.flatMap
          (eventStatements parser.settings txData.transactionHash receipt)) := by
  induction addresses generalizing parser logIndicesToSave with
  | nil =>
      refine ⟨parser, rfl, hparser, ?_⟩
      rw [unionIndices_nil, Finset.union_empty]
      exact performs_done (logIndicesToSave, parser)
  | cons address addresses ih =>
      have htail : ∀ other ∈ addresses, isChecksumAddress other := fun other hother =>
        haddresses other (List.mem_cons_of_mem _ hother)
      cases hcategory : parser.settings.getContractCategory address with
      | none =>
          have hconfig := getContractCategory_eq_none hcategory
          obtain ⟨parser', hsettings, hconsistent, hperforms⟩ := ih htail hparser
            (fun other hother => hbuild other (List.mem_cons_of_mem _ hother)) logIndicesToSave
          refine ⟨parser', hsettings, hconsistent, ?_⟩
          simp only [PartialTransactionProcessor.handleEventAddresses, hcategory]
          have hindices : eventIndices parser.settings receipt address = ∅ := by
            simp [eventIndices, hconfig]
          have hstatements : eventStatements parser.settings txData.transactionHash receipt
              address = [] := by
            simp [eventStatements, hconfig]
          rw [unionIndices_cons, hindices, Finset.empty_union, List.flatMap_cons, hstatements,
            List.nil_append]
          exact hperforms
      | some category =>
          obtain ⟨config, hconfig, rfl⟩ := getContractCategory_eq_some hcategory
          obtain ⟨parser₁, hsettings₁, hconsistent₁, hcontract⟩ :=
            getContract_performs hparser ⟨address, haddresses address List.mem_cons_self⟩ hconfig
              (hbuild address List.mem_cons_self)
          obtain ⟨parser₂, hsettings₂, hconsistent₂, hperforms⟩ := ih htail hconsistent₁
            (fun other hother => hsettings₁ ▸ hbuild other (List.mem_cons_of_mem _ hother))
            (logIndicesToSave ∪ eventIndices parser.settings receipt address)
          refine ⟨parser₂, hsettings₂.trans hsettings₁, hconsistent₂, ?_⟩
          rw [hsettings₁, Finset.union_assoc, ← unionIndices_cons] at hperforms
          simp only [PartialTransactionProcessor.handleEventAddresses, hcategory, hcontract,
            Program.ofExcept_ok, Program.done_bind, hsettings₁, List.flatMap_cons]
          exact (handleTransactionEvents_performs hconfig txData receipt).bind hperforms

theorem buildable_of_handleEventAddresses (txData : TransactionData) (receipt : TxReceipt)
    {addresses : List String} (haddresses : ∀ address ∈ addresses, isChecksumAddress address)
    (hparser : parser.Consistent) {logIndicesToSave : Finset ℕ}
    {result : Finset ℕ × ContractParser}
    (hreturned : (PartialTransactionProcessor.handleEventAddresses txData receipt addresses parser
      logIndicesToSave).outcome node.answer = .returned result) :
    ∀ address ∈ addresses, Buildable parser.settings address := by
  induction addresses generalizing parser logIndicesToSave with
  | nil => simp
  | cons address addresses ih =>
      have htail : ∀ other ∈ addresses, isChecksumAddress other := fun other hother =>
        haddresses other (List.mem_cons_of_mem _ hother)
      cases hcategory : parser.settings.getContractCategory address with
      | none =>
          have hconfig := getContractCategory_eq_none hcategory
          simp only [PartialTransactionProcessor.handleEventAddresses, hcategory] at hreturned
          intro other hother
          rcases List.mem_cons.mp hother with rfl | hother
          · intro config h
            rw [hconfig] at h
            cases h
          · exact ih htail hparser hreturned other hother
      | some category =>
          obtain ⟨config, hconfig, rfl⟩ := getContractCategory_eq_some hcategory
          simp only [PartialTransactionProcessor.handleEventAddresses, hcategory] at hreturned
          obtain ⟨⟨contract, parser₀⟩, hget, hrest⟩ :=
            Program.outcome_bind_returned_iff.mp hreturned
          have hok : parser.getContract address config.category = .ok (contract, parser₀) := by
            cases hcase : parser.getContract address config.category with
            | ok found =>
                rw [hcase] at hget
                exact congrArg Except.ok (Outcome.returned.inj hget)
            | error error =>
                rw [hcase] at hget
                cases hget
          have hbuild := buildable_of_getContract_ok hparser
            ⟨address, haddresses address List.mem_cons_self⟩ hconfig hok
          obtain ⟨parser₁, hsettings₁, hconsistent₁, hcontract⟩ :=
            getContract_performs hparser ⟨address, haddresses address List.mem_cons_self⟩ hconfig
              hbuild
          obtain ⟨_, rfl⟩ := Prod.mk.inj (Except.ok.inj (hok.symm.trans hcontract))
          obtain ⟨_, _, hrest⟩ := Program.outcome_bind_returned_iff.mp hrest
          intro other hother
          rcases List.mem_cons.mp hother with rfl | hother
          · exact hbuild
          · exact hsettings₁ ▸ ih htail hconsistent₁ hrest other hother

end Addresses

/-! ## The decision of mode `partial` -/

/-- The addresses whose events are handled, in the order they are handled. -/
def handledAddresses (settings : ParserSettings) (setOrder : SetOrder) (tx : TxData)
    (receipt : TxReceipt) : List String :=
  match tx.toAddress with
  | some toAddress =>
      if (settings.config toAddress.val).isSome then [toAddress.val]
      else setOrder.order (receipt.logs.map fun log => log.address.val)
  | none =>
      match receipt.contractAddress with
      | some contractAddress => [contractAddress.val]
      | none => []

def savedIndices (settings : ParserSettings) (setOrder : SetOrder) (tx : TxData)
    (receipt : TxReceipt) : Finset ℕ :=
  unionIndices settings receipt (handledAddresses settings setOrder tx receipt)

def decisionStatements (settings : ParserSettings) (setOrder : SetOrder) (tx : TxData)
    (receipt : TxReceipt) : List Statement :=
  (handledAddresses settings setOrder tx receipt).flatMap
    (eventStatements settings tx.hash receipt)

def shouldSave (settings : ParserSettings) (setOrder : SetOrder) (tx : TxData)
    (receipt : TxReceipt) : Bool :=
  match tx.toAddress with
  | some toAddress =>
      (settings.config toAddress.val).isSome ||
        decide (0 < (savedIndices settings setOrder tx receipt).card)
  | none =>
      match receipt.contractAddress with
      | some contractAddress => (settings.config contractAddress.val).isSome
      | none => false

/-- Whether to save, given the indices the loop found: a configured contract is
always saved. -/
def decision (settings : ParserSettings) (tx : TxData) (receipt : TxReceipt)
    (logIndicesToSave : Finset ℕ) : Bool :=
  match tx.toAddress with
  | some toAddress =>
      (settings.config toAddress.val).isSome || decide (0 < logIndicesToSave.card)
  | none =>
      match receipt.contractAddress with
      | some contractAddress => (settings.config contractAddress.val).isSome
      | none => false

theorem shouldSave_eq_decision (settings : ParserSettings) (setOrder : SetOrder) (tx : TxData)
    (receipt : TxReceipt) :
    shouldSave settings setOrder tx receipt =
      decision settings tx receipt (savedIndices settings setOrder tx receipt) := rfl

theorem isChecksumAddress_of_mem_order (setOrder : SetOrder) (receipt : TxReceipt)
    {address : String}
    (h : address ∈ setOrder.order (receipt.logs.map fun log => log.address.val)) :
    isChecksumAddress address := by
  have hmem := List.mem_dedup.mp ((setOrder.perm _).mem_iff.mp h)
  obtain ⟨log, _, rfl⟩ := List.mem_map.mp hmem
  exact log.address.property

theorem isChecksumAddress_of_mem_handledAddresses {settings : ParserSettings}
    {setOrder : SetOrder} {tx : TxData} {receipt : TxReceipt} {address : String}
    (h : address ∈ handledAddresses settings setOrder tx receipt) : isChecksumAddress address := by
  unfold handledAddresses at h
  split at h
  next toAddress _ =>
      split at h
      · exact List.mem_singleton.mp h ▸ toAddress.property
      · exact isChecksumAddress_of_mem_order setOrder receipt h
  next =>
      split at h
      next contractAddress _ => exact List.mem_singleton.mp h ▸ contractAddress.property
      next => cases h

private theorem truthy_val (address : Option ChecksumAddress) :
    truthy (address.map Subtype.val) = address.map Subtype.val := by
  cases address with
  | none => rfl
  | some address => exact truthy_eq_some.mpr ⟨rfl, address.val_ne_empty⟩

section Decision

variable {node : Node} {parser : ContractParser} {setOrder : SetOrder} {tx : TxData}
  {receipt : TxReceipt}

theorem decideSave_eq_some {toAddress : ChecksumAddress} (h : tx.toAddress = some toAddress) :
    PartialTransactionProcessor.decideSave setOrder parser (.parse tx) (.parse receipt) receipt =
      PartialTransactionProcessor.processRegularContractInteraction setOrder parser toAddress.val
        (.parse tx) (.parse receipt) receipt := by
  have htruthy : truthy (TransactionData.parse tx).toAddress = some toAddress.val := by
    rw [TransactionData.parse, truthy_val, h]
    rfl
  simp only [PartialTransactionProcessor.decideSave, htruthy]

theorem decideSave_eq_none (h : tx.toAddress = none) :
    PartialTransactionProcessor.decideSave setOrder parser (.parse tx) (.parse receipt) receipt =
      match receipt.contractAddress with
      | some contractAddress => PartialTransactionProcessor.processContractCreation parser
          contractAddress.val (.parse tx) receipt
      | none => pure ((false, ∅), parser) := by
  have htruthy : truthy (TransactionData.parse tx).toAddress = none := by
    rw [TransactionData.parse, truthy_val, h]
    rfl
  have htruthy' : truthy (TransactionReceiptData.parse receipt).contractAddress =
      receipt.contractAddress.map Subtype.val := truthy_val _
  simp only [PartialTransactionProcessor.decideSave, htruthy, htruthy']
  cases receipt.contractAddress <;> rfl

theorem eventAddresses_parse :
    (TransactionReceiptData.parse receipt).logs.map TransactionLogsData.address =
      receipt.logs.map fun log => log.address.val := by
  simp only [TransactionReceiptData.parse, List.map_map]
  rfl

/-- The branch of one known contract is the loop over its address alone. -/
theorem handleEventAddresses_singleton (txData : TransactionData) {address : String}
    {config : ContractConfig} (hconfig : parser.settings.config address = some config) :
    PartialTransactionProcessor.handleEventAddresses txData receipt [address] parser ∅ = do
      let (contract, parser) ← Program.ofExcept (parser.getContract address config.category)
      let logIndicesToSave ← handleTransactionEvents parser.settings contract config.category
        txData receipt
      return (logIndicesToSave, parser) := by
  have hcategory : parser.settings.getContractCategory address = some config.category := by
    simp [ParserSettings.getContractCategory, hconfig]
  simp only [PartialTransactionProcessor.handleEventAddresses, hcategory, Finset.empty_union]
  rfl

/-- Every case of `decideSave` is the loop over the addresses it handles,
followed by its decision. -/
theorem decideSave_eq :
    PartialTransactionProcessor.decideSave setOrder parser (.parse tx) (.parse receipt) receipt =
      do
        let (logIndicesToSave, parser') ← PartialTransactionProcessor.handleEventAddresses
          (.parse tx) receipt (handledAddresses parser.settings setOrder tx receipt) parser ∅
        return ((decision parser.settings tx receipt logIndicesToSave, logIndicesToSave),
          parser') := by
  cases hto : tx.toAddress with
  | some toAddress =>
      rw [decideSave_eq_some hto, PartialTransactionProcessor.processRegularContractInteraction]
      cases hcategory : parser.settings.getContractCategory toAddress.val with
      | none =>
          have hconfig := getContractCategory_eq_none hcategory
          simp only [eventAddresses_parse, handledAddresses, decision, hto, hconfig,
            Option.isSome_none, Bool.false_eq_true, if_false, Bool.false_or]
      | some category =>
          obtain ⟨config, hconfig, rfl⟩ := getContractCategory_eq_some hcategory
          simp only [handledAddresses, decision, hto, hconfig, Option.isSome_some, if_true,
            Bool.true_or, handleEventAddresses_singleton _ hconfig, Program.bind_assoc]
          rfl
  | none =>
      rw [decideSave_eq_none hto]
      cases hcreated : receipt.contractAddress with
      | none =>
          simp only [handledAddresses, decision, hto, hcreated]
          rfl
      | some contractAddress =>
          simp only [PartialTransactionProcessor.processContractCreation]
          cases hcategory : parser.settings.getContractCategory contractAddress.val with
          | none =>
              have hconfig := getContractCategory_eq_none hcategory
              simp only [handledAddresses, decision, hto, hcreated, hconfig, hcategory,
                PartialTransactionProcessor.handleEventAddresses]
              rfl
          | some category =>
              obtain ⟨config, hconfig, rfl⟩ := getContractCategory_eq_some hcategory
              -- the creation itself writes nothing: neither category test ever holds
              simp only [handledAddresses, decision, hto, hcreated, hconfig, Option.isSome_some,
                handleEventAddresses_singleton _ hconfig, Program.bind_assoc]
              rfl

theorem decideSave_performs (node : Node) (hparser : parser.Consistent)
    (hbuild : ∀ address ∈ handledAddresses parser.settings setOrder tx receipt,
      Buildable parser.settings address) :
    ∃ parser' : ContractParser, parser'.settings = parser.settings ∧ parser'.Consistent ∧
      Performs node
        (PartialTransactionProcessor.decideSave setOrder parser (.parse tx) (.parse receipt)
          receipt)
        ((shouldSave parser.settings setOrder tx receipt,
          savedIndices parser.settings setOrder tx receipt), parser')
        (decisionStatements parser.settings setOrder tx receipt) := by
  obtain ⟨parser', hsettings, hconsistent, hperforms⟩ :=
    handleEventAddresses_performs node (.parse tx) receipt
      (fun _ => isChecksumAddress_of_mem_handledAddresses) hparser hbuild ∅
  refine ⟨parser', hsettings, hconsistent, ?_⟩
  rw [Finset.empty_union] at hperforms
  rw [decideSave_eq, shouldSave_eq_decision, ← List.append_nil (decisionStatements _ _ _ _)]
  exact hperforms.bind (performs_done _)

theorem buildable_of_decideSave (hparser : parser.Consistent)
    {result : (Bool × Finset ℕ) × ContractParser}
    (hreturned : (PartialTransactionProcessor.decideSave setOrder parser (.parse tx)
      (.parse receipt) receipt).outcome node.answer = .returned result) :
    ∀ address ∈ handledAddresses parser.settings setOrder tx receipt,
      Buildable parser.settings address := by
  rw [decideSave_eq] at hreturned
  obtain ⟨_, hloop, _⟩ := Program.outcome_bind_returned_iff.mp hreturned
  exact buildable_of_handleEventAddresses _ receipt
    (fun _ => isChecksumAddress_of_mem_handledAddresses) hparser hloop

end Decision

/-! ## The two processors -/

section Processors

variable {node : Node} {parser : ContractParser} {setOrder : SetOrder} {tx : TxData}
  {receipt : TxReceipt}

/-- Everything mode `partial` writes for a transaction, in order. -/
def partialStatements (node : Node) (settings : ParserSettings) (setOrder : SetOrder)
    (tx : TxData) (receipt : TxReceipt) : List Statement :=
  decisionStatements settings setOrder tx receipt ++
    if shouldSave settings setOrder tx receipt then
      saveStatements node (.parse tx) (.parse receipt) (savedIndices settings setOrder tx receipt)
    else []

/-- The calls mode `partial` depends on: the contracts it builds and, when the
transaction is saved, its trace. -/
structure Succeeds (node : Node) (settings : ParserSettings) (setOrder : SetOrder)
    (tx : TxData) (receipt : TxReceipt) : Prop where
  buildable : ∀ address ∈ handledAddresses settings setOrder tx receipt, Buildable settings address
  traced : shouldSave settings setOrder tx receipt = true →
    ∃ internalTxData, internalTransactions node tx.hash = .ok internalTxData

theorem partial_performs (hparser : parser.Consistent)
    (hsucceeds : Succeeds node parser.settings setOrder tx receipt) :
    ∃ parser' : ContractParser, parser'.settings = parser.settings ∧ parser'.Consistent ∧
      Performs node
        (PartialTransactionProcessor.processTransaction setOrder parser (.parse tx)
          (.parse receipt) receipt)
        (shouldSave parser.settings setOrder tx receipt, parser')
        (partialStatements node parser.settings setOrder tx receipt) := by
  obtain ⟨parser', hsettings, hconsistent, hdecide⟩ :=
    decideSave_performs node hparser hsucceeds.buildable
  refine ⟨parser', hsettings, hconsistent, hdecide.bind ?_⟩
  cases hsave : shouldSave parser.settings setOrder tx receipt with
  | false => exact performs_done (false, parser')
  | true =>
      obtain ⟨internalTxData, htrace⟩ := hsucceeds.traced hsave
      have hstore := handleTransaction_performs (.parse tx) htrace (.parse receipt)
        (savedIndices parser.settings setOrder tx receipt)
      rw [if_pos rfl, ← List.append_nil (saveStatements _ _ _ _)]
      exact hstore.bind (performs_done (true, parser'))

theorem succeeds_of_returned (hparser : parser.Consistent) {result : Bool × ContractParser}
    (hreturned : (PartialTransactionProcessor.processTransaction setOrder parser (.parse tx)
      (.parse receipt) receipt).outcome node.answer = .returned result) :
    Succeeds node parser.settings setOrder tx receipt := by
  obtain ⟨decision, hdecision, hrest⟩ := Program.outcome_bind_returned_iff.mp hreturned
  have hbuild := buildable_of_decideSave hparser hdecision
  obtain ⟨parser', _, _, hdecide⟩ := decideSave_performs node hparser hbuild
  obtain rfl := hdecide.eq_of_returned hdecision
  refine ⟨hbuild, fun hsave => ?_⟩
  simp only [hsave] at hrest
  obtain ⟨_, hstore, _⟩ := Program.outcome_bind_returned_iff.mp hrest
  exact internalTransactions_of_returned hstore

/-- A run of mode `partial` that returns: its decision and its statements. -/
theorem partial_of_returned (hparser : parser.Consistent) {save : Bool}
    {parser' : ContractParser}
    (hreturned : (PartialTransactionProcessor.processTransaction setOrder parser (.parse tx)
      (.parse receipt) receipt).outcome node.answer = .returned (save, parser')) :
    save = shouldSave parser.settings setOrder tx receipt ∧
      parser'.settings = parser.settings ∧ parser'.Consistent ∧
      Performs node
        (PartialTransactionProcessor.processTransaction setOrder parser (.parse tx)
          (.parse receipt) receipt)
        (save, parser') (partialStatements node parser.settings setOrder tx receipt) := by
  obtain ⟨parser₁, hsettings, hconsistent, hperforms⟩ :=
    partial_performs hparser (succeeds_of_returned hparser hreturned)
  obtain ⟨rfl, rfl⟩ := Prod.mk.inj (hperforms.eq_of_returned hreturned)
  exact ⟨rfl, hsettings, hconsistent, hperforms⟩

/-- Everything mode `full` writes for a transaction. -/
def fullStatements (node : Node) (tx : TxData) (receipt : TxReceipt) : List Statement :=
  saveStatements node (.parse tx) (.parse receipt)
    ((TransactionReceiptData.parse receipt).logs.map TransactionLogsData.logIndex).toFinset

theorem full_performs {internalTxData : List InternalTransactionData}
    (htrace : internalTransactions node tx.hash = .ok internalTxData) (receipt : TxReceipt) :
    Performs node (FullTransactionProcessor.processTransaction (.parse tx) (.parse receipt)) true
      (fullStatements node tx receipt) := by
  have hstore := handleTransaction_performs (.parse tx) htrace (.parse receipt)
    ((TransactionReceiptData.parse receipt).logs.map TransactionLogsData.logIndex).toFinset
  rw [fullStatements, ← List.append_nil (saveStatements _ _ _ _)]
  exact hstore.bind (performs_done true)

theorem full_of_returned {save : Bool}
    (hreturned : (FullTransactionProcessor.processTransaction (.parse tx) (.parse receipt)).outcome
      node.answer = .returned save) :
    (∃ internalTxData, internalTransactions node tx.hash = .ok internalTxData) ∧
      Performs node (FullTransactionProcessor.processTransaction (.parse tx) (.parse receipt)) save
        (fullStatements node tx receipt) := by
  obtain ⟨_, hstore, _⟩ := Program.outcome_bind_returned_iff.mp hreturned
  obtain ⟨internalTxData, htrace⟩ := internalTransactions_of_returned hstore
  have hperforms := full_performs htrace receipt
  obtain rfl := hperforms.eq_of_returned hreturned
  exact ⟨⟨internalTxData, htrace⟩, hperforms⟩

end Processors

end BlockchainDataCollection.Saving
