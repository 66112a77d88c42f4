import BlockchainDataCollection.Consumer.Saving

/-!
# Relevant logs

A log is relevant when its emitter is configured and it decodes, under the
emitter's category, to an event allowed for the emitter.  The sets of log
indices the processors pass around select exactly the relevant logs of the
handled addresses, although they carry no address.
-/

namespace BlockchainDataCollection.Relevance

open BlockchainDataCollection.Effect
open BlockchainDataCollection.Python
open BlockchainDataCollection.Data
open BlockchainDataCollection.Events
open BlockchainDataCollection.Parser
open BlockchainDataCollection.Storage
open BlockchainDataCollection.TxProcessor
open BlockchainDataCollection.Processing
open BlockchainDataCollection.Saving
open ChecksumSpelling

section Relevance

variable [ChecksumSpelling]

/-- `log` decodes, under the configuration of its emitter, to an allowed event. -/
def RelevantLog (settings : ParserSettings) (log : LogReceipt) : Prop :=
  ∃ config, settings.config log.address.val = some config ∧
    ∃ event ∈ logEvents settings.w3 config.category
      ⟨log.address.val, settings.getContractAbi config.category⟩ log,
      event.body.typeName ∈ config.events

instance (settings : ParserSettings) (log : LogReceipt) : Decidable (RelevantLog settings log) :=
  match h : settings.config log.address.val with
  | none => isFalse (by simp [RelevantLog, h])
  | some config => decidable_of_iff
      (∃ event ∈ logEvents settings.w3 config.category
        ⟨log.address.val, settings.getContractAbi config.category⟩ log,
        event.body.typeName ∈ config.events) (by simp [RelevantLog, h])

/-- The row of a log in `transaction_logs`. -/
def logRow (log : LogReceipt) : TransactionLogsRow :=
  transactionLogsRow (.parse log)

/-- No two logs of the receipt share their index. -/
def DistinctIndices (receipt : TxReceipt) : Prop :=
  (receipt.logs.map LogReceipt.logIndex).Nodup

instance (receipt : TxReceipt) : Decidable (DistinctIndices receipt) :=
  inferInstanceAs (Decidable (List.Nodup _))

section Receipt

variable {settings : ParserSettings} {receipt : TxReceipt}

theorem DistinctIndices.eq_of_logIndex_eq (h : DistinctIndices receipt) {left right : LogReceipt}
    (hleft : left ∈ receipt.logs) (hright : right ∈ receipt.logs)
    (heq : left.logIndex = right.logIndex) : left = right :=
  List.inj_on_of_nodup_map h hleft hright heq

/-- The handled events of a configured address, one log at a time. -/
theorem mem_receiptEvents_iff {address : String} {config : ContractConfig}
    {event : ContractEvent} :
    event ∈ receiptEvents settings address config receipt ∧
        IsHandled config.events address event ↔
      ∃ log ∈ receipt.logs, log.address.val = address ∧
        event ∈ logEvents settings.w3 config.category
          ⟨log.address.val, settings.getContractAbi config.category⟩ log ∧
        event.body.typeName ∈ config.events := by
  rw [receiptEvents, mem_getTransactionEvents_iff_logEvents]
  constructor
  · rintro ⟨⟨log, hlog, hevent⟩, hallowed, haddress⟩
    obtain rfl : log.address.val = address := (keeps_of_mem_logEvents hevent).1 ▸ haddress
    exact ⟨log, hlog, rfl, hevent, hallowed⟩
  · rintro ⟨log, hlog, rfl, hevent, hallowed⟩
    exact ⟨⟨log, hlog, hevent⟩, hallowed, (keeps_of_mem_logEvents hevent).1⟩

/-- The indices an address selects are those of its own relevant logs. -/
theorem mem_eventIndices_iff {address : String} {index : ℕ} :
    index ∈ eventIndices settings receipt address ↔
      ∃ log ∈ receipt.logs, log.address.val = address ∧ RelevantLog settings log ∧
        log.logIndex = index := by
  cases hconfig : settings.config address with
  | none =>
      simp only [eventIndices, hconfig, Finset.notMem_empty, false_iff]
      rintro ⟨log, _, rfl, ⟨config, hconfig', _⟩, _⟩
      rw [hconfig] at hconfig'
      cases hconfig'
  | some config =>
      have hindices : index ∈ eventIndices settings receipt address ↔
          ∃ event, (event ∈ receiptEvents settings address config receipt ∧
            IsHandled config.events address event) ∧ event.logIndex = index := by
        simp [eventIndices, hconfig, receiptTotals, totalsOf]
      simp only [hindices, mem_receiptEvents_iff]
      constructor
      · rintro ⟨event, ⟨log, hlog, rfl, hevent, hallowed⟩, rfl⟩
        exact ⟨log, hlog, rfl, ⟨config, hconfig, event, hevent, hallowed⟩,
          (keeps_of_mem_logEvents hevent).2.symm⟩
      · rintro ⟨log, hlog, rfl, ⟨config', hconfig', event, hevent, hallowed⟩, rfl⟩
        obtain rfl : config = config' := Option.some.inj (hconfig.symm.trans hconfig')
        exact ⟨event, ⟨log, hlog, rfl, hevent, hallowed⟩, (keeps_of_mem_logEvents hevent).2⟩

theorem mem_unionIndices_iff {addresses : List String} {index : ℕ} :
    index ∈ unionIndices settings receipt addresses ↔
      ∃ log ∈ receipt.logs, log.address.val ∈ addresses ∧ RelevantLog settings log ∧
        log.logIndex = index := by
  simp only [unionIndices, Finset.mem_biUnion, List.mem_toFinset, mem_eventIndices_iff]
  constructor
  · rintro ⟨_, haddress, log, hlog, rfl, hrelevant, hindex⟩
    exact ⟨log, hlog, haddress, hrelevant, hindex⟩
  · rintro ⟨log, hlog, haddress, hrelevant, hindex⟩
    exact ⟨_, haddress, log, hlog, rfl, hrelevant, hindex⟩

/-- With distinct indices, an index set selects a log exactly when the log is
relevant and its emitter is handled. -/
theorem logIndex_mem_unionIndices_iff (hindices : DistinctIndices receipt)
    {addresses : List String} {log : LogReceipt} (hlog : log ∈ receipt.logs) :
    log.logIndex ∈ unionIndices settings receipt addresses ↔
      log.address.val ∈ addresses ∧ RelevantLog settings log := by
  rw [mem_unionIndices_iff]
  constructor
  · rintro ⟨other, hother, haddress, hrelevant, hindex⟩
    obtain rfl := hindices.eq_of_logIndex_eq hother hlog hindex
    exact ⟨haddress, hrelevant⟩
  · rintro ⟨haddress, hrelevant⟩
    exact ⟨log, hlog, haddress, hrelevant, rfl⟩

/-- Two addresses never select the same log. -/
theorem disjoint_eventIndices (hindices : DistinctIndices receipt) {left right : String}
    (hne : left ≠ right) :
    Disjoint (eventIndices settings receipt left) (eventIndices settings receipt right) := by
  rw [Finset.disjoint_left]
  intro index hleft hright
  obtain ⟨log, hlog, hlogLeft, _, rfl⟩ := mem_eventIndices_iff.mp hleft
  obtain ⟨other, hother, hotherRight, _, hindex⟩ := mem_eventIndices_iff.mp hright
  obtain rfl := hindices.eq_of_logIndex_eq hother hlog hindex
  exact hne (hlogLeft.symm.trans hotherRight)

end Receipt

/-! ## Token transfers -/

section Transfers

variable {settings : ParserSettings}

/-- The token transfer a log is recorded with: its emitter is a configured
ERC721 contract that allows the event. -/
def recordedTransfer (settings : ParserSettings) (log : LogReceipt) : Option TokenTransferArgs :=
  match settings.config log.address.val with
  | none => none
  | some config =>
      if config.category = .erc721 ∧ "TransferNonFungibleEvent" ∈ config.events then
        settings.w3.decodeLog (some settings.contractAbi.erc721) .erc721Transfer log
      else none

theorem recordedTransfer_eq_some_iff {log : LogReceipt} {args : TokenTransferArgs} :
    recordedTransfer settings log = some args ↔
      ∃ config, settings.config log.address.val = some config ∧ config.category = .erc721 ∧
        "TransferNonFungibleEvent" ∈ config.events ∧
        settings.w3.decodeLog (some settings.contractAbi.erc721) .erc721Transfer log =
          some args := by
  unfold recordedTransfer
  cases settings.config log.address.val with
  | none => simp
  | some config => simp [and_assoc]

def nftTransferRow (txHash : String) (log : LogReceipt) (args : TokenTransferArgs) :
    NftTransferRow where
  transactionHash := txHash
  logIndex := log.logIndex
  address := log.address.val
  fromAddress := args.src
  toAddress := args.dst
  tokenId := args.tokenId

omit [ChecksumSpelling] in
theorem nftTransferStatement_eq_some_iff {txHash : String} {event : ContractEvent}
    {row : NftTransferRow} :
    nftTransferStatement txHash event = some (.insert .nftTransfer row) ↔
      event = ⟨row.address, row.logIndex,
          .transferNonFungible row.fromAddress row.toAddress row.tokenId⟩ ∧
        row.transactionHash = txHash := by
  obtain ⟨address, logIndex, body⟩ := event
  obtain ⟨transactionHash, rowIndex, rowAddress, fromAddress, toAddress, rowToken⟩ := row
  cases body <;> simp [nftTransferStatement, insertNftTransfer, Statement.insert]
  grind

end Transfers

/-! ## The tables each list of statements writes -/

section Tables

variable {settings : ParserSettings} {node : Node}

omit [ChecksumSpelling] in
theorem table_of_mem_nftStatements {allowed : Finset String} {address txHash : String}
    {events : List ContractEvent} {statement : Statement}
    (h : statement ∈ nftStatements allowed address txHash events) :
    statement.table = .nftTransfer := by
  obtain ⟨event, _, hevent⟩ := List.mem_filterMap.mp h
  unfold nftTransferStatement at hevent
  split at hevent
  · exact (Option.some.inj hevent) ▸ rfl
  · cases hevent

omit [ChecksumSpelling] in
theorem table_of_mem_supplyStatements {txHash : String} {totals : EventTotals}
    {statement : Statement} (h : statement ∈ supplyStatements txHash totals) :
    statement.table = .contractSupplyChange := by
  unfold supplyStatements at h
  split at h
  · cases h
  · split at h
    · cases h
    · exact (List.mem_singleton.mp h) ▸ rfl

omit [ChecksumSpelling] in
theorem table_of_mem_pairStatements {address txHash : String} {totals : EventTotals}
    {statement : Statement} (h : statement ∈ pairStatements address txHash totals) :
    statement.table = .pairLiquidityChange := by
  unfold pairStatements at h
  split at h
  · cases h
  · exact (List.mem_singleton.mp h) ▸ rfl

/-- The tables the events of a transaction are written to. -/
def eventTables : List TableName := [.contractSupplyChange, .pairLiquidityChange, .nftTransfer]

theorem table_of_mem_eventStatements {txHash : String} {receipt : TxReceipt} {address : String}
    {statement : Statement} (h : statement ∈ eventStatements settings txHash receipt address) :
    statement.table ∈ eventTables := by
  unfold eventStatements at h
  split at h
  · cases h
  · rcases List.mem_append.mp h with h | h
    · simp [eventTables, table_of_mem_nftStatements h]
    rcases List.mem_append.mp h with h | h
    · simp [eventTables, table_of_mem_supplyStatements h]
    · simp [eventTables, table_of_mem_pairStatements h]

theorem rowsOf_decisionStatements_eq_nil {setOrder : SetOrder} {tx : TxData}
    {receipt : TxReceipt} {name : TableName} (hname : name ∉ eventTables) :
    rowsOf name (decisionStatements settings setOrder tx receipt) = [] := by
  refine rowsOf_eq_nil fun statement hstatement htable => hname ?_
  obtain ⟨_, _, h⟩ := List.mem_flatMap.mp hstatement
  exact htable ▸ table_of_mem_eventStatements h

/-- The token transfers written for an address are those recorded of its logs. -/
theorem mem_nftTransfer_eventStatements_iff {txHash address : String} {receipt : TxReceipt}
    {row : NftTransferRow} :
    row ∈ rowsOf .nftTransfer (eventStatements settings txHash receipt address) ↔
      ∃ log ∈ receipt.logs, log.address.val = address ∧
        ∃ args, recordedTransfer settings log = some args ∧
          row = nftTransferRow txHash log args := by
  rw [mem_rowsOf_iff]
  simp only [recordedTransfer_eq_some_iff]
  cases hconfig : settings.config address with
  | none =>
      simp only [eventStatements, hconfig, List.not_mem_nil, false_iff]
      rintro ⟨log, _, rfl, args, ⟨config, hconfig', _⟩, _⟩
      rw [hconfig] at hconfig'
      cases hconfig'
  | some config =>
      have hmem : Statement.insert .nftTransfer row ∈
          eventStatements settings txHash receipt address ↔
          ∃ event, (event ∈ receiptEvents settings address config receipt ∧
            IsHandled config.events address event) ∧
            nftTransferStatement txHash event = some (.insert .nftTransfer row) := by
        simp only [eventStatements, hconfig, List.mem_append]
        rw [or_iff_left, nftStatements, List.mem_filterMap]
        · simp
        · rintro (h | h)
          · cases table_of_mem_supplyStatements h
          · cases table_of_mem_pairStatements h
      simp only [hmem, mem_receiptEvents_iff, nftTransferStatement_eq_some_iff]
      constructor
      · rintro ⟨_, ⟨log, hlog, rfl, hevent, hallowed⟩, rfl, rfl⟩
        obtain ⟨hcategory, haddress, hindex, hargs⟩ :=
          transferNonFungible_mem_logEvents_iff.mp hevent
        rw [hcategory] at hargs
        refine ⟨log, hlog, rfl, _, ⟨config, hconfig, hcategory, hallowed, hargs⟩, ?_⟩
        simp only [nftTransferRow, ← haddress, ← hindex]
      · rintro ⟨log, hlog, rfl, args, ⟨config', hconfig', hcategory, hallowed, hargs⟩, rfl⟩
        obtain rfl : config = config' := Option.some.inj (hconfig.symm.trans hconfig')
        refine ⟨⟨log.address.val, log.logIndex,
          .transferNonFungible args.src args.dst args.tokenId⟩,
          ⟨log, hlog, rfl, ?_, hallowed⟩, rfl, rfl⟩
        rw [transferNonFungible_mem_logEvents_iff, hcategory]
        exact ⟨rfl, rfl, rfl, hargs⟩

/-- Saving writes the transaction, the selected logs and the trace, each into
its own table. -/
theorem rowsOf_saveStatements (txData : TransactionData) (txReceiptData : TransactionReceiptData)
    (indices : Finset ℕ) (name : TableName) :
    rowsOf name (saveStatements node txData txReceiptData indices) =
      rowsOf name [insertTransaction (transactionRow txData txReceiptData)] ++
        (rowsOf name (logStatements txReceiptData indices) ++
          rowsOf name (internalStatements node txData.transactionHash)) := by
  rw [← rowsOf_append, ← rowsOf_append]
  rfl

theorem rowsOf_transaction_saveStatements (txData : TransactionData)
    (txReceiptData : TransactionReceiptData) (indices : Finset ℕ) :
    rowsOf .transaction (saveStatements node txData txReceiptData indices) =
      [transactionRow txData txReceiptData] := by
  have hlogs : rowsOf .transaction (logStatements txReceiptData indices) = [] :=
    rowsOf_map_insert_of_ne TableName.noConfusion _ _
  have hinternal : rowsOf .transaction (internalStatements node txData.transactionHash) = [] :=
    rowsOf_map_insert_of_ne TableName.noConfusion _ _
  rw [rowsOf_saveStatements, hlogs, hinternal]
  rfl

theorem rowsOf_transactionLogs_saveStatements (txData : TransactionData) (receipt : TxReceipt)
    (indices : Finset ℕ) :
    rowsOf .transactionLogs (saveStatements node txData (.parse receipt) indices) =
      (receipt.logs.map logRow).filter fun row => row.logIndex ∈ indices := by
  have hlogs : rowsOf .transactionLogs (logStatements (.parse receipt) indices) =
      ((TransactionReceiptData.parse receipt).logs.filter fun log => log.logIndex ∈ indices).map
        transactionLogsRow :=
    rowsOf_map_insert .transactionLogs _ _
  have hinternal :
      rowsOf .transactionLogs (internalStatements node txData.transactionHash) = [] :=
    rowsOf_map_insert_of_ne TableName.noConfusion _ _
  rw [rowsOf_saveStatements, hlogs, hinternal, List.append_nil]
  simp only [TransactionReceiptData.parse, List.filter_map, List.map_map]
  rfl

theorem rowsOf_internalTransaction_saveStatements (txData : TransactionData)
    (txReceiptData : TransactionReceiptData) (indices : Finset ℕ) :
    rowsOf .internalTransaction (saveStatements node txData txReceiptData indices) =
      (storedInternalTransactions node txData.transactionHash).map
        (internalTransactionRow txData.transactionHash) := by
  have hlogs : rowsOf .internalTransaction (logStatements txReceiptData indices) = [] :=
    rowsOf_map_insert_of_ne TableName.noConfusion _ _
  have hinternal :
      rowsOf .internalTransaction (internalStatements node txData.transactionHash) =
        (storedInternalTransactions node txData.transactionHash).map
          (internalTransactionRow txData.transactionHash) :=
    rowsOf_map_insert .internalTransaction _ _
  rw [rowsOf_saveStatements, hlogs, hinternal]
  rfl

/-- Saving writes nothing but these three tables. -/
theorem rowsOf_saveStatements_eq_nil {txData : TransactionData}
    {txReceiptData : TransactionReceiptData} {indices : Finset ℕ} {name : TableName}
    (htransaction : name ≠ .transaction) (hlogs : name ≠ .transactionLogs)
    (hinternal : name ≠ .internalTransaction) :
    rowsOf name (saveStatements node txData txReceiptData indices) = [] := by
  have hlogRows : rowsOf name (logStatements txReceiptData indices) = [] :=
    rowsOf_map_insert_of_ne hlogs.symm _ _
  have hinternalRows : rowsOf name (internalStatements node txData.transactionHash) = [] :=
    rowsOf_map_insert_of_ne hinternal.symm _ _
  rw [rowsOf_saveStatements, hlogRows, hinternalRows, List.append_nil, List.append_nil]
  exact rowsOf_insert_cons_of_ne htransaction.symm _ _

end Tables

end Relevance

/-! ## A deployment with three tokens

Three configured contracts, a web3 that decodes their transfers as the real one
does, and a node without traces: the concrete inputs of the later modules. -/

namespace Deployment

def addresses : List String :=
  ["0x1000000000000000000000000000000000000001", "0x2000000000000000000000000000000000000002",
    "0x3000000000000000000000000000000000000003", "0x4000000000000000000000000000000000000004",
    "0x0000000000000000000000000000000000000000"]

-- the checksum spelling of an address without letters is the address itself
scoped instance spelling : ChecksumSpelling where
  isChecksumAddress text := text ∈ addresses
  eq_of_lower_eq := by
    have h : ∀ left ∈ addresses, ∀ right ∈ addresses, lower left = lower right →
      left = right := by decide
    intro left right hleft hright
    exact h left (of_decide_eq_true hleft) right (of_decide_eq_true hright)
  not_empty := by decide

def coin : ChecksumAddress := ⟨"0x1000000000000000000000000000000000000001", by decide⟩

def token : ChecksumAddress := ⟨"0x2000000000000000000000000000000000000002", by decide⟩

def collectible : ChecksumAddress := ⟨"0x3000000000000000000000000000000000000003", by decide⟩

def holder : ChecksumAddress := ⟨"0x4000000000000000000000000000000000000004", by decide⟩

def zeroAddress : ChecksumAddress := ⟨"0x0000000000000000000000000000000000000000", by decide⟩

def transferTopic : String :=
  "0xddf252ad1be2c89b69c2b068fc378daa952ba7f163c4a11628f55a4df523b3ef"

def addressTopic (address : ChecksumAddress) : String :=
  String.ofList ('0' :: 'x' :: (List.replicate 24 '0' ++ address.val.toList.drop 2))

/-- The address in the last forty digits of a topic. -/
def topicAddress (topic : String) : String :=
  String.ofList ('0' :: 'x' :: topic.toList.drop 26)

def contractAbi : ContractABI where
  erc20 := "erc20"
  erc721 := "erc721"
  erc1155 := "erc1155"
  uniSwapV2Factory := "UniSwapV2Factory"
  uniSwapV2Pair := "UniSwapV2Pair"

def decodeLog (abi : Option Abi) : (event : AbiEvent) → LogReceipt → Option event.Args
  | .erc20Transfer, log =>
      match log.topics with
      | [topic, src, dst] =>
          if abi = some contractAbi.erc20 ∧ topic = transferTopic then
            some ⟨topicAddress src, topicAddress dst, (intBase16 log.data).toOption.getD 0⟩
          else none
      | _ => none
  | .erc721Transfer, log =>
      match log.topics with
      | [topic, src, dst, tokenId] =>
          if abi = some contractAbi.erc721 ∧ topic = transferTopic then
            some ⟨topicAddress src, topicAddress dst, (intBase16 tokenId).toOption.getD 0⟩
          else none
      | _ => none
  | _, _ => none

def w3 : Web3 where
  ethContract address abi :=
    if isChecksumAddress address then .ok ⟨address, abi⟩ else .error (.invalidAddress address)
  decodeLog := decodeLog
  ethContract_ok := by
    intro address abi contract h
    split at h
    · exact ⟨‹_›, (Except.ok.inj h).symm⟩
    · cases h

def parser : ContractParser :=
  ContractParser.init w3
    [⟨coin.val, "COIN", .erc20, {"MintFungibleEvent", "BurnFungibleEvent"}⟩,
      ⟨token.val, "TKN", .erc20, {"MintFungibleEvent", "TransferFungibleEvent"}⟩,
      ⟨collectible.val, "NFT", .erc721, {"TransferNonFungibleEvent"}⟩] contractAbi

theorem parser_consistent : parser.Consistent := ContractParser.consistent_init _ _ _

def txHash : String := "0x01"

/-- An ERC20 transfer of `data` tokens, or an ERC721 transfer with a third topic. -/
def transferLog (emitter : ChecksumAddress) (logIndex : ℕ) (src dst : ChecksumAddress)
    (data : String) (tokenId : List String) : LogReceipt where
  address := emitter
  data := data
  removed := false
  topics := [transferTopic, addressTopic src, addressTopic dst] ++ tokenId
  logIndex := logIndex
  transactionHash := txHash

def transaction (toAddress : Option ChecksumAddress) : TxData where
  hash := txHash
  blockNumber := 7
  fromAddress := holder
  toAddress := toAddress
  value := 0
  gasPrice := 10
  gas := 21000
  input := "0x"

def node : Node where
  getTransaction _ := .ok (transaction none)
  getTransactionReceipt _ := .ok ⟨21000, [], none⟩
  traceReplayTransaction _ := .ok []
  callText _ _ := .ok ""
  callInt _ _ := .ok 0

def setOrder : SetOrder := ⟨List.dedup, fun _ => List.Perm.refl _⟩

/-- Every contract can be built and no transaction has a trace. -/
theorem succeeds (tx : TxData) (receipt : TxReceipt) :
    Succeeds node parser.settings setOrder tx receipt where
  buildable _ haddress _ _ :=
    ⟨_, if_pos (isChecksumAddress_of_mem_handledAddresses haddress)⟩
  traced _ := ⟨[], rfl⟩

end Deployment

end BlockchainDataCollection.Relevance
