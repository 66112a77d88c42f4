import BlockchainDataCollection.Effect.Program
import BlockchainDataCollection.Model.Parser
import BlockchainDataCollection.Store.Database

/-!
# The transaction processors

`TransactionProcessor` and its subclasses as programs.  A statement outside an
SQL transaction is committed on its own, so it is a block of one.  The contract
cache of the parser is the only object state, and it is passed along.
-/

namespace BlockchainDataCollection.TxProcessor

open BlockchainDataCollection.Effect
open BlockchainDataCollection.Python
open BlockchainDataCollection.Data
open BlockchainDataCollection.Events
open BlockchainDataCollection.Parser
open BlockchainDataCollection.Storage

/-! ## What a consumer calls -/

inductive ConsumerCall where
  | execute (statements : List Statement)
  | getTransaction (txHash : String)
  | getTransactionReceipt (txHash : String)
  | traceReplayTransaction (txHash : String)
  /-- `contract.functions.<name>().call()` with a string answer. -/
  | callText (address name : String)
  /-- `contract.functions.<name>().call()` with an integer answer. -/
  | callInt (address name : String)

variable [ChecksumSpelling]

abbrev ConsumerCall.Answer : ConsumerCall → Type
  | .execute _ => Unit
  | .getTransaction _ => TxData
  | .getTransactionReceipt _ => TxReceipt
  | .traceReplayTransaction _ => List TraceEntry
  | .callText _ _ => String
  | .callInt _ _ => ℤ

abbrev consumerSignature : Signature := ⟨ConsumerCall, ConsumerCall.Answer⟩

abbrev ConsumerProgram (A : Type) := Program consumerSignature PyError A

def execute (statements : List Statement) : ConsumerProgram Unit :=
  @Program.perform consumerSignature _ (.execute statements)

/-- The iteration order of a Python set built from a list. -/
structure SetOrder where
  order : List String → List String
  perm : ∀ elements, (order elements).Perm elements.dedup

/-! ## Node connector and parser methods that make calls -/

def TraceEntry.txData (entry : TraceEntry) : JsonObject :=
  match entry.result with
  | none => entry.action
  | some result => mergeObjects entry.action result

def getInternalTransactions (txHash : String) :
    ConsumerProgram (List InternalTransactionData) := do
  let data ← @Program.perform consumerSignature _ (.traceReplayTransaction txHash)
  Program.ofExcept (data.mapM fun entry => InternalTransactionData.parse (TraceEntry.txData entry))

def callText (contract : Contract) (name : String) : ConsumerProgram String :=
  @Program.perform consumerSignature _ (.callText contract.address name)

def callInt (contract : Contract) (name : String) : ConsumerProgram ℤ :=
  @Program.perform consumerSignature _ (.callInt contract.address name)

def getTokenContractData (contract : Contract) (category : ContractCategory) :
    ConsumerProgram (Option TokenContractData) :=
  if category = .erc20 ∨ category = .erc721 then do
    let symbol ← callText contract "symbol"
    let name ← callText contract "name"
    let decimals ← callInt contract "decimals"
    let totalSupply ← callInt contract "totalSupply"
    return some {
      address := contract.address
      symbol := some symbol
      name := some name
      decimals := some decimals
      totalSupply := some (toFloat totalSupply.toNat)
      tokenCategory := category.value }
  else if category = .erc1155 then
    return some {
      address := contract.address
      symbol := none
      name := none
      decimals := none
      totalSupply := none
      tokenCategory := category.value }
  else
    return none

def getPairContractData (contract : Contract) (category : ContractCategory) :
    ConsumerProgram (Option PairContractData) :=
  if category = .uniSwapV2Pair then do
    let token0 ← callText contract "token0"
    let token1 ← callText contract "token1"
    let reserve0 ← callInt contract "reserve0"
    let reserve1 ← callInt contract "reserve1"
    let factory ← callText contract "factory"
    return some { address := contract.address, token0, token1, reserve0, reserve1, factory }
  else
    return none

/-! ## The base class -/

/-- `_handle_contract_creation`: the token or pair data and the contract row go
into one SQL transaction.  The call of `insert_contract` leaves its last
argument out, and `pair_contract_data.dict()` has no key `token0_address`. -/
def handleContractCreation (contract : Contract) (txData : TransactionData)
    (category : ContractCategory) : ConsumerProgram Unit :=
  if category.isErc then do
    match ← getTokenContractData contract category with
    | none => return ()
    | some data =>
        let contractRow ← Program.ofExcept
          (insertContract data.address txData.transactionHash none)
        execute [contractRow, insertTokenContract {
          address := data.address
          symbol := data.symbol
          name := data.name
          decimals := data.decimals
          totalSupply := data.totalSupply
          tokenCategory := data.tokenCategory }]
  else if category.isUniswapPair then do
    match ← getPairContractData contract category with
    | none => return ()
    | some data =>
        let contractRow ← Program.ofExcept
          (insertContract data.address txData.transactionHash none)
        execute [contractRow]
        Program.raise (.typeError
          "insert_pair_contract() got an unexpected keyword argument 'token0'")
  else
    return ()

/-- The local variables of the loop in `_handle_transaction_events`; `event` is
the loop variable, which keeps its last value after the loop. -/
structure EventTotals where
  logIndicesToSave : Finset ℕ
  amountChanged : ℤ
  pairAmount0Changed : ℤ
  pairAmount1Changed : ℤ
  event : Option ContractEvent
  deriving DecidableEq

namespace EventTotals

def start : EventTotals := ⟨∅, 0, 0, 0, none⟩

/-- An event that is not allowed, or was emitted by another contract. -/
def skip (totals : EventTotals) (event : ContractEvent) : EventTotals :=
  { totals with event := some event }

/-- Mark the log and add what the event changes. -/
def add (totals : EventTotals) (event : ContractEvent) : EventTotals :=
  let marked := { totals with
    logIndicesToSave := insert event.logIndex totals.logIndicesToSave
    event := some event }
  match event.body with
  | .burnFungible value => { marked with amountChanged := totals.amountChanged - value }
  | .mintFungible value => { marked with amountChanged := totals.amountChanged + value }
  | .mintPair _ amount0 amount1 => { marked with
      pairAmount0Changed := totals.pairAmount0Changed + amount0
      pairAmount1Changed := totals.pairAmount1Changed + amount1 }
  | .burnPair _ _ amount0 amount1 => { marked with
      pairAmount0Changed := totals.pairAmount0Changed - amount0
      pairAmount1Changed := totals.pairAmount1Changed - amount1 }
  | .swapPair _ _ in0 in1 out0 out1 => { marked with
      pairAmount0Changed := totals.pairAmount0Changed + in0 - out0
      pairAmount1Changed := totals.pairAmount1Changed + in1 - out1 }
  | .transferFungible .. => marked
  | .pairCreated .. => marked
  | .mintNonFungible .. => marked
  | .burnNonFungible .. => marked
  | .transferNonFungible .. => marked

end EventTotals

/-- The statement an event issues inside the loop. -/
def nftTransferStatement (txHash : String) (event : ContractEvent) : Option Statement :=
  match event.body with
  | .transferNonFungible src dst tokenId => some (insertNftTransfer {
      transactionHash := txHash
      logIndex := event.logIndex
      address := event.address
      fromAddress := src
      toAddress := dst
      tokenId })
  | _ => none

/-- The loop of `_handle_transaction_events`. -/
def handleEvents (allowedEvents : Option (Finset String)) (contract : Contract)
    (txHash : String) : List ContractEvent → EventTotals → ConsumerProgram EventTotals
  | [], totals => .done totals
  | event :: events, totals =>
      match allowedEvents with
      | none => .raise (.typeError "argument of type 'NoneType' is not iterable")
      | some allowed =>
          if event.body.typeName ∉ allowed ∨ event.address ≠ contract.address then
            handleEvents allowedEvents contract txHash events (totals.skip event)
          else
            match nftTransferStatement txHash event with
            | some statement => do
                execute [statement]
                handleEvents allowedEvents contract txHash events (totals.add event)
            | none => handleEvents allowedEvents contract txHash events (totals.add event)

/-- The row is keyed by the address of the loop variable. -/
def saveSupplyChange (txHash : String) (totals : EventTotals) : ConsumerProgram Unit :=
  if totals.amountChanged ≠ 0 then
    match totals.event with
    | none => .raise (.unboundLocalError "event")
    | some event => execute [insertContractSupplyChange {
        address := event.address
        transactionHash := txHash
        amountChanged := totals.amountChanged }]
  else
    return ()

def savePairLiquidityChange (contract : Contract) (txHash : String) (totals : EventTotals) :
    ConsumerProgram Unit :=
  if totals.pairAmount0Changed ≠ 0 ∨ totals.pairAmount1Changed ≠ 0 then
    execute [insertPairLiquidityChange {
      address := contract.address
      amount0 := totals.pairAmount0Changed
      amount1 := totals.pairAmount1Changed
      transactionHash := txHash }]
  else
    return ()

def handleTransactionEvents (settings : ParserSettings) (contract : Contract)
    (category : ContractCategory) (txData : TransactionData) (txReceipt : TxReceipt) :
    ConsumerProgram (Finset ℕ) := do
  let totals ← handleEvents (settings.getContractEvents contract.address) contract
    txData.transactionHash (getTransactionEvents settings.w3 category contract txReceipt)
    EventTotals.start
  saveSupplyChange txData.transactionHash totals
  savePairLiquidityChange contract txData.transactionHash totals
  return totals.logIndicesToSave

/-- The row `insert_transaction(**tx_data.dict(), …)` writes. -/
def transactionRow (txData : TransactionData) (txReceiptData : TransactionReceiptData) :
    TransactionRow where
  transactionHash := txData.transactionHash
  blockNumber := txData.blockNumber
  fromAddress := txData.fromAddress
  toAddress := txData.toAddress
  value := txData.value
  transactionFee := floatMul txData.gasPrice txReceiptData.gasUsed
  gasPrice := txData.gasPrice
  gasLimit := txData.gasLimit
  gasUsed := txReceiptData.gasUsed
  isTokenTx := true
  inputData := txData.inputData

def transactionLogsRow (txLog : TransactionLogsData) : TransactionLogsRow where
  transactionHash := txLog.transactionHash
  address := txLog.address
  logIndex := txLog.logIndex
  data := txLog.data
  removed := txLog.removed
  topics := txLog.topics

def internalTransactionRow (txHash : String) (internalTx : InternalTransactionData) :
    InternalTransactionRow where
  transactionHash := txHash
  fromAddress := internalTx.fromAddress
  toAddress := internalTx.toAddress
  value := internalTx.value
  gasLimit := internalTx.gasLimit
  gasUsed := internalTx.gasUsed
  inputData := internalTx.inputData
  callType := internalTx.callType

def handleTransaction (txData : TransactionData) (txReceiptData : TransactionReceiptData)
    (logIndicesToSave : Finset ℕ) : ConsumerProgram Unit := do
  execute [insertTransaction (transactionRow txData txReceiptData)]
  let logsToSave := txReceiptData.logs.filter fun log => log.logIndex ∈ logIndicesToSave
  execute (logsToSave.map fun txLog => insertTransactionLogs (transactionLogsRow txLog))
  let internalTxData ← getInternalTransactions txData.transactionHash
  if internalTxData = [] then
    return ()
  else
    execute (internalTxData.map fun internalTx =>
      insertInternalTransaction (internalTransactionRow txData.transactionHash internalTx))

/-! ## Mode `full` -/

namespace FullTransactionProcessor

def processTransaction (txData : TransactionData) (txReceiptData : TransactionReceiptData) :
    ConsumerProgram Bool := do
  handleTransaction txData txReceiptData
    (txReceiptData.logs.map TransactionLogsData.logIndex).toFinset
  return true

end FullTransactionProcessor

/-! ## Mode `partial` -/

namespace PartialTransactionProcessor

/-- The loop over the event addresses when `to_address` is not configured. -/
def handleEventAddresses (txData : TransactionData) (w3TxReceipt : TxReceipt) :
    List String → ContractParser → Finset ℕ → ConsumerProgram (Finset ℕ × ContractParser)
  | [], parser, logIndicesToSave => .done (logIndicesToSave, parser)
  | address :: addresses, parser, logIndicesToSave =>
      match parser.settings.getContractCategory address with
      | none => handleEventAddresses txData w3TxReceipt addresses parser logIndicesToSave
      | some contractCategory => do
          let (contract, parser) ← Program.ofExcept
            (parser.getContract address contractCategory)
          let logIndices ← handleTransactionEvents parser.settings contract contractCategory
            txData w3TxReceipt
          handleEventAddresses txData w3TxReceipt addresses parser
            (logIndicesToSave ∪ logIndices)

def processRegularContractInteraction (setOrder : SetOrder) (parser : ContractParser)
    (contractAddress : String) (txData : TransactionData)
    (txReceiptData : TransactionReceiptData) (w3TxReceipt : TxReceipt) :
    ConsumerProgram ((Bool × Finset ℕ) × ContractParser) :=
  let eventAddresses := setOrder.order (txReceiptData.logs.map TransactionLogsData.address)
  match parser.settings.getContractCategory contractAddress with
  | none => do
      let (logIndicesToSave, parser) ←
        handleEventAddresses txData w3TxReceipt eventAddresses parser ∅
      return ((decide (0 < logIndicesToSave.card), logIndicesToSave), parser)
  | some contractCategory => do
      let (contract, parser) ← Program.ofExcept
        (parser.getContract contractAddress contractCategory)
      let logIndicesToSave ← handleTransactionEvents parser.settings contract contractCategory
        txData w3TxReceipt
      return ((true, logIndicesToSave), parser)

def processContractCreation (parser : ContractParser) (contractAddress : String)
    (txData : TransactionData) (w3TxReceipt : TxReceipt) :
    ConsumerProgram ((Bool × Finset ℕ) × ContractParser) :=
  match parser.settings.getContractCategory contractAddress with
  | some contractCategory => do
      let (contract, parser) ← Program.ofExcept
        (parser.getContract contractAddress contractCategory)
      handleContractCreation contract txData contractCategory
      let logIndicesToSave ← handleTransactionEvents parser.settings contract contractCategory
        txData w3TxReceipt
      return ((true, logIndicesToSave), parser)
  | none => return ((false, ∅), parser)

/-- What the three cases decide: whether to save, and which logs. -/
def decideSave (setOrder : SetOrder) (parser : ContractParser) (txData : TransactionData)
    (txReceiptData : TransactionReceiptData) (w3TxReceipt : TxReceipt) :
    ConsumerProgram ((Bool × Finset ℕ) × ContractParser) :=
  match truthy txData.toAddress with
  | some toAddress =>
      processRegularContractInteraction setOrder parser toAddress txData txReceiptData w3TxReceipt
  | none =>
      match truthy txReceiptData.contractAddress with
      | some contractAddress => processContractCreation parser contractAddress txData w3TxReceipt
      | none => return ((false, ∅), parser)

def processTransaction (setOrder : SetOrder) (parser : ContractParser) (txData : TransactionData)
    (txReceiptData : TransactionReceiptData) (w3TxReceipt : TxReceipt) :
    ConsumerProgram (Bool × ContractParser) := do
  let ((shouldSaveTx, logIndicesToSave), parser) ←
    decideSave setOrder parser txData txReceiptData w3TxReceipt
  if shouldSaveTx then
    handleTransaction txData txReceiptData logIndicesToSave
    return (shouldSaveTx, parser)
  else
    return (shouldSaveTx, parser)

end PartialTransactionProcessor

end BlockchainDataCollection.TxProcessor
