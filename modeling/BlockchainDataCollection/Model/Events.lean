import BlockchainDataCollection.Model.Data

/-!
# Contract events and the mappers that yield them

A mapper asks web3 for the logs of one ABI event and turns each decoded log
into the collector's own events.  The registry lists the mappers of every
contract category; the whole receipt is decoded, whoever emitted the log.
-/

namespace BlockchainDataCollection.Events

open BlockchainDataCollection.Python
open BlockchainDataCollection.Data
open ChecksumSpelling

/-! ## The collector's events -/

/-- The fields each `ContractEvent` subclass adds. -/
inductive EventBody where
  | mintFungible (value : ℤ)
  | burnFungible (value : ℤ)
  | transferFungible (src dst : String) (value : ℤ)
  | pairCreated (pairAddress token0 token1 : String)
  | mintPair (sender : String) (amount0 amount1 : ℤ)
  | burnPair (src dst : String) (amount0 amount1 : ℤ)
  | swapPair (src dst : String) (in0 in1 out0 out1 : ℤ)
  | mintNonFungible (tokenId : String)
  | burnNonFungible (tokenId : ℤ)
  | transferNonFungible (src dst : String) (tokenId : ℤ)
  deriving DecidableEq

/-- `type(event).__name__`. -/
def EventBody.typeName : EventBody → String
  | .mintFungible .. => "MintFungibleEvent"
  | .burnFungible .. => "BurnFungibleEvent"
  | .transferFungible .. => "TransferFungibleEvent"
  | .pairCreated .. => "PairCreatedEvent"
  | .mintPair .. => "MintPairEvent"
  | .burnPair .. => "BurnPairEvent"
  | .swapPair .. => "SwapPairEvent"
  | .mintNonFungible .. => "MintNonFungibleEvent"
  | .burnNonFungible .. => "BurnNonFungibleEvent"
  | .transferNonFungible .. => "TransferNonFungibleEvent"

structure ContractEvent where
  address : String
  logIndex : ℕ
  body : EventBody
  deriving DecidableEq

/-! ## Decoding with web3 -/

/-- An ABI, kept as the JSON text it is loaded from; only web3 looks inside. -/
abbrev Abi := String

/-- `contract_abi.json`. -/
structure ContractABI where
  erc20 : Abi
  erc721 : Abi
  erc1155 : Abi
  uniSwapV2Factory : Abi
  uniSwapV2Pair : Abi

/-- A web3 `Contract` instance. -/
structure Contract where
  address : String
  abi : Option Abi
  deriving DecidableEq

/-- The ABI events the mappers ask for. -/
inductive AbiEvent where
  | erc20Transfer
  | issue
  | redeem
  | erc721Transfer
  | mint
  | burn
  | swap
  | pairCreated
  deriving DecidableEq

def AbiEvent.name : AbiEvent → String
  | .erc20Transfer => "Transfer"
  | .issue => "Issue"
  | .redeem => "Redeem"
  | .erc721Transfer => "Transfer"
  | .mint => "Mint"
  | .burn => "Burn"
  | .swap => "Swap"
  | .pairCreated => "PairCreated"

structure TransferArgs where
  src : String
  dst : String
  value : ℤ

structure TokenTransferArgs where
  src : String
  dst : String
  tokenId : ℤ

structure AmountArgs where
  amount : ℤ

structure MintArgs where
  sender : String
  amount0 : ℤ
  amount1 : ℤ

structure BurnArgs where
  sender : String
  amount0 : ℤ
  amount1 : ℤ
  dst : String

structure SwapArgs where
  sender : String
  amount0In : ℤ
  amount1In : ℤ
  amount0Out : ℤ
  amount1Out : ℤ
  dst : String

structure PairCreatedArgs where
  token0 : String
  token1 : String
  pair : String

/-- The arguments a mapper reads from a decoded log. -/
abbrev AbiEvent.Args : AbiEvent → Type
  | .erc20Transfer => TransferArgs
  | .issue => AmountArgs
  | .redeem => AmountArgs
  | .erc721Transfer => TokenTransferArgs
  | .mint => MintArgs
  | .burn => BurnArgs
  | .swap => SwapArgs
  | .pairCreated => PairCreatedArgs

/-- web3's `EventData`. -/
structure EventData (Args : Type) where
  event : String
  args : Args
  address : String
  logIndex : ℕ

section Web3

variable [ChecksumSpelling]

/-- What the collector uses of web3.  A contract can only be built for a
checksum address, and a log decodes or not on its own, under an ABI. -/
structure Web3 where
  /-- `w3.eth.contract(address=…, abi=…)`. -/
  ethContract : String → Option Abi → Except PyError Contract
  /-- Decoding one log as one event of an ABI; `none` is a discarded log. -/
  decodeLog : Option Abi → (event : AbiEvent) → LogReceipt → Option event.Args
  ethContract_ok : ∀ {address abi contract}, ethContract address abi = .ok contract →
    isChecksumAddress address = true ∧ contract = ⟨address, abi⟩

/-- `contract.events.<event>().process_receipt(receipt, errors=DISCARD)`. -/
def Web3.processReceipt (w3 : Web3) (contract : Contract) (event : AbiEvent)
    (receipt : TxReceipt) : List (EventData event.Args) :=
  receipt.logs.filterMap fun log =>
    (w3.decodeLog contract.abi event log).map fun args =>
      ⟨event.name, args, log.address.val, log.logIndex⟩

end Web3

/-! ## The mappers -/

/-- A mapper: the ABI event it asks for and what it yields for a decoded log.
It passes the address and the index of the log on. -/
structure EventMapper where
  event : AbiEvent
  yields : EventData event.Args → List ContractEvent
  keeps : ∀ eventLog, ∀ yielded ∈ yields eventLog,
    yielded.address = eventLog.address ∧ yielded.logIndex = eventLog.logIndex

def burnAddresses : List String :=
  ["0x0000000000000000000000000000000000000000",
    "0x000000000000000000000000000000000000dead"]

namespace Erc20

def transfer : EventMapper where
  event := .erc20Transfer
  yields eventLog :=
    if eventLog.event = "Transfer" then
      let src := eventLog.args.src
      let dst := eventLog.args.dst
      let val := eventLog.args.value
      let address := eventLog.address
      let logIndex := eventLog.logIndex
      -- a transfer between two burn addresses takes the first branch as well
      (if dst ∈ burnAddresses then [⟨address, logIndex, .burnFungible val⟩]
        else if src ∈ burnAddresses then [⟨address, logIndex, .mintFungible val⟩]
        else []) ++
        [⟨address, logIndex, .transferFungible src dst val⟩]
    else []
  keeps eventLog yielded hyielded := by
    grind

def issue : EventMapper where
  event := .issue
  yields eventLog := [⟨eventLog.address, eventLog.logIndex, .mintFungible eventLog.args.amount⟩]
  keeps eventLog yielded hyielded := by
    grind

def redeem : EventMapper where
  event := .redeem
  yields eventLog := [⟨eventLog.address, eventLog.logIndex, .burnFungible eventLog.args.amount⟩]
  keeps eventLog yielded hyielded := by
    grind

end Erc20

namespace Erc721

def transfer : EventMapper where
  event := .erc721Transfer
  yields eventLog :=
    if eventLog.event = "Transfer" then
      let src := eventLog.args.src
      let dst := eventLog.args.dst
      let tokenId := eventLog.args.tokenId
      let address := eventLog.address
      let logIndex := eventLog.logIndex
      -- the model of a minted token keeps its id as a string
      (if dst ∈ burnAddresses then [⟨address, logIndex, .burnNonFungible tokenId⟩]
        else if src ∈ burnAddresses then
          [⟨address, logIndex, .mintNonFungible (toString tokenId)⟩]
        else []) ++
        [⟨address, logIndex, .transferNonFungible src dst tokenId⟩]
    else []
  keeps eventLog yielded hyielded := by
    grind

end Erc721

namespace UniswapPair

def mint : EventMapper where
  event := .mint
  yields eventLog :=
    [⟨eventLog.address, eventLog.logIndex,
      .mintPair eventLog.args.sender eventLog.args.amount0 eventLog.args.amount1⟩]
  keeps eventLog yielded hyielded := by
    grind

def burn : EventMapper where
  event := .burn
  yields eventLog :=
    [⟨eventLog.address, eventLog.logIndex,
      .burnPair eventLog.args.sender eventLog.args.dst
        eventLog.args.amount0 eventLog.args.amount1⟩]
  keeps eventLog yielded hyielded := by
    grind

def swap : EventMapper where
  event := .swap
  yields eventLog :=
    [⟨eventLog.address, eventLog.logIndex,
      .swapPair eventLog.args.sender eventLog.args.dst eventLog.args.amount0In
        eventLog.args.amount1In eventLog.args.amount0Out eventLog.args.amount1Out⟩]
  keeps eventLog yielded hyielded := by
    grind

end UniswapPair

namespace UniswapV2Factory

def pairCreated : EventMapper where
  event := .pairCreated
  yields eventLog :=
    if eventLog.event = "PairCreated" then
      [⟨eventLog.address, eventLog.logIndex,
        .pairCreated eventLog.args.pair eventLog.args.token0 eventLog.args.token1⟩]
    else []
  keeps eventLog yielded hyielded := by
    grind

end UniswapV2Factory

/-- The mappers registered for a category, in the order of registration. -/
def eventMappers : ContractCategory → List EventMapper
  | .erc20 => [Erc20.transfer, Erc20.issue, Erc20.redeem]
  | .erc721 => [Erc721.transfer]
  | .uniSwapV2Pair => [UniswapPair.mint, UniswapPair.burn, UniswapPair.swap]
  | .uniSwapV2Factory => [UniswapV2Factory.pairCreated]
  | .unknown => []
  | .erc1155 => []

/-- The category whose mappers yield an event. -/
def categoryOf : EventBody → ContractCategory
  | .mintFungible .. => .erc20
  | .burnFungible .. => .erc20
  | .transferFungible .. => .erc20
  | .pairCreated .. => .uniSwapV2Factory
  | .mintPair .. => .uniSwapV2Pair
  | .burnPair .. => .uniSwapV2Pair
  | .swapPair .. => .uniSwapV2Pair
  | .mintNonFungible .. => .erc721
  | .burnNonFungible .. => .erc721
  | .transferNonFungible .. => .erc721

theorem categoryOf_of_mapper {category : ContractCategory} {mapper : EventMapper}
    (hmapper : mapper ∈ eventMappers category) {eventLog : EventData mapper.event.Args}
    {event : ContractEvent} (hevent : event ∈ mapper.yields eventLog) :
    categoryOf event.body = category := by
  cases category with
  | erc20 =>
      simp only [eventMappers, List.mem_cons, List.not_mem_nil, or_false] at hmapper
      rcases hmapper with rfl | rfl | rfl <;>
        simp only [Erc20.transfer, Erc20.issue, Erc20.redeem] at hevent <;>
        grind [categoryOf]
  | erc721 =>
      obtain rfl := List.mem_singleton.mp hmapper
      simp only [Erc721.transfer] at hevent
      grind [categoryOf]
  | uniSwapV2Pair =>
      simp only [eventMappers, List.mem_cons, List.not_mem_nil, or_false] at hmapper
      rcases hmapper with rfl | rfl | rfl <;>
        simp only [UniswapPair.mint, UniswapPair.burn, UniswapPair.swap] at hevent <;>
        grind [categoryOf]
  | uniSwapV2Factory =>
      obtain rfl := List.mem_singleton.mp hmapper
      simp only [UniswapV2Factory.pairCreated] at hevent
      grind [categoryOf]
  | unknown => simp [eventMappers] at hmapper
  | erc1155 => simp [eventMappers] at hmapper

section Receipts

variable [ChecksumSpelling] (w3 : Web3)

/-- All the contract events found in a receipt under a category. -/
def getTransactionEvents (category : ContractCategory) (contract : Contract)
    (receipt : TxReceipt) : List ContractEvent :=
  (eventMappers category).flatMap fun mapper =>
    (w3.processReceipt contract mapper.event receipt).flatMap mapper.yields

/-- The events of one log: those of a receipt that holds nothing else. -/
def logEvents (category : ContractCategory) (contract : Contract) (log : LogReceipt) :
    List ContractEvent :=
  getTransactionEvents w3 category contract ⟨0, [log], none⟩

variable {w3}

theorem mem_processReceipt_flatMap {contract : Contract} {mapper : EventMapper}
    {receipt : TxReceipt} {event : ContractEvent} :
    event ∈ (w3.processReceipt contract mapper.event receipt).flatMap mapper.yields ↔
      ∃ log ∈ receipt.logs, ∃ args, w3.decodeLog contract.abi mapper.event log = some args ∧
        event ∈ mapper.yields ⟨mapper.event.name, args, log.address.val, log.logIndex⟩ := by
  simp only [Web3.processReceipt, List.mem_flatMap, List.mem_filterMap, Option.map_eq_some_iff]
  constructor
  · rintro ⟨_, ⟨log, hlog, args, hargs, rfl⟩, hevent⟩
    exact ⟨log, hlog, args, hargs, hevent⟩
  · rintro ⟨log, hlog, args, hargs, hevent⟩
    exact ⟨_, ⟨log, hlog, args, hargs, rfl⟩, hevent⟩

theorem mem_getTransactionEvents {category : ContractCategory} {contract : Contract}
    {receipt : TxReceipt} {event : ContractEvent} :
    event ∈ getTransactionEvents w3 category contract receipt ↔
      ∃ mapper ∈ eventMappers category, ∃ log ∈ receipt.logs,
        ∃ args, w3.decodeLog contract.abi mapper.event log = some args ∧
          event ∈ mapper.yields ⟨mapper.event.name, args, log.address.val, log.logIndex⟩ := by
  rw [getTransactionEvents, List.mem_flatMap]
  exact exists_congr fun mapper => and_congr_right fun _ => mem_processReceipt_flatMap

theorem categoryOf_of_mem_getTransactionEvents {w3 : Web3} {category : ContractCategory}
    {contract : Contract} {receipt : TxReceipt} {event : ContractEvent}
    (hevent : event ∈ getTransactionEvents w3 category contract receipt) :
    categoryOf event.body = category := by
  obtain ⟨mapper, hmapper, _, _, _, _, hyields⟩ := mem_getTransactionEvents.mp hevent
  exact categoryOf_of_mapper hmapper hyields

/-- A receipt's events are the events of its logs. -/
theorem mem_getTransactionEvents_iff_logEvents {category : ContractCategory}
    {contract : Contract} {receipt : TxReceipt} {event : ContractEvent} :
    event ∈ getTransactionEvents w3 category contract receipt ↔
      ∃ log ∈ receipt.logs, event ∈ logEvents w3 category contract log := by
  simp only [logEvents, mem_getTransactionEvents, List.mem_singleton]
  constructor
  · rintro ⟨mapper, hmapper, log, hlog, args, hargs, hevent⟩
    exact ⟨log, hlog, mapper, hmapper, log, rfl, args, hargs, hevent⟩
  · rintro ⟨log, hlog, mapper, hmapper, _, rfl, args, hargs, hevent⟩
    exact ⟨mapper, hmapper, _, hlog, args, hargs, hevent⟩

/-- An event carries the address and the index of the log it was decoded from. -/
theorem keeps_of_mem_logEvents {category : ContractCategory} {contract : Contract}
    {log : LogReceipt} {event : ContractEvent}
    (hevent : event ∈ logEvents w3 category contract log) :
    event.address = log.address.val ∧ event.logIndex = log.logIndex := by
  obtain ⟨mapper, _, other, hlog, args, _, hyields⟩ := mem_getTransactionEvents.mp hevent
  obtain rfl := List.mem_singleton.mp hlog
  exact mapper.keeps _ event hyields

/-- Only the ERC721 mapper yields token transfers, one for each decoded log. -/
theorem transferNonFungible_mem_logEvents_iff {category : ContractCategory}
    {contract : Contract} {log : LogReceipt} {address src dst : String} {logIndex : ℕ}
    {tokenId : ℤ} :
    ⟨address, logIndex, .transferNonFungible src dst tokenId⟩ ∈
        logEvents w3 category contract log ↔
      category = .erc721 ∧ address = log.address.val ∧ logIndex = log.logIndex ∧
        w3.decodeLog contract.abi .erc721Transfer log = some ⟨src, dst, tokenId⟩ := by
  rw [logEvents, mem_getTransactionEvents]
  constructor
  · rintro ⟨mapper, hmapper, other, hother, args, hargs, hyields⟩
    obtain rfl := List.mem_singleton.mp hother
    obtain rfl : .erc721 = category := categoryOf_of_mapper hmapper hyields
    obtain rfl := List.mem_singleton.mp hmapper
    obtain ⟨argsSrc, argsDst, argsToken⟩ := args
    simp only [Erc721.transfer] at hyields hargs
    grind
  · rintro ⟨rfl, rfl, rfl, hargs⟩
    refine ⟨Erc721.transfer, List.mem_singleton_self _, log, List.mem_singleton_self _, _, hargs,
      ?_⟩
    simp [Erc721.transfer, AbiEvent.name]

/-- Only the ABI of the contract matters for what a receipt decodes to. -/
theorem getTransactionEvents_congr {category : ContractCategory} {left right : Contract}
    (h : left.abi = right.abi) (receipt : TxReceipt) :
    getTransactionEvents w3 category left receipt =
      getTransactionEvents w3 category right receipt := by
  simp only [getTransactionEvents, Web3.processReceipt, h]

end Receipts

end BlockchainDataCollection.Events
