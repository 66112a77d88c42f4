import BlockchainDataCollection.Model.Python

/-!
# The data the collector configures, receives and stores

The node's answers as web3 returns them, the pydantic models they are parsed
into, and the rows of the SQL tables.  Fields no part of the collector reads
are left out.
-/

namespace BlockchainDataCollection.Data

open BlockchainDataCollection.Python

/-! ## Configuration -/

inductive ContractCategory where
  | unknown
  | erc20
  | erc721
  | erc1155
  | uniSwapV2Factory
  | uniSwapV2Pair
  deriving DecidableEq

namespace ContractCategory

def value : ContractCategory → String
  | .unknown => "unknown"
  | .erc20 => "erc20"
  | .erc721 => "erc721"
  | .erc1155 => "erc1155"
  | .uniSwapV2Factory => "UniSwapV2Factory"
  | .uniSwapV2Pair => "UniSwapV2Pair"

/-- `==` between a string and a member of a plain `Enum`: the member is not a
string, so the two are never equal. -/
def strEqMember (_text : String) (_member : ContractCategory) : Bool := false

/-- `self.value in [self.ERC20, self.ERC721, self.ERC1155]`. -/
def isErc (category : ContractCategory) : Bool :=
  [erc20, erc721, erc1155].any (strEqMember category.value)

/-- `self.value == self.UNI_SWAP_V2_PAIR`. -/
def isUniswapPair (category : ContractCategory) : Bool :=
  strEqMember category.value uniSwapV2Pair

/-- Both predicates compare a value with members, so neither ever holds. -/
@[simp]
theorem isErc_eq_false (category : ContractCategory) : category.isErc = false := rfl

@[simp]
theorem isUniswapPair_eq_false (category : ContractCategory) :
    category.isUniswapPair = false := rfl

end ContractCategory

inductive DataCollectionMode where
  | full
  | partialMode
  | logFilter
  | getLogs
  deriving DecidableEq

namespace DataCollectionMode

def value : DataCollectionMode → String
  | .full => "full"
  | .partialMode => "partial"
  | .logFilter => "log_filter"
  | .getLogs => "get_logs"

/-- `DataCollectionMode(text)`. -/
def ofValue (text : String) : Except PyError DataCollectionMode :=
  match [full, partialMode, logFilter, getLogs].find? (fun mode => mode.value = text) with
  | some mode => .ok mode
  | none => .error (.valueError s!"'{text}' is not a valid DataCollectionMode")

theorem ofValue_eq_ok_iff {text : String} {mode : DataCollectionMode} :
    ofValue text = .ok mode ↔ text = mode.value := by
  constructor
  · intro h
    unfold ofValue at h
    split at h
    · rename_i found hfound
      obtain rfl := Except.ok.inj h
      have hvalue := List.find?_some hfound
      exact (of_decide_eq_true hvalue).symm
    · cases h
  · rintro rfl
    cases mode <;> rfl

theorem value_injective : Function.Injective value := by
  intro left right hvalue
  have hof := ofValue_eq_ok_iff.mpr hvalue
  rw [ofValue_eq_ok_iff.mpr rfl] at hof
  exact Except.ok.inj hof

end DataCollectionMode

/-! ## Kafka events -/

def kafkaEventSeparator : Char := ':'

def encodeKafkaEvent (txHash : String) (mode : DataCollectionMode) : String :=
  String.ofList (mode.value.toList ++ kafkaEventSeparator :: txHash.toList)

/-- The event must split into exactly two parts. -/
def decodeKafkaEvent (event : String) : Except PyError (DataCollectionMode × String) :=
  match split kafkaEventSeparator event with
  | [modeStr, txHash] => do
      let mode ← DataCollectionMode.ofValue modeStr
      return (mode, txHash)
  | [_] => .error (.valueError "not enough values to unpack (expected 2, got 1)")
  | _ => .error (.valueError "too many values to unpack (expected 2)")

/-- The mode and the hash are the two parts of an event that is decoded. -/
theorem decodeKafkaEvent_eq_ok_iff_split {event txHash : String} {mode : DataCollectionMode} :
    decodeKafkaEvent event = .ok (mode, txHash) ↔
      split kafkaEventSeparator event = [mode.value, txHash] := by
  constructor
  · intro h
    unfold decodeKafkaEvent at h
    split at h
    · rename_i modeStr hash hsplit
      cases hmode : DataCollectionMode.ofValue modeStr with
      | error error =>
          rw [hmode] at h
          cases h
      | ok decoded =>
          rw [hmode] at h
          obtain ⟨rfl, rfl⟩ := Prod.mk.inj (Except.ok.inj h)
          rw [hsplit, DataCollectionMode.ofValue_eq_ok_iff.mp hmode]
    · cases h
    · cases h
  · intro hsplit
    have hmode := DataCollectionMode.ofValue_eq_ok_iff.mpr (rfl : mode.value = mode.value)
    simp only [decodeKafkaEvent, hsplit, hmode]
    rfl

theorem kafkaEventSeparator_notMem_value (mode : DataCollectionMode) :
    kafkaEventSeparator ∉ mode.value.toList := by
  cases mode <;> simp [DataCollectionMode.value, kafkaEventSeparator]

/-- The decoder accepts what the encoder makes of a hash without a separator,
and nothing else. -/
theorem decodeKafkaEvent_eq_ok_iff {event txHash : String} {mode : DataCollectionMode} :
    decodeKafkaEvent event = .ok (mode, txHash) ↔
      kafkaEventSeparator ∉ txHash.toList ∧ encodeKafkaEvent txHash mode = event := by
  have hencode : encodeKafkaEvent txHash mode = event ↔
      event.toList = mode.value.toList ++ kafkaEventSeparator :: txHash.toList := by
    rw [encodeKafkaEvent, ← String.toList_inj, String.toList_ofList, eq_comm]
  rw [decodeKafkaEvent_eq_ok_iff_split, split_eq_pair_iff, hencode]
  constructor
  · rintro ⟨hevent, _, hhash⟩
    exact ⟨hhash, hevent⟩
  · rintro ⟨hhash, hevent⟩
    exact ⟨hevent, kafkaEventSeparator_notMem_value mode, hhash⟩

theorem decodeKafkaEvent_encodeKafkaEvent {txHash : String}
    (h : kafkaEventSeparator ∉ txHash.toList) (mode : DataCollectionMode) :
    decodeKafkaEvent (encodeKafkaEvent txHash mode) = .ok (mode, txHash) :=
  decodeKafkaEvent_eq_ok_iff.mpr ⟨h, rfl⟩

structure ContractConfig where
  address : String
  symbol : String
  category : ContractCategory
  events : Finset String
  deriving DecidableEq

structure DataCollectionConfig where
  mode : DataCollectionMode
  startBlock : Option ℤ
  endBlock : Option ℤ
  contracts : Option (List ContractConfig)
  /-- The filter parameters of `eth_getLogs`. -/
  params : Option (List (String × String)) := none

/-! ## Answers of the node, as web3 returns them -/

/-- EIP-55: web3 returns every address in its one checksum spelling, and
accepts no other.  The spelling needs Keccak, so only its uniqueness is used. -/
class ChecksumSpelling where
  isChecksumAddress : String → Bool
  eq_of_lower_eq : ∀ left right, isChecksumAddress left → isChecksumAddress right →
    lower left = lower right → left = right
  not_empty : isChecksumAddress "" = false

open ChecksumSpelling

/-- web3's `ChecksumAddress`. -/
def ChecksumAddress [ChecksumSpelling] := {text : String // isChecksumAddress text}

section Web3

variable [ChecksumSpelling]

theorem ChecksumAddress.eq_of_lower_eq {left right : ChecksumAddress}
    (h : lower left.val = lower right.val) : left = right :=
  Subtype.ext (ChecksumSpelling.eq_of_lower_eq _ _ left.property right.property h)

@[simp]
theorem ChecksumAddress.val_inj {left right : ChecksumAddress} :
    left.val = right.val ↔ left = right :=
  Subtype.ext_iff.symm

theorem ChecksumAddress.val_ne_empty (address : ChecksumAddress) : address.val ≠ "" := by
  intro h
  have := address.property
  rw [h, not_empty] at this
  exact Bool.false_ne_true this

structure TxData where
  hash : String
  blockNumber : ℤ
  fromAddress : ChecksumAddress
  toAddress : Option ChecksumAddress
  value : ℕ
  gasPrice : ℕ
  gas : ℕ
  input : String

structure LogReceipt where
  address : ChecksumAddress
  data : String
  removed : Bool
  topics : List String
  logIndex : ℕ
  transactionHash : String

structure TxReceipt where
  gasUsed : ℕ
  logs : List LogReceipt
  contractAddress : Option ChecksumAddress

end Web3

/-- A JSON object with string values. -/
abbrev JsonObject := List (String × String)

/-- One entry of `trace_replayTransaction`'s `trace`. -/
structure TraceEntry where
  action : JsonObject
  result : Option JsonObject

/-- One entry of `trace_block`'s result. -/
structure BlockTrace where
  type : String
  actionValue : String
  deriving DecidableEq

/-- `left | right` on dictionaries: the right one wins. -/
def mergeObjects (left right : JsonObject) : JsonObject := right ++ left

/-! ## Pydantic models -/

structure TransactionData where
  transactionHash : String
  blockNumber : ℤ
  fromAddress : String
  toAddress : Option String
  value : ℕ
  gasPrice : ℕ
  gasLimit : ℕ
  inputData : String
  deriving DecidableEq

structure TransactionLogsData where
  address : String
  data : String
  removed : Bool
  topics : List String
  logIndex : ℕ
  transactionHash : String
  deriving DecidableEq

structure TransactionReceiptData where
  gasUsed : ℕ
  logs : List TransactionLogsData
  contractAddress : Option String
  deriving DecidableEq

structure InternalTransactionData where
  fromAddress : Option String
  toAddress : Option String
  value : Option ℕ
  gasUsed : Option ℕ
  gasLimit : Option ℕ
  inputData : Option String
  callType : Option String
  deriving DecidableEq

section Parse

variable [ChecksumSpelling]

/-- `TransactionData(**tx_data_dict)`; the amounts are float fields. -/
def TransactionData.parse (tx : TxData) : TransactionData where
  transactionHash := tx.hash
  blockNumber := tx.blockNumber
  fromAddress := tx.fromAddress.val
  toAddress := tx.toAddress.map Subtype.val
  value := toFloat tx.value
  gasPrice := toFloat tx.gasPrice
  gasLimit := toFloat tx.gas
  inputData := tx.input

def TransactionLogsData.parse (log : LogReceipt) : TransactionLogsData where
  address := log.address.val
  data := log.data
  removed := log.removed
  topics := log.topics
  logIndex := log.logIndex
  transactionHash := log.transactionHash

/-- `TransactionReceiptData(**tx_receipt_data_dict)`. -/
def TransactionReceiptData.parse (receipt : TxReceipt) : TransactionReceiptData where
  gasUsed := toFloat receipt.gasUsed
  logs := receipt.logs.map TransactionLogsData.parse
  contractAddress := receipt.contractAddress.map Subtype.val

end Parse

/-- The `strings_to_float` validator, run on the fields that are present. -/
def stringsToFloat : Option String → Except PyError (Option ℕ)
  | none => .ok none
  | some text => (floatFromHex text).map some

/-- `InternalTransactionData(**data)`. -/
def InternalTransactionData.parse (data : JsonObject) :
    Except PyError InternalTransactionData := do
  let value ← stringsToFloat (data.lookup "value")
  let gasUsed ← stringsToFloat (data.lookup "gasUsed")
  let gasLimit ← stringsToFloat (data.lookup "gas")
  return {
    fromAddress := data.lookup "from"
    toAddress := data.lookup "to"
    value
    gasUsed
    gasLimit
    inputData := data.lookup "input"
    callType := data.lookup "callType" }

structure BlockData where
  blockNumber : ℤ
  blockHash : String
  nonce : String
  difficulty : ℕ
  gasLimit : ℕ
  gasUsed : ℕ
  timestamp : ℤ
  transactions : List String
  miner : String
  parentHash : String
  uncles : List String
  deriving DecidableEq

structure TokenContractData where
  address : String
  symbol : Option String
  name : Option String
  decimals : Option ℤ
  totalSupply : Option ℕ
  tokenCategory : String
  deriving DecidableEq

structure PairContractData where
  address : String
  token0 : String
  token1 : String
  reserve0 : ℤ
  reserve1 : ℤ
  factory : String
  deriving DecidableEq

end BlockchainDataCollection.Data
