import BlockchainDataCollection.Consumer.Relevance

/-!
# The liquidity ledger of a pair

Every call of the handler for a pair adds what the pair's own logs in one
receipt mint, burn and swap, and stores the net amounts under the hash of the
transaction.  A repetition finds its key taken, and a row that is left out
would hold zeros, so the rows always add up to what the logs say.
-/

namespace BlockchainDataCollection.Liquidity

open BlockchainDataCollection.Effect
open BlockchainDataCollection.Python
open BlockchainDataCollection.Data
open BlockchainDataCollection.Events
open BlockchainDataCollection.KeyedTable
open BlockchainDataCollection.Parser
open BlockchainDataCollection.Storage
open BlockchainDataCollection.TxProcessor
open BlockchainDataCollection.Processing
open BlockchainDataCollection.Relevance

/-! ## What the logs of a pair say -/

section Logs

variable [ChecksumSpelling] (w3 : Web3) (contract : Contract)

/-- The logs of one event that the contract itself emitted. -/
def ownLogs (event : AbiEvent) (receipt : TxReceipt) : List (EventData event.Args) :=
  (w3.processReceipt contract event receipt).filter
    fun eventLog => eventLog.address = contract.address

/-- What the pair's logs bring in, for one of the two tokens. -/
def liquidity (minted : MintArgs → ℤ) (burned : BurnArgs → ℤ) (swappedIn swappedOut : SwapArgs → ℤ)
    (receipt : TxReceipt) : ℤ :=
  ((ownLogs w3 contract .mint receipt).map fun eventLog => minted eventLog.args).sum -
    ((ownLogs w3 contract .burn receipt).map fun eventLog => burned eventLog.args).sum +
    ((ownLogs w3 contract .swap receipt).map fun eventLog => swappedIn eventLog.args).sum -
    ((ownLogs w3 contract .swap receipt).map fun eventLog => swappedOut eventLog.args).sum

def liquidity0 : TxReceipt → ℤ :=
  liquidity w3 contract MintArgs.amount0 BurnArgs.amount0 SwapArgs.amount0In SwapArgs.amount0Out

def liquidity1 : TxReceipt → ℤ :=
  liquidity w3 contract MintArgs.amount1 BurnArgs.amount1 SwapArgs.amount1In SwapArgs.amount1Out

end Logs

/-! ## What the handler adds up -/

/-- A mapper that yields one allowed event for each log adds up the own logs. -/
theorem sum_handled_yields {allowed : Finset String} {contractAddress : String}
    {weight : ContractEvent → ℤ} {mapper : EventMapper}
    {amount : EventData mapper.event.Args → ℤ}
    (hyields : ∀ eventLog, ∃ event, mapper.yields eventLog = [event] ∧
      event.body.typeName ∈ allowed ∧ weight event = amount eventLog)
    (logs : List (EventData mapper.event.Args)) :
    (((logs.flatMap mapper.yields).filter (IsHandled allowed contractAddress)).map weight).sum =
      ((logs.filter fun eventLog => eventLog.address = contractAddress).map amount).sum := by
  induction logs with
  | nil => rfl
  | cons eventLog logs ih =>
      obtain ⟨event, hevent, hallowed, hweight⟩ := hyields eventLog
      have haddress : event.address = eventLog.address :=
        (mapper.keeps eventLog event (hevent ▸ List.mem_singleton_self event)).1
      rw [List.flatMap_cons, hevent, List.filter_append, List.map_append, List.sum_append, ih]
      by_cases hown : eventLog.address = contractAddress
      · simp [IsHandled, hallowed, haddress, hown, hweight]
      · simp [IsHandled, haddress, hown]

theorem sum_map_sub {Log : Type} (logs : List Log) (left right : Log → ℤ) :
    (logs.map fun log => left log - right log).sum =
      (logs.map left).sum - (logs.map right).sum := by
  apply eq_sub_of_add_eq
  rw [← List.sum_map_add]
  simp

def pairEventNames : Finset String := {"MintPairEvent", "BurnPairEvent", "SwapPairEvent"}

section Handler

variable [ChecksumSpelling]

/-- A weight of pair events, summed over the handled events of a receipt. -/
theorem sum_handled_receipt (w3 : Web3) {contract : Contract} {allowed : Finset String}
    (hallowed : pairEventNames ⊆ allowed) {weight : ContractEvent → ℤ} {minted : MintArgs → ℤ}
    {burned : BurnArgs → ℤ} {swappedIn swappedOut : SwapArgs → ℤ}
    (hminted : ∀ address logIndex (args : MintArgs),
      weight ⟨address, logIndex, .mintPair args.sender args.amount0 args.amount1⟩ = minted args)
    (hburned : ∀ address logIndex (args : BurnArgs),
      weight ⟨address, logIndex, .burnPair args.sender args.dst args.amount0 args.amount1⟩ =
        -burned args)
    (hswapped : ∀ address logIndex (args : SwapArgs),
      weight ⟨address, logIndex, .swapPair args.sender args.dst args.amount0In args.amount1In
        args.amount0Out args.amount1Out⟩ = swappedIn args - swappedOut args)
    (receipt : TxReceipt) :
    (((getTransactionEvents w3 .uniSwapV2Pair contract receipt).filter
        (IsHandled allowed contract.address)).map weight).sum =
      liquidity w3 contract minted burned swappedIn swappedOut receipt := by
  have hmintName : "MintPairEvent" ∈ allowed := hallowed (by decide)
  have hburnName : "BurnPairEvent" ∈ allowed := hallowed (by decide)
  have hswapName : "SwapPairEvent" ∈ allowed := hallowed (by decide)
  have hmint := @sum_handled_yields allowed contract.address weight UniswapPair.mint
    (fun eventLog => minted eventLog.args)
    (fun eventLog => ⟨_, rfl, hmintName, hminted _ _ eventLog.args⟩)
    (w3.processReceipt contract .mint receipt)
  have hburn := @sum_handled_yields allowed contract.address weight UniswapPair.burn
    (fun eventLog => -burned eventLog.args)
    (fun eventLog => ⟨_, rfl, hburnName, hburned _ _ eventLog.args⟩)
    (w3.processReceipt contract .burn receipt)
  have hswap := @sum_handled_yields allowed contract.address weight UniswapPair.swap
    (fun eventLog => swappedIn eventLog.args - swappedOut eventLog.args)
    (fun eventLog => ⟨_, rfl, hswapName, hswapped _ _ eventLog.args⟩)
    (w3.processReceipt contract .swap receipt)
  simp only [getTransactionEvents, eventMappers, List.flatMap_cons, List.flatMap_nil,
    List.append_nil, List.filter_append, List.map_append, List.sum_append]
  have hneg : ((ownLogs w3 contract .burn receipt).map fun eventLog => -burned eventLog.args).sum =
      -((ownLogs w3 contract .burn receipt).map fun eventLog => burned eventLog.args).sum := by
    rw [List.sum_neg, List.map_map]
    rfl
  calc _ = ((ownLogs w3 contract .mint receipt).map fun eventLog => minted eventLog.args).sum +
        (((ownLogs w3 contract .burn receipt).map fun eventLog => -burned eventLog.args).sum +
          ((ownLogs w3 contract .swap receipt).map fun eventLog =>
            swappedIn eventLog.args - swappedOut eventLog.args).sum) :=
        congrArg₂ (· + ·) hmint (congrArg₂ (· + ·) hburn hswap)
    _ = liquidity w3 contract minted burned swappedIn swappedOut receipt := by
        rw [hneg, sum_map_sub, liquidity]
        ring

theorem pairAmount0Changed_totalsOf (w3 : Web3) {contract : Contract} {allowed : Finset String}
    (hallowed : pairEventNames ⊆ allowed) (receipt : TxReceipt) :
    (totalsOf allowed contract.address
      (getTransactionEvents w3 .uniSwapV2Pair contract receipt)).pairAmount0Changed =
        liquidity0 w3 contract receipt :=
  sum_handled_receipt w3 hallowed (fun _ _ _ => rfl) (fun _ _ _ => rfl) (fun _ _ _ => rfl) receipt

theorem pairAmount1Changed_totalsOf (w3 : Web3) {contract : Contract} {allowed : Finset String}
    (hallowed : pairEventNames ⊆ allowed) (receipt : TxReceipt) :
    (totalsOf allowed contract.address
      (getTransactionEvents w3 .uniSwapV2Pair contract receipt)).pairAmount1Changed =
        liquidity1 w3 contract receipt :=
  sum_handled_receipt w3 hallowed (fun _ _ _ => rfl) (fun _ _ _ => rfl) (fun _ _ _ => rfl) receipt

/-! ## One call -/

section Calls

variable (w3 : Web3) (contract : Contract) (receipts : String → TxReceipt)

/-- The row of one transaction. -/
def liquidityRow (txHash : String) : PairLiquidityChangeRow where
  address := contract.address
  amount0 := liquidity0 w3 contract (receipts txHash)
  amount1 := liquidity1 w3 contract (receipts txHash)
  transactionHash := txHash

/-- A transaction with a row: one of the two net amounts is not zero. -/
def HasRow (txHash : String) : Prop :=
  ¬ (liquidity0 w3 contract (receipts txHash) = 0 ∧ liquidity1 w3 contract (receipts txHash) = 0)

instance (txHash : String) : Decidable (HasRow w3 contract receipts txHash) :=
  inferInstanceAs (Decidable (¬ _))

/-- One call of `_handle_transaction_events` for the pair. -/
def handleCall (node : Node) (settings : ParserSettings) (db : Database)
    (txData : TransactionData) : Database :=
  (process node (handleTransactionEvents settings contract .uniSwapV2Pair txData
    (receipts txData.transactionHash)) db).2

end Calls

variable {node : Node} {settings : ParserSettings} {contract : Contract}
  {config : ContractConfig} {receipts : String → TxReceipt}

theorem rowsOf_pairStatements (hallowed : pairEventNames ⊆ config.events) (txHash : String) :
    rowsOf .pairLiquidityChange (pairStatements contract.address txHash
      (totalsOf config.events contract.address
        (getTransactionEvents settings.w3 .uniSwapV2Pair contract (receipts txHash)))) =
      ([txHash].filter (HasRow settings.w3 contract receipts)).map
        (liquidityRow settings.w3 contract receipts) := by
  rw [pairStatements, pairAmount0Changed_totalsOf settings.w3 hallowed,
    pairAmount1Changed_totalsOf settings.w3 hallowed]
  by_cases hrow : HasRow settings.w3 contract receipts txHash
  · have hfilter : [txHash].filter (HasRow settings.w3 contract receipts) = [txHash] := by
      simp [hrow]
    rw [if_neg hrow, insertPairLiquidityChange, rowsOf_insert_cons_self, hfilter]
    rfl
  · have hfilter : [txHash].filter (HasRow settings.w3 contract receipts) = [] := by
      simp [hrow]
    rw [if_pos (not_not.mp hrow), hfilter]
    rfl

/-- A call offers the row of its transaction to the table, if it has one. -/
theorem table_handleCall (hconfig : settings.config contract.address = some config)
    (hallowed : pairEventNames ⊆ config.events) (db : Database) (txData : TransactionData) :
    (handleCall contract receipts node settings db txData).table .pairLiquidityChange =
      (db.table .pairLiquidityChange).insertAll
        (([txData.transactionHash].filter (HasRow settings.w3 contract receipts)).map
          (liquidityRow settings.w3 contract receipts)) := by
  have hevents : settings.getContractEvents contract.address = some config.events := by
    simp [ParserSettings.getContractEvents, hconfig]
  have hhandler : handleTransactionEvents settings contract .uniSwapV2Pair txData
      (receipts txData.transactionHash) =
      handleYieldedEvents (settings.getContractEvents contract.address) contract
        txData.transactionHash (getTransactionEvents settings.w3 .uniSwapV2Pair contract
          (receipts txData.transactionHash)) := rfl
  have hnft : ∀ events, rowsOf .pairLiquidityChange
      (nftStatements config.events contract.address txData.transactionHash events) = [] :=
    fun _ => rowsOf_eq_nil fun _ h => table_of_mem_nftStatements h ▸ TableName.noConfusion
  have hsupply : ∀ totals, rowsOf .pairLiquidityChange
      (supplyStatements txData.transactionHash totals) = [] :=
    fun _ => rowsOf_eq_nil fun _ h => table_of_mem_supplyStatements h ▸ TableName.noConfusion
  rw [handleCall, hhandler, hevents, handleYieldedEvents_eq, (performs_writeEach _ _).process,
    Database.table_executeAll, rowsOf_append, rowsOf_append, hnft, hsupply, List.nil_append,
    List.nil_append, rowsOf_pairStatements hallowed]

/-! ## Runs of calls -/

/-- Calls of `_handle_transaction_events` for the pair, one after another. -/
def handleCalls (node : Node) (settings : ParserSettings) (contract : Contract)
    (receipts : String → TxReceipt) (calls : List TransactionData) (db : Database) : Database :=
  calls.foldl (handleCall contract receipts node settings) db

theorem table_handleCalls (hconfig : settings.config contract.address = some config)
    (hallowed : pairEventNames ⊆ config.events) (calls : List TransactionData) (db : Database) :
    (handleCalls node settings contract receipts calls db).table .pairLiquidityChange =
      (db.table .pairLiquidityChange).insertAll
        (((calls.map TransactionData.transactionHash).filter
          (HasRow settings.w3 contract receipts)).map
            (liquidityRow settings.w3 contract receipts)) := by
  induction calls generalizing db with
  | nil => rfl
  | cons txData calls ih =>
      have hstep := ih (handleCall contract receipts node settings db txData)
      rw [table_handleCall hconfig hallowed, ← Table.insertAll_append, ← List.map_append,
        ← List.filter_append, List.singleton_append] at hstep
      exact hstep

/-- From an empty table, the rows are those of the transactions that have one. -/
theorem mem_rows_handleCalls_iff (hconfig : settings.config contract.address = some config)
    (hallowed : pairEventNames ⊆ config.events) {calls : List TransactionData} {db : Database}
    (hempty : (db.table .pairLiquidityChange).rows = []) {row : PairLiquidityChangeRow} :
    row ∈ ((handleCalls node settings contract receipts calls db).table
        .pairLiquidityChange).rows ↔
      ∃ txHash ∈ calls.map TransactionData.transactionHash,
        HasRow settings.w3 contract receipts txHash ∧
          liquidityRow settings.w3 contract receipts txHash = row := by
  rw [table_handleCalls hconfig hallowed]
  constructor
  · intro hrow
    rcases Table.mem_of_mem_insertAll hrow with hold | hnew
    · rw [hempty] at hold
      cases hold
    · obtain ⟨txHash, htx, hrow⟩ := List.mem_map.mp hnew
      obtain ⟨htx, hhasRow⟩ := List.mem_filter.mp htx
      exact ⟨txHash, htx, of_decide_eq_true hhasRow, hrow⟩
  · rintro ⟨txHash, htx, hhasRow, rfl⟩
    have hmem : liquidityRow settings.w3 contract receipts txHash ∈
        ((calls.map TransactionData.transactionHash).filter
          (HasRow settings.w3 contract receipts)).map
            (liquidityRow settings.w3 contract receipts) :=
      List.mem_map_of_mem (List.mem_filter.mpr ⟨htx, decide_eq_true hhasRow⟩)
    refine (Table.mem_insertAll_iff_of_unique hempty rfl fun other hother hkey => ?_).mpr hmem
    -- two rows under one key belong to one transaction
    obtain ⟨other, _, rfl⟩ := List.mem_map.mp hother
    exact congrArg _ (Prod.mk.inj (Option.some.inj hkey)).2

/-- An amount that a transaction without a row does not have adds up over the
rows to what it adds up to over the transactions. -/
theorem sum_rows_handleCalls (hconfig : settings.config contract.address = some config)
    (hallowed : pairEventNames ⊆ config.events) {calls : List TransactionData} {db : Database}
    (hempty : (db.table .pairLiquidityChange).rows = []) {amount : PairLiquidityChangeRow → ℤ}
    (hamount : ∀ txHash, ¬ HasRow settings.w3 contract receipts txHash →
      amount (liquidityRow settings.w3 contract receipts txHash) = 0) :
    ((((handleCalls node settings contract receipts calls db).table
        .pairLiquidityChange).rows.filter fun row => row.address = contract.address).map
          amount).sum =
      ∑ txHash ∈ (calls.map TransactionData.transactionHash).toFinset,
        amount (liquidityRow settings.w3 contract receipts txHash) := by
  have hrows := @mem_rows_handleCalls_iff _ node _ _ _ receipts hconfig hallowed calls db hempty
  generalize ((handleCalls node settings contract receipts calls db).table
    .pairLiquidityChange) = table at hrows ⊢
  have hown : table.rows.filter (fun row => row.address = contract.address) = table.rows := by
    refine List.filter_eq_self.mpr fun row hrow => ?_
    obtain ⟨txHash, _, _, rfl⟩ := hrows.mp hrow
    exact decide_eq_true rfl
  have hnodup : table.rows.Nodup := Table.nodup_rows fun row _ => Option.some_ne_none _
  have himage : table.rows.toFinset = ((calls.map TransactionData.transactionHash).toFinset.filter
      (HasRow settings.w3 contract receipts)).image
        (liquidityRow settings.w3 contract receipts) := by
    ext row
    simp only [List.mem_toFinset, Finset.mem_image, Finset.mem_filter, and_assoc]
    exact hrows
  have hinjective : Set.InjOn (liquidityRow settings.w3 contract receipts)
      ((calls.map TransactionData.transactionHash).toFinset.filter
        (HasRow settings.w3 contract receipts)) :=
    fun _ _ _ _ heq => congrArg PairLiquidityChangeRow.transactionHash heq
  rw [hown, ← List.sum_toFinset amount hnodup, himage, Finset.sum_image hinjective]
  refine Finset.sum_filter_of_ne fun txHash _ hne => ?_
  by_contra hnone
  exact hne (hamount txHash hnone)

/-- The ledger of a pair telescopes: its rows add up to what the pair's logs
mint, burn and swap, each transaction counted once. -/
theorem liquidity_telescopes (node : Node)
    (hconfig : settings.config contract.address = some config)
    (hallowed : pairEventNames ⊆ config.events) (receipts : String → TxReceipt)
    (transactions : Finset String) {calls : List TransactionData}
    (hcalls : (calls.map TransactionData.transactionHash).toFinset = transactions)
    {db : Database} (hempty : (db.table .pairLiquidityChange).rows = []) :
    let rows := ((handleCalls node settings contract receipts calls db).table
      .pairLiquidityChange).rows.filter fun row => row.address = contract.address
    (rows.map PairLiquidityChangeRow.amount0).sum =
        ∑ txHash ∈ transactions, liquidity0 settings.w3 contract (receipts txHash) ∧
      (rows.map PairLiquidityChangeRow.amount1).sum =
        ∑ txHash ∈ transactions, liquidity1 settings.w3 contract (receipts txHash) := by
  subst hcalls
  exact ⟨sum_rows_handleCalls hconfig hallowed hempty fun txHash hnone => (not_not.mp hnone).1,
    sum_rows_handleCalls hconfig hallowed hempty fun txHash hnone => (not_not.mp hnone).2⟩

end Handler

section Deployment

open Deployment

def pair : ChecksumAddress := collectible

def otherPair : ChecksumAddress := token

def mintTopic : String := "0x4c209b5fc8ad50758f13e2e1088ba56a560dff690a1c6fef26394f4c03821c4f"

def swapTopic : String := "0xd78ad95fa46c994b6551d0da85fc275fe613ce37657fb8d5e3d130840159d822"

-- a mint of 100 and 200, a swap of 10 for 18
def mintData : String :=
  "0x0000000000000000000000000000000000000000000000000000000000000064" ++
    "00000000000000000000000000000000000000000000000000000000000000c8"

def swapData : String :=
  "0x000000000000000000000000000000000000000000000000000000000000000a" ++
    "0000000000000000000000000000000000000000000000000000000000000000" ++
    "0000000000000000000000000000000000000000000000000000000000000000" ++
    "0000000000000000000000000000000000000000000000000000000000000012"

/-- Decodes the two logs that occur below. -/
def decodePairLog (abi : Option Abi) : (event : AbiEvent) → LogReceipt → Option event.Args
  | .mint, log =>
      if abi = some contractAbi.uniSwapV2Pair ∧ log.topics.head? = some mintTopic ∧
        log.data = mintData then some ⟨holder.val, 100, 200⟩
      else none
  | .swap, log =>
      if abi = some contractAbi.uniSwapV2Pair ∧ log.topics.head? = some swapTopic ∧
        log.data = swapData then some ⟨holder.val, 10, 0, 0, 18, holder.val⟩
      else none
  | _, _ => none

def pairSettings : ParserSettings :=
  (ContractParser.init { w3 with decodeLog := decodePairLog }
    [⟨pair.val, "PAIR", .uniSwapV2Pair, pairEventNames⟩] contractAbi).settings

def pairContract : Contract := ⟨pair.val, some contractAbi.uniSwapV2Pair⟩

def pairLog (emitter : ChecksumAddress) (topics : List String) (data : String) : LogReceipt where
  address := emitter
  data := data
  removed := false
  topics := topics
  logIndex := 0
  transactionHash := txHash

/-- Mints of two pairs in `0x01`, a swap in every other transaction. -/
def pairReceipts (hash : String) : TxReceipt where
  gasUsed := 21000
  logs :=
    if hash = "0x01" then
      [pairLog pair [mintTopic, addressTopic holder] mintData,
        pairLog otherPair [mintTopic, addressTopic holder] mintData]
    else [pairLog pair [swapTopic, addressTopic holder, addressTopic holder] swapData]
  contractAddress := none

def pairCall (hash : String) : TransactionData :=
  { TransactionData.parse (transaction none) with transactionHash := hash }

/-- The mint and the swap, of which the latter is handled twice. -/
theorem mint_and_swap_telescope :
    let rows := ((handleCalls node pairSettings pairContract pairReceipts
      [pairCall "0x02", pairCall "0x01", pairCall "0x02"] Database.empty).table
        .pairLiquidityChange).rows.filter fun row => row.address = pairContract.address
    (rows.map PairLiquidityChangeRow.amount0).sum = 100 + 10 ∧
      (rows.map PairLiquidityChangeRow.amount1).sum = 200 - 18 := by
  have hsums := liquidity_telescopes node
    (show pairSettings.config pairContract.address = _ from rfl) (by decide) pairReceipts
    {"0x01", "0x02"}
    (show ([pairCall "0x02", pairCall "0x01", pairCall "0x02"].map _).toFinset = _ by decide)
    (show (Database.empty.table .pairLiquidityChange).rows = [] from rfl)
  have hmint : liquidity0 pairSettings.w3 pairContract (pairReceipts "0x01") = 100 ∧
      liquidity1 pairSettings.w3 pairContract (pairReceipts "0x01") = 200 := by decide +kernel
  have hswap : liquidity0 pairSettings.w3 pairContract (pairReceipts "0x02") = 10 ∧
      liquidity1 pairSettings.w3 pairContract (pairReceipts "0x02") = -18 := by decide +kernel
  rw [Finset.sum_pair (by decide), Finset.sum_pair (by decide), hmint.1, hmint.2, hswap.1,
    hswap.2] at hsums
  exact hsums

end Deployment

end BlockchainDataCollection.Liquidity
