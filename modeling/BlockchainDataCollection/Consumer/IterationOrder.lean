import BlockchainDataCollection.Consumer.Completeness

/-!
# The iteration order of the event addresses

Each event address writes its rows in one batch, so the order of the addresses
shows exactly where two batches write different rows under one free key.  The
supply row is keyed by the last event decoded from the whole receipt, which all
ERC20 addresses share.
-/

namespace BlockchainDataCollection.IterationOrder

open BlockchainDataCollection.Effect
open BlockchainDataCollection.Python
open BlockchainDataCollection.Data
open BlockchainDataCollection.Events
open BlockchainDataCollection.KeyedTable
open BlockchainDataCollection.Parser
open BlockchainDataCollection.Storage
open BlockchainDataCollection.TxProcessor
open BlockchainDataCollection.Processing
open BlockchainDataCollection.Saving
open BlockchainDataCollection.Relevance
open BlockchainDataCollection.Completeness
open ChecksumSpelling

/-! ## All orders of one set -/

/-- The order that lists one set as given. -/
def orderOf {elements order : List String} (h : order.Perm elements.dedup) : SetOrder where
  order other := if other = elements then order else other.dedup
  perm other := by
    by_cases hother : other = elements
    · simpa [hother] using h
    · simp [hother]

section Orders

variable [ChecksumSpelling] {settings : ParserSettings} {tx : TxData} {receipt : TxReceipt}

def eventAddresses (receipt : TxReceipt) : List String :=
  receipt.logs.map fun log => log.address.val

/-- A table comes out the same in all orders exactly when no two addresses
write different rows first under a free key. -/
theorem table_same_iff (db : Database) (name : TableName) :
    (∀ left right : SetOrder,
      ((db.executeAll ((left.order (eventAddresses receipt)).flatMap
        (eventStatements settings tx.hash receipt))).table name).Same
      ((db.executeAll ((right.order (eventAddresses receipt)).flatMap
        (eventStatements settings tx.hash receipt))).table name)) ↔
      ∀ i ∈ eventAddresses receipt, ∀ j ∈ eventAddresses receipt, ∀ k a b,
        (db.table name).lookup k = none →
        Table.firstWith (primaryKey name) k
          (rowsOf name (eventStatements settings tx.hash receipt i)) = some a →
        Table.firstWith (primaryKey name) k
          (rowsOf name (eventStatements settings tx.hash receipt j)) = some b → a = b := by
  have hbatches := @Table.insertAll_flatMap_same_iff _ _ (primaryKey name) _ _ _ (db.table name)
    (eventAddresses receipt).dedup
    fun address => rowsOf name (eventStatements settings tx.hash receipt address)
  simp only [List.mem_dedup] at hbatches
  rw [← hbatches]
  simp only [Database.table_executeAll, rowsOf_flatMap]
  constructor
  · intro h left right hleft hright
    simpa [orderOf] using h (orderOf hleft) (orderOf hright)
  · intro h left right
    exact h _ _ (left.perm _) (right.perm _)

end Orders

/-! ## Supply changes -/

section Supply

variable [ChecksumSpelling] (settings : ParserSettings) (receipt : TxReceipt)

/-- What a configured address mints minus what it burns in a receipt. -/
def netSupply (address : String) : ℤ :=
  match settings.config address with
  | none => 0
  | some config => (receiptTotals settings address config receipt).amountChanged

/-- The emitter of the last event the ERC20 mappers find, configured or not. -/
def lastEmitter : Option String :=
  (getTransactionEvents settings.w3 .erc20 ⟨"", settings.getContractAbi .erc20⟩
    receipt).getLast?.map ContractEvent.address

/-- The addresses with a net supply change agree on it, or its row is there. -/
def SupplyAgrees (txHash : String) (db : Database) : Prop :=
  ∀ i ∈ eventAddresses receipt, ∀ j ∈ eventAddresses receipt,
    netSupply settings receipt i ≠ 0 → netSupply settings receipt j ≠ 0 →
      netSupply settings receipt i = netSupply settings receipt j ∨
        ∃ emitter, lastEmitter settings receipt = some emitter ∧
          (db.table .contractSupplyChange).lookup (emitter, txHash) ≠ none

def supplyRows (txHash address : String) : List ContractSupplyChangeRow :=
  match lastEmitter settings receipt with
  | none => []
  | some emitter =>
      if netSupply settings receipt address = 0 then []
      else [{
        address := emitter
        transactionHash := txHash
        amountChanged := netSupply settings receipt address }]

variable {settings receipt}

/-- Only the ERC20 mappers yield mints and burns of fungible tokens. -/
theorem supplyDelta_eq_zero {category : ContractCategory} {contract : Contract}
    (hcategory : category ≠ .erc20) {event : ContractEvent}
    (hevent : event ∈ getTransactionEvents settings.w3 category contract receipt) :
    supplyDelta event = 0 := by
  have hbody := categoryOf_of_mem_getTransactionEvents hevent
  obtain ⟨address, logIndex, body⟩ := event
  cases body with
  | mintFungible => exact absurd hbody.symm hcategory
  | burnFungible => exact absurd hbody.symm hcategory
  | _ => rfl

theorem amountChanged_eq_zero {address : String} {config : ContractConfig}
    (hcategory : config.category ≠ .erc20) :
    (receiptTotals settings address config receipt).amountChanged = 0 := by
  refine List.sum_eq_zero fun delta hdelta => ?_
  obtain ⟨event, hevent, rfl⟩ := List.mem_map.mp hdelta
  exact supplyDelta_eq_zero hcategory (List.mem_of_mem_filter hevent)

/-- The loop variable ends on the same event for every ERC20 address. -/
theorem address_event_receiptTotals (address : String) {config : ContractConfig}
    (hcategory : config.category = .erc20) :
    (receiptTotals settings address config receipt).event.map ContractEvent.address =
      lastEmitter settings receipt := by
  rw [receiptTotals, receiptEvents, hcategory]
  exact congrArg (fun events => (List.getLast? events).map ContractEvent.address)
    (getTransactionEvents_congr rfl receipt)

theorem exists_lastEmitter {address : String} (h : netSupply settings receipt address ≠ 0) :
    ∃ emitter, lastEmitter settings receipt = some emitter := by
  cases hconfig : settings.config address with
  | none => simp [netSupply, hconfig] at h
  | some config =>
      simp only [netSupply, hconfig] at h
      have hcategory : config.category = .erc20 := by
        by_contra hcategory
        exact h (amountChanged_eq_zero hcategory)
      obtain ⟨event, hevent⟩ :=
        Option.ne_none_iff_exists'.mp (event_ne_none_of_amountChanged h)
      refine ⟨event.address, ?_⟩
      rw [← address_event_receiptTotals address hcategory]
      exact congrArg (Option.map ContractEvent.address) hevent

theorem rowsOf_contractSupplyChange_eventStatements (txHash address : String) :
    rowsOf .contractSupplyChange (eventStatements settings txHash receipt address) =
      supplyRows settings receipt txHash address := by
  cases hconfig : settings.config address with
  | none =>
      have hzero : netSupply settings receipt address = 0 := by simp [netSupply, hconfig]
      simp only [eventStatements, hconfig, supplyRows, hzero, if_true, rowsOf_nil]
      split <;> rfl
  | some config =>
      have hnft : rowsOf .contractSupplyChange (nftStatements config.events address txHash
          (receiptEvents settings address config receipt)) = [] :=
        rowsOf_eq_nil fun _ h => table_of_mem_nftStatements h ▸ TableName.noConfusion
      have hpair : rowsOf .contractSupplyChange (pairStatements address txHash
          (receiptTotals settings address config receipt)) = [] :=
        rowsOf_eq_nil fun _ h => table_of_mem_pairStatements h ▸ TableName.noConfusion
      have hnet : netSupply settings receipt address =
          (receiptTotals settings address config receipt).amountChanged := by
        simp [netSupply, hconfig]
      simp only [eventStatements, hconfig, rowsOf_append, hnft, hpair, List.nil_append,
        List.append_nil]
      by_cases hcategory : config.category = .erc20
      · have hlast : (receiptTotals settings address config receipt).event.map
            ContractEvent.address = lastEmitter settings receipt :=
          address_event_receiptTotals address hcategory
        unfold supplyRows supplyStatements
        rw [← hlast, hnet]
        cases (receiptTotals settings address config receipt).event with
        | none => rfl
        | some event =>
            simp only [Option.map_some]
            split <;> rfl
      · have hzero : (receiptTotals settings address config receipt).amountChanged = 0 :=
          amountChanged_eq_zero hcategory
        unfold supplyRows supplyStatements
        rw [hnet, hzero]
        simp only [if_true]
        split <;> split <;> rfl

theorem firstWith_supplyRows_iff {txHash address : String} {k : String × String}
    {row : ContractSupplyChangeRow} :
    Table.firstWith (primaryKey .contractSupplyChange) k
        (supplyRows settings receipt txHash address) = some row ↔
      ∃ emitter, lastEmitter settings receipt = some emitter ∧
        netSupply settings receipt address ≠ 0 ∧ k = (emitter, txHash) ∧
        row = ⟨emitter, netSupply settings receipt address, txHash⟩ := by
  unfold supplyRows
  cases hlast : lastEmitter settings receipt with
  | none => simp [Table.firstWith]
  | some emitter =>
      by_cases hnet : netSupply settings receipt address = 0
      · simp [Table.firstWith, hnet]
      · simp [Table.firstWith, primaryKey, hnet, eq_comm]

theorem supplyAgrees_iff (txHash : String) (db : Database) :
    (∀ i ∈ eventAddresses receipt, ∀ j ∈ eventAddresses receipt, ∀ k a b,
      (db.table .contractSupplyChange).lookup k = none →
      Table.firstWith (primaryKey .contractSupplyChange) k
        (rowsOf .contractSupplyChange (eventStatements settings txHash receipt i)) = some a →
      Table.firstWith (primaryKey .contractSupplyChange) k
        (rowsOf .contractSupplyChange (eventStatements settings txHash receipt j)) = some b →
      a = b) ↔ SupplyAgrees settings receipt txHash db := by
  simp only [rowsOf_contractSupplyChange_eventStatements]
  refine forall₂_congr fun i _ => forall₂_congr fun j _ => ?_
  constructor
  · intro h hi hj
    obtain ⟨emitter, hlast⟩ := exists_lastEmitter hi
    rw [or_iff_not_imp_right]
    intro hfree
    have hrow := h (emitter, txHash) _ _ (not_not.mp fun htaken => hfree ⟨emitter, hlast, htaken⟩)
      (firstWith_supplyRows_iff.mpr ⟨emitter, hlast, hi, rfl, rfl⟩)
      (firstWith_supplyRows_iff.mpr ⟨emitter, hlast, hj, rfl, rfl⟩)
    exact congrArg ContractSupplyChangeRow.amountChanged hrow
  · intro h k a b hfree ha hb
    obtain ⟨emitter, hlast, hi, rfl, rfl⟩ := firstWith_supplyRows_iff.mp ha
    obtain ⟨emitter', hlast', hj, _, rfl⟩ := firstWith_supplyRows_iff.mp hb
    obtain rfl : emitter = emitter' := Option.some.inj (hlast.symm.trans hlast')
    rcases h hi hj with heq | ⟨other, hother, htaken⟩
    · rw [heq]
    · obtain rfl : emitter = other := Option.some.inj (hlast.symm.trans hother)
      exact absurd hfree htaken

end Supply

/-! ## Token transfers and liquidity changes -/

section Transfers

variable [ChecksumSpelling] {settings : ParserSettings} {receipt : TxReceipt}

/-- Recorded transfers of two contracts do not share a free key. -/
def TransfersAgree (settings : ParserSettings) (receipt : TxReceipt) (txHash : String)
    (db : Database) : Prop :=
  ∀ left ∈ receipt.logs, ∀ right ∈ receipt.logs, (recordedTransfer settings left).isSome →
    (recordedTransfer settings right).isSome → left.logIndex = right.logIndex →
      left.address = right.address ∨
        (db.table .nftTransfer).lookup (txHash, left.logIndex) ≠ none

theorem exists_firstWith_nftTransfer (txHash : String) {log : LogReceipt}
    (hlog : log ∈ receipt.logs) (hrecorded : (recordedTransfer settings log).isSome) :
    ∃ row, Table.firstWith (primaryKey .nftTransfer) (txHash, log.logIndex)
      (rowsOf .nftTransfer (eventStatements settings txHash receipt log.address.val)) =
        some row := by
  obtain ⟨args, hargs⟩ := Option.isSome_iff_exists.mp hrecorded
  refine Option.ne_none_iff_exists'.mp fun hnone => ?_
  exact Table.firstWith_eq_none_iff.mp hnone (nftTransferRow txHash log args)
    (mem_nftTransfer_eventStatements_iff.mpr ⟨log, hlog, rfl, args, hargs, rfl⟩) rfl

theorem transfersAgree_iff (txHash : String) (db : Database) :
    (∀ i ∈ eventAddresses receipt, ∀ j ∈ eventAddresses receipt, ∀ k a b,
      (db.table .nftTransfer).lookup k = none →
      Table.firstWith (primaryKey .nftTransfer) k
        (rowsOf .nftTransfer (eventStatements settings txHash receipt i)) = some a →
      Table.firstWith (primaryKey .nftTransfer) k
        (rowsOf .nftTransfer (eventStatements settings txHash receipt j)) = some b →
      a = b) ↔ TransfersAgree settings receipt txHash db := by
  constructor
  · intro h left hleft right hright hleftRecorded hrightRecorded hindex
    rw [or_iff_not_imp_right, not_not]
    intro hfree
    obtain ⟨a, ha⟩ := exists_firstWith_nftTransfer txHash hleft hleftRecorded
    obtain ⟨b, hb⟩ := exists_firstWith_nftTransfer txHash hright hrightRecorded
    rw [← hindex] at hb
    obtain rfl := h _ (List.mem_map_of_mem hleft) _ (List.mem_map_of_mem hright) _ a b hfree ha hb
    obtain ⟨log, _, haddress, _, _, hrow⟩ :=
      mem_nftTransfer_eventStatements_iff.mp (Table.mem_of_firstWith ha)
    obtain ⟨other, _, haddress', _, _, hrow'⟩ :=
      mem_nftTransfer_eventStatements_iff.mp (Table.mem_of_firstWith hb)
    have hsame : log.address.val = other.address.val :=
      congrArg NftTransferRow.address (hrow.symm.trans hrow')
    rw [← ChecksumAddress.val_inj, ← haddress, ← haddress', hsame]
  · intro h i _ j _ k a b hfree ha hb
    obtain ⟨left, hleft, rfl, args, hargs, rfl⟩ :=
      mem_nftTransfer_eventStatements_iff.mp (Table.mem_of_firstWith ha)
    obtain ⟨right, hright, rfl, args', hargs', rfl⟩ :=
      mem_nftTransfer_eventStatements_iff.mp (Table.mem_of_firstWith hb)
    have hkey : primaryKey .nftTransfer (nftTransferRow txHash left args) = some k :=
      Table.key_of_firstWith ha
    have hkey' : primaryKey .nftTransfer (nftTransferRow txHash right args') = some k :=
      Table.key_of_firstWith hb
    obtain rfl : (txHash, left.logIndex) = k := Option.some.inj hkey
    have hindex : right.logIndex = left.logIndex := (Prod.mk.inj (Option.some.inj hkey')).2
    rcases h left hleft right hright (by simp [hargs]) (by simp [hargs'])
      hindex.symm with haddress | htaken
    · rw [haddress] at ha
      exact Option.some.inj (ha.symm.trans hb)
    · exact absurd hfree htaken

/-- The liquidity row of an address has the totals of its own events. -/
theorem eq_of_mem_pairLiquidityChange {txHash address : String} {row : PairLiquidityChangeRow}
    (h : row ∈ rowsOf .pairLiquidityChange (eventStatements settings txHash receipt address)) :
    ∃ config, settings.config address = some config ∧
      row = {
        address
        amount0 := (receiptTotals settings address config receipt).pairAmount0Changed
        amount1 := (receiptTotals settings address config receipt).pairAmount1Changed
        transactionHash := txHash } := by
  rw [mem_rowsOf_iff] at h
  cases hconfig : settings.config address with
  | none => simp [eventStatements, hconfig] at h
  | some config =>
      simp only [eventStatements, hconfig, List.mem_append] at h
      refine ⟨config, rfl, ?_⟩
      rcases h with h | h | h
      · cases table_of_mem_nftStatements h
      · cases table_of_mem_supplyStatements h
      · unfold pairStatements at h
        split at h
        · cases h
        · exact Statement.insert_inj.mp (List.mem_singleton.mp h)

theorem address_of_mem_pairLiquidityChange {txHash address : String}
    {row : PairLiquidityChangeRow}
    (h : row ∈ rowsOf .pairLiquidityChange (eventStatements settings txHash receipt address)) :
    row.address = address := by
  obtain ⟨_, _, rfl⟩ := eq_of_mem_pairLiquidityChange h
  rfl

/-- The liquidity row carries the address it is written for, so it never
collides with that of another address. -/
theorem pairLiquidityChange_agrees {txHash i j : String} {k : String × String}
    {a b : PairLiquidityChangeRow}
    (ha : Table.firstWith (primaryKey .pairLiquidityChange) k
      (rowsOf .pairLiquidityChange (eventStatements settings txHash receipt i)) = some a)
    (hb : Table.firstWith (primaryKey .pairLiquidityChange) k
      (rowsOf .pairLiquidityChange (eventStatements settings txHash receipt j)) = some b) :
    a = b := by
  have hkey : primaryKey .pairLiquidityChange a = primaryKey .pairLiquidityChange b :=
    (Table.key_of_firstWith ha).trans (Table.key_of_firstWith hb).symm
  have haddress : a.address = b.address := (Prod.mk.inj (Option.some.inj hkey)).1
  rw [address_of_mem_pairLiquidityChange (Table.mem_of_firstWith ha),
    address_of_mem_pairLiquidityChange (Table.mem_of_firstWith hb)] at haddress
  rw [haddress] at ha
  exact Option.some.inj (ha.symm.trans hb)

end Transfers

/-! ## The whole interaction -/

section Interaction

variable [ChecksumSpelling]

/-- The same decision, and the same rows in the three tables of events. -/
def SameResult
    (left right : Outcome PyError ((Bool × Finset ℕ) × ContractParser) × Database) : Prop :=
  (∃ decision leftParser rightParser, left.1 = .returned (decision, leftParser) ∧
    right.1 = .returned (decision, rightParser)) ∧
  ∀ name ∈ eventTables,
    (left.2.table name).Same (right.2.table name)

/-- Every two orders of the set of event addresses give the same result. -/
def OrderIndependent (node : Node) (parser : ContractParser) (toAddress : String) (tx : TxData)
    (receipt : TxReceipt) (db : Database) : Prop :=
  ∀ left right : SetOrder, SameResult
    (process node (PartialTransactionProcessor.processRegularContractInteraction left parser
      toAddress (.parse tx) (.parse receipt) receipt) db)
    (process node (PartialTransactionProcessor.processRegularContractInteraction right parser
      toAddress (.parse tx) (.parse receipt) receipt) db)

variable {node : Node} {parser : ContractParser} {tx : TxData} {receipt : TxReceipt}
  {toAddress : ChecksumAddress}

/-- The interaction under one order: its decision does not mention the order. -/
theorem processRegularContractInteraction_performs (node : Node) (hparser : parser.Consistent)
    (hto : tx.toAddress = some toAddress)
    (hconfig : parser.settings.config toAddress.val = none)
    (hbuild : ∀ log ∈ receipt.logs, Buildable parser.settings log.address.val)
    (setOrder : SetOrder) :
    ∃ parser', Performs node
      (PartialTransactionProcessor.processRegularContractInteraction setOrder parser toAddress.val
        (.parse tx) (.parse receipt) receipt)
      ((decide (0 < (unionIndices parser.settings receipt (eventAddresses receipt)).card),
        unionIndices parser.settings receipt (eventAddresses receipt)), parser')
      ((setOrder.order (eventAddresses receipt)).flatMap
        (eventStatements parser.settings tx.hash receipt)) := by
  have hhandled : handledAddresses parser.settings setOrder tx receipt =
      setOrder.order (eventAddresses receipt) := by
    simp [handledAddresses, hto, hconfig, eventAddresses]
  have hbuildHandled : ∀ address ∈ handledAddresses parser.settings setOrder tx receipt,
      Buildable parser.settings address := by
    rw [hhandled]
    intro address haddress
    have hmem := List.mem_dedup.mp ((setOrder.perm _).mem_iff.mp haddress)
    obtain ⟨log, hlog, rfl⟩ := List.mem_map.mp hmem
    exact hbuild log hlog
  obtain ⟨parser', _, _, hperforms⟩ := decideSave_performs node hparser hbuildHandled
  have hindices : savedIndices parser.settings setOrder tx receipt =
      unionIndices parser.settings receipt (eventAddresses receipt) := by
    ext index
    simp [savedIndices, hhandled, unionIndices, (setOrder.perm _).mem_iff]
  have hsave : shouldSave parser.settings setOrder tx receipt =
      decide (0 < (unionIndices parser.settings receipt (eventAddresses receipt)).card) := by
    simp [shouldSave, hto, hconfig, hindices]
  rw [decideSave_eq_some hto, hsave, hindices, decisionStatements, hhandled] at hperforms
  exact ⟨parser', hperforms⟩

/-- Where `to_address` is not configured and web3 builds the contracts of the
event addresses, all orders give the same result exactly when the supply rows
and the token transfers agree. -/
theorem all_orders_same_iff (hparser : parser.Consistent) (hto : tx.toAddress = some toAddress)
    (hconfig : parser.settings.config toAddress.val = none)
    (hbuild : ∀ log ∈ receipt.logs, Buildable parser.settings log.address.val) (db : Database) :
    OrderIndependent node parser toAddress.val tx receipt db ↔
      SupplyAgrees parser.settings receipt tx.hash db ∧
        TransfersAgree parser.settings receipt tx.hash db := by
  have hrun : ∀ left right : SetOrder, SameResult
      (process node (PartialTransactionProcessor.processRegularContractInteraction left parser
        toAddress.val (.parse tx) (.parse receipt) receipt) db)
      (process node (PartialTransactionProcessor.processRegularContractInteraction right parser
        toAddress.val (.parse tx) (.parse receipt) receipt) db) ↔
      ∀ name ∈ eventTables,
        ((db.executeAll ((left.order (eventAddresses receipt)).flatMap
          (eventStatements parser.settings tx.hash receipt))).table name).Same
        ((db.executeAll ((right.order (eventAddresses receipt)).flatMap
          (eventStatements parser.settings tx.hash receipt))).table name) := by
    intro left right
    obtain ⟨leftParser, hleft⟩ := processRegularContractInteraction_performs node
      hparser hto hconfig hbuild left
    obtain ⟨rightParser, hright⟩ := processRegularContractInteraction_performs node
      hparser hto hconfig hbuild right
    rw [SameResult, hleft.process, hright.process]
    exact and_iff_right ⟨_, leftParser, rightParser, rfl, rfl⟩
  rw [← supplyAgrees_iff, ← transfersAgree_iff, ← table_same_iff, ← table_same_iff]
  simp only [OrderIndependent, hrun]
  constructor
  · intro h
    exact ⟨fun left right => h left right _ (by decide),
      fun left right => h left right _ (by decide)⟩
  · rintro ⟨hsupply, htransfers⟩ left right name hname
    simp only [eventTables, List.mem_cons, List.not_mem_nil, or_false] at hname
    rcases hname with rfl | rfl | rfl
    · exact hsupply left right
    · exact (table_same_iff db _).mpr
        (fun _ _ _ _ _ _ _ _ ha hb => pairLiquidityChange_agrees ha hb) left right
    · exact htransfers left right

end Interaction

section Deployment

open Deployment

/-- Mints of two tokens in one transaction. -/
def mintReceipt (coinAmount tokenAmount : String) : TxReceipt where
  gasUsed := 21000
  logs := [transferLog coin 0 zeroAddress holder coinAmount [],
    transferLog token 1 zeroAddress holder tokenAmount []]
  contractAddress := none

theorem buildable_deployment (address : ChecksumAddress) :
    Buildable parser.settings address.val :=
  fun _ _ => ⟨_, if_pos address.property⟩

/-- Equal amounts: the order does not show. -/
theorem all_orders_same_of_equal_mints :
    OrderIndependent node parser holder.val (transaction (some holder))
      (mintReceipt "0x10" "0x10") Database.empty := by
  refine (all_orders_same_iff parser_consistent rfl (by decide)
    (fun log _ => buildable_deployment log.address) Database.empty).mpr ⟨?_, ?_⟩
  · have hequal : ∀ i ∈ eventAddresses (mintReceipt "0x10" "0x10"),
        ∀ j ∈ eventAddresses (mintReceipt "0x10" "0x10"),
          netSupply parser.settings (mintReceipt "0x10" "0x10") i =
            netSupply parser.settings (mintReceipt "0x10" "0x10") j := by decide
    exact fun i hi j hj _ _ => .inl (hequal i hi j hj)
  · intro left hleft _ _ hrecorded
    have hnone : ∀ log ∈ (mintReceipt "0x10" "0x10").logs,
        ¬ (recordedTransfer parser.settings log).isSome := by decide
    exact absurd hrecorded (hnone left hleft)

def coinFirst : SetOrder :=
  orderOf (show [coin.val, token.val].Perm (eventAddresses (mintReceipt "0x10" "0x20")).dedup by
    decide)

def tokenFirst : SetOrder :=
  orderOf (show [token.val, coin.val].Perm (eventAddresses (mintReceipt "0x10" "0x20")).dedup by
    decide)

/-- Different amounts: the stored supply change depends on the order. -/
theorem supplyChange_depends_on_order :
    ¬ OrderIndependent node parser holder.val (transaction (some holder))
      (mintReceipt "0x10" "0x20") Database.empty := by
  intro hsame
  have hsubset := ((hsame coinFirst tokenFirst).2 .contractSupplyChange (by decide)).subset
  exact absurd (@hsubset ⟨token.val, 16, txHash⟩ (by decide)) (by decide)

end Deployment

end BlockchainDataCollection.IterationOrder
