import BlockchainDataCollection.Store.Database
import BlockchainDataCollection.Store.Join

/-!
# The supply command of the query tool

`cmd_supply` joins the supply changes of an address with their transactions and
these with their blocks, for a range of block numbers, and prints the records by
time.  An end block of 0 counts as missing, and rows of one time come in any order.
-/

namespace BlockchainDataCollection.SupplyQuery

open BlockchainDataCollection.KeyedTable
open BlockchainDataCollection.Storage

structure SupplyArgs where
  address : String
  /-- Included. -/
  startBlock : ℤ
  /-- Not included. -/
  endBlock : Option ℤ

/-- `if args.end_block`. -/
def upperBound (args : SupplyArgs) : Option ℤ :=
  args.endBlock.filter (· ≠ 0)

def InRange (args : SupplyArgs) (blockNumber : ℤ) : Prop :=
  args.startBlock ≤ blockNumber ∧ ∀ endBlock ∈ upperBound args, blockNumber < endBlock

instance (args : SupplyArgs) (blockNumber : ℤ) : Decidable (InRange args blockNumber) :=
  inferInstanceAs (Decidable (_ ∧ ∀ endBlock ∈ upperBound args, _))

structure SupplyRecord where
  amountChanged : ℤ
  timestamp : ℤ
  deriving DecidableEq

section Query

variable (db : Database) (args : SupplyArgs)

def transactionJoin : List (ContractSupplyChangeRow × TransactionRow) :=
  innerJoin (db.table .contractSupplyChange).rows (db.table .transaction).rows fun change tx =>
    change.transactionHash = tx.transactionHash ∧ change.address = args.address

def blockJoin : List ((ContractSupplyChangeRow × TransactionRow) × BlockRow) :=
  innerJoin (transactionJoin db args) (db.table .block).rows fun pair block =>
    pair.2.blockNumber = block.blockNumber ∧ InRange args pair.2.blockNumber

/-- What the cursor may yield: the selected columns, ordered by the timestamp. -/
structure Fetches (records : List SupplyRecord) : Prop where
  perm : records.Perm ((blockJoin db args).map fun joined =>
    ⟨joined.1.1.amountChanged, joined.2.timestamp⟩)
  sorted : records.Pairwise (·.timestamp ≤ ·.timestamp)

end Query

/-- A server has the tables of every node under the name of the node. -/
abbrev Server := String → Database

/-- The `eth` of the table names in the query. -/
def queriedNode : String := "eth"

/-- The command reads the tables of one node, whatever nodes there are. -/
def FetchesFrom (server : Server) (args : SupplyArgs) (records : List SupplyRecord) : Prop :=
  Fetches (server queriedNode) args records

/-- The tables of other nodes are not reported. -/
theorem fetchesFrom_update_iff {server : Server} {args : SupplyArgs} {records : List SupplyRecord}
    {nodeName : String} (hname : nodeName ≠ queriedNode) (db : Database) :
    FetchesFrom (Function.update server nodeName db) args records ↔
      FetchesFrom server args records := by
  rw [FetchesFrom, FetchesFrom, Function.update_of_ne hname.symm]

inductive Printed where
  | record (record : SupplyRecord)
  | message (text : String)
  deriving DecidableEq

/-- What the command prints. -/
def cmdSupply (args : SupplyArgs) (records : List SupplyRecord) : List Printed :=
  records.map .record ++
    if records.length = 0 then
      [.message ("No supply changes found for specified address ('" ++ args.address ++ "').")]
    else []

/-! ## Joins are lookups -/

section Lookups

variable {db : Database} {args : SupplyArgs} {records : List SupplyRecord}

/-- The record of a supply change, where its transaction and its block are stored and
in range. -/
def recordOf (db : Database) (args : SupplyArgs) (change : ContractSupplyChangeRow) :
    Option SupplyRecord :=
  if change.address = args.address then do
    let tx ← (db.table .transaction).lookup change.transactionHash
    if InRange args tx.blockNumber then do
      let block ← (db.table .block).lookup tx.blockNumber
      return ⟨change.amountChanged, block.timestamp⟩
    else none
  else none

theorem transactionJoin_eq : transactionJoin db args =
    (db.table .contractSupplyChange).rows.filterMap fun change =>
      if change.address = args.address then
        ((db.table .transaction).lookup change.transactionHash).map fun tx => (change, tx)
      else none := by
  have hjoin := @innerJoin_eq_filterMap ContractSupplyChangeRow TransactionRow String
    (primaryKey .transaction) _ (db.table .contractSupplyChange).rows (db.table .transaction)
    (fun change tx => change.transactionHash = tx.transactionHash ∧ change.address = args.address)
    ContractSupplyChangeRow.transactionHash (fun change => change.address = args.address) ?_
  · simpa only [transactionJoin, decide_eq_true_eq] using hjoin
  · intro change tx
    rw [Bool.decide_and, Bool.and_comm]
    simp [primaryKey, eq_comm]

theorem blockJoin_eq : blockJoin db args =
    (transactionJoin db args).filterMap fun pair =>
      if InRange args pair.2.blockNumber then
        ((db.table .block).lookup pair.2.blockNumber).map fun block => (pair, block)
      else none := by
  have hjoin := @innerJoin_eq_filterMap (ContractSupplyChangeRow × TransactionRow) BlockRow ℤ
    (primaryKey .block) _ (transactionJoin db args) (db.table .block)
    (fun pair block => pair.2.blockNumber = block.blockNumber ∧ InRange args pair.2.blockNumber)
    (fun pair => pair.2.blockNumber) (fun pair => InRange args pair.2.blockNumber) ?_
  · simpa only [blockJoin, decide_eq_true_eq] using hjoin
  · intro pair block
    rw [Bool.decide_and, Bool.and_comm]
    simp [primaryKey, eq_comm]

theorem map_blockJoin : (blockJoin db args).map (fun joined =>
      (⟨joined.1.1.amountChanged, joined.2.timestamp⟩ : SupplyRecord)) =
    (db.table .contractSupplyChange).rows.filterMap (recordOf db args) := by
  rw [blockJoin_eq, transactionJoin_eq, List.filterMap_filterMap, List.map_filterMap]
  refine List.filterMap_congr fun change _ => ?_
  unfold recordOf
  split
  · cases (db.table .transaction).lookup change.transactionHash with
    | none => rfl
    | some tx =>
        simp only [Option.map_some, Option.bind_some, Option.bind_eq_bind, Option.pure_def]
        split
        · cases (db.table .block).lookup tx.blockNumber <;> rfl
        · rfl
  · rfl

/-- The records are those of the supply changes, one each at most, by time. -/
theorem fetches_iff : Fetches db args records ↔
    records.Perm ((db.table .contractSupplyChange).rows.filterMap (recordOf db args)) ∧
      records.Pairwise (·.timestamp ≤ ·.timestamp) := by
  rw [← map_blockJoin]
  exact ⟨fun h => ⟨h.perm, h.sorted⟩, fun h => ⟨h.1, h.2⟩⟩

/-- The cursor yields something in any case. -/
theorem exists_fetches (db : Database) (args : SupplyArgs) :
    ∃ records, Fetches db args records := by
  refine ⟨((db.table .contractSupplyChange).rows.filterMap (recordOf db args)).mergeSort
    fun left right => left.timestamp ≤ right.timestamp, fetches_iff.mpr ⟨?_, ?_⟩⟩
  · exact List.mergeSort_perm _ _
  · refine (List.pairwise_mergeSort ?_ ?_ _).imp fun h => of_decide_eq_true h
    · intro first second third h h'
      exact decide_eq_true ((of_decide_eq_true h).trans (of_decide_eq_true h'))
    · intro left right
      simpa using le_total left.timestamp right.timestamp

end Lookups

/-! ## Adjacent ranges -/

section Ranges

variable {db : Database} {address : String} {start middle : ℤ} {stop : Option ℤ}

/-- A range of blocks of one address. -/
def upTo (address : String) (start : ℤ) (stop : Option ℤ) : SupplyArgs := ⟨address, start, stop⟩

@[simp]
theorem address_upTo : (upTo address start stop).address = address := rfl

theorem upperBound_some (hmiddle : middle ≠ 0) :
    upperBound (upTo address start (some middle)) = some middle := by
  simp [upperBound, upTo, Option.filter, hmiddle]

/-- A block of a range that is cut in two is in one part, and in one only. -/
theorem inRange_cases (hmiddle : middle ≠ 0) (hstart : start ≤ middle)
    (hstop : ∀ endBlock ∈ upperBound (upTo address middle stop), middle ≤ endBlock)
    (blockNumber : ℤ) :
    (InRange (upTo address start stop) blockNumber ↔
      InRange (upTo address start (some middle)) blockNumber ∨
        InRange (upTo address middle stop) blockNumber) ∧
      ¬ (InRange (upTo address start (some middle)) blockNumber ∧
        InRange (upTo address middle stop) blockNumber) := by
  have hfirst : InRange (upTo address start (some middle)) blockNumber ↔
      start ≤ blockNumber ∧ blockNumber < middle := by
    rw [InRange, upperBound_some hmiddle]
    simp [upTo]
  have hsecond : InRange (upTo address middle stop) blockNumber ↔ middle ≤ blockNumber ∧
      ∀ endBlock ∈ upperBound (upTo address middle stop), blockNumber < endBlock := Iff.rfl
  have hwhole : InRange (upTo address start stop) blockNumber ↔ start ≤ blockNumber ∧
      ∀ endBlock ∈ upperBound (upTo address middle stop), blockNumber < endBlock := Iff.rfl
  rw [hfirst, hsecond, hwhole]
  refine ⟨⟨?_, ?_⟩, fun h => absurd h.1.2 (not_lt.mpr h.2.1)⟩
  · rintro ⟨hle, hlt⟩
    rcases lt_or_ge blockNumber middle with hbefore | hafter
    · exact .inl ⟨hle, hbefore⟩
    · exact .inr ⟨hafter, hlt⟩
  · rintro (⟨hle, hlt⟩ | ⟨hle, hlt⟩)
    · exact ⟨hle, fun endBlock hend => hlt.trans_le (hstop endBlock hend)⟩
    · exact ⟨hstart.trans hle, hlt⟩

/-- The record of a change is that of one part, and the other part has none. -/
theorem recordOf_cases (hmiddle : middle ≠ 0) (hstart : start ≤ middle)
    (hstop : ∀ endBlock ∈ upperBound (upTo address middle stop), middle ≤ endBlock)
    (change : ContractSupplyChangeRow) :
    recordOf db (upTo address start stop) change =
          recordOf db (upTo address start (some middle)) change ∧
        recordOf db (upTo address middle stop) change = none ∨
      recordOf db (upTo address start (some middle)) change = none ∧
        recordOf db (upTo address start stop) change =
          recordOf db (upTo address middle stop) change := by
  by_cases haddress : change.address = address
  · cases htx : (db.table .transaction).lookup change.transactionHash with
    | none => exact .inl (by simp [recordOf, htx])
    | some tx =>
        obtain ⟨hwhole, hdisjoint⟩ :=
          @inRange_cases address start middle stop hmiddle hstart hstop tx.blockNumber
        by_cases hfirst : InRange (upTo address start (some middle)) tx.blockNumber
        · have hsecond : ¬ InRange (upTo address middle stop) tx.blockNumber :=
            fun h => hdisjoint ⟨hfirst, h⟩
          refine .inl ⟨?_, ?_⟩
          · simp [recordOf, htx, hfirst, hwhole]
          · simp [recordOf, htx, hsecond]
        · refine .inr ⟨by simp [recordOf, htx, hfirst], ?_⟩
          rw [or_iff_right hfirst] at hwhole
          simp [recordOf, htx, hwhole]
  · exact .inl (by simp [recordOf, haddress])

def genesisChange (address : String) : ContractSupplyChangeRow := ⟨address, 1, "0x01"⟩

def genesisTransaction : TransactionRow where
  transactionHash := "0x01"
  blockNumber := 0
  fromAddress := "0x00"
  toAddress := none
  value := 0
  transactionFee := 0
  gasPrice := 0
  gasLimit := 0
  gasUsed := 0
  isTokenTx := false
  inputData := "0x"

def genesisBlock : BlockRow where
  blockNumber := 0
  blockHash := "0xb0"
  nonce := "0x00"
  difficulty := 0
  gasLimit := 0
  gasUsed := 0
  timestamp := 5
  miner := "0x00"
  parentHash := "0x00"
  blockReward := 0
  uncles := []

/-- A supply change in block 0. -/
def genesisDatabase (address : String) : Database :=
  Database.empty.executeAll [insertContractSupplyChange (genesisChange address),
    insertTransaction genesisTransaction, insertBlock genesisBlock]

theorem fetches_genesisDatabase (h : InRange (upTo address start stop) 0) :
    Fetches (genesisDatabase address) (upTo address start stop) [⟨1, 5⟩] := by
  have hrows : ((genesisDatabase address).table .contractSupplyChange).rows =
      [genesisChange address] := rfl
  have htx : ((genesisDatabase address).table .transaction).lookup "0x01" =
      some genesisTransaction := rfl
  have hblock : ((genesisDatabase address).table .block).lookup 0 = some genesisBlock := rfl
  have hrecord : recordOf (genesisDatabase address) (upTo address start stop)
      (genesisChange address) = some ⟨1, 5⟩ := by
    simp [recordOf, genesisChange, genesisTransaction, genesisBlock, htx, hblock, h]
  rw [fetches_iff, hrows, List.filterMap_cons, hrecord]
  exact ⟨.refl _, List.pairwise_singleton _ _⟩

/-- The records of two adjacent ranges are together those of the whole range, for all
tables, exactly when the ranges do not meet at block 0. -/
theorem ranges_add_up_iff (hstart : start ≤ middle)
    (hstop : ∀ endBlock ∈ upperBound (upTo address middle stop), middle ≤ endBlock) :
    (∀ db first second whole, Fetches db (upTo address start (some middle)) first →
        Fetches db (upTo address middle stop) second → Fetches db (upTo address start stop) whole →
          whole.Perm (first ++ second)) ↔
      middle ≠ 0 := by
  constructor
  · rintro h rfl
    have hbefore : ∀ endBlock ∈ upperBound (upTo address 0 stop), 0 < endBlock := by
      intro endBlock hend
      have hne : endBlock ≠ 0 := by simpa using (Option.mem_filter_iff.mp hend).2
      exact lt_of_le_of_ne (hstop endBlock hend) hne.symm
    have hperm := h (genesisDatabase address) _ _ _
      (fetches_genesisDatabase ⟨hstart, by simp [upperBound, upTo]⟩)
      (fetches_genesisDatabase ⟨le_rfl, hbefore⟩) (fetches_genesisDatabase ⟨hstart, hbefore⟩)
    cases hperm.length_eq
  · intro hmiddle db first second whole hfirst hsecond hwhole
    refine (fetches_iff.mp hwhole).1.trans (List.Perm.trans ?_
      ((fetches_iff.mp hfirst).1.append (fetches_iff.mp hsecond).1).symm)
    exact filterMap_perm_append fun change _ => recordOf_cases hmiddle hstart hstop change

theorem ranges_add_up_of_ten : ∃ first second whole,
    Fetches (genesisDatabase "0xa0") (upTo "0xa0" 0 (some 10)) first ∧
      Fetches (genesisDatabase "0xa0") (upTo "0xa0" 10 none) second ∧
      Fetches (genesisDatabase "0xa0") (upTo "0xa0" 0 none) whole ∧
      whole.Perm (first ++ second) := by
  obtain ⟨first, hfirst⟩ := exists_fetches (genesisDatabase "0xa0") (upTo "0xa0" 0 (some 10))
  obtain ⟨second, hsecond⟩ := exists_fetches (genesisDatabase "0xa0") (upTo "0xa0" 10 none)
  obtain ⟨whole, hwhole⟩ := exists_fetches (genesisDatabase "0xa0") (upTo "0xa0" 0 none)
  have hten : (10 : ℤ) ≠ 0 := by decide
  exact ⟨first, second, whole, hfirst, hsecond, hwhole,
    (ranges_add_up_iff (by decide) (by simp [upperBound, upTo])).mpr hten _ _ _ _ hfirst hsecond
      hwhole⟩

end Ranges

end BlockchainDataCollection.SupplyQuery
