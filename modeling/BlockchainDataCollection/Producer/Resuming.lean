import BlockchainDataCollection.Producer.Producing

/-!
# Where a producer resumes

`BlockExplorer.get_exploration_bounds` against the tables of a database: the
bounds are those of the configuration, or start at the genesis block.  Resuming
from the latest stored block never gets to compare the transactions.
-/

namespace BlockchainDataCollection.Resuming

open BlockchainDataCollection.Effect
open BlockchainDataCollection.Python
open BlockchainDataCollection.Data
open BlockchainDataCollection.Storage
open BlockchainDataCollection.KafkaProducer
open BlockchainDataCollection.DataProducer
open BlockchainDataCollection.Producing

/-- `get_block()` of the database manager: the block number of the first row of
`ORDER BY block_number DESC LIMIT 1`. -/
def latestBlock (db : Database) : Option ℤ :=
  ((db.table .block).rows.map BlockRow.blockNumber).max?

theorem latestBlock_eq_none_iff {db : Database} :
    latestBlock db = none ↔ (db.table .block).rows = [] := by
  rw [latestBlock, List.max?_eq_none_iff, List.map_eq_nil_iff]

/-- The environment reads the block table of `db` and asks `node` for blocks. -/
structure Reads (db : Database) (node : ℤ → Except PyError BlockData)
    (environment : ProducerEnvironment) : Prop where
  getBlock : ∀ history, environment history .getBlock = .ok (latestBlock db)
  getBlockData : ∀ history number, environment history (.getBlockData number) = node number

/-- Every transaction of the block, as the node returns it, is stored. -/
def BlockStored (db : Database) (node : ℤ → Except PyError BlockData) (number : ℤ) : Prop :=
  ∀ block, node number = .ok block → ∀ txHash ∈ block.transactions,
    ∃ row ∈ (db.table .transaction).rows, row.transactionHash = txHash

/-- The bounds with which no block is skipped. -/
def ResumesAt (db : Database) (node : ℤ → Except PyError BlockData) (cfg : DataCollectionConfig)
    (bounds : ℤ × Option ℤ) : Prop :=
  bounds.2 = cfg.endBlock ∧
    match cfg.startBlock, latestBlock db with
    | some startBlock, _ => bounds.1 = startBlock
    | none, none => bounds.1 = 0
    | none, some last => (bounds.1 = last ∨ bounds.1 = last + 1) ∧
        (bounds.1 = last + 1 → BlockStored db node last)

section Bounds

variable {db : Database} {node : ℤ → Except PyError BlockData} {environment : ProducerEnvironment}
  {cfg : DataCollectionConfig}

theorem getExplorationBounds_of_startBlock (h : Reads db node environment)
    (history : List ProducerEvent) {startBlock : ℤ} (hstart : cfg.startBlock = some startBlock) :
    ((getExplorationBounds cfg).runIn environment history).1 =
      .returned (startBlock, cfg.endBlock) := by
  rw [getExplorationBounds, perform, Program.runIn_perform_bind_ok (h.getBlock history), hstart]
  rfl

theorem getExplorationBounds_of_no_block (h : Reads db node environment)
    (history : List ProducerEvent) (hstart : cfg.startBlock = none)
    (hempty : latestBlock db = none) :
    ((getExplorationBounds cfg).runIn environment history).1 = .returned (0, cfg.endBlock) := by
  rw [getExplorationBounds, perform, Program.runIn_perform_bind_ok (h.getBlock history), hstart,
    hempty]
  rfl

/-- Resuming from a stored block raises, at the request to the node or after it. -/
theorem getExplorationBounds_of_stored_block (h : Reads db node environment)
    (history : List ProducerEvent) (hstart : cfg.startBlock = none) {last : ℤ}
    (hlast : latestBlock db = some last) :
    ∃ error, ((getExplorationBounds cfg).runIn environment history).1 = .raised error := by
  rw [getExplorationBounds, perform, Program.runIn_perform_bind_ok (h.getBlock history), hstart,
    hlast]
  simp only [perform]
  cases hnode : node last with
  | ok block =>
      rw [Program.runIn_perform_bind_ok ((h.getBlockData _ last).trans hnode)]
      exact ⟨_, rfl⟩
  | error error =>
      rw [Program.runIn_perform_bind_error ((h.getBlockData _ last).trans hnode)]
      exact ⟨error, rfl⟩

/-- The bounds are returned, and skip no block, exactly when they need not be
found from the stored blocks. -/
theorem getExplorationBounds_resumesAt_iff (h : Reads db node environment)
    (history : List ProducerEvent) :
    (∃ bounds, ((getExplorationBounds cfg).runIn environment history).1 = .returned bounds ∧
        ResumesAt db node cfg bounds) ↔
      cfg.startBlock ≠ none ∨ (db.table .block).rows = [] := by
  rw [← latestBlock_eq_none_iff]
  cases hstart : cfg.startBlock with
  | some startBlock =>
      refine iff_of_true ⟨_, getExplorationBounds_of_startBlock h history hstart, rfl, ?_⟩
        (.inl (by simp))
      rw [hstart]
  | none =>
      cases hlast : latestBlock db with
      | none =>
          refine iff_of_true ⟨_, getExplorationBounds_of_no_block h history hstart hlast, rfl, ?_⟩
            (.inr rfl)
          rw [hstart, hlast]
      | some last =>
          obtain ⟨error, herror⟩ := getExplorationBounds_of_stored_block h history hstart hlast
          refine iff_of_false ?_ (by simp)
          rintro ⟨bounds, hbounds, _⟩
          rw [herror] at hbounds
          cases hbounds

end Bounds

/-! ## A restart -/

def node (number : ℤ) : Except PyError BlockData :=
  if number ≤ 1 then .ok (Deployment.blockData ["0x01"] number) else .error .blockNotFound

def environmentOf (db : Database) : ProducerEnvironment :=
  Deployment.answering (Deployment.chain []) (latestBlock db) fun _ _ => none

theorem reads_environmentOf (db : Database) : Reads db node (environmentOf db) where
  getBlock _ := rfl
  getBlockData _ _ := rfl

def storedTransaction : TransactionRow where
  transactionHash := "0x01"
  blockNumber := 1
  fromAddress := "0xa0"
  toAddress := none
  value := 0
  transactionFee := 0
  gasPrice := 0
  gasLimit := 21000
  gasUsed := 21000
  isTokenTx := false
  inputData := "0x"

/-- Block 1 and its only transaction are stored. -/
def storedDatabase : Database :=
  Database.empty.executeAll
    [insertBlock (blockRow (Deployment.blockData ["0x01"] 1) 0),
      insertTransaction storedTransaction]

/-- With a configured start the stored block does not matter. -/
theorem getExplorationBounds_resumesAt_iff_of_environmentOf : ∃ bounds,
    ((getExplorationBounds (Deployment.config (some 2) (some 7))).runIn
      (environmentOf storedDatabase) []).1 = .returned bounds ∧
    ResumesAt storedDatabase node (Deployment.config (some 2) (some 7)) bounds :=
  (getExplorationBounds_resumesAt_iff (reads_environmentOf _) []).mpr (.inl (by decide))

/-- A restart after the only stored block was processed completely. -/
theorem getExplorationBounds_raises_on_restart :
    Reads storedDatabase node (environmentOf storedDatabase) ∧
      (storedDatabase.table .block).rows.map BlockRow.blockNumber = [1] ∧
      (storedDatabase.table .transaction).rows = [storedTransaction] ∧
      node 1 = .ok (Deployment.blockData ["0x01"] 1) ∧
      ((getExplorationBounds (Deployment.config none none)).runIn
        (environmentOf storedDatabase) []).1 =
        .raised (.attributeError
          "'DatabaseManager' object has no attribute 'get_block_transactions'") ∧
      ¬ ∃ bounds,
        ((getExplorationBounds (Deployment.config none none)).runIn
          (environmentOf storedDatabase) []).1 = .returned bounds ∧
        ResumesAt storedDatabase node (Deployment.config none none) bounds := by
  refine ⟨reads_environmentOf _, rfl, rfl, rfl, rfl, ?_⟩
  rintro ⟨bounds, hbounds, _⟩
  cases hbounds

end BlockchainDataCollection.Resuming
