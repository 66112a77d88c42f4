import BlockchainDataCollection.Producer.KafkaProducer

/-!
# The data producer

`DataProducer._start_producer`: the exploration bounds, the loop over the
blocks and the progress line after each of them; and the other producers.
-/

namespace BlockchainDataCollection.DataProducer

open BlockchainDataCollection.Effect
open BlockchainDataCollection.Python
open BlockchainDataCollection.Data
open BlockchainDataCollection.Storage
open BlockchainDataCollection.KafkaProducer

/-! ## Bounds -/

def shouldContinue (endBlock : Option ℤ) (iBlock : ℤ) : Bool :=
  match endBlock with
  | some last => iBlock ≤ last
  | none => true

/-- Resuming from the database asks the manager for a method it does not have. -/
def getExplorationBounds (cfg : DataCollectionConfig) : ProducerProgram (ℤ × Option ℤ) := do
  let lastBlock ← perform .getBlock
  match cfg.startBlock, lastBlock with
  | some startBlock, _ => return (startBlock, cfg.endBlock)
  | none, some lastBlock => do
      let _ ← perform (.getBlockData lastBlock)
      .raise (.attributeError "'DatabaseManager' object has no attribute 'get_block_transactions'")
  | none, none => return (0, cfg.endBlock)

/-! ## One block -/

/-- The default `0` is not a string, and `int(0, 16)` raises. -/
def blockReward (data : List BlockTrace) : Except PyError ℤ :=
  match data.find? fun trace => trace.type = "reward" with
  | some trace => intBase16 trace.actionValue
  | none => .error (.typeError "int() can't convert non-string with explicit base")

def getBlockReward (number : ℤ) : ProducerProgram ℤ := do
  let data ← perform (.traceBlock number)
  Program.ofExcept (blockReward data)

/-- The value of `block_reward` for the inserted row. -/
def rewardFor (withReward : Bool) (iBlock : ℤ) : ProducerProgram ℤ :=
  if withReward then getBlockReward iBlock else .done 0

def blockRow (blockData : BlockData) (reward : ℤ) : BlockRow where
  blockNumber := blockData.blockNumber
  blockHash := blockData.blockHash
  nonce := blockData.nonce
  difficulty := blockData.difficulty
  gasLimit := blockData.gasLimit
  gasUsed := blockData.gasUsed
  timestamp := blockData.timestamp
  miner := blockData.miner
  parentHash := blockData.parentHash
  blockReward := reward
  uncles := blockData.uncles

def encodeMessages (cfg : DataCollectionConfig) (blockData : BlockData) : List String :=
  blockData.transactions.map fun txHash => encodeKafkaEvent txHash cfg.mode

/-- The result of `send_batch` is ignored. -/
def produceBlock (fuel : ℕ) (cfg : DataCollectionConfig) (withReward : Bool) (iBlock : ℤ) :
    ProducerProgram Unit := do
  let blockData ← perform (.getBlockData iBlock)
  let reward ← rewardFor withReward iBlock
  let _ ← perform (.execute (insertBlock (blockRow blockData reward)))
  if blockData.transactions = [] then
    return
  else do
    let _ ← sendBatch fuel (encodeMessages cfg blockData)
    return

/-! ## Progress -/

def progressLogFrequency : ℕ := 1000

def progressDue (blocksCompleted blocksTotal : ℤ) : Bool :=
  blocksCompleted % progressLogFrequency = 0 ∧ 0 < blocksCompleted ∧ 0 < blocksTotal

/-- The remaining time is a `timedelta`, which holds a bounded number of days. -/
def logProducerProgress (iBlock startBlock : ℤ) : Option ℤ → ProducerProgram Unit
  | none => .raise (.typeError "unsupported operand type(s) for -: 'NoneType' and 'int'")
  | some endBlock =>
      if progressDue (iBlock - startBlock) (endBlock - startBlock) then
        perform (.estimateRemaining (iBlock - startBlock)
          ((endBlock - startBlock) - (iBlock - startBlock)))
      else return

/-! ## The loop -/

/-- The body of the loop; the counters of Redis are read for the progress line. -/
def processBlock (fuel : ℕ) (cfg : DataCollectionConfig) (withReward : Bool) (startBlock : ℤ)
    (endBlock : Option ℤ) (iBlock : ℤ) : ProducerProgram Unit := do
  produceBlock fuel cfg withReward iBlock
  perform (.setProcessedBlock iBlock)
  let _ ← perform .getNTransactions
  logProducerProgress iBlock startBlock endBlock

def produceBlocks (cfg : DataCollectionConfig) (withReward : Bool) (startBlock : ℤ)
    (endBlock : Option ℤ) : ℕ → ℤ → ProducerProgram Unit
  | 0, _ => .suspended
  | fuel + 1, iBlock =>
      if shouldContinue endBlock iBlock then do
        processBlock fuel cfg withReward startBlock endBlock iBlock
        produceBlocks cfg withReward startBlock endBlock fuel (iBlock + 1)
      else return

/-- `except BlockNotFound`: the latest block has been reached. -/
def onBlockNotFound : PyError → Option (ProducerProgram Unit)
  | .blockNotFound => some (return)
  | _ => none

def startProducer (fuel : ℕ) (cfg : DataCollectionConfig) (withReward : Bool) :
    ProducerProgram Unit := do
  let (startBlock, endBlock) ← getExplorationBounds cfg
  Program.rescue onBlockNotFound
    (produceBlocks cfg withReward startBlock endBlock fuel startBlock)

/-! ## Producer tasks -/

def startLogfilterProducer : ProducerProgram Unit :=
  .raise (.notImplementedError "Log filter producer is not implemented yet")

/-- No block is stored: the hashes of the logs go straight to Kafka. -/
def startGetLogsProducer (fuel : ℕ) (cfg : DataCollectionConfig) : ProducerProgram Unit := do
  let logs ← perform (.getLogs cfg.params)
  if logs = [] then
    return
  else do
    let _ ← sendBatch fuel (logs.map fun txHash => encodeKafkaEvent txHash cfg.mode)
    return

/-- The coroutine of the task that `_start_producer_task` creates. -/
def startProducerTask (fuel : ℕ) (cfg : DataCollectionConfig) : ProducerProgram Unit :=
  match cfg.mode with
  | .full => startProducer fuel cfg true
  | .partialMode => startProducer fuel cfg false
  | .logFilter => startLogfilterProducer
  | .getLogs => startGetLogsProducer fuel cfg

end BlockchainDataCollection.DataProducer
