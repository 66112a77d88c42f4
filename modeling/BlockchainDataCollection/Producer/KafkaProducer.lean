import BlockchainDataCollection.Effect.Contract
import BlockchainDataCollection.Store.Database

/-!
# The Kafka producer manager

`KafkaProducerManager.send_batch` and `send_message` behind their capacity gate.
The number of the next partition is an attribute that all producer tasks share,
so that reading and assigning it are calls like those to Redis and Kafka.
-/

namespace BlockchainDataCollection.KafkaProducer

open BlockchainDataCollection.Effect
open BlockchainDataCollection.Effect.Program (Establishes)
open BlockchainDataCollection.Python
open BlockchainDataCollection.Data
open BlockchainDataCollection.Storage

/-! ## What a producer calls -/

/-- The part of aiokafka's `RecordMetadata` that is read. -/
structure RecordMetadata where
  partition : ℤ
  deriving DecidableEq

inductive ProducerCall where
  /-- `DatabaseManager.get_block()`, of which the block number is read. -/
  | getBlock
  | execute (statement : Statement)
  | getBlockData (number : ℤ)
  | traceBlock (number : ℤ)
  /-- `eth_getLogs`: the transaction hash of each log. -/
  | getLogs (params : Option (List (String × String)))
  | getNTransactions
  | getLowestScorePartition
  | incrbyNTransactions (partition : ℤ) (incrBy : ℕ)
  /-- The number of partitions of the topic. -/
  | partitionsFor
  /-- `kafka_batch.append`: whether a metadata object comes back. -/
  | append (message : String)
  /-- Queue a batch, and await its delivery. -/
  | sendBatch (messages : List String) (partition : ℤ)
  /-- Send one message, and await its delivery. -/
  | send (message : String)
  | getIPartition
  | setIPartition (partition : ℤ)
  | sleep (seconds : ℕ)
  /-- The time estimate of a progress line, from the clock's readings. -/
  | estimateRemaining (blocksCompleted blocksLeft : ℤ)
  /-- The assignment of the local variable `i_processed_block`. -/
  | setProcessedBlock (number : ℤ)

abbrev ProducerCall.Answer : ProducerCall → Type
  | .getBlock => Option ℤ
  | .execute _ => Unit
  | .getBlockData _ => BlockData
  | .traceBlock _ => List BlockTrace
  | .getLogs _ => List String
  | .getNTransactions => ℤ
  | .getLowestScorePartition => Option ℤ
  | .incrbyNTransactions _ _ => Unit
  | .partitionsFor => ℕ
  | .append _ => Bool
  | .sendBatch _ _ => Option RecordMetadata
  | .send _ => Option RecordMetadata
  | .getIPartition => ℤ
  | .setIPartition _ => Unit
  | .sleep _ => Unit
  | .estimateRemaining _ _ => Unit
  | .setProcessedBlock _ => Unit

abbrev producerSignature : Signature := ⟨ProducerCall, ProducerCall.Answer⟩

abbrev ProducerProgram (A : Type) := Program producerSignature PyError A

abbrev ProducerEvent := Program.Event producerSignature PyError

def perform (op : ProducerCall) : ProducerProgram op.Answer :=
  @Program.perform producerSignature _ op

/-- One call, of which only the errors it may answer with matter. -/
theorem establishes_perform {given shown : ProducerEvent → Prop} {fail : PyError → Prop}
    (hfail : ∀ op error, given ⟨op, .error error⟩ → fail error) {op : ProducerCall}
    (hshown : ∀ answer, shown ⟨op, answer⟩) :
    Establishes given shown fail (perform op) fun _ _ => True :=
  Program.establishes_perform hshown (fun _ _ => trivial) (hfail op)

/-! ## Capacity of the topic -/

def maxMessagesPerPartition : ℕ := 1000

/-- The loop of the decorator: a zero is room only while nothing has stalled. -/
def limitTopicCapacity : ℕ → ℕ → ProducerProgram Unit
  | 0, _ => .suspended
  | fuel + 1, stallCounter => do
      let nTxs ← perform .getNTransactions
      if nTxs ≠ 0 then do
        let nPart ← perform .partitionsFor
        if nTxs > maxMessagesPerPartition * nPart then do
          let _ ← perform (.sleep 1)
          limitTopicCapacity fuel (stallCounter + 1)
        else
          return
      else if stallCounter = 0 then
        return
      else
        limitTopicCapacity fuel stallCounter

/-- The gate polls, counts the partitions and sleeps; it does nothing else. -/
theorem establishes_limitTopicCapacity {given shown : ProducerEvent → Prop} {fail : PyError → Prop}
    (hfail : ∀ op error, given ⟨op, .error error⟩ → fail error)
    (hpoll : ∀ answer, shown ⟨.getNTransactions, answer⟩)
    (hpartitions : ∀ answer, shown ⟨.partitionsFor, answer⟩)
    (hsleep : ∀ answer, shown ⟨.sleep 1, answer⟩) (fuel stallCounter : ℕ) :
    Establishes given shown fail (limitTopicCapacity fuel stallCounter) fun _ _ => True := by
  induction fuel generalizing stallCounter with
  | zero => exact Program.establishes_suspended
  | succ fuel ih =>
      apply (establishes_perform hfail hpoll).bind
      intro _ nTxs _
      split
      · apply (establishes_perform hfail hpartitions).bind
        intro _ nPart _
        split
        · exact (establishes_perform hfail hsleep).bind fun _ _ _ => ih _
        · exact Program.establishes_done trivial
      · split
        · exact Program.establishes_done trivial
        · exact ih _

theorem ensures_limitTopicCapacity {allowed : ProducerEvent → Prop}
    (hpoll : ∀ answer, allowed ⟨.getNTransactions, answer⟩)
    (hpartitions : ∀ answer, allowed ⟨.partitionsFor, answer⟩)
    (hsleep : ∀ answer, allowed ⟨.sleep 1, answer⟩) (fuel stallCounter : ℕ) :
    (limitTopicCapacity fuel stallCounter).Ensures allowed fun _ => True := by
  have hfail : ∀ (op : ProducerCall) (error : PyError), True → True := fun _ _ => id
  exact (establishes_limitTopicCapacity hfail hpoll hpartitions hsleep fuel stallCounter).ensures

/-! ## Batches -/

def messagesPerBatch : ℕ := 1024

/-- `msgs[i : i + size] for i in range(0, len(msgs), size)`. -/
def chunks (size : ℕ) (msgs : List String) : List (List String) :=
  (List.range ((msgs.length + size - 1) / size)).map fun i => (msgs.drop (i * size)).take size

/-- The round-robin phase ends at the last partition; `-1` stands for the phase
that asks Redis. -/
def choosePartition : ProducerProgram ℤ := do
  let partition ← perform .getIPartition
  if partition ≠ -1 then do
    let _ ← perform (.setIPartition (partition + 1))
    let nPartitions ← perform .partitionsFor
    if partition + 1 = nPartitions then do
      let _ ← perform (.setIPartition (-1))
      return partition
    else
      return partition
  else do
    let lowest ← perform .getLowestScorePartition
    return lowest.getD 0

/-- The choice reads and assigns the next partition, counts the partitions, and
asks Redis. -/
theorem establishes_choosePartition {given shown : ProducerEvent → Prop} {fail : PyError → Prop}
    (hfail : ∀ op error, given ⟨op, .error error⟩ → fail error)
    (hread : ∀ answer, shown ⟨.getIPartition, answer⟩)
    (hassign : ∀ partition answer, shown ⟨.setIPartition partition, answer⟩)
    (hpartitions : ∀ answer, shown ⟨.partitionsFor, answer⟩)
    (hlowest : ∀ answer, shown ⟨.getLowestScorePartition, answer⟩) :
    Establishes given shown fail choosePartition fun _ _ => True := by
  apply (establishes_perform hfail hread).bind
  intro _ partition _
  split
  · apply (establishes_perform hfail (hassign _)).bind
    intro _ _ _
    apply (establishes_perform hfail hpartitions).bind
    intro _ nPartitions _
    split
    · exact (establishes_perform hfail (hassign _)).bind fun _ _ _ =>
        Program.establishes_done trivial
    · exact Program.establishes_done trivial
  · exact (establishes_perform hfail hlowest).bind fun _ _ _ => Program.establishes_done trivial

/-- Append the messages of a chunk to a batch; a rejected one is only logged. -/
def appendMessages : List String → ProducerProgram (List String)
  | [] => return []
  | msg :: msgs => do
      let metadata ← perform (.append msg)
      let appended ← appendMessages msgs
      return if metadata then msg :: appended else appended

def sendChunk (chunk : List String) : ProducerProgram (Option RecordMetadata) := do
  let appended ← appendMessages chunk
  let partition ← choosePartition
  let record ← perform (.sendBatch appended partition)
  match record with
  | some metadata => do
      let _ ← perform (.incrbyNTransactions metadata.partition appended.length)
      return record
  | none => return none

def sendChunks : List (List String) → ProducerProgram (List RecordMetadata)
  | [] => return []
  | chunk :: rest => do
      let record ← sendChunk chunk
      let records ← sendChunks rest
      return record.toList ++ records

/-- `except KafkaTimeoutError`: log the error and return `None`. -/
def onKafkaTimeout : PyError → Option (ProducerProgram (Option (List RecordMetadata)))
  | .kafkaTimeoutError => some (return none)
  | _ => none

def sendBatch (fuel : ℕ) (msgs : List String) :
    ProducerProgram (Option (List RecordMetadata)) := do
  limitTopicCapacity fuel 0
  if msgs = [] then
    return some []
  else
    Program.rescue onKafkaTimeout do
      let records ← sendChunks (chunks messagesPerBatch msgs)
      return some records

/-! ## Single messages -/

def sendRecord (msg : String) : ProducerProgram (Option RecordMetadata) := do
  let record ← perform (.send msg)
  match record with
  | some metadata => do
      let _ ← perform (.incrbyNTransactions metadata.partition 1)
      return record
  | none => return none

/-- `except KafkaTimeoutError`, for a single message. -/
def onMessageTimeout : PyError → Option (ProducerProgram (Option RecordMetadata))
  | .kafkaTimeoutError => some (return none)
  | _ => none

def sendMessage (fuel : ℕ) (msg : String) : ProducerProgram (Option RecordMetadata) := do
  limitTopicCapacity fuel 0
  Program.rescue onMessageTimeout (sendRecord msg)

/-! ## Chunks -/

/-- The chunks are the messages, cut into pieces. -/
theorem flatten_chunks {size : ℕ} (hsize : 0 < size) (msgs : List String) :
    (chunks size msgs).flatten = msgs := by
  have hpieces : ∀ count, ((List.range count).map fun i =>
      (msgs.drop (i * size)).take size).flatten = msgs.take (count * size) := by
    intro count
    induction count with
    | zero => simp
    | succ count ih =>
        rw [List.range_succ, List.map_append, List.flatten_append, ih, Nat.succ_mul, List.take_add]
        simp
  rw [chunks, hpieces]
  apply List.take_of_length_le
  have hdiv := Nat.div_add_mod (msgs.length + size - 1) size
  have hmod := Nat.mod_lt (msgs.length + size - 1) hsize
  rw [Nat.mul_comm] at hdiv
  omega

theorem length_le_of_mem_chunks {size : ℕ} {msgs chunk : List String}
    (h : chunk ∈ chunks size msgs) : chunk.length ≤ size := by
  obtain ⟨_, _, rfl⟩ := List.mem_map.mp h
  exact List.length_take_le _ _

example : chunks 2 ["a", "b", "c"] = [["a", "b"], ["c"]] := by decide

end BlockchainDataCollection.KafkaProducer
