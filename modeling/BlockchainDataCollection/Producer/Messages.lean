import BlockchainDataCollection.Effect.Contract
import BlockchainDataCollection.Producer.DataProducer

/-!
# What the producer sends

Whatever the answers and the errors are, a producer task hands Kafka nothing but
encodings of hashes the node answered with, in the mode of its configuration, and
names only partitions that it was answered with.
-/

namespace BlockchainDataCollection.Messages

open BlockchainDataCollection.Effect
open BlockchainDataCollection.Effect.Program (Runs Establishes)
open BlockchainDataCollection.Python
open BlockchainDataCollection.Data
open BlockchainDataCollection.KafkaProducer
open BlockchainDataCollection.DataProducer

/-! ## Programs that send messages of one kind -/

/-- The hashes the node answers with are valid, and so are the partitions that the
index or Redis answers with. -/
def AnswersValid (valid : String → Prop) (named : ℤ → Prop) : ProducerEvent → Prop
  | ⟨.getBlockData _, .ok blockData⟩ => ∀ txHash ∈ blockData.transactions, valid txHash
  | ⟨.getLogs _, .ok logs⟩ => ∀ txHash ∈ logs, valid txHash
  | ⟨.getIPartition, .ok partition⟩ => partition ≠ -1 → named partition
  | ⟨.getLowestScorePartition, .ok lowest⟩ => named (lowest.getD 0)
  | _ => True

/-- What the call hands to Kafka is good, and so is the partition it goes to. -/
def Sends (good : String → Prop) (named : ℤ → Prop) : ProducerCall → Prop
  | .append message => good message
  | .sendBatch messages partition => (∀ message ∈ messages, good message) ∧ named partition
  | .send message => good message
  | _ => True

/-- Where the answers are valid, a program sends good messages only. -/
def SendsOnly {A : Type} (valid good : String → Prop) (named : ℤ → Prop)
    (program : ProducerProgram A) (post : A → Prop) : Prop :=
  Establishes (AnswersValid valid named) (fun event => Sends good named event.op) (fun _ => True)
    program fun _ => post

section Rules

variable {A B : Type} {valid good : String → Prop} {named : ℤ → Prop}

theorem SendsOnly.bind {program : ProducerProgram A} {post : A → Prop}
    {rest : A → ProducerProgram B} {post' : B → Prop}
    (hfirst : SendsOnly valid good named program post)
    (hrest : ∀ value, post value → SendsOnly valid good named (rest value) post') :
    SendsOnly valid good named (program >>= rest) post' :=
  Establishes.bind hfirst fun _ value hvalue => hrest value hvalue

theorem SendsOnly.rescue {program : ProducerProgram A} {post : A → Prop}
    {handler : PyError → Option (ProducerProgram A)} (h : SendsOnly valid good named program post)
    (hhandler : ∀ error, SendsOnly valid good named ((handler error).getD (.raise error)) post) :
    SendsOnly valid good named (program.rescue handler) post :=
  Establishes.handle h fun error _ => hhandler error

theorem sendsOnly_done {value : A} {post : A → Prop} (hpost : post value) :
    SendsOnly valid good named (.done value) post :=
  Program.establishes_done hpost

theorem sendsOnly_raise {error : PyError} {post : A → Prop} :
    SendsOnly valid good named (.raise error) post :=
  Program.establishes_raise trivial

theorem sendsOnly_perform (op : ProducerCall) (hop : Sends good named op) :
    SendsOnly valid good named (perform op) fun answer =>
      AnswersValid valid named ⟨op, .ok answer⟩ :=
  Program.establishes_perform (fun _ => hop) (fun _ hgiven => hgiven) fun _ _ => trivial

end Rules

/-! ## Batches -/

section Batches

variable {valid good : String → Prop} {named : ℤ → Prop}

theorem sendsOnly_limitTopicCapacity (fuel stallCounter : ℕ) :
    SendsOnly valid good named (limitTopicCapacity fuel stallCounter) fun _ => True := by
  apply establishes_limitTopicCapacity fun _ _ _ => trivial
  all_goals exact fun _ => trivial

theorem sendsOnly_choosePartition : SendsOnly valid good named choosePartition named := by
  apply (sendsOnly_perform .getIPartition trivial).bind
  intro partition hpartition
  split
  next hturn =>
      apply (sendsOnly_perform (.setIPartition _) trivial).bind
      intro _ _
      apply (sendsOnly_perform .partitionsFor trivial).bind
      intro nPartitions _
      split
      · exact (sendsOnly_perform (.setIPartition _) trivial).bind fun _ _ =>
          sendsOnly_done (hpartition hturn)
      · exact sendsOnly_done (hpartition hturn)
  · exact (sendsOnly_perform .getLowestScorePartition trivial).bind fun _ hlowest =>
      sendsOnly_done hlowest

/-- A batch holds a part of the chunk it was filled from. -/
theorem sendsOnly_appendMessages {msgs : List String} (hgood : ∀ msg ∈ msgs, good msg) :
    SendsOnly valid good named (appendMessages msgs) fun appended =>
      ∀ msg ∈ appended, good msg := by
  induction msgs with
  | nil => exact sendsOnly_done (by simp)
  | cons msg msgs ih =>
      obtain ⟨hmsg, hmsgs⟩ := List.forall_mem_cons.mp hgood
      apply (sendsOnly_perform (.append msg) hmsg).bind
      intro metadata _
      apply (ih hmsgs).bind
      intro appended happended
      apply sendsOnly_done
      split
      · exact List.forall_mem_cons.mpr ⟨hmsg, happended⟩
      · exact happended

theorem sendsOnly_sendChunk {chunk : List String} (hgood : ∀ msg ∈ chunk, good msg) :
    SendsOnly valid good named (sendChunk chunk) fun _ => True := by
  apply (sendsOnly_appendMessages hgood).bind
  intro appended happended
  apply sendsOnly_choosePartition.bind
  intro partition hpartition
  apply (sendsOnly_perform (.sendBatch appended partition) ⟨happended, hpartition⟩).bind
  intro record _
  cases record with
  | none => exact sendsOnly_done trivial
  | some metadata =>
      exact (sendsOnly_perform (.incrbyNTransactions _ _) trivial).bind fun _ _ =>
        sendsOnly_done trivial

theorem sendsOnly_sendChunks {pieces : List (List String)}
    (hgood : ∀ chunk ∈ pieces, ∀ msg ∈ chunk, good msg) :
    SendsOnly valid good named (sendChunks pieces) fun _ => True := by
  induction pieces with
  | nil => exact sendsOnly_done trivial
  | cons chunk pieces ih =>
      obtain ⟨hchunk, hpieces⟩ := List.forall_mem_cons.mp hgood
      apply (sendsOnly_sendChunk hchunk).bind
      intro record _
      exact (ih hpieces).bind fun _ _ => sendsOnly_done trivial

theorem sendsOnly_sendBatch (fuel : ℕ) {msgs : List String} (hgood : ∀ msg ∈ msgs, good msg) :
    SendsOnly valid good named (sendBatch fuel msgs) fun _ => True := by
  apply (sendsOnly_limitTopicCapacity fuel 0).bind
  intro _ _
  split
  · exact sendsOnly_done trivial
  · apply SendsOnly.rescue
    · have hpieces : ∀ chunk ∈ chunks messagesPerBatch msgs, ∀ msg ∈ chunk, good msg := by
        intro chunk hchunk msg hmsg
        apply hgood
        rw [← flatten_chunks (by decide : 0 < messagesPerBatch) msgs]
        exact List.mem_flatten.mpr ⟨chunk, hchunk, hmsg⟩
      exact (sendsOnly_sendChunks hpieces).bind fun _ _ => sendsOnly_done trivial
    · intro error
      cases error with
      | kafkaTimeoutError => exact sendsOnly_done trivial
      | _ => exact sendsOnly_raise

end Batches

/-! ## Producer tasks -/

section Tasks

variable {valid : String → Prop} {named : ℤ → Prop}

/-- The encoding of a valid hash in the configured mode. -/
def IsMessage (cfg : DataCollectionConfig) (valid : String → Prop) (message : String) : Prop :=
  ∃ txHash, valid txHash ∧ encodeKafkaEvent txHash cfg.mode = message

theorem isMessage_of_mem_map {cfg : DataCollectionConfig} {hashes : List String}
    (hvalid : ∀ txHash ∈ hashes, valid txHash) :
    ∀ message ∈ hashes.map fun txHash => encodeKafkaEvent txHash cfg.mode,
      IsMessage cfg valid message := by
  intro message hmessage
  obtain ⟨txHash, htx, rfl⟩ := List.mem_map.mp hmessage
  exact ⟨txHash, hvalid txHash htx, rfl⟩

theorem sendsOnly_rewardFor {good : String → Prop} (withReward : Bool) (number : ℤ) :
    SendsOnly valid good named (rewardFor withReward number) fun _ => True := by
  cases withReward with
  | false => exact sendsOnly_done trivial
  | true =>
      apply (sendsOnly_perform (.traceBlock number) trivial).bind
      intro data _
      cases blockReward data with
      | ok reward => exact sendsOnly_done trivial
      | error error => exact sendsOnly_raise

theorem sendsOnly_produceBlock (fuel : ℕ) (cfg : DataCollectionConfig) (withReward : Bool)
    (number : ℤ) :
    SendsOnly valid (IsMessage cfg valid) named (produceBlock fuel cfg withReward number)
      fun _ => True := by
  apply (sendsOnly_perform (.getBlockData number) trivial).bind
  intro blockData hblock
  apply (sendsOnly_rewardFor withReward number).bind
  intro reward _
  apply (sendsOnly_perform (.execute _) trivial).bind
  intro _ _
  split
  · exact sendsOnly_done trivial
  · have hmessages : ∀ message ∈ encodeMessages cfg blockData, IsMessage cfg valid message :=
      isMessage_of_mem_map hblock
    exact (sendsOnly_sendBatch fuel hmessages).bind fun _ _ => sendsOnly_done trivial

theorem sendsOnly_logProducerProgress {good : String → Prop} (iBlock startBlock : ℤ)
    (endBlock : Option ℤ) :
    SendsOnly valid good named (logProducerProgress iBlock startBlock endBlock) fun _ => True := by
  cases endBlock with
  | none => exact sendsOnly_raise
  | some endBlock =>
      rw [logProducerProgress]
      split
      · exact (sendsOnly_perform (.estimateRemaining _ _) trivial).mono fun _ _ _ => trivial
      · exact sendsOnly_done trivial

theorem sendsOnly_processBlock (fuel : ℕ) (cfg : DataCollectionConfig) (withReward : Bool)
    (startBlock : ℤ) (endBlock : Option ℤ) (iBlock : ℤ) :
    SendsOnly valid (IsMessage cfg valid) named
      (processBlock fuel cfg withReward startBlock endBlock iBlock) fun _ => True := by
  apply (sendsOnly_produceBlock fuel cfg withReward iBlock).bind
  intro _ _
  apply (sendsOnly_perform (.setProcessedBlock iBlock) trivial).bind
  intro _ _
  apply (sendsOnly_perform .getNTransactions trivial).bind
  intro _ _
  exact sendsOnly_logProducerProgress iBlock startBlock endBlock

/-- The block loop, by induction on its fuel. -/
theorem sendsOnly_produceBlocks (cfg : DataCollectionConfig) (withReward : Bool)
    (startBlock : ℤ) (endBlock : Option ℤ) (fuel : ℕ) (iBlock : ℤ) :
    SendsOnly valid (IsMessage cfg valid) named
      (produceBlocks cfg withReward startBlock endBlock fuel iBlock) fun _ => True := by
  induction fuel generalizing iBlock with
  | zero => exact Program.establishes_suspended
  | succ fuel ih =>
      rw [produceBlocks]
      split
      · exact (sendsOnly_processBlock fuel cfg withReward startBlock endBlock iBlock).bind
          fun _ _ => ih (iBlock + 1)
      · exact sendsOnly_done trivial

theorem sendsOnly_getExplorationBounds {good : String → Prop} (cfg : DataCollectionConfig) :
    SendsOnly valid good named (getExplorationBounds cfg) fun _ => True := by
  apply (sendsOnly_perform .getBlock trivial).bind
  intro lastBlock _
  split
  · exact sendsOnly_done trivial
  · exact (sendsOnly_perform (.getBlockData _) trivial).bind fun _ _ => sendsOnly_raise
  · exact sendsOnly_done trivial

theorem sendsOnly_startProducer (fuel : ℕ) (cfg : DataCollectionConfig) (withReward : Bool) :
    SendsOnly valid (IsMessage cfg valid) named (startProducer fuel cfg withReward)
      fun _ => True := by
  apply (sendsOnly_getExplorationBounds cfg).bind
  rintro ⟨startBlock, endBlock⟩ _
  apply (sendsOnly_produceBlocks cfg withReward startBlock endBlock fuel startBlock).rescue
  intro error
  cases error with
  | blockNotFound => exact sendsOnly_done trivial
  | _ => exact sendsOnly_raise

theorem sendsOnly_startGetLogsProducer (fuel : ℕ) (cfg : DataCollectionConfig) :
    SendsOnly valid (IsMessage cfg valid) named (startGetLogsProducer fuel cfg) fun _ => True := by
  apply (sendsOnly_perform (.getLogs cfg.params) trivial).bind
  intro logs hlogs
  split
  · exact sendsOnly_done trivial
  · exact (sendsOnly_sendBatch fuel (isMessage_of_mem_map hlogs)).bind fun _ _ =>
      sendsOnly_done trivial

/-- A task sends encodings of answered hashes, whatever its mode is. -/
theorem sendsOnly_startProducerTask (fuel : ℕ) (cfg : DataCollectionConfig) :
    SendsOnly valid (IsMessage cfg valid) named (startProducerTask fuel cfg) fun _ => True := by
  unfold startProducerTask
  split
  · exact sendsOnly_startProducer fuel cfg true
  · exact sendsOnly_startProducer fuel cfg false
  · exact sendsOnly_raise
  · exact sendsOnly_startGetLogsProducer fuel cfg

/-- Every batch, in every partial run of a task. -/
theorem sends_of_runs {fuel : ℕ} {cfg : DataCollectionConfig} {events : List ProducerEvent}
    {outcome : Outcome PyError Unit} (hruns : Runs (startProducerTask fuel cfg) events outcome)
    (hvalid : ∀ event ∈ events, AnswersValid valid named event) {event : ProducerEvent}
    (hevent : event ∈ events) {messages : List String} {partition : ℤ}
    (hop : event.op = .sendBatch messages partition) :
    (∀ message ∈ messages, IsMessage cfg valid message) ∧ named partition := by
  have hsends : Sends (IsMessage cfg valid) named event.op :=
    (sendsOnly_startProducerTask fuel cfg events outcome hruns hvalid).1 event hevent
  rwa [hop] at hsends

end Tasks

end BlockchainDataCollection.Messages
