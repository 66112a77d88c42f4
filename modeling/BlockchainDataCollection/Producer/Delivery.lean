import BlockchainDataCollection.Effect.Contract
import BlockchainDataCollection.Producer.Producing

/-!
# Delivery of the transactions

The block loop ignores the result of `send_batch`, which returns normally when
a call in its `try` block timed out or a batch rejected a message.  Where neither
happens, a block is marked as processed only after all of its transactions were
delivered.
-/

namespace BlockchainDataCollection.Delivery

open BlockchainDataCollection.Effect
open BlockchainDataCollection.Effect.Program (Runs Establishes)
open BlockchainDataCollection.Python
open BlockchainDataCollection.Data
open BlockchainDataCollection.KafkaProducer
open BlockchainDataCollection.DataProducer
open BlockchainDataCollection.Producing

/-! ## Events of a run -/

/-- The calls in the `try` block of `send_batch`.  The gate before it counts the
partitions, too. -/
def isTried : ProducerCall → Bool
  | .append _ | .getIPartition | .setIPartition _ | .partitionsFor => true
  | .getLowestScorePartition | .sendBatch _ _ | .incrbyNTransactions _ _ => true
  | _ => false

/-- No call in the `try` block times out, and no batch rejects a message. -/
def isLossless : ProducerEvent → Bool
  | ⟨.append _, .ok accepted⟩ => accepted
  | ⟨_, .ok _⟩ => true
  | ⟨op, .error error⟩ => !isTried op || error ≠ .kafkaTimeoutError

/-- The message is in a batch that was acknowledged, with or without a record. -/
def Delivered (events : List ProducerEvent) (message : String) : Prop :=
  ∃ messages partition record,
    (⟨.sendBatch messages partition, .ok record⟩ : ProducerEvent) ∈ events ∧ message ∈ messages

/-- All transactions of the block that the node answered with are delivered. -/
def BlockDelivered (cfg : DataCollectionConfig) (events : List ProducerEvent) (number : ℤ) : Prop :=
  ∃ blockData, (⟨.getBlockData number, .ok blockData⟩ : ProducerEvent) ∈ events ∧
    ∀ txHash ∈ blockData.transactions, Delivered events (encodeKafkaEvent txHash cfg.mode)

/-- The loop has advanced past the block. -/
def Processed (events : List ProducerEvent) (number : ℤ) : Prop :=
  (⟨.setProcessedBlock number, .ok ()⟩ : ProducerEvent) ∈ events

def Unprocessed (event : ProducerEvent) : Prop :=
  ∀ number, event.op ≠ .setProcessedBlock number

theorem Delivered.mono {events events' : List ProducerEvent} {message : String}
    (h : Delivered events message) (hsubset : events ⊆ events') : Delivered events' message := by
  obtain ⟨messages, partition, record, hsent, hmessage⟩ := h
  exact ⟨messages, partition, record, hsubset hsent, hmessage⟩

theorem BlockDelivered.mono {cfg : DataCollectionConfig} {events events' : List ProducerEvent}
    {number : ℤ} (h : BlockDelivered cfg events number) (hsubset : events ⊆ events') :
    BlockDelivered cfg events' number := by
  obtain ⟨blockData, hblock, hdelivered⟩ := h
  exact ⟨blockData, hsubset hblock, fun txHash htx => (hdelivered txHash htx).mono hsubset⟩

/-! ## What a lossless run delivers -/

section Lossless

variable {A : Type}

/-- Up to the assignment of the processed block, a lossless run delivers. -/
def Delivers (program : ProducerProgram A) (post : List ProducerEvent → A → Prop) : Prop :=
  Establishes (isLossless ·) Unprocessed (fun _ => True) program post

/-- What is tried delivers, and does not time out. -/
def DeliversTried (program : ProducerProgram A) (post : List ProducerEvent → A → Prop) : Prop :=
  Establishes (isLossless ·) Unprocessed (· ≠ .kafkaTimeoutError) program post

theorem ne_kafkaTimeoutError {op : ProducerCall} {error : PyError} (htried : isTried op)
    (h : isLossless ⟨op, .error error⟩) : error ≠ .kafkaTimeoutError := by
  cases op with
  | append | getIPartition | setIPartition | partitionsFor | getLowestScorePartition | sendBatch
  | incrbyNTransactions => exact of_decide_eq_true h
  | _ => cases htried

theorem delivers_perform (op : ProducerCall) (hop : ∀ number, op ≠ .setProcessedBlock number) :
    Delivers (perform op) fun events answer => events = [⟨op, .ok answer⟩] :=
  Program.establishes_perform (fun _ => hop) (fun _ _ => rfl) fun _ _ => trivial

theorem deliversTried_perform (op : ProducerCall) (htried : isTried op) :
    DeliversTried (perform op) fun events answer => events = [⟨op, .ok answer⟩] :=
  Program.establishes_perform (fun _ _ hop => by cases hop; cases htried) (fun _ _ => rfl)
    fun _ => ne_kafkaTimeoutError htried

/-- The gate marks no block. -/
theorem delivers_limitTopicCapacity (fuel stallCounter : ℕ) :
    Delivers (limitTopicCapacity fuel stallCounter) fun _ _ => True := by
  apply establishes_limitTopicCapacity fun _ _ _ => trivial
  all_goals simp [Unprocessed]

/-- Every message of the chunk is appended. -/
theorem deliversTried_appendMessages (msgs : List String) :
    DeliversTried (appendMessages msgs) fun _ appended => appended = msgs := by
  induction msgs with
  | nil => exact Program.establishes_done rfl
  | cons msg msgs ih =>
      have happend : DeliversTried (perform (.append msg)) fun _ metadata => metadata = true := by
        exact Program.establishes_perform (fun _ => by simp [Unprocessed])
          (fun _ hgiven => hgiven) fun _ => ne_kafkaTimeoutError rfl
      apply happend.bind
      rintro _ _ rfl
      apply ih.bind
      rintro _ _ rfl
      exact Program.establishes_done rfl

theorem deliversTried_choosePartition : DeliversTried choosePartition fun _ _ => True := by
  apply (deliversTried_perform .getIPartition rfl).bind
  intro _ partition _
  split
  · apply (deliversTried_perform (.setIPartition _) rfl).bind
    intro _ _ _
    apply (deliversTried_perform .partitionsFor rfl).bind
    intro _ nPartitions _
    split
    · exact (deliversTried_perform (.setIPartition _) rfl).bind fun _ _ _ =>
        Program.establishes_done trivial
    · exact Program.establishes_done trivial
  · exact (deliversTried_perform .getLowestScorePartition rfl).bind fun _ _ _ =>
      Program.establishes_done trivial

theorem deliversTried_sendChunk (chunk : List String) :
    DeliversTried (sendChunk chunk) fun events _ =>
      ∀ message ∈ chunk, Delivered events message := by
  apply (deliversTried_appendMessages chunk).bind
  rintro before appended rfl
  apply deliversTried_choosePartition.bind
  intro choosing partition _
  apply (deliversTried_perform (.sendBatch appended partition) rfl).bind
  rintro _ record rfl
  have hsent : ∀ after, ∀ message ∈ appended,
      Delivered (before ++ (choosing ++ ([⟨.sendBatch appended partition, .ok record⟩] ++ after)))
        message :=
    fun after message hmessage => ⟨appended, partition, record, by simp, hmessage⟩
  cases record with
  | none => exact Program.establishes_done (hsent [])
  | some metadata =>
      exact (deliversTried_perform (.incrbyNTransactions _ _) rfl).bind fun after _ _ =>
        Program.establishes_done (hsent (after ++ []))

theorem deliversTried_sendChunks (pieces : List (List String)) :
    DeliversTried (sendChunks pieces) fun events _ =>
      ∀ message ∈ pieces.flatten, Delivered events message := by
  induction pieces with
  | nil => exact Program.establishes_done (by simp)
  | cons chunk rest ih =>
      apply (deliversTried_sendChunk chunk).bind
      intro first record hfirst
      apply ih.bind
      intro second records hsecond
      apply Program.establishes_done
      intro message hmessage
      rcases List.mem_append.mp (List.flatten_cons ▸ hmessage) with hchunk | hrest
      · exact (hfirst message hchunk).mono (by simp)
      · exact (hsecond message hrest).mono (by simp)

theorem delivers_sendBatch (fuel : ℕ) (msgs : List String) :
    Delivers (sendBatch fuel msgs) fun events _ => ∀ message ∈ msgs, Delivered events message := by
  apply (delivers_limitTopicCapacity fuel 0).bind
  intro waiting _ _
  by_cases hmsgs : msgs = []
  · subst hmsgs
    exact Program.establishes_done (by simp)
  · simp only [if_neg hmsgs]
    have hsent : DeliversTried
        (do let records ← sendChunks (chunks messagesPerBatch msgs); return some records)
        fun events _ => ∀ message ∈ msgs, Delivered events message := by
      apply (deliversTried_sendChunks _).bind
      intro sending records hsending
      apply Program.establishes_done
      rw [flatten_chunks (by decide)] at hsending
      exact fun message hmessage => (hsending message hmessage).mono (by simp)
    have hpassed : ∀ error, error ≠ .kafkaTimeoutError → onKafkaTimeout error = none := by
      intro error herror
      cases error <;> first | rfl | exact absurd rfl herror
    have hrescued := (hsent.rescue hpassed).weaken_fail fun _ _ => trivial
    exact hrescued.mono fun events _ hdelivered message hmessage =>
      (hdelivered message hmessage).mono (List.subset_append_right _ _)

theorem delivers_rewardFor (withReward : Bool) (number : ℤ) :
    Delivers (rewardFor withReward number) fun _ _ => True := by
  cases withReward with
  | false => exact Program.establishes_done trivial
  | true =>
      apply (delivers_perform (.traceBlock number) (by simp)).bind
      intro _ data _
      cases hreward : blockReward data with
      | ok reward => exact Program.establishes_done trivial
      | error error => exact Program.establishes_raise trivial

/-- A block is delivered when `send_batch` is done with it. -/
theorem delivers_produceBlock (fuel : ℕ) (cfg : DataCollectionConfig) (withReward : Bool)
    (number : ℤ) :
    Delivers (produceBlock fuel cfg withReward number) fun events _ =>
      BlockDelivered cfg events number := by
  apply (delivers_perform (.getBlockData number) (by simp)).bind
  rintro _ blockData rfl
  apply (delivers_rewardFor withReward number).bind
  intro _ reward _
  apply (delivers_perform (.execute _) (by simp)).bind
  intro _ _ _
  by_cases hempty : blockData.transactions = []
  · simp only [if_pos hempty]
    exact Program.establishes_done ⟨blockData, by simp, by simp [hempty]⟩
  · simp only [if_neg hempty]
    apply (delivers_sendBatch fuel _).bind
    intro sending records hsending
    apply Program.establishes_done
    refine ⟨blockData, by simp, fun txHash htx => ?_⟩
    exact (hsending _ (List.mem_map_of_mem htx)).mono fun event hevent => by simp [hevent]

/-! ## The block loop -/

/-- Only the assignment of this block, or no assignment at all. -/
def ProcessedOnly (number : ℤ) (event : ProducerEvent) : Prop :=
  ∀ other, event.op = .setProcessedBlock other → other = number

theorem processedOnly_logProducerProgress (startBlock number : ℤ) (endBlock : Option ℤ) :
    (logProducerProgress number startBlock endBlock).Ensures (ProcessedOnly number)
      fun _ => True := by
  cases endBlock with
  | none => exact Program.ensures_raise _
  | some endBlock =>
      rw [logProducerProgress]
      split
      · exact Program.ensures_perform (fun _ _ hop => by cases hop) fun _ => trivial
      · exact Program.ensures_done trivial

/-- In the body of the loop, the block is delivered before it is marked, and
before the body returns. -/
theorem delivered_of_processBlock {fuel : ℕ} {cfg : DataCollectionConfig} {withReward : Bool}
    {startBlock number : ℤ} {endBlock : Option ℤ} {events : List ProducerEvent}
    {outcome : Outcome PyError Unit}
    (hruns : Runs (processBlock fuel cfg withReward startBlock endBlock number) events outcome)
    (hlossless : ∀ event ∈ events, isLossless event) :
    (∀ i, Processed events i → i = number ∧ BlockDelivered cfg events number) ∧
      (outcome = .returned () → BlockDelivered cfg events number) := by
  have hunprocessed : ∀ {events' outcome'},
      Runs (produceBlock fuel cfg withReward number) events' outcome' →
      (∀ event ∈ events', isLossless event) → ∀ i, ¬ Processed events' i := by
    intro events' outcome' hruns' hlossless' i hprocessed
    exact (delivers_produceBlock fuel cfg withReward number _ _ hruns' hlossless').1 _ hprocessed i
      rfl
  rcases Program.runs_bind_iff.mp hruns with ⟨hrun, rfl⟩ | ⟨error, hrun, rfl⟩ |
    ⟨_, first, second, rfl, hrun, hrest⟩
  · exact ⟨fun i hprocessed => absurd hprocessed (hunprocessed hrun hlossless i), by simp⟩
  · exact ⟨fun i hprocessed => absurd hprocessed (hunprocessed hrun hlossless i), by simp⟩
  · rw [List.forall_mem_append] at hlossless
    have hdelivered : BlockDelivered cfg (first ++ second) number :=
      ((delivers_produceBlock fuel cfg withReward number _ _ hrun hlossless.1).2.1 _ rfl).mono
        (List.subset_append_left _ _)
    refine ⟨fun i hprocessed => ⟨?_, hdelivered⟩, fun _ => hdelivered⟩
    have honly : ∀ event ∈ second, ProcessedOnly number event := by
      refine (Program.ensures_bind (Program.ensures_perform (fun _ other hop => ?_)
        fun _ => trivial) (fun _ _ => Program.ensures_bind
          (Program.ensures_perform (fun _ other hop => ?_) fun _ => trivial)
          fun _ _ => processedOnly_logProducerProgress startBlock number endBlock) _ _ hrest).1
      · cases hop
        rfl
      · cases hop
    rcases List.mem_append.mp hprocessed with hfirst | hsecond
    · exact absurd hfirst (hunprocessed hrun hlossless.1 i)
    · exact honly _ hsecond i rfl

/-- Run lemma: a loop marks no block before all blocks up to it are delivered. -/
theorem delivered_of_produceBlocks {cfg : DataCollectionConfig} {withReward : Bool}
    {startBlock : ℤ} {endBlock : Option ℤ} {fuel : ℕ} {number : ℤ} {events : List ProducerEvent}
    {outcome : Outcome PyError Unit}
    (hruns : Runs (produceBlocks cfg withReward startBlock endBlock fuel number) events outcome)
    (hlossless : ∀ event ∈ events, isLossless event) {i b : ℤ} (hprocessed : Processed events i)
    (hfirst : number ≤ b) (hle : b ≤ i) : BlockDelivered cfg events b := by
  induction fuel generalizing number events with
  | zero =>
      cases hruns
      cases hprocessed
  | succ fuel ih =>
      rw [produceBlocks] at hruns
      split at hruns
      · rcases Program.runs_bind_iff.mp hruns with ⟨hrun, rfl⟩ | ⟨error, hrun, rfl⟩ |
          ⟨_, first, second, rfl, hrun, hrest⟩
        · obtain ⟨rfl, hdelivered⟩ := (delivered_of_processBlock hrun hlossless).1 i hprocessed
          exact le_antisymm hle hfirst ▸ hdelivered
        · obtain ⟨rfl, hdelivered⟩ := (delivered_of_processBlock hrun hlossless).1 i hprocessed
          exact le_antisymm hle hfirst ▸ hdelivered
        · rw [List.forall_mem_append] at hlossless
          obtain ⟨hmarked, hreturned⟩ := delivered_of_processBlock hrun hlossless.1
          rcases hfirst.eq_or_lt with rfl | hlt
          · exact (hreturned rfl).mono (List.subset_append_left _ _)
          · rcases List.mem_append.mp hprocessed with hprocessed | hprocessed
            · exact absurd (hmarked i hprocessed).1 (by omega)
            · exact (ih hrest hlossless.2 hprocessed hlt).mono (List.subset_append_right _ _)
      · cases hruns <;> cases hprocessed

/-- A run that gets its bounds starts at the configured block, or at 0. -/
theorem delivers_getExplorationBounds (cfg : DataCollectionConfig) :
    Delivers (getExplorationBounds cfg) fun _ bounds =>
      bounds = (cfg.startBlock.getD 0, cfg.endBlock) := by
  apply (delivers_perform .getBlock (by simp)).bind
  intro _ lastBlock _
  cases hstart : cfg.startBlock with
  | some startBlock => exact Program.establishes_done rfl
  | none =>
      cases lastBlock with
      | none => exact Program.establishes_done rfl
      | some number =>
          exact (delivers_perform (.getBlockData number) (by simp)).bind fun _ _ _ =>
            Program.establishes_raise trivial

end Lossless

/-- In every run in which no batch is given up and no message is rejected, once
the loop has advanced past a block, all blocks up to it from the first one on are
delivered. -/
theorem delivered_of_processed {fuel : ℕ} {cfg : DataCollectionConfig} {withReward : Bool}
    {events : List ProducerEvent} {outcome : Outcome PyError Unit}
    (hruns : Runs (startProducer fuel cfg withReward) events outcome)
    (hlossless : ∀ event ∈ events, isLossless event) {i b : ℤ} (hprocessed : Processed events i)
    (hfirst : cfg.startBlock.getD 0 ≤ b) (hle : b ≤ i) : BlockDelivered cfg events b := by
  rcases Program.runs_bind_iff.mp hruns with ⟨hrun, rfl⟩ | ⟨error, hrun, rfl⟩ |
    ⟨bounds, first, second, rfl, hrun, hrest⟩
  · exact absurd rfl ((delivers_getExplorationBounds cfg _ _ hrun hlossless).1 _ hprocessed i)
  · exact absurd rfl ((delivers_getExplorationBounds cfg _ _ hrun hlossless).1 _ hprocessed i)
  · rw [List.forall_mem_append] at hlossless
    obtain ⟨hunprocessed, hbounds, _⟩ := delivers_getExplorationBounds cfg _ _ hrun hlossless.1
    obtain rfl := hbounds bounds rfl
    have hcaught : ∀ error rescued, onBlockNotFound error = some rescued →
        ∃ value, rescued = .done value := by
      intro error rescued hrescued
      cases error <;> cases hrescued
      exact ⟨(), rfl⟩
    obtain ⟨outcome', hrest'⟩ := Program.exists_runs_of_rescue hcaught hrest
    rcases List.mem_append.mp hprocessed with hprocessed | hprocessed
    · exact absurd rfl (hunprocessed _ hprocessed i)
    · exact (delivered_of_produceBlocks hrest' hlossless.2 hprocessed hfirst hle).mono
        (List.subset_append_right _ _)

section Deployment

open Deployment

/-- Two blocks, and every send ends as given. -/
def sending (sent : Except PyError (Option RecordMetadata)) : ProducerEnvironment :=
  fun history op =>
    match op with
    | .sendBatch _ _ => sent
    | other => answering (chain []) none (fun _ _ => none) history other

def eventsOf (sent : Except PyError (Option RecordMetadata)) : List ProducerEvent :=
  ((startProducer 5 (config (some 0) (some 7)) false).runIn (sending sent) []).2

theorem runs_eventsOf (sent : Except PyError (Option RecordMetadata)) :
    ∃ outcome, Runs (startProducer 5 (config (some 0) (some 7)) false) (eventsOf sent) outcome := by
  obtain ⟨events, hevents, hruns⟩ := Program.runs_runIn (sending sent)
    (startProducer 5 (config (some 0) (some 7)) false) []
  rw [List.nil_append] at hevents
  exact ⟨_, hevents ▸ hruns⟩

/-- Acknowledged without a record: the run delivers the first block. -/
theorem delivered_of_acknowledged :
    BlockDelivered (config (some 0) (some 7)) (eventsOf (.ok none)) 0 := by
  obtain ⟨outcome, hruns⟩ := runs_eventsOf (.ok none)
  have hprocessed : Processed (eventsOf (.ok none)) 1 :=
    List.mem_of_getElem? (show (eventsOf (.ok none))[17]? = _ from rfl)
  exact delivered_of_processed hruns (by decide) hprocessed (by decide) (by decide)

def isDelivery : ProducerEvent → Bool
  | ⟨.sendBatch _ _, .ok _⟩ => true
  | _ => false

def holdsTransaction : ProducerEvent → Bool
  | ⟨.getBlockData _, .ok blockData⟩ => "0x01" ∈ blockData.transactions
  | _ => true

/-- A send that times out: the block is processed, and its transaction is lost. -/
theorem transaction_lost_on_timeout :
    (∃ outcome, Runs (startProducer 5 (config (some 0) (some 7)) false)
      (eventsOf (.error .kafkaTimeoutError)) outcome) ∧
    Processed (eventsOf (.error .kafkaTimeoutError)) 0 ∧
    ¬ BlockDelivered (config (some 0) (some 7)) (eventsOf (.error .kafkaTimeoutError)) 0 := by
  refine ⟨runs_eventsOf _,
    List.mem_of_getElem? (show (eventsOf (.error .kafkaTimeoutError))[8]? = _ from rfl), ?_⟩
  rintro ⟨blockData, hblock, hdelivered⟩
  have hheld : ∀ event ∈ eventsOf (.error .kafkaTimeoutError), holdsTransaction event := by decide
  have hunsent : ∀ event ∈ eventsOf (.error .kafkaTimeoutError), ¬ isDelivery event := by decide
  obtain ⟨messages, partition, record, hsent, _⟩ :=
    hdelivered "0x01" (of_decide_eq_true (hheld _ hblock))
  exact hunsent _ hsent rfl

end Deployment

end BlockchainDataCollection.Delivery
