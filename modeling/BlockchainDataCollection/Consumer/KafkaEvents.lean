import BlockchainDataCollection.Text.Codec
import BlockchainDataCollection.Producer.Messages
import BlockchainDataCollection.Consumer.Consuming

/-!
# The events between the producer and the consumers

`encode_kafka_event` runs in the producer and `decode_kafka_event` in the
consumers.  The decoder is exact for the encoder, so a consumer reads back the
mode and the hash the producer wrote, and it handles no message of another form.
-/

namespace BlockchainDataCollection.KafkaEvents

open BlockchainDataCollection.Effect
open BlockchainDataCollection.Effect.Program (Runs)
open BlockchainDataCollection.Python
open BlockchainDataCollection.Data
open BlockchainDataCollection.Codec
open BlockchainDataCollection.Splitting
open BlockchainDataCollection.Parser
open BlockchainDataCollection.Storage
open BlockchainDataCollection.TxProcessor
open BlockchainDataCollection.Processing
open BlockchainDataCollection.Saving
open BlockchainDataCollection.Consuming
open BlockchainDataCollection.KafkaProducer
open BlockchainDataCollection.DataProducer
open BlockchainDataCollection.Messages

/-! ## The codec -/

/-- One separator, and the value of a mode before it. -/
def HasFormat (event : String) : Prop :=
  event.toList.count kafkaEventSeparator = 1 ∧
    ∃ mode : DataCollectionMode,
      String.ofList (event.toList.takeWhile (· ≠ kafkaEventSeparator)) = mode.value

/-- The valid pairs are those whose hash holds no separator. -/
def kafkaEventCodec : ExactCodec (DataCollectionMode × String) String PyError where
  encode := fun (mode, txHash) => encodeKafkaEvent txHash mode
  decode := decodeKafkaEvent
  Valid := fun (_, txHash) => kafkaEventSeparator ∉ txHash.toList
  decode_eq_ok_iff := decodeKafkaEvent_eq_ok_iff

@[simp]
theorem kafkaEventCodec_encode (mode : DataCollectionMode) (txHash : String) :
    kafkaEventCodec.encode (mode, txHash) = encodeKafkaEvent txHash mode := rfl

@[simp]
theorem kafkaEventCodec_decode : kafkaEventCodec.decode = decodeKafkaEvent := rfl

@[simp]
theorem kafkaEventCodec_valid (mode : DataCollectionMode) (txHash : String) :
    kafkaEventCodec.Valid (mode, txHash) ↔ kafkaEventSeparator ∉ txHash.toList := Iff.rfl

/-- No value of a mode holds the separator, so an event shows where its mode ends. -/
theorem encodeKafkaEvent_injective : Function.Injective kafkaEventCodec.encode := by
  intro left right heq
  obtain ⟨mode, txHash⟩ := left
  obtain ⟨mode', txHash'⟩ := right
  have hchars : mode.value.toList ++ kafkaEventSeparator :: txHash.toList =
      mode'.value.toList ++ kafkaEventSeparator :: txHash'.toList :=
    String.ofList_injective heq
  have hvalue : mode.value.toList = mode'.value.toList := by
    rw [← takeWhile_append_cons (kafkaEventSeparator_notMem_value mode) txHash.toList, hchars,
      takeWhile_append_cons (kafkaEventSeparator_notMem_value mode')]
  have hmode : mode = mode' :=
    DataCollectionMode.value_injective (String.toList_inj.mp hvalue)
  rw [hvalue] at hchars
  have hhash := List.cons_inj_right _ |>.mp (List.append_cancel_left hchars)
  rw [hmode, String.toList_inj.mp hhash]

/-- The format is that of the encodings of valid pairs. -/
theorem hasFormat_iff {event : String} :
    HasFormat event ↔
      ∃ value, kafkaEventCodec.Valid value ∧ kafkaEventCodec.encode value = event := by
  constructor
  · rintro ⟨hcount, mode, hmode⟩
    obtain ⟨before, after, hevent, hbefore, hafter⟩ := count_eq_one_iff.mp hcount
    rw [hevent, takeWhile_append_cons hbefore] at hmode
    refine ⟨(mode, String.ofList after), ?_, ?_⟩
    · rw [kafkaEventCodec_valid, String.toList_ofList]
      exact hafter
    · rw [kafkaEventCodec_encode, encodeKafkaEvent, ← hmode, String.toList_ofList,
        String.toList_ofList, ← hevent, String.ofList_toList]
  · rintro ⟨⟨mode, txHash⟩, hvalid, rfl⟩
    have hmode := kafkaEventSeparator_notMem_value mode
    have hchars : (kafkaEventCodec.encode (mode, txHash)).toList =
        mode.value.toList ++ kafkaEventSeparator :: txHash.toList :=
      String.toList_ofList
    refine ⟨?_, mode, ?_⟩
    · rw [hchars]
      exact count_eq_one_iff.mpr ⟨_, _, rfl, hmode, hvalid⟩
    · rw [hchars, takeWhile_append_cons hmode, String.ofList_toList]

theorem exists_decodeKafkaEvent_iff {event : String} :
    (∃ decoded, decodeKafkaEvent event = .ok decoded) ↔ HasFormat event := by
  rw [hasFormat_iff]
  exact kafkaEventCodec.exists_decode_iff

/-- An encoding is accepted where its hash holds no separator, and only there. -/
theorem exists_decodeKafkaEvent_encodeKafkaEvent_iff {mode : DataCollectionMode}
    {txHash : String} :
    (∃ decoded, decodeKafkaEvent (encodeKafkaEvent txHash mode) = .ok decoded) ↔
      kafkaEventSeparator ∉ txHash.toList := by
  rw [← kafkaEventCodec_decode, ← kafkaEventCodec_encode, ← kafkaEventCodec_valid mode]
  exact kafkaEventCodec.exists_decode_encode_iff encodeKafkaEvent_injective

/-- The decoder accepts exactly the format.  What it accepts is encoded as the
same event again, and what was encoded is decoded exactly where the hash holds
no separator; such encodings determine the mode and the hash. -/
theorem decodeKafkaEvent_exact :
    (∀ event, (∃ decoded, decodeKafkaEvent event = .ok decoded) ↔ HasFormat event) ∧
    (∀ event mode txHash, decodeKafkaEvent event = .ok (mode, txHash) →
      encodeKafkaEvent txHash mode = event) ∧
    (∀ mode txHash,
      ((∃ decoded, decodeKafkaEvent (encodeKafkaEvent txHash mode) = .ok decoded) ↔
        kafkaEventSeparator ∉ txHash.toList) ∧
      (kafkaEventSeparator ∉ txHash.toList →
        decodeKafkaEvent (encodeKafkaEvent txHash mode) = .ok (mode, txHash))) ∧
    (∀ mode mode' txHash txHash', kafkaEventSeparator ∉ txHash.toList →
      kafkaEventSeparator ∉ txHash'.toList → (mode, txHash) ≠ (mode', txHash') →
      encodeKafkaEvent txHash mode ≠ encodeKafkaEvent txHash' mode') := by
  refine ⟨fun event => exists_decodeKafkaEvent_iff, ?_, ?_, ?_⟩
  · intro event mode txHash hdecode
    exact @ExactCodec.encode_of_decode _ _ _ kafkaEventCodec event (mode, txHash) hdecode
  · intro mode txHash
    exact ⟨exists_decodeKafkaEvent_encodeKafkaEvent_iff,
      fun hhash => decodeKafkaEvent_encodeKafkaEvent hhash mode⟩
  · intro mode mode' txHash txHash' hhash hhash' hne heq
    exact hne (@ExactCodec.encode_injOn _ _ _ kafkaEventCodec (mode, txHash) hhash
      (mode', txHash') hhash' heq)

/-- An event of every mode, and two messages outside the format. -/
theorem decodeKafkaEvent_exact_events :
    (∀ mode, decodeKafkaEvent (encodeKafkaEvent "0x01" mode) = .ok (mode, "0x01")) ∧
    (¬∃ decoded, decodeKafkaEvent "partial" = .ok decoded) ∧
    ¬∃ decoded, decodeKafkaEvent "full:0x01:0x02" = .ok decoded := by
  obtain ⟨hformat, _, hround, _⟩ := decodeKafkaEvent_exact
  refine ⟨fun mode => (hround mode "0x01").2 (by decide), ?_, ?_⟩
  · rw [hformat]
    rintro ⟨hcount, _⟩
    exact absurd hcount (by decide)
  · rw [hformat]
    rintro ⟨hcount, _⟩
    exact absurd hcount (by decide)

/-! ## From the producer to the consumers -/

/-- What a batch holds is decoded to the mode of the producer and a hash the
node answered with, as long as those hashes hold no separator. -/
theorem decodeKafkaEvent_of_sendBatch {fuel : ℕ} {cfg : DataCollectionConfig}
    {events : List ProducerEvent} {outcome : Outcome PyError Unit}
    (hruns : Runs (startProducerTask fuel cfg) events outcome)
    (hvalid : ∀ event ∈ events,
      AnswersValid (kafkaEventSeparator ∉ String.toList ·) (fun _ => True) event)
    {event : ProducerEvent} (hevent : event ∈ events) {messages : List String} {partition : ℤ}
    (hop : event.op = .sendBatch messages partition) {message : String}
    (hmessage : message ∈ messages) :
    ∃ txHash, decodeKafkaEvent message = .ok (cfg.mode, txHash) := by
  obtain ⟨txHash, hhash, rfl⟩ := (sends_of_runs hruns hvalid hevent hop).1 message hmessage
  exact ⟨txHash, decodeKafkaEvent_encodeKafkaEvent hhash cfg.mode⟩

/-- The messages of a block are read back as its transactions, in their order. -/
theorem mapM_decodeKafkaEvent_encodeMessages {cfg : DataCollectionConfig} {blockData : BlockData}
    (hhashes : ∀ txHash ∈ blockData.transactions, kafkaEventSeparator ∉ txHash.toList) :
    (encodeMessages cfg blockData).mapM decodeKafkaEvent =
      .ok (blockData.transactions.map fun txHash => (cfg.mode, txHash)) := by
  have hmessages : encodeMessages cfg blockData =
      (blockData.transactions.map fun txHash => (cfg.mode, txHash)).map kafkaEventCodec.encode := by
    rw [List.map_map]
    rfl
  rw [hmessages, ← kafkaEventCodec_decode]
  apply kafkaEventCodec.mapM_decode_map_encode
  intro value hvalue
  obtain ⟨txHash, htx, rfl⟩ := List.mem_map.mp hvalue
  exact hhashes txHash htx

/-- The decoder fails with a `ValueError`, whichever of its steps fails. -/
theorem decodeKafkaEvent_eq_error {event : String} {error : PyError}
    (h : decodeKafkaEvent event = .error error) : ∃ message, error = .valueError message := by
  unfold decodeKafkaEvent at h
  split at h
  · rename_i modeStr txHash _
    cases hmode : DataCollectionMode.ofValue modeStr with
    | ok mode =>
        rw [hmode] at h
        cases h
    | error _ =>
        rw [hmode] at h
        obtain rfl := Except.error.inj h
        unfold DataCollectionMode.ofValue at hmode
        split at hmode
        · cases hmode
        · exact ⟨_, (Except.error.inj hmode).symm⟩
  · exact ⟨_, (Except.error.inj h).symm⟩
  · exact ⟨_, (Except.error.inj h).symm⟩

section Handling

variable [ChecksumSpelling] (node : Node) (settings : ParserSettings) (setOrder : SetOrder)

/-- An event outside the format is refused before the node is asked for anything. -/
theorem onKafkaEvent_of_not_hasFormat (consumer : DataConsumer) {event : String}
    (h : ¬HasFormat event) :
    ∃ message, onKafkaEvent setOrder consumer event = .raise (.valueError message) := by
  cases hdecode : decodeKafkaEvent event with
  | ok decoded => exact absurd (exists_decodeKafkaEvent_iff.mp ⟨decoded, hdecode⟩) h
  | error error =>
      obtain ⟨message, rfl⟩ := decodeKafkaEvent_eq_error hdecode
      refine ⟨message, ?_⟩
      rw [onKafkaEvent, hdecode]
      rfl

/-- Run lemma: a consumer that ends without an error was given events of the
format only. -/
theorem hasFormat_of_consume_returned {consumer consumer' : DataConsumer} {events : List String}
    (hreturned : (consume setOrder consumer events).outcome node.answer = .returned consumer') :
    ∀ event ∈ events, HasFormat event := by
  induction events generalizing consumer with
  | nil => simp
  | cons event events ih =>
      obtain ⟨next, hnext, hrest⟩ := Program.outcome_bind_returned_iff.mp hreturned
      have hevent : HasFormat event := by
        by_contra hformat
        obtain ⟨message, hraise⟩ := onKafkaEvent_of_not_hasFormat setOrder consumer hformat
        rw [hraise] at hnext
        cases hnext
      exact List.forall_mem_cons.mpr ⟨hevent, ih hrest⟩

/-- What a transaction writes in a mode. -/
def transactionStatements (mode : DataCollectionMode) (txHash : String) : List Statement :=
  match node.getTransaction txHash, node.getTransactionReceipt txHash with
  | .ok tx, .ok receipt => modeStatements node settings setOrder mode tx receipt
  | _, _ => []

theorem kafkaEventStatements_encodeKafkaEvent (mode : DataCollectionMode) {txHash : String}
    (hhash : kafkaEventSeparator ∉ txHash.toList) :
    kafkaEventStatements node settings setOrder (encodeKafkaEvent txHash mode) =
      transactionStatements node settings setOrder mode txHash := by
  rw [kafkaEventStatements, decodeKafkaEvent_encodeKafkaEvent hhash]
  rfl

variable {node settings setOrder}

/-- A consumer of a block's messages writes what the block's transactions write
in the producer's mode, one after the other. -/
theorem performs_consume_encodeMessages {cfg : DataCollectionConfig} {blockData : BlockData}
    (hhashes : ∀ txHash ∈ blockData.transactions, kafkaEventSeparator ∉ txHash.toList)
    {consumer consumer' : DataConsumer} (hparser : consumer.contractParser.Consistent)
    (hreturned : (consume setOrder consumer (encodeMessages cfg blockData)).outcome node.answer =
      .returned consumer') :
    Performs node (consume setOrder consumer (encodeMessages cfg blockData)) consumer'
      (blockData.transactions.flatMap
        (transactionStatements node consumer.contractParser.settings setOrder cfg.mode)) := by
  have hstatements : (encodeMessages cfg blockData).flatMap
        (kafkaEventStatements node consumer.contractParser.settings setOrder) =
      blockData.transactions.flatMap
        (transactionStatements node consumer.contractParser.settings setOrder cfg.mode) := by
    rw [encodeMessages, List.flatMap_map]
    exact List.flatMap_congr fun txHash htx =>
      kafkaEventStatements_encodeKafkaEvent _ _ _ cfg.mode (hhashes txHash htx)
  rw [← hstatements]
  exact consume_of_returned hparser hreturned

end Handling

end BlockchainDataCollection.KafkaEvents
