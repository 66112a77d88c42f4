import BlockchainDataCollection.Effect.Completion
import BlockchainDataCollection.Producer.KafkaProducer

/-!
# Accounting for chunked sending

What `send_batch` does is read off its calls alone: the messages it offers to a
batch, the batches it hands to the client, and the increments of the counters.
The list of messages is cut into chunks, each chunk becomes one batch, and the
counter of the partition that acknowledged it grows by the accepted messages.
-/

namespace BlockchainDataCollection.Chunking

open BlockchainDataCollection.Effect
open BlockchainDataCollection.Python
open BlockchainDataCollection.KafkaProducer

/-! ## Reading the calls -/

/-- A message that was offered to a batch, and whether it was accepted. -/
abbrev Offer := String × Bool

/-- The accepted messages of a list of offers. -/
def accepted (offers : List Offer) : List String :=
  (offers.filter Prod.snd).map Prod.fst

structure Batch where
  offered : List Offer
  sent : List String
  partition : ℤ
  record : Option RecordMetadata
  deriving DecidableEq

def offer : ProducerEvent → Option Offer
  | ⟨.append message, .ok metadata⟩ => some (message, metadata)
  | _ => none

def increment : ProducerEvent → Option (ℤ × ℕ)
  | ⟨.incrbyNTransactions partition incrBy, _⟩ => some (partition, incrBy)
  | _ => none

/-- A batch takes up what was offered since the batch before it. -/
def batchesFrom (offered : List Offer) : List ProducerEvent → List Batch
  | [] => []
  | ⟨.append message, .ok metadata⟩ :: events =>
      batchesFrom (offered ++ [(message, metadata)]) events
  | ⟨.sendBatch messages partition, .ok record⟩ :: events =>
      ⟨offered, messages, partition, record⟩ :: batchesFrom [] events
  | _ :: events => batchesFrom offered events

def batches (events : List ProducerEvent) : List Batch := batchesFrom [] events

/-- The increment that a batch calls for, once it is acknowledged. -/
def Batch.increment (batch : Batch) : Option (ℤ × ℕ) :=
  batch.record.map fun record => (record.partition, (accepted batch.offered).length)

/-- What `send_batch` owes to a list of messages. -/
structure Accounted (msgs : List String) (records : List RecordMetadata)
    (events : List ProducerEvent) : Prop where
  /-- Each message is offered once, in order. -/
  offered : (events.filterMap offer).map Prod.fst = msgs
  /-- Every offer belongs to a batch. -/
  batched : (batches events).flatMap Batch.offered = events.filterMap offer
  bounded : ∀ batch ∈ batches events, batch.offered.length ≤ messagesPerBatch
  full : ∀ batch ∈ (batches events).dropLast, batch.offered.length = messagesPerBatch
  sent : (batches events).flatMap Batch.sent = accepted (events.filterMap offer)
  count : (batches events).length = msgs.length ⌈/⌉ messagesPerBatch
  increments : events.filterMap increment = (batches events).filterMap Batch.increment
  records : records = (batches events).filterMap Batch.record

/-- Once every batch is acknowledged, there is one record for each chunk. -/
theorem Accounted.length_records {msgs : List String} {records : List RecordMetadata}
    {events : List ProducerEvent} (h : Accounted msgs records events)
    (hacknowledged : ∀ batch ∈ batches events, batch.record ≠ none) :
    records.length = msgs.length ⌈/⌉ messagesPerBatch := by
  rw [h.records, ← h.count, List.length_filterMap_eq_countP, List.countP_eq_length]
  intro batch hbatch
  exact Option.isSome_iff_ne_none.mpr (hacknowledged batch hbatch)

/-! ## The calls of one chunk -/

/-- A call that concerns neither a batch nor a counter. -/
def isQuiet : ProducerCall → Bool
  | .append _ => false
  | .sendBatch _ _ => false
  | .incrbyNTransactions _ _ => false
  | _ => true

def Quiet (event : ProducerEvent) : Prop := isQuiet event.op = true

/-- One chunk on its way: the offers, the choice of a partition, the record. -/
structure ChunkRun where
  offered : List Offer
  choice : List ProducerEvent
  partition : ℤ
  record : Option RecordMetadata
  quiet : ∀ event ∈ choice, Quiet event

namespace ChunkRun

def chunk (run : ChunkRun) : List String := run.offered.map Prod.fst

def batch (run : ChunkRun) : Batch :=
  ⟨run.offered, accepted run.offered, run.partition, run.record⟩

def appendEvents (offered : List Offer) : List ProducerEvent :=
  offered.map fun offer => ⟨.append offer.1, .ok offer.2⟩

def incrementEvents (offered : List Offer) : Option RecordMetadata → List ProducerEvent
  | some record => [⟨.incrbyNTransactions record.partition (accepted offered).length, .ok ()⟩]
  | none => []

def events (run : ChunkRun) : List ProducerEvent :=
  appendEvents run.offered ++ (run.choice ++
    (⟨.sendBatch (accepted run.offered) run.partition, .ok run.record⟩ ::
      incrementEvents run.offered run.record))

end ChunkRun

section Reading

theorem offer_of_quiet {event : ProducerEvent} (h : Quiet event) : offer event = none := by
  obtain ⟨op, answer⟩ := event
  cases op <;> first | rfl | cases h

theorem increment_of_quiet {event : ProducerEvent} (h : Quiet event) : increment event = none := by
  obtain ⟨op, answer⟩ := event
  cases op <;> first | rfl | cases h

theorem batchesFrom_quiet {events : List ProducerEvent} (h : ∀ event ∈ events, Quiet event)
    (offered : List Offer) (rest : List ProducerEvent) :
    batchesFrom offered (events ++ rest) = batchesFrom offered rest := by
  induction events with
  | nil => rfl
  | cons event events ih =>
      have hstep : batchesFrom offered (event :: (events ++ rest)) =
          batchesFrom offered (events ++ rest) := by
        have hquiet := h event List.mem_cons_self
        obtain ⟨op, answer⟩ := event
        cases op <;> first | rfl | cases hquiet
      rw [List.cons_append, hstep]
      exact ih fun other hother => h other (List.mem_cons_of_mem event hother)

theorem batchesFrom_appendEvents (offered new : List Offer) (rest : List ProducerEvent) :
    batchesFrom offered (ChunkRun.appendEvents new ++ rest) =
      batchesFrom (offered ++ new) rest := by
  induction new generalizing offered with
  | nil => rw [List.append_nil]; rfl
  | cons message new ih =>
      change batchesFrom (offered ++ [message]) (ChunkRun.appendEvents new ++ rest) = _
      rw [ih, List.append_assoc]
      rfl

theorem batchesFrom_incrementEvents (offered new : List Offer) (record : Option RecordMetadata)
    (rest : List ProducerEvent) :
    batchesFrom offered (ChunkRun.incrementEvents new record ++ rest) =
      batchesFrom offered rest := by
  cases record <;> rfl

/-- The calls of a chunk read as its batch. -/
theorem batchesFrom_events (run : ChunkRun) (rest : List ProducerEvent) :
    batchesFrom [] (run.events ++ rest) = run.batch :: batchesFrom [] rest := by
  rw [ChunkRun.events, List.append_assoc, batchesFrom_appendEvents, List.append_assoc,
    batchesFrom_quiet run.quiet, List.nil_append]
  change run.batch :: batchesFrom [] (ChunkRun.incrementEvents _ _ ++ rest) = _
  rw [batchesFrom_incrementEvents]

theorem filterMap_offer_events (run : ChunkRun) :
    run.events.filterMap offer = run.offered := by
  have happend : (ChunkRun.appendEvents run.offered).filterMap offer = run.offered := by
    rw [ChunkRun.appendEvents, List.filterMap_map]
    exact List.filterMap_some
  have hchoice : run.choice.filterMap offer = [] :=
    List.filterMap_eq_nil_iff.mpr fun event hevent => offer_of_quiet (run.quiet event hevent)
  have hincrement : (ChunkRun.incrementEvents run.offered run.record).filterMap offer = [] := by
    cases run.record <;> rfl
  rw [ChunkRun.events, List.filterMap_append, List.filterMap_append, happend, hchoice,
    List.nil_append]
  change run.offered ++ (ChunkRun.incrementEvents run.offered run.record).filterMap offer = _
  rw [hincrement, List.append_nil]

theorem filterMap_increment_events (run : ChunkRun) :
    run.events.filterMap increment = run.batch.increment.toList := by
  have happend : (ChunkRun.appendEvents run.offered).filterMap increment = [] := by
    rw [ChunkRun.appendEvents, List.filterMap_map, List.filterMap_eq_nil_iff]
    exact fun _ _ => rfl
  have hchoice : run.choice.filterMap increment = [] :=
    List.filterMap_eq_nil_iff.mpr fun event hevent =>
      increment_of_quiet (run.quiet event hevent)
  rw [ChunkRun.events, List.filterMap_append, List.filterMap_append, happend, hchoice,
    List.nil_append, List.nil_append]
  change (ChunkRun.incrementEvents run.offered run.record).filterMap increment = _
  rw [Batch.increment, ChunkRun.batch]
  cases run.record <;> rfl

theorem batchesFrom_flatMap_events (runs : List ChunkRun) :
    batchesFrom [] (runs.flatMap ChunkRun.events) = runs.map ChunkRun.batch := by
  induction runs with
  | nil => rfl
  | cons run runs ih => rw [List.flatMap_cons, batchesFrom_events, ih, List.map_cons]

end Reading

/-! ## The chunks -/

theorem length_chunks {size : ℕ} (msgs : List String) :
    (chunks size msgs).length = msgs.length ⌈/⌉ size := by
  rw [chunks, List.length_map, List.length_range, Nat.ceilDiv_eq_add_pred_div]

/-- Every chunk but the last one is full. -/
theorem length_of_mem_dropLast_chunks {size : ℕ} (hsize : 0 < size) {msgs chunk : List String}
    (h : chunk ∈ (chunks size msgs).dropLast) : chunk.length = size := by
  have hrange : ∀ count, (List.range count).dropLast = List.range (count - 1) := by
    intro count
    cases count with
    | zero => rfl
    | succ count => rw [List.range_succ, List.dropLast_concat, Nat.add_sub_cancel]
  rw [chunks, ← List.map_dropLast, hrange, List.mem_map] at h
  obtain ⟨i, hi, rfl⟩ := h
  have hlast := List.mem_range.mp hi
  have hcount : (i + 2) * size ≤ msgs.length + size - 1 :=
    (Nat.le_div_iff_mul_le hsize).mp (by omega)
  have hroom : size ≤ msgs.length - i * size := by
    rw [Nat.add_mul] at hcount
    omega
  rw [List.length_take, List.length_drop, Nat.min_eq_left hroom]

theorem messagesPerBatch_pos : 0 < messagesPerBatch := by decide

/-- Quiet calls, then the calls of the chunks of a list. -/
theorem accounted_of_runs {msgs : List String} {before : List ProducerEvent}
    (hbefore : ∀ event ∈ before, Quiet event) {runs : List ChunkRun}
    (hruns : runs.map ChunkRun.chunk = chunks messagesPerBatch msgs) :
    Accounted msgs (runs.filterMap ChunkRun.record) (before ++ runs.flatMap ChunkRun.events) := by
  have hbatches : batches (before ++ runs.flatMap ChunkRun.events) = runs.map ChunkRun.batch := by
    rw [batches, batchesFrom_quiet hbefore, batchesFrom_flatMap_events]
  have hoffers : (before ++ runs.flatMap ChunkRun.events).filterMap offer =
      runs.flatMap ChunkRun.offered := by
    have hquiet : before.filterMap offer = [] :=
      List.filterMap_eq_nil_iff.mpr fun event hevent => offer_of_quiet (hbefore event hevent)
    rw [List.filterMap_append, hquiet, List.nil_append, List.filterMap_flatMap]
    simp only [filterMap_offer_events]
  have hlength : ∀ run ∈ runs, run.chunk ∈ chunks messagesPerBatch msgs := by
    intro run hrun
    rw [← hruns]
    exact List.mem_map_of_mem hrun
  constructor
  · rw [hoffers, List.map_flatMap, ← flatten_chunks messagesPerBatch_pos msgs, ← hruns,
      ← List.flatMap_def]
    rfl
  · rw [hbatches, hoffers, List.flatMap_map]
    rfl
  · rw [hbatches]
    intro batch hbatch
    obtain ⟨run, hrun, rfl⟩ := List.mem_map.mp hbatch
    have hbound := length_le_of_mem_chunks (hlength run hrun)
    rwa [ChunkRun.chunk, List.length_map] at hbound
  · rw [hbatches, ← List.map_dropLast]
    intro batch hbatch
    obtain ⟨run, hrun, rfl⟩ := List.mem_map.mp hbatch
    have hchunk : run.chunk ∈ (chunks messagesPerBatch msgs).dropLast := by
      rw [← hruns, ← List.map_dropLast]
      exact List.mem_map_of_mem hrun
    have hfull := length_of_mem_dropLast_chunks messagesPerBatch_pos hchunk
    rwa [ChunkRun.chunk, List.length_map] at hfull
  · rw [hbatches, hoffers, List.flatMap_map, accepted, List.filter_flatMap, List.map_flatMap]
    rfl
  · rw [hbatches, List.length_map, ← length_chunks, ← hruns, List.length_map]
  · have hquiet : before.filterMap increment = [] :=
      List.filterMap_eq_nil_iff.mpr fun event hevent => increment_of_quiet (hbefore event hevent)
    rw [hbatches, List.filterMap_append, hquiet, List.nil_append, List.filterMap_flatMap,
      List.filterMap_map, List.filterMap_eq_flatMap_toList]
    simp only [filterMap_increment_events]
    rfl
  · rw [hbatches, List.filterMap_map]
    rfl

/-! ## Sending without errors -/

/-- Redis, Kafka and the batches answer every call; the answers are free. -/
def ErrorFree (environment : Environment producerSignature PyError) : Prop :=
  ∀ history (op : ProducerCall), ∃ answer, environment history op = .ok answer

section Sending

variable {environment : Environment producerSignature PyError}

theorem completes_perform (h : ErrorFree environment) (op : ProducerCall) :
    Program.Completes environment (perform op) fun answer events =>
      events = [⟨op, .ok answer⟩] :=
  Program.completes_perform (fun history => h history op) fun _ => rfl

theorem completes_quiet (h : ErrorFree environment) {op : ProducerCall} (hop : isQuiet op = true) :
    Program.Completes environment (perform op) fun _ events => ∀ event ∈ events, Quiet event := by
  refine (completes_perform h op).mono ?_
  rintro answer _ rfl event hevent
  obtain rfl := List.mem_singleton.mp hevent
  exact hop

/-- A quiet call, then what is quiet as well. -/
theorem quiet_append {first later : List ProducerEvent} (hfirst : ∀ event ∈ first, Quiet event)
    (hlater : ∀ event ∈ later, Quiet event) : ∀ event ∈ first ++ later, Quiet event := by
  intro event hevent
  rcases List.mem_append.mp hevent with hevent | hevent
  · exact hfirst event hevent
  · exact hlater event hevent

theorem completes_quiet_bind {A : Type} (h : ErrorFree environment) {op : ProducerCall}
    (hop : isQuiet op = true) {rest : op.Answer → ProducerProgram A}
    (hrest : ∀ answer, Program.Completes environment (rest answer) fun _ events =>
      ∀ event ∈ events, Quiet event) :
    Program.Completes environment (perform op >>= rest) fun _ events =>
      ∀ event ∈ events, Quiet event :=
  (completes_quiet h hop).bind fun answer _ hfirst =>
    (hrest answer).mono fun _ _ hlater => quiet_append hfirst hlater

theorem completes_quiet_done {A : Type} (value : A) :
    Program.Completes environment (.done value) fun _ events => ∀ event ∈ events, Quiet event :=
  Program.completes_done fun _ hevent => absurd hevent List.not_mem_nil

/-- Every message is offered, in order; the accepted ones are returned. -/
theorem completes_appendMessages (h : ErrorFree environment) (msgs : List String) :
    Program.Completes environment (appendMessages msgs) fun sent events =>
      ∃ offered, offered.map Prod.fst = msgs ∧ sent = accepted offered ∧
        events = ChunkRun.appendEvents offered := by
  induction msgs with
  | nil => exact Program.completes_done ⟨[], rfl, rfl, rfl⟩
  | cons msg msgs ih =>
      refine (completes_perform h (.append msg)).bind ?_
      rintro metadata _ rfl
      refine ih.bind ?_
      rintro _ _ ⟨offered, hmsgs, rfl, rfl⟩
      refine Program.completes_done ⟨(msg, metadata) :: offered, ?_, ?_, ?_⟩
      · rw [List.map_cons, hmsgs]
      · cases metadata <;> rfl
      · rw [List.append_nil]
        rfl

theorem completes_choosePartition (h : ErrorFree environment) :
    Program.Completes environment choosePartition fun _ events =>
      ∀ event ∈ events, Quiet event := by
  refine completes_quiet_bind h rfl fun partition => ?_
  split
  · refine completes_quiet_bind h rfl fun _ => ?_
    refine completes_quiet_bind h rfl fun nPartitions => ?_
    split
    · exact completes_quiet_bind h rfl fun _ => completes_quiet_done _
    · exact completes_quiet_done _
  · exact completes_quiet_bind h rfl fun _ => completes_quiet_done _

theorem completes_sendChunk (h : ErrorFree environment) (chunk : List String) :
    Program.Completes environment (sendChunk chunk) fun record events =>
      ∃ run : ChunkRun, run.chunk = chunk ∧ record = run.record ∧ events = run.events := by
  refine (completes_appendMessages h chunk).bind ?_
  rintro _ _ ⟨offered, hchunk, rfl, rfl⟩
  refine (completes_choosePartition h).bind fun partition choice hquiet => ?_
  refine (completes_perform h (.sendBatch (accepted offered) partition)).bind ?_
  rintro record _ rfl
  cases record with
  | none =>
      exact Program.completes_done
        ⟨⟨offered, choice, partition, none, hquiet⟩, hchunk, rfl, rfl⟩
  | some metadata =>
      refine (completes_perform h (.incrbyNTransactions metadata.partition _)).bind ?_
      rintro _ _ rfl
      exact Program.completes_done
        ⟨⟨offered, choice, partition, some metadata, hquiet⟩, hchunk, rfl, rfl⟩

theorem completes_sendChunks (h : ErrorFree environment) (pieces : List (List String)) :
    Program.Completes environment (sendChunks pieces) fun records events =>
      ∃ runs : List ChunkRun, runs.map ChunkRun.chunk = pieces ∧
        records = runs.filterMap ChunkRun.record ∧ events = runs.flatMap ChunkRun.events := by
  induction pieces with
  | nil => exact Program.completes_done ⟨[], rfl, rfl, rfl⟩
  | cons chunk pieces ih =>
      refine (completes_sendChunk h chunk).bind ?_
      rintro _ _ ⟨run, hchunk, rfl, rfl⟩
      refine ih.bind ?_
      rintro _ _ ⟨runs, hpieces, rfl, rfl⟩
      refine Program.completes_done ⟨run :: runs, ?_, ?_, ?_⟩
      · rw [List.map_cons, hchunk, hpieces]
      · cases hrecord : run.record <;> simp [hrecord]
      · rw [List.append_nil, List.flatMap_cons]

/-- What `send_batch` does past the gate. -/
theorem completes_afterGate (h : ErrorFree environment) (msgs : List String) :
    Program.Completes environment
      (if msgs = [] then return some []
        else Program.rescue onKafkaTimeout do
          let records ← sendChunks (chunks messagesPerBatch msgs)
          return some records)
      fun result events => ∃ runs : List ChunkRun,
        runs.map ChunkRun.chunk = chunks messagesPerBatch msgs ∧
          result = some (runs.filterMap ChunkRun.record) ∧
          events = runs.flatMap ChunkRun.events := by
  split
  · subst msgs
    exact Program.completes_done ⟨[], rfl, rfl, rfl⟩
  · apply Program.Completes.rescue
    refine (completes_sendChunks h (chunks messagesPerBatch msgs)).bind ?_
    rintro _ _ ⟨runs, hchunks, rfl, rfl⟩
    exact Program.completes_done ⟨runs, hchunks, rfl, List.append_nil _⟩

/-- Past the gate, a call of `send_batch` accounts for every message, whatever
the batches accept, the partitions chosen and the records acknowledged. -/
theorem sendBatch_accounts (h : ErrorFree environment) {fuel : ℕ} {history : List ProducerEvent}
    (hopen : ((limitTopicCapacity fuel 0).runIn environment history).1 = .returned ())
    (msgs : List String) :
    ∃ records events,
      (sendBatch fuel msgs).runIn environment history =
        (.returned (some records), history ++ events) ∧
      Accounted msgs records events ∧
      ((∀ batch ∈ batches events, batch.record ≠ none) →
        records.length = msgs.length ⌈/⌉ messagesPerBatch) := by
  obtain ⟨before, hbefore, hruns⟩ :=
    Program.runs_runIn environment (limitTopicCapacity fuel 0) history
  have hquiet : ∀ event ∈ before, Quiet event :=
    (ensures_limitTopicCapacity (fun _ => rfl) (fun _ => rfl) (fun _ => rfl) fuel 0 _ _ hruns).1
  obtain ⟨_, _, hrun, runs, hchunks, rfl, rfl⟩ :=
    completes_afterGate h msgs (history ++ before)
  have haccounted := accounted_of_runs hquiet hchunks
  refine ⟨_, _, ?_, haccounted, haccounted.length_records⟩
  rw [← List.append_assoc, ← hrun]
  exact Program.run_bind_of_returned (Prod.ext hopen hbefore)

end Sending

section Deployment

/-- An empty topic of four partitions, in which one message is too large. -/
def broker : Environment producerSignature PyError := fun _ op =>
  match op with
  | .getBlock => .ok none
  | .execute _ => .ok ()
  | .getBlockData number => .ok {
      blockNumber := number
      blockHash := "0x"
      nonce := "0x"
      difficulty := 0
      gasLimit := 0
      gasUsed := 0
      timestamp := 0
      transactions := []
      miner := "0x"
      parentHash := "0x"
      uncles := [] }
  | .traceBlock _ => .ok []
  | .getLogs _ => .ok []
  | .getNTransactions => .ok 0
  | .getLowestScorePartition => .ok (some 0)
  | .incrbyNTransactions _ _ => .ok ()
  | .partitionsFor => .ok 4
  | .append message => .ok (message ≠ "0x02")
  | .sendBatch _ partition => .ok (some ⟨partition⟩)
  | .send _ => .ok (some ⟨0⟩)
  | .getIPartition => .ok 0
  | .setIPartition _ => .ok ()
  | .sleep _ => .ok ()
  | .estimateRemaining _ _ => .ok ()
  | .setProcessedBlock _ => .ok ()

theorem errorFree_broker : ErrorFree broker := by
  intro history op
  cases op <;> exact ⟨_, rfl⟩

/-- One message more than a batch takes, and one that is rejected. -/
theorem two_batches_accounted :
    ∃ records events,
      (sendBatch 1 ("0x02" :: List.replicate 1024 "0x01")).runIn broker [] =
        (.returned (some records), [] ++ events) ∧
      Accounted ("0x02" :: List.replicate 1024 "0x01") records events ∧
      ((∀ batch ∈ batches events, batch.record ≠ none) →
        records.length =
          ("0x02" :: List.replicate 1024 "0x01").length ⌈/⌉ messagesPerBatch) :=
  sendBatch_accounts errorFree_broker rfl _

end Deployment

end BlockchainDataCollection.Chunking
