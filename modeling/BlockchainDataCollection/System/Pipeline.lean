import BlockchainDataCollection.Consumer.Attempts
import BlockchainDataCollection.Producer.Backing

/-!
# The whole pipeline

Producer tasks, the Kafka topic, consumers and the database of one node, in any
interleaving of their calls.  Every call may fail, and a failed call may still
have had its effect.  A message may be retrieved any number of times, and a
process that takes no further step has crashed.  Every consumer has the settings
of its own configuration file.
-/

namespace BlockchainDataCollection.Pipeline

open BlockchainDataCollection.Effect
open BlockchainDataCollection.Effect.Program (Runs Truthful)
open BlockchainDataCollection.Python
open BlockchainDataCollection.Data
open BlockchainDataCollection.KeyedTable
open BlockchainDataCollection.Parser
open BlockchainDataCollection.Storage
open BlockchainDataCollection.TxProcessor
open BlockchainDataCollection.Processing
open BlockchainDataCollection.Saving
open BlockchainDataCollection.Relevance
open BlockchainDataCollection.Consuming
open BlockchainDataCollection.Committing
open BlockchainDataCollection.Attempts
open BlockchainDataCollection.KafkaProducer
open BlockchainDataCollection.DataProducer
open BlockchainDataCollection.Backing

variable [ChecksumSpelling]

/-! ## Producers and consumers -/

/-- A producer task that was created for a configuration. -/
structure Producer where
  cfg : DataCollectionConfig
  fuel : ℕ
  process : Process producerSignature PyError Unit
  started : process.program = startProducerTask fuel cfg

def Producer.start (fuel : ℕ) (cfg : DataCollectionConfig) : Producer :=
  ⟨cfg, fuel, .start (startProducerTask fuel cfg), rfl⟩

def Producer.resume (producer : Producer)
    (answers : (op : ProducerCall) → Except PyError op.Answer) : Producer where
  cfg := producer.cfg
  fuel := producer.fuel
  process := producer.process.resume answers
  started := Process.program_resume.trans producer.started

omit [ChecksumSpelling] in
theorem Producer.runs (producer : Producer) :
    Runs (startProducerTask producer.fuel producer.cfg) producer.process.events .running :=
  producer.started ▸ producer.process.runs

structure Consumer where
  setOrder : SetOrder
  state : DataConsumer
  consistent : state.contractParser.Consistent

def Consumer.start (settings : ParserSettings) (setOrder : SetOrder) : Consumer where
  setOrder := setOrder
  state := DataConsumer.init settings
  consistent := by
    intro _ _ h
    cases h

/-- The settings that a consumer was started with. -/
def Consumer.settings (consumer : Consumer) : ParserSettings :=
  consumer.state.contractParser.settings

/-- A consumer in its callback. -/
structure Handling where
  consumer : Consumer
  event : String
  process : Process consumerSignature PyError DataConsumer
  started : process.program = onKafkaEvent consumer.setOrder consumer.state event

def Handling.start (consumer : Consumer) (event : String) : Handling :=
  ⟨consumer, event, .start (onKafkaEvent consumer.setOrder consumer.state event), rfl⟩

def Handling.resume (handling : Handling)
    (answers : (op : ConsumerCall) → Except PyError op.Answer) : Handling where
  consumer := handling.consumer
  event := handling.event
  process := handling.process.resume answers
  started := Process.program_resume.trans handling.started

theorem Handling.runs (handling : Handling) :
    Runs (onKafkaEvent handling.consumer.setOrder handling.consumer.state handling.event)
      handling.process.events .running :=
  handling.started ▸ handling.process.runs

/-- What a handler writes, if it gets that far. -/
def Handling.statements (node : Node) (handling : Handling) : List Statement :=
  kafkaEventStatements node handling.consumer.settings handling.consumer.setOrder handling.event

/-- Handling an event leaves the settings alone and the cache consistent. -/
theorem settings_of_runs {setOrder : SetOrder} {consumer consumer' : DataConsumer}
    (hparser : consumer.contractParser.Consistent) {event : String}
    {events : List (Program.Event consumerSignature PyError)}
    (hruns : Runs (onKafkaEvent setOrder consumer event) events (.returned consumer')) :
    consumer'.contractParser.settings = consumer.contractParser.settings ∧
      consumer'.contractParser.Consistent := by
  have hcommits : Commits (onKafkaEvent setOrder consumer event) (fun result _ =>
      result.contractParser.settings = consumer.contractParser.settings ∧
        result.contractParser.Consistent) fun _ => True := by
    have hcall : ∀ op, Commits (@Program.perform consumerSignature _ op) (fun _ _ => True)
        fun _ => True := fun _ => commits_perform (fun _ => trivial) trivial
    have hdecode : Commits (Program.ofExcept (decodeKafkaEvent event)) (fun _ _ => True)
        fun _ => True := commits_ofExcept (fun _ _ => trivial) trivial
    apply hdecode.bind
    rintro ⟨mode, txHash⟩ _ _
    apply (hcall (.getTransaction txHash)).bind
    intro tx _ _
    apply (hcall (.getTransactionReceipt txHash)).bind
    intro receipt _ _
    apply ((commits_processTransaction hparser mode).mono (fun _ _ h => h.1)
      fun _ _ => trivial).bind
    rintro ⟨saved, parser⟩ _ hkept
    exact commits_done hkept
  exact (hcommits events _ hruns).1 consumer' rfl

theorem Handling.kept (handling : Handling) {state : DataConsumer}
    (hdone : handling.process.rest = .done state) :
    state.contractParser.settings = handling.consumer.settings ∧
      state.contractParser.Consistent :=
  settings_of_runs handling.consumer.consistent
    (handling.started ▸ handling.process.runs_returned hdone)

/-- The consumer after its callback has returned. -/
def Handling.finish (handling : Handling) (state : DataConsumer)
    (hdone : handling.process.rest = .done state) : Consumer where
  setOrder := handling.consumer.setOrder
  state
  consistent := (handling.kept hdone).2

inductive Worker where
  | idle (consumer : Consumer)
  | handling (handling : Handling)

def Worker.consumer : Worker → Consumer
  | .idle consumer => consumer
  | .handling callback => callback.consumer

/-- The settings that some worker has. -/
def settingsOf (workers : List Worker) : Set ParserSettings :=
  {settings | ∃ worker ∈ workers, worker.consumer.settings = settings}

/-- All workers have read the same configuration file. -/
def SameSettings (workers : List Worker) (settings : ParserSettings) : Prop :=
  ∀ worker ∈ workers, worker.consumer.settings = settings

theorem SameSettings.settingsOf_subset {workers : List Worker} {settings : ParserSettings}
    (h : SameSettings workers settings) : settingsOf workers ⊆ {settings} := by
  rintro _ ⟨worker, hworker, rfl⟩
  exact h worker hworker

/-! ## The steps of the pipeline -/

structure System where
  producers : List Producer
  /-- The messages that reached the topic. -/
  topic : List String
  workers : List Worker
  /-- The messages whose callback has returned. -/
  handled : List String
  db : Database

def System.start : System :=
  ⟨[], [], [], [], .empty⟩

/-- A failed call may have had its effect. -/
def tookEffect {A : Type} (landed : Bool) : Except PyError A → Bool
  | .ok _ => true
  | .error _ => landed

/-- The messages an answered call adds to the topic. -/
def sent (landed : Bool) (event : ProducerEvent) : List String :=
  if tookEffect landed event.answer then sentMessages event.op else []

def storedStatements : ProducerCall → List Statement
  | .execute statement => [statement]
  | _ => []

/-- The statements an answered call of a producer commits. -/
def stored (landed : Bool) (event : ProducerEvent) : List Statement :=
  if tookEffect landed event.answer then storedStatements event.op else []

/-- The statements an answered call of a consumer commits. -/
def saved (landed : Bool) (event : Program.Event consumerSignature PyError) : List Statement :=
  if tookEffect landed event.answer then callStatements event.op else []

/-- The node lists a transaction in the block that the transaction names. -/
def Lists (node : Node) : ProducerEvent → Prop
  | ⟨.getBlockData number, .ok blockData⟩ => blockData.blockNumber = number ∧
      ∀ txHash ∈ blockData.transactions, ∀ tx, node.getTransaction txHash = .ok tx →
        tx.blockNumber = number
  | _ => True

inductive Step (node : Node) : System → System → Prop
  | startProducer (fuel cfg producers topic workers handled db) :
      Step node ⟨producers, topic, workers, handled, db⟩
        ⟨producers ++ [.start fuel cfg], topic, workers, handled, db⟩
  | produce (before producer after answers event landed topic workers handled db) :
      producer.process.nextEvent answers = some event → Lists node event →
      Step node ⟨before ++ producer :: after, topic, workers, handled, db⟩
        ⟨before ++ producer.resume answers :: after, topic ++ sent landed event, workers, handled,
          db.executeAll (stored landed event)⟩
  | startConsumer (settings setOrder producers topic workers handled db) :
      Step node ⟨producers, topic, workers, handled, db⟩
        ⟨producers, topic, workers ++ [.idle (.start settings setOrder)], handled, db⟩
  | retrieve (before consumer after event producers topic handled db) :
      event ∈ topic →
      Step node ⟨producers, topic, before ++ .idle consumer :: after, handled, db⟩
        ⟨producers, topic, before ++ .handling (.start consumer event) :: after, handled, db⟩
  | consume (before handling after answers event landed producers topic handled db) :
      handling.process.nextEvent answers = some event → Truthful node.answer event →
      Step node ⟨producers, topic, before ++ .handling handling :: after, handled, db⟩
        ⟨producers, topic, before ++ .handling (handling.resume answers) :: after, handled,
          db.executeAll (saved landed event)⟩
  | finish (before handling after state hdone producers topic handled db) :
      Step node ⟨producers, topic, before ++ .handling handling :: after, handled, db⟩
        ⟨producers, topic, before ++ .idle (handling.finish state hdone) :: after,
          handling.event :: handled, db⟩

def Reaches (node : Node) (system : System) : Prop :=
  Relation.ReflTransGen (Step node) .start system

/-! ## The invariant -/

/-- The row is the first one that some message of the topic writes under its key. -/
def Original (node : Node) (known : Set ParserSettings) (topic : List String) (name : TableName)
    (row : Row name) : Prop :=
  ∃ event ∈ topic, ∃ settings ∈ known, ∃ setOrder,
    row ∈ rowsOf name (kafkaEventStatements node settings setOrder event) ∧
    ∀ k, primaryKey name row = some k → Table.firstWith (primaryKey name) k
      (rowsOf name (kafkaEventStatements node settings setOrder event)) = some row

/-- What a producer has done shows in the topic and in the database. -/
structure ProducerSound (node : Node) (topic : List String) (db : Database)
    (producer : Producer) : Prop where
  lists : ∀ event ∈ producer.process.events, Lists node event
  stored : ∀ event ∈ producer.process.events, ∀ statement ∈ stored false event, db.Holds statement
  sent : ∀ event ∈ producer.process.events, ∀ message ∈ sent false event, message ∈ topic

/-- What a consumer has done shows in the database. -/
structure HandlingSound (node : Node) (topic : List String) (db : Database)
    (handling : Handling) : Prop where
  retrieved : handling.event ∈ topic
  truthful : ∀ event ∈ handling.process.events, Truthful node.answer event
  saved : ∀ event ∈ handling.process.events, ∀ statement ∈ saved false event, db.Holds statement

def WorkerSound (node : Node) (topic : List String) (db : Database) : Worker → Prop
  | .idle _ => True
  | .handling handling => HandlingSound node topic db handling

/-- A message that was handled is answered by the node, and all that it writes
is held. -/
structure HandledSound (node : Node) (known : Set ParserSettings) (topic : List String)
    (db : Database) (event : String) : Prop where
  retrieved : event ∈ topic
  answered : ∃ mode txHash tx receipt, decodeKafkaEvent event = .ok (mode, txHash) ∧
    node.getTransaction txHash = .ok tx ∧ node.getTransactionReceipt txHash = .ok receipt
  held : ∃ settings ∈ known, ∃ setOrder,
    ∀ statement ∈ kafkaEventStatements node settings setOrder event, db.Holds statement

structure Sound (node : Node) (system : System) : Prop where
  producers : ∀ producer ∈ system.producers, ProducerSound node system.topic system.db producer
  workers : ∀ worker ∈ system.workers, WorkerSound node system.topic system.db worker
  handled : ∀ event ∈ system.handled,
    HandledSound node (settingsOf system.workers) system.topic system.db event
  /-- Every message was sent by a producer. -/
  messages : ∀ message ∈ system.topic, ∃ producer ∈ system.producers,
    ∃ event ∈ producer.process.events, message ∈ sentMessages event.op
  /-- Every block row was written by a producer. -/
  blocks : ∀ row ∈ (system.db.table .block).rows, ∃ producer ∈ system.producers,
    ∃ event ∈ producer.process.events, insertBlock row ∈ storedStatements event.op
  rows : ∀ name, name ≠ .block → ∀ row ∈ (system.db.table name).rows,
    Original node (settingsOf system.workers) system.topic name row

/-! ## Growing topics and tables -/

section Growth

variable {node : Node} {settings : ParserSettings} {known known' : Set ParserSettings}
  {topic topic' : List String} {db : Database}

omit [ChecksumSpelling] in
theorem sent_sublist (landed : Bool) (event : ProducerEvent) :
    (sent landed event).Sublist (sentMessages event.op) := by
  rw [sent]
  split
  · exact List.Sublist.refl _
  · exact List.nil_sublist _

omit [ChecksumSpelling] in
theorem sent_subset (landed : Bool) (event : ProducerEvent) :
    sent false event ⊆ sent landed event := by
  obtain ⟨op, answer⟩ := event
  cases answer <;> simp [sent, tookEffect]

omit [ChecksumSpelling] in
theorem stored_subset (landed : Bool) (event : ProducerEvent) :
    stored false event ⊆ stored landed event := by
  obtain ⟨op, answer⟩ := event
  cases answer <;> simp [stored, tookEffect]

theorem saved_subset (landed : Bool) (event : Program.Event consumerSignature PyError) :
    saved false event ⊆ saved landed event := by
  obtain ⟨op, answer⟩ := event
  cases answer <;> simp [saved, tookEffect]

theorem saved_of_ok {event : Program.Event consumerSignature PyError}
    (h : ∃ found, event.answer = .ok found) : saved false event = callStatements event.op := by
  obtain ⟨found, hfound⟩ := h
  rw [saved, hfound]
  rfl

theorem ProducerSound.mono {producer : Producer} (h : ProducerSound node topic db producer)
    (htopic : topic ⊆ topic') (statements : List Statement) :
    ProducerSound node topic' (db.executeAll statements) producer where
  lists := h.lists
  stored event hevent statement hstatement :=
    (h.stored event hevent statement hstatement).executeAll _
  sent event hevent message hmessage := htopic (h.sent event hevent message hmessage)

theorem WorkerSound.mono {worker : Worker} (h : WorkerSound node topic db worker)
    (htopic : topic ⊆ topic') (statements : List Statement) :
    WorkerSound node topic' (db.executeAll statements) worker := by
  cases worker with
  | idle consumer => trivial
  | handling handling =>
      exact ⟨htopic h.retrieved, h.truthful, fun event hevent statement hstatement =>
        (h.saved event hevent statement hstatement).executeAll _⟩

theorem HandledSound.mono {event : String} (h : HandledSound node known topic db event)
    (hknown : known ⊆ known') (htopic : topic ⊆ topic') (statements : List Statement) :
    HandledSound node known' topic' (db.executeAll statements) event where
  retrieved := htopic h.retrieved
  answered := h.answered
  held := by
    obtain ⟨settings, hsettings, setOrder, hheld⟩ := h.held
    exact ⟨settings, hknown hsettings, setOrder,
      fun statement hstatement => (hheld statement hstatement).executeAll _⟩

theorem Original.mono {name : TableName} {row : Row name} (h : Original node known topic name row)
    (hknown : known ⊆ known') (htopic : topic ⊆ topic') :
    Original node known' topic' name row := by
  obtain ⟨event, hevent, settings, hsettings, hfirst⟩ := h
  exact ⟨event, htopic hevent, settings, hknown hsettings, hfirst⟩

theorem settingsOf_append (workers more : List Worker) :
    settingsOf workers ⊆ settingsOf (workers ++ more) := by
  rintro settings ⟨worker, hworker, hsettings⟩
  exact ⟨worker, List.mem_append_left _ hworker, hsettings⟩

/-- A worker keeps its settings. -/
theorem settingsOf_replaced {before after : List Worker} {worker worker' : Worker}
    (h : worker'.consumer.settings = worker.consumer.settings) :
    settingsOf (before ++ worker' :: after) = settingsOf (before ++ worker :: after) := by
  ext settings
  simp [settingsOf, or_and_right, exists_or, h]

theorem rowsOf_modeStatements_block (setOrder : SetOrder) (mode : DataCollectionMode) (tx : TxData)
    (receipt : TxReceipt) :
    rowsOf .block (modeStatements node settings setOrder mode tx receipt) = [] := by
  have hsave : ∀ indices,
      rowsOf .block (saveStatements node (.parse tx) (.parse receipt) indices) = [] :=
    fun _ => rowsOf_saveStatements_eq_nil TableName.noConfusion TableName.noConfusion
      TableName.noConfusion
  cases mode with
  | full | getLogs => exact hsave _
  | partialMode =>
      rw [modeStatements, partialStatements, rowsOf_append,
        rowsOf_decisionStatements_eq_nil (by decide), List.nil_append]
      split
      · exact hsave _
      · rfl
  | logFilter => rfl

/-- Events write no blocks. -/
theorem rowsOf_kafkaEventStatements_block (setOrder : SetOrder) (event : String) :
    rowsOf .block (kafkaEventStatements node settings setOrder event) = [] := by
  unfold kafkaEventStatements
  split
  · rfl
  · split
    · exact rowsOf_modeStatements_block _ _ _ _
    · rfl

end Growth

/-! ## Every step keeps the invariant -/

section Steps

variable {node : Node} {producers : List Producer} {topic : List String}
  {workers : List Worker} {handled : List String} {db : Database}

theorem sound_start : Sound node System.start where
  producers := by simp [System.start]
  workers := by simp [System.start]
  handled := by simp [System.start]
  messages := by simp [System.start]
  blocks := by simp [System.start, Database.empty, Table.empty]
  rows := by simp [System.start, Database.empty, Table.empty]

theorem sound_startProducer (h : Sound node ⟨producers, topic, workers, handled, db⟩) (fuel : ℕ)
    (cfg : DataCollectionConfig) :
    Sound node ⟨producers ++ [.start fuel cfg], topic, workers, handled, db⟩ where
  producers producer hproducer := by
    rcases List.mem_append.mp hproducer with hproducer | hproducer
    · exact h.producers producer hproducer
    · obtain rfl := List.mem_singleton.mp hproducer
      exact ⟨by simp [Producer.start], by simp [Producer.start], by simp [Producer.start]⟩
  workers := h.workers
  handled := h.handled
  messages message hmessage := by
    obtain ⟨producer, hproducer, hevent⟩ := h.messages message hmessage
    exact ⟨producer, List.mem_append_left _ hproducer, hevent⟩
  blocks row hrow := by
    obtain ⟨producer, hproducer, hevent⟩ := h.blocks row hrow
    exact ⟨producer, List.mem_append_left _ hproducer, hevent⟩
  rows := h.rows

omit [ChecksumSpelling] in
/-- A producer writes block rows only. -/
theorem exists_insertBlock_of_mem_stored {producer : Producer}
    {answers : (op : ProducerCall) → Except PyError op.Answer} {event : ProducerEvent}
    (hnext : producer.process.nextEvent answers = some event) {landed : Bool}
    {statement : Statement} (hstatement : statement ∈ stored landed event) :
    statement ∈ storedStatements event.op ∧ ∃ row, statement = insertBlock row := by
  have hmem : statement ∈ storedStatements event.op := by
    rw [stored] at hstatement
    split at hstatement
    · exact hstatement
    · cases hstatement
  refine ⟨hmem, ?_⟩
  have hruns : Runs (startProducerTask producer.fuel producer.cfg)
      (producer.process.events ++ [event]) .running :=
    producer.started ▸ Process.runs_nextEvent hnext
  have hop : event.op = .execute statement := by
    cases hcase : event.op with
    | execute other =>
        rw [hcase] at hmem
        rw [List.mem_singleton.mp hmem]
    | _ =>
        rw [hcase] at hmem
        cases hmem
  obtain ⟨_, blockData, reward, _, hblock⟩ :=
    exists_insertBlock_of_runs hruns (List.mem_append_right _ (List.mem_singleton_self event)) hop
  exact ⟨blockRow blockData reward, hblock⟩

/-- One more answered call of a producer. -/
theorem producerSound_resume {producer : Producer} (h : ProducerSound node topic db producer)
    {answers : (op : ProducerCall) → Except PyError op.Answer} {event : ProducerEvent}
    (hnext : producer.process.nextEvent answers = some event) (hlists : Lists node event)
    (landed : Bool) :
    ProducerSound node (topic ++ sent landed event) (db.executeAll (stored landed event))
      (producer.resume answers) := by
  have hevents : (producer.resume answers).process.events = producer.process.events ++ [event] := by
    rw [Producer.resume, Process.events_resume, hnext, Option.toList_some]
  have hmono := h.mono (List.subset_append_left topic (sent landed event)) (stored landed event)
  constructor
  · rw [hevents]
    exact List.forall_mem_append.mpr ⟨h.lists, List.forall_mem_singleton.mpr hlists⟩
  · rw [hevents]
    refine List.forall_mem_append.mpr ⟨hmono.stored, List.forall_mem_singleton.mpr ?_⟩
    exact fun statement hstatement =>
      Database.holds_executeAll (stored_subset landed event hstatement)
  · rw [hevents]
    refine List.forall_mem_append.mpr ⟨hmono.sent, List.forall_mem_singleton.mpr ?_⟩
    exact fun message hmessage =>
      List.mem_append_right _ (sent_subset landed event hmessage)

theorem sound_produce {before after : List Producer} {producer : Producer}
    (h : Sound node ⟨before ++ producer :: after, topic, workers, handled, db⟩)
    {answers : (op : ProducerCall) → Except PyError op.Answer} {event : ProducerEvent}
    (hnext : producer.process.nextEvent answers = some event) (hlists : Lists node event)
    (landed : Bool) :
    Sound node ⟨before ++ producer.resume answers :: after, topic ++ sent landed event, workers,
      handled, db.executeAll (stored landed event)⟩ := by
  have htopic : topic ⊆ topic ++ sent landed event := List.subset_append_left _ _
  have hevents : (producer.resume answers).process.events = producer.process.events ++ [event] := by
    rw [Producer.resume, Process.events_resume, hnext, Option.toList_some]
  have hself : producer.resume answers ∈ before ++ producer.resume answers :: after := by simp
  -- whatever a producer has done, it is still known to have done
  have hkept : ∀ {P : ProducerEvent → Prop}, (∃ other ∈ before ++ producer :: after,
      ∃ done ∈ other.process.events, P done) →
        ∃ other ∈ before ++ producer.resume answers :: after,
          ∃ done ∈ other.process.events, P done := by
    rintro P ⟨other, hother, done, hdone, hP⟩
    rcases List.mem_append.mp hother with hother | hother
    · exact ⟨other, by simp [hother], done, hdone, hP⟩
    rcases List.mem_cons.mp hother with rfl | hother
    · exact ⟨_, hself, done, by simp [hevents, hdone], hP⟩
    · exact ⟨other, by simp [hother], done, hdone, hP⟩
  constructor
  · intro other hother
    rcases List.mem_append.mp hother with hother | hother
    · exact (h.producers other (List.mem_append_left _ hother)).mono htopic _
    rcases List.mem_cons.mp hother with rfl | hother
    · exact producerSound_resume (h.producers producer (by simp)) hnext hlists landed
    · exact (h.producers other (by simp [hother])).mono htopic _
  · exact fun worker hworker => (h.workers worker hworker).mono htopic _
  · exact fun done hdone => (h.handled done hdone).mono Set.Subset.rfl htopic _
  · intro message hmessage
    rcases List.mem_append.mp hmessage with hmessage | hmessage
    · exact hkept (h.messages message hmessage)
    · refine ⟨_, hself, event, by simp [hevents], ?_⟩
      change message ∈ if tookEffect landed event.answer then sentMessages event.op else []
        at hmessage
      split at hmessage
      · exact hmessage
      · cases hmessage
  · intro row hrow
    rw [Database.table_executeAll] at hrow
    rcases Table.mem_of_mem_insertAll hrow with hrow | hrow
    · exact hkept (h.blocks row hrow)
    · exact ⟨_, hself, event, by simp [hevents],
        (exists_insertBlock_of_mem_stored hnext (mem_rowsOf_iff.mp hrow)).1⟩
  · intro name hname row hrow
    have hnone : rowsOf name (stored landed event) = [] := by
      refine rowsOf_eq_nil fun statement hstatement htable => hname ?_
      obtain ⟨_, _, rfl⟩ := exists_insertBlock_of_mem_stored hnext hstatement
      exact htable.symm
    rw [Database.table_executeAll, hnone, Table.insertAll_nil] at hrow
    exact (h.rows name hname row hrow).mono Set.Subset.rfl htopic

/-- The invariant after one worker has moved on, where topic and producers are
as before. -/
theorem sound_worker {before after : List Worker} {worker worker' : Worker}
    (h : Sound node ⟨producers, topic, before ++ worker :: after, handled, db⟩)
    {statements : List Statement} {handled' : List String}
    (hsettings : worker'.consumer.settings = worker.consumer.settings)
    (hworker : WorkerSound node topic (db.executeAll statements) worker')
    (hhandled : ∀ event ∈ handled', HandledSound node (settingsOf (before ++ worker :: after)) topic
      (db.executeAll statements) event)
    (hblocks : rowsOf .block statements = [])
    (hrows : ∀ name, ∀ row ∈ ((db.executeAll statements).table name).rows,
      row ∉ (db.table name).rows →
        Original node (settingsOf (before ++ worker :: after)) topic name row) :
    Sound node ⟨producers, topic, before ++ worker' :: after, handled', db.executeAll statements⟩
    where
  producers producer hproducer := (h.producers producer hproducer).mono (List.Subset.refl _) _
  workers other hother := by
    rcases List.mem_append.mp hother with hother | hother
    · exact (h.workers other (List.mem_append_left _ hother)).mono (List.Subset.refl _) _
    rcases List.mem_cons.mp hother with rfl | hother
    · exact hworker
    · exact (h.workers other (by simp [hother])).mono (List.Subset.refl _) _
  handled event hevent := by
    rw [settingsOf_replaced hsettings]
    exact hhandled event hevent
  messages := h.messages
  blocks row hrow := by
    rw [Database.table_executeAll, hblocks, Table.insertAll_nil] at hrow
    exact h.blocks row hrow
  rows name hname row hrow := by
    rw [settingsOf_replaced hsettings]
    by_cases hold : row ∈ (db.table name).rows
    · exact h.rows name hname row hold
    · exact hrows name row hrow hold

theorem sound_startConsumer (h : Sound node ⟨producers, topic, workers, handled, db⟩)
    (settings : ParserSettings) (setOrder : SetOrder) :
    Sound node ⟨producers, topic, workers ++ [.idle (.start settings setOrder)], handled, db⟩ where
  producers := h.producers
  workers worker hworker := by
    rcases List.mem_append.mp hworker with hworker | hworker
    · exact h.workers worker hworker
    · rw [List.mem_singleton.mp hworker]
      trivial
  handled event hevent :=
    (h.handled event hevent).mono (settingsOf_append _ _) (List.Subset.refl _) []
  messages := h.messages
  blocks := h.blocks
  rows name hname row hrow :=
    (h.rows name hname row hrow).mono (settingsOf_append _ _) (List.Subset.refl _)

theorem sound_retrieve {before after : List Worker} {consumer : Consumer}
    (h : Sound node ⟨producers, topic, before ++ .idle consumer :: after, handled, db⟩)
    {event : String} (hevent : event ∈ topic) :
    Sound node ⟨producers, topic, before ++ .handling (.start consumer event) :: after, handled,
      db⟩ := by
  have hworker : WorkerSound node topic db (.handling (.start consumer event)) :=
    ⟨hevent, by simp [Handling.start], by simp [Handling.start]⟩
  have hsettings : (Worker.handling (.start consumer event)).consumer.settings =
      (Worker.idle consumer).consumer.settings := rfl
  exact @sound_worker _ _ _ _ _ _ _ _ _ _ h [] _ hsettings hworker h.handled rfl
    fun name row hrow hnew => absurd hrow hnew

section Consume

variable {handling : Handling}
  {answers : (op : ConsumerCall) → Except PyError op.Answer}
  {event : Program.Event consumerSignature PyError}

theorem Handling.events_resume (hnext : handling.process.nextEvent answers = some event) :
    (handling.resume answers).process.events = handling.process.events ++ [event] := by
  rw [Handling.resume, Process.events_resume, hnext, Option.toList_some]

/-- What was attempted before the next call is held, and the call goes on with
the statements of the event. -/
theorem attempted_of_nextEvent (h : HandlingSound node topic db handling)
    (hnext : handling.process.nextEvent answers = some event)
    (htruthful : Truthful node.answer event) :
    (∀ statement ∈ attempted handling.process.events, db.Holds statement) ∧
      attempted handling.process.events ++ callStatements event.op <+:
        handling.statements node := by
  have hruns : Runs (onKafkaEvent handling.consumer.setOrder handling.consumer.state
      handling.event) (handling.process.events ++ [event]) .running :=
    handling.started ▸ Process.runs_nextEvent hnext
  constructor
  · intro statement hstatement
    obtain ⟨earlier, hearlier, hmem⟩ := List.mem_flatMap.mp hstatement
    have hok := (stopsAtError_onKafkaEvent _ _ _).answered_ok hruns earlier hearlier
    exact h.saved earlier hearlier statement (saved_of_ok hok ▸ hmem)
  · have hfirst := attempted_isPrefix handling.consumer.consistent hruns
      (List.forall_mem_append.mpr ⟨h.truthful, List.forall_mem_singleton.mpr htruthful⟩)
    rw [attempted_append] at hfirst
    exact List.flatMap_singleton (fun event : Program.Event consumerSignature PyError =>
      callStatements event.op) event ▸ hfirst

theorem sound_consume {before after : List Worker}
    (h : Sound node ⟨producers, topic, before ++ .handling handling :: after, handled, db⟩)
    (hnext : handling.process.nextEvent answers = some event)
    (htruthful : Truthful node.answer event) (landed : Bool) :
    Sound node ⟨producers, topic, before ++ .handling (handling.resume answers) :: after, handled,
      db.executeAll (saved landed event)⟩ := by
  have hsound : HandlingSound node topic db handling := h.workers (.handling handling) (by simp)
  obtain ⟨hheld, hfirst⟩ := attempted_of_nextEvent hsound hnext htruthful
  have hsaved : saved landed event = callStatements event.op ∨ saved landed event = [] := by
    rw [saved]
    split
    · exact .inl rfl
    · exact .inr rfl
  have hwhole : attempted handling.process.events ++ saved landed event <+:
      handling.statements node := by
    rcases hsaved with heq | heq
    · rwa [heq]
    · rw [heq, List.append_nil]
      exact (List.prefix_append _ _).trans hfirst
  have hsettings : (Worker.handling (handling.resume answers)).consumer.settings =
      (Worker.handling handling).consumer.settings := rfl
  apply sound_worker h hsettings
  · refine ⟨hsound.retrieved, ?_, ?_⟩
    · rw [Handling.events_resume hnext]
      exact List.forall_mem_append.mpr
        ⟨hsound.truthful, List.forall_mem_singleton.mpr htruthful⟩
    · rw [Handling.events_resume hnext]
      refine List.forall_mem_append.mpr ⟨?_, List.forall_mem_singleton.mpr ?_⟩
      · exact fun earlier hearlier statement hstatement =>
          (hsound.saved earlier hearlier statement hstatement).executeAll _
      · exact fun statement hstatement =>
          Database.holds_executeAll (saved_subset landed event hstatement)
  · exact fun done hdone => (h.handled done hdone).mono Set.Subset.rfl (List.Subset.refl _) _
  · refine List.eq_nil_iff_forall_not_mem.mpr fun row hrow => ?_
    have hmem : .insert .block row ∈ handling.statements node :=
      hwhole.subset (List.mem_append_right _ (mem_rowsOf_iff.mp hrow))
    have hnone : row ∈ rowsOf .block (handling.statements node) := mem_rowsOf_iff.mpr hmem
    rw [Handling.statements, rowsOf_kafkaEventStatements_block] at hnone
    cases hnone
  · intro name row hrow hnew
    rw [Database.table_executeAll] at hrow
    have hheldRows : ∀ other ∈ rowsOf name (attempted handling.process.events),
        (db.table name).Holds other := fun other hother => hheld _ (mem_rowsOf_iff.mp hother)
    obtain ⟨hmem, hfirst⟩ := Table.firstWith_append_of_mem_insertAll hheldRows hnew hrow
    refine ⟨handling.event, hsound.retrieved, handling.consumer.settings,
      ⟨_, List.mem_append_right before List.mem_cons_self, rfl⟩, handling.consumer.setOrder, ?_,
      fun k hk => ?_⟩
    · exact mem_rowsOf_iff.mpr
        (hwhole.subset (List.mem_append_right _ (mem_rowsOf_iff.mp hmem)))
    · have hrows := hwhole.filterMap fun statement =>
        if h : statement.table = name then some (h ▸ statement.row) else none
      have hfound := hfirst k hk
      rw [← rowsOf_append] at hfound
      exact List.IsPrefix.find?_eq_some hrows hfound

/-- A callback that has returned was answered throughout. -/
theorem handledSound_of_finish (h : HandlingSound node topic db handling) {state : DataConsumer}
    (hdone : handling.process.rest = .done state) :
    HandledSound node {handling.consumer.settings} topic db handling.event := by
  have hruns : Runs (onKafkaEvent handling.consumer.setOrder handling.consumer.state
      handling.event) handling.process.events (.returned state) :=
    handling.started ▸ handling.process.runs_returned hdone
  obtain ⟨hattempted, hok, _⟩ :=
    attempted_of_returned handling.consumer.consistent hruns h.truthful
  refine ⟨h.retrieved, ?_, handling.consumer.settings, rfl, handling.consumer.setOrder, ?_⟩
  · have hreturned := ((stopsAtError_onKafkaEvent _ _ _).of_returned hruns h.truthful).1
    obtain ⟨⟨mode, txHash⟩, hdecode, hrest⟩ := Program.outcome_bind_returned_iff.mp hreturned
    obtain ⟨tx, htx, hrest⟩ := Program.outcome_bind_returned_iff.mp hrest
    obtain ⟨receipt, hreceipt, _⟩ := Program.outcome_bind_returned_iff.mp hrest
    exact ⟨mode, txHash, tx, receipt, Program.outcome_ofExcept_returned_iff.mp hdecode,
      Program.outcome_perform_returned_iff.mp htx, Program.outcome_perform_returned_iff.mp hreceipt⟩
  · intro statement hstatement
    rw [Consumer.settings, ← hattempted] at hstatement
    obtain ⟨event, hevent, hmem⟩ := List.mem_flatMap.mp hstatement
    exact h.saved event hevent statement (saved_of_ok (hok event hevent) ▸ hmem)

theorem sound_finish {before after : List Worker}
    (h : Sound node ⟨producers, topic, before ++ .handling handling :: after, handled, db⟩)
    (state : DataConsumer) (hdone : handling.process.rest = .done state) :
    Sound node ⟨producers, topic, before ++ .idle (handling.finish state hdone) :: after,
      handling.event :: handled, db⟩ := by
  have hsound : HandlingSound node topic db handling := h.workers (.handling handling) (by simp)
  have hworker : WorkerSound node topic db (.idle (handling.finish state hdone)) := trivial
  have hsettings : (Worker.idle (handling.finish state hdone)).consumer.settings =
      (Worker.handling handling).consumer.settings := (handling.kept hdone).1
  have hknown : {handling.consumer.settings} ⊆
      settingsOf (before ++ .handling handling :: after) :=
    Set.singleton_subset_iff.mpr ⟨_, List.mem_append_right _ List.mem_cons_self, rfl⟩
  have hhandled : HandledSound node (settingsOf (before ++ .handling handling :: after)) topic db
      handling.event := (handledSound_of_finish hsound hdone).mono hknown (List.Subset.refl _) []
  exact @sound_worker _ _ _ _ _ _ _ _ _ _ h [] _ hsettings hworker
    (List.forall_mem_cons.mpr ⟨hhandled, h.handled⟩) rfl
    fun name row hrow hnew => absurd hrow hnew

end Consume

theorem sound_step {system system' : System} (hstep : Step node system system')
    (h : Sound node system) : Sound node system' := by
  cases hstep with
  | startProducer fuel cfg => exact sound_startProducer h fuel cfg
  | produce before producer after answers event landed _ _ _ _ hnext hlists =>
      exact sound_produce h hnext hlists landed
  | startConsumer settings setOrder => exact sound_startConsumer h settings setOrder
  | retrieve before consumer after event _ _ _ _ hevent => exact sound_retrieve h hevent
  | consume before handling after answers event landed _ _ _ _ hnext htruthful =>
      exact sound_consume h hnext htruthful landed
  | finish before handling after state hdone => exact sound_finish h state hdone

/-- Run lemma: the invariant holds in every state that is reached. -/
theorem sound_of_reaches {system : System} (hreaches : Reaches node system) :
    Sound node system := by
  induction hreaches with
  | refl => exact sound_start
  | tail _ hstep ih => exact sound_step hstep ih

end Steps

end BlockchainDataCollection.Pipeline
