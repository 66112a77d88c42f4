import BlockchainDataCollection.Effect.Machine
import BlockchainDataCollection.Model.Python

/-!
# The Kafka consumer manager

`KafkaConsumerManager.start_consuming` runs two tasks, one that listens on the
topic and one that watches for idleness, and waits for the first of them to
raise.  The tasks hand over through two asyncio events.  An action is what one
task does between two suspension points, so that every order of actions is a
schedule.
-/

namespace BlockchainDataCollection.KafkaConsumer

open BlockchainDataCollection.Effect
open BlockchainDataCollection.Python

/-- A message of a partition. -/
structure KafkaEvent where
  partition : ℕ
  offset : ℕ
  value : String
  deriving DecidableEq

/-- Where `_start_listening_on_topic_task` is suspended, or how it ended. -/
inductive ListeningTask where
  | retrieving
  | decrementing (event : KafkaEvent)
  | handling (event : KafkaEvent)
  | stopped
  | raised (error : PyError)
  deriving DecidableEq

/-- The message whose handling is in progress. -/
def ListeningTask.current : ListeningTask → Option KafkaEvent
  | .decrementing event => some event
  | .handling event => some event
  | _ => none

/-- Where `_event_timeout_task` is suspended, or that it raised. -/
inductive TimeoutTask where
  | waitingForEvent
  | waitingForConsumed
  | raised
  deriving DecidableEq

/-- Where `start_consuming_data` is suspended, or what it returned. -/
inductive CollectorTask where
  | gathering
  | disconnecting (error : PyError)
  | returned (exitCode : ℕ)
  deriving DecidableEq

structure ConsumerState where
  kafkaTimeoutEvent : Bool
  kafkaConsumingEvent : Bool
  listening : ListeningTask
  timeout : TimeoutTask
  collector : CollectorTask
  /-- The first error of the two tasks, which `asyncio.gather` passes on. -/
  gathered : Option PyError
  /-- The position after the last message that was retrieved, by partition. -/
  position : ℕ → ℕ
  /-- The committed offset of the consumer group, by partition. -/
  committed : ℕ → ℕ
  /-- Whether the client was stopped. -/
  closed : Bool
  /-- The messages whose callback returned. -/
  completed : List KafkaEvent
  /-- The messages whose callback raised. -/
  failed : List KafkaEvent

/-- A consumer starts at the committed offsets of its group. -/
def initial (committed : ℕ → ℕ) : ConsumerState where
  kafkaTimeoutEvent := false
  kafkaConsumingEvent := false
  listening := .retrieving
  timeout := .waitingForEvent
  collector := .gathering
  gathered := none
  position := committed
  committed
  closed := false
  completed := []
  failed := []

inductive ConsumerAction where
  /-- The client yields the next message of a partition. -/
  | retrieve (event : KafkaEvent)
  | retrieveFails (error : PyError)
  /-- A stopped client ends the iteration. -/
  | stopIteration
  /-- `decr_transactions` answers. -/
  | decrement (event : KafkaEvent) (answer : Except PyError Unit)
  /-- The callback returns or raises. -/
  | callback (event : KafkaEvent) (answer : Except PyError Unit)
  /-- The timeout task wakes up from waiting for one of the asyncio events. -/
  | seeEvent
  | seeConsumed
  /-- The event retrieval timeout expires. -/
  | expire
  /-- The client commits its positions from time to time. -/
  | autoCommit
  /-- The error of a task reaches `start_consuming`. -/
  | propagate (error : PyError)
  /-- `stop` commits the positions, and `start_consuming_data` returns. -/
  | disconnect (error : PyError)

/-- 0 when no exceptions were encountered, 1 otherwise. -/
def exitCode : PyError → ℕ
  | .kafkaConsumerPartitionsEmptyError => 0
  | _ => 1

namespace ConsumerState

def gather (state : ConsumerState) (error : PyError) : Option PyError :=
  state.gathered.or (some error)

/-- The listening task raises. -/
def listeningRaises (state : ConsumerState) (error : PyError) : ConsumerState :=
  { state with listening := .raised error, gathered := state.gather error }

end ConsumerState

/-- `topic` holds the messages of each partition. -/
def Enabled (topic : ℕ → List String) (state : ConsumerState) : ConsumerAction → Prop
  | .retrieve event => state.listening = .retrieving ∧ state.closed = false ∧
      event.offset = state.position event.partition ∧
      (topic event.partition)[event.offset]? = some event.value
  | .retrieveFails _ => state.listening = .retrieving ∧ state.closed = false
  | .stopIteration => state.listening = .retrieving ∧ state.closed = true
  | .decrement event _ => state.listening = .decrementing event
  | .callback event _ => state.listening = .handling event
  | .seeEvent => state.timeout = .waitingForEvent ∧ state.kafkaTimeoutEvent = true
  | .seeConsumed => state.timeout = .waitingForConsumed ∧ state.kafkaConsumingEvent = true
  | .expire => state.timeout = .waitingForEvent
  | .autoCommit => state.closed = false
  | .propagate error => state.collector = .gathering ∧ state.gathered = some error
  | .disconnect error => state.collector = .disconnecting error

def effect (state : ConsumerState) : ConsumerAction → ConsumerState
  | .retrieve event => { state with
      kafkaTimeoutEvent := true
      listening := .decrementing event
      position := Function.update state.position event.partition (event.offset + 1) }
  | .retrieveFails error => state.listeningRaises error
  | .stopIteration => { state with listening := .stopped }
  | .decrement event (.ok _) => { state with listening := .handling event }
  | .decrement _ (.error error) => state.listeningRaises error
  | .callback event (.ok _) => { state with
      kafkaConsumingEvent := true
      listening := .retrieving
      completed := event :: state.completed }
  | .callback event (.error error) =>
      { state.listeningRaises error with failed := event :: state.failed }
  | .seeEvent => { state with kafkaTimeoutEvent := false, timeout := .waitingForConsumed }
  | .seeConsumed => { state with kafkaConsumingEvent := false, timeout := .waitingForEvent }
  | .expire => { state with
      timeout := .raised
      gathered := state.gather .kafkaConsumerPartitionsEmptyError }
  | .autoCommit => { state with committed := state.position }
  | .propagate error => { state with collector := .disconnecting error }
  | .disconnect error => { state with
      committed := state.position
      closed := true
      collector := .returned (exitCode error) }

def consumer (topic : ℕ → List String) : Machine ConsumerState ConsumerAction where
  Enabled := Enabled topic
  effect := effect
  decidableEnabled
    | _, .retrieve _ => inferInstanceAs (Decidable (_ ∧ _ ∧ _ ∧ _))
    | _, .retrieveFails _ => inferInstanceAs (Decidable (_ ∧ _))
    | _, .stopIteration => inferInstanceAs (Decidable (_ ∧ _))
    | _, .decrement _ _ => inferInstanceAs (Decidable (_ = _))
    | _, .callback _ _ => inferInstanceAs (Decidable (_ = _))
    | _, .seeEvent => inferInstanceAs (Decidable (_ ∧ _))
    | _, .seeConsumed => inferInstanceAs (Decidable (_ ∧ _))
    | _, .expire => inferInstanceAs (Decidable (_ = _))
    | _, .autoCommit => inferInstanceAs (Decidable (_ = _))
    | _, .propagate _ => inferInstanceAs (Decidable (_ ∧ _))
    | _, .disconnect _ => inferInstanceAs (Decidable (_ = _))

end BlockchainDataCollection.KafkaConsumer
