import BlockchainDataCollection.Effect.Tasks
import BlockchainDataCollection.Store.SortedSet
import BlockchainDataCollection.Producer.KafkaProducer
import BlockchainDataCollection.Consumer.KafkaConsumer

/-!
# Producers and consumers of one topic

The Redis counters, the topic and the consumers that surround the producer
tasks, when no call fails.  A message is delivered to one consumer, once; the
consumer decrements the counter of its partition and then handles it.
-/

namespace BlockchainDataCollection.Sharing

open BlockchainDataCollection.Effect
open BlockchainDataCollection.Python
open BlockchainDataCollection.Storage
open BlockchainDataCollection.KafkaProducer
open BlockchainDataCollection.KafkaConsumer

structure Cluster where
  /-- The number of messages of each partition, as counted. -/
  redis : SortedSet ℤ
  /-- `_i_partition` of each producer manager. -/
  iPartition : ℕ → ℤ
  /-- The messages that were appended to the topic. -/
  topic : List KafkaEvent
  /-- The messages that some consumer has retrieved. -/
  taken : List KafkaEvent
  listeners : List ListeningTask

/-- An empty topic and empty counters, with some idle consumers. -/
def Cluster.start (consumers : ℕ) : Cluster where
  redis := .empty
  iPartition _ := 0
  topic := []
  taken := []
  listeners := List.replicate consumers .retrieving

/-! ## The answers of Redis and Kafka -/

/-- The offsets of a partition count its messages. -/
def records (topic : List KafkaEvent) (partition : ℕ) (messages : List String) :
    List KafkaEvent :=
  (messages.zipIdx (topic.countP fun event => event.partition = partition)).map
    fun (value, offset) => { partition, offset, value }

def Cluster.append (cluster : Cluster) (partition : ℤ) (messages : List String) : Cluster :=
  { cluster with topic := cluster.topic ++ records cluster.topic partition.toNat messages }

/-- What a call answers when it does not fail: only a batch without messages
may come back without a record. -/
def Serves (managerOf : ℕ → ℕ) (cluster : Cluster) (task : ℕ) : ProducerEvent → Prop
  | ⟨_, .error _⟩ => False
  | ⟨.getNTransactions, .ok nTxs⟩ => nTxs = cluster.redis.total
  | ⟨.getLowestScorePartition, .ok none⟩ => cluster.redis.members = ∅
  | ⟨.getLowestScorePartition, .ok (some partition)⟩ => cluster.redis.IsLowest partition
  | ⟨.getIPartition, .ok partition⟩ => partition = cluster.iPartition (managerOf task)
  | ⟨.sendBatch _ _, .ok (some record)⟩ => 0 ≤ record.partition
  | ⟨.sendBatch messages _, .ok none⟩ => messages = []
  | ⟨.send _, .ok (some record)⟩ => 0 ≤ record.partition
  | ⟨.send _, .ok none⟩ => False
  | ⟨_, .ok _⟩ => True

instance (managerOf : ℕ → ℕ) (cluster : Cluster) (task : ℕ) (event : ProducerEvent) :
    Decidable (Serves managerOf cluster task event) :=
  match event with
  | ⟨op, .error _⟩ => by cases op <;> exact instDecidableFalse
  | ⟨.getNTransactions, .ok _⟩ => inferInstanceAs (Decidable (_ = _))
  | ⟨.getLowestScorePartition, .ok none⟩ => inferInstanceAs (Decidable (_ = _))
  | ⟨.getLowestScorePartition, .ok (some _)⟩ => inferInstanceAs (Decidable (SortedSet.IsLowest _ _))
  | ⟨.getIPartition, .ok _⟩ => inferInstanceAs (Decidable (_ = _))
  | ⟨.sendBatch _ _, .ok (some _)⟩ => inferInstanceAs (Decidable (_ ≤ _))
  | ⟨.sendBatch _ _, .ok none⟩ => inferInstanceAs (Decidable (_ = _))
  | ⟨.send _, .ok (some _)⟩ => inferInstanceAs (Decidable (_ ≤ _))
  | ⟨.send _, .ok none⟩ => instDecidableFalse
  | ⟨.getBlock, .ok _⟩ => instDecidableTrue
  | ⟨.execute _, .ok _⟩ => instDecidableTrue
  | ⟨.getBlockData _, .ok _⟩ => instDecidableTrue
  | ⟨.traceBlock _, .ok _⟩ => instDecidableTrue
  | ⟨.getLogs _, .ok _⟩ => instDecidableTrue
  | ⟨.incrbyNTransactions _ _, .ok _⟩ => instDecidableTrue
  | ⟨.partitionsFor, .ok _⟩ => instDecidableTrue
  | ⟨.append _, .ok _⟩ => instDecidableTrue
  | ⟨.setIPartition _, .ok _⟩ => instDecidableTrue
  | ⟨.sleep _, .ok _⟩ => instDecidableTrue
  | ⟨.estimateRemaining _ _, .ok _⟩ => instDecidableTrue
  | ⟨.setProcessedBlock _, .ok _⟩ => instDecidableTrue

def serve (managerOf : ℕ → ℕ) (cluster : Cluster) (task : ℕ) : ProducerEvent → Cluster
  | ⟨.incrbyNTransactions partition incrBy, .ok _⟩ =>
      { cluster with redis := cluster.redis.incrBy partition incrBy }
  | ⟨.sendBatch messages _, .ok (some record)⟩ => cluster.append record.partition messages
  | ⟨.send message, .ok (some record)⟩ => cluster.append record.partition [message]
  | ⟨.setIPartition partition, .ok _⟩ =>
      { cluster with
        iPartition := Function.update cluster.iPartition (managerOf task) partition }
  | _ => cluster

theorem iPartition_serve (managerOf : ℕ → ℕ) (cluster : Cluster) (task : ℕ) (partition : ℤ) :
    (serve managerOf cluster task ⟨.setIPartition partition, .ok ()⟩).iPartition
      (managerOf task) = partition := by
  simp [serve]

/-- Reads and assignments of attributes, and what aiokafka does at once. -/
def synchronous : ProducerCall → Bool
  | .append _ => true
  | .getIPartition => true
  | .setIPartition _ => true
  | .estimateRemaining _ _ => true
  | .setProcessedBlock _ => true
  | _ => false

/-! ## The consumers -/

/-- The steps of `_start_listening_on_topic_task`, by the number of a consumer. -/
inductive ConsumerStep where
  | retrieve (listener : ℕ) (event : KafkaEvent)
  | decrement (listener : ℕ) (event : KafkaEvent)
  | callback (listener : ℕ) (event : KafkaEvent)

def Acts (cluster : Cluster) : ConsumerStep → Prop
  | .retrieve listener event => cluster.listeners[listener]? = some .retrieving ∧
      event ∈ cluster.topic ∧ event ∉ cluster.taken
  | .decrement listener event => cluster.listeners[listener]? = some (.decrementing event)
  | .callback listener event => cluster.listeners[listener]? = some (.handling event)

def act (cluster : Cluster) : ConsumerStep → Cluster
  | .retrieve listener event => { cluster with
      taken := event :: cluster.taken
      listeners := cluster.listeners.set listener (.decrementing event) }
  | .decrement listener event => { cluster with
      redis := cluster.redis.incrBy event.partition (-1)
      listeners := cluster.listeners.set listener (.handling event) }
  | .callback listener _ => { cluster with
      listeners := cluster.listeners.set listener .retrieving }

/-- The surroundings of tasks on some producer managers, with further
assumptions about the answers. -/
def surroundings (managerOf : ℕ → ℕ) (Allowed : ProducerEvent → Prop)
    [∀ event, Decidable (Allowed event)] :
    Surroundings producerSignature PyError Cluster ConsumerStep where
  Serves cluster task event := Serves managerOf cluster task event ∧ Allowed event
  serve := serve managerOf
  synchronous := synchronous
  Acts := Acts
  act := act
  decidableServes _ _ _ := inferInstance
  decidableActs
    | _, .retrieve _ _ => inferInstanceAs (Decidable (_ ∧ _ ∧ _))
    | _, .decrement _ _ => inferInstanceAs (Decidable (_ = _))
    | _, .callback _ _ => inferInstanceAs (Decidable (_ = _))

end BlockchainDataCollection.Sharing
