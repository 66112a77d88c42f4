import BlockchainDataCollection.System.ClusterProgress
import BlockchainDataCollection.System.Convergence

/-!
# What the consumer group guarantees

The cluster refines the pipeline, so a message whose callback has returned has all
that it writes in the tables.  Offsets are committed behind messages that were not
completed only where a consumer was interrupted, and only behind one for each.
-/

namespace BlockchainDataCollection.KafkaPipeline

open BlockchainDataCollection.Effect
open BlockchainDataCollection.Data
open BlockchainDataCollection.Parser
open BlockchainDataCollection.Storage
open BlockchainDataCollection.TxProcessor
open BlockchainDataCollection.Processing
open BlockchainDataCollection.Consuming
open BlockchainDataCollection.Confluence
open BlockchainDataCollection.Attempts (OrdersAgree)
open BlockchainDataCollection.Totality (Handleable)
open BlockchainDataCollection.KafkaConsumer
open BlockchainDataCollection.Sessions (place)
open BlockchainDataCollection.Membership
open BlockchainDataCollection.Pipeline
open BlockchainDataCollection.Convergence
open BlockchainDataCollection.KafkaCluster
open BlockchainDataCollection.ClusterProgress

section Guarantees

variable [ChecksumSpelling] {node : Node} {clean : Prop} {settings : ParserSettings}
  {cluster cluster' : Cluster} {system : System} {partition offset : ℕ} {message : String}

/-- The cluster refines the pipeline: every state it reaches stands for one that the
pipeline reaches, with the same producers, consumers and tables, and however the
cluster goes on from there, the pipeline follows. -/
theorem refines_pipeline (hreaches : KafkaCluster.Reaches node clean cluster) :
    ∃ system, Pipeline.Reaches node system ∧ Represents cluster system ∧
      ∀ cluster', ClusterProgress.Continues node clean cluster cluster' →
        ∃ system', Relation.ReflTransGen (Pipeline.Step node) system system' ∧
          Represents cluster' system' := by
  obtain ⟨system, hsystem, hrepresents⟩ := exists_represented hreaches
  exact ⟨system, hsystem, hrepresents, fun _ hrun =>
    exists_followed (consistent_of_reaches hreaches) hrepresents hrun⟩

/-! ## Completed messages -/

/-- Some consumer has completed the message at this place. -/
def CompletedAt (cluster : Cluster) (partition offset : ℕ) : Prop :=
  ∃ task ∈ cluster.tasks, ∃ event ∈ task.1.state.completed, place event = (partition, offset)

/-- All that the message writes is in the tables, for the settings of some consumer. -/
def Stored (node : Node) (cluster : Cluster) (message : String) : Prop :=
  ∃ settings ∈ settingsOf (cluster.tasks.map Prod.snd), ∃ setOrder,
    ∀ statement ∈ kafkaEventStatements node settings setOrder message, cluster.db.Holds statement

/-- The number of consumers that are in the middle of a message or have failed. -/
def interruptions (cluster : Cluster) : ℕ :=
  cluster.tasks.countP fun task => interrupted task.1.state

theorem handled_of_completedAt (hconsistent : Consistent clean cluster)
    (hrepresents : Represents cluster system) (h : CompletedAt cluster partition offset)
    (hmessage : (cluster.log partition)[offset]? = some message) : message ∈ system.handled := by
  obtain ⟨task, htask, event, hevent, hplace⟩ := h
  have hmember := members_of_reaches hconsistent.group task.1 (List.mem_map_of_mem htask)
  have hvalue : (cluster.log event.partition)[event.offset]? = some event.value :=
    hmember.inTopic_of_completed hevent
  obtain ⟨rfl, rfl⟩ := Prod.mk.inj hplace
  obtain rfl := Option.some.inj (hmessage.symm.trans hvalue)
  exact hrepresents.completed task htask event hevent

theorem stored_of_completedAt (hreaches : KafkaCluster.Reaches node clean cluster)
    (h : CompletedAt cluster partition offset)
    (hmessage : (cluster.log partition)[offset]? = some message) : Stored node cluster message := by
  obtain ⟨system, hsystem, hrepresents⟩ := exists_represented hreaches
  have hhandled := handled_of_completedAt (consistent_of_reaches hreaches) hrepresents h hmessage
  have hheld := ((sound_of_reaches hsystem).handled message hhandled).held
  rwa [hrepresents.workers, hrepresents.db] at hheld

/-- Where no consumer was interrupted, nothing is lost. -/
theorem lost_eq_nil {lost : List KafkaEvent} (hlength : lost.length ≤ interruptions cluster)
    (hwhole : ∀ task ∈ cluster.tasks, interrupted task.1.state = false) : lost = [] := by
  have hnone : interruptions cluster = 0 :=
    List.countP_eq_zero.mpr fun task htask => by simp [hwhole task htask]
  exact List.length_eq_zero_iff.mp (Nat.le_zero.mp (hnone ▸ hlength))

/-- What is committed was completed, apart from a message for each interruption. -/
theorem exists_lost (hreaches : KafkaCluster.Reaches node clean cluster) :
    ∃ lost : List KafkaEvent, lost.length ≤ interruptions cluster ∧
      ∀ partition offset, offset < cluster.committed partition →
        CompletedAt cluster partition offset ∨
          ∃ event ∈ lost, place event = (partition, offset) := by
  obtain ⟨lost, hlength, hlost⟩ :=
    lost_at_most_one_a_member (consistent_of_reaches hreaches).group
  refine ⟨lost, ?_, fun partition offset hoffset => ?_⟩
  · rwa [Cluster.group, List.countP_map] at hlength
  · refine (hlost partition offset hoffset).imp_left ?_
    rintro ⟨member, hmember, hcompleted⟩
    obtain ⟨task, htask, rfl⟩ := List.mem_map.mp hmember
    exact ⟨task, htask, hcompleted⟩

/-- Whatever fails, and whenever consumers stop and the partitions move between them,
the tables hold all that the committed messages write, apart from at most one message
for each consumer that is in the middle of a message or has failed. -/
theorem committed_stored_but_lost (hreaches : KafkaCluster.Reaches node clean cluster) :
    ∃ lost : List KafkaEvent, lost.length ≤ interruptions cluster ∧
      ∀ partition offset message, offset < cluster.committed partition →
        (cluster.log partition)[offset]? = some message →
          Stored node cluster message ∨ ∃ event ∈ lost, place event = (partition, offset) := by
  obtain ⟨lost, hlength, hlost⟩ := exists_lost hreaches
  refine ⟨lost, hlength, fun partition offset message hoffset hmessage => ?_⟩
  exact (hlost partition offset hoffset).imp_left fun hcompleted =>
    stored_of_completedAt hreaches hcompleted hmessage

/-- With clean handovers no message is completed twice, and what is committed was
completed once, apart from a message for each interruption. -/
theorem completed_exactly_once (hreaches : KafkaCluster.Reaches node True cluster) :
    ((cluster.tasks.flatMap fun task => task.1.state.completed).map place).Nodup ∧
      ∃ lost : List KafkaEvent, lost.length ≤ interruptions cluster ∧
        ∀ partition offset, offset < cluster.committed partition →
          CompletedAt cluster partition offset ∨
            ∃ event ∈ lost, place event = (partition, offset) := by
  have honce := completed_once (consistent_of_reaches hreaches).group
  rw [Cluster.group, List.flatMap_map] at honce
  exact ⟨honce, exists_lost hreaches⟩

/-! ## Catching up -/

/-- The tables are those of a single consumer that reads all messages once, but for
copies of internal transactions. -/
def Converged (node : Node) (settings : ParserSettings) (cluster : Cluster) : Prop :=
  ∀ (setOrder : SetOrder) (topic : List String),
    (∀ message, message ∈ topic ↔ ∃ partition, message ∈ cluster.log partition) →
      (∀ name, name ≠ .block → name ≠ .internalTransaction → (cluster.db.table name).Same
        ((replayed node settings setOrder topic).table name)) ∧
      ∀ row, row ∈ (cluster.db.table .internalTransaction).rows ↔
        row ∈ ((replayed node settings setOrder topic).table .internalTransaction).rows

/-- All messages are committed, and no consumer is in the middle of one or has failed. -/
structure CaughtUp (cluster : Cluster) : Prop where
  committed : ∀ partition, (cluster.log partition).length ≤ cluster.committed partition
  whole : ∀ task ∈ cluster.tasks, interrupted task.1.state = false

theorem CaughtUp.completedAt (h : CaughtUp cluster)
    (hreaches : KafkaCluster.Reaches node clean cluster)
    (hmessage : (cluster.log partition)[offset]? = some message) :
    CompletedAt cluster partition offset := by
  obtain ⟨hbefore, _⟩ := List.getElem?_eq_some_iff.mp hmessage
  obtain ⟨lost, hlength, hlost⟩ := exists_lost hreaches
  obtain rfl := lost_eq_nil hlength h.whole
  refine (hlost partition offset (hbefore.trans_le (h.committed partition))).resolve_right ?_
  rintro ⟨_, hevent, _⟩
  cases hevent

theorem CaughtUp.allHandled (h : CaughtUp cluster)
    (hreaches : KafkaCluster.Reaches node clean cluster) (hrepresents : Represents cluster system) :
    AllHandled system := by
  intro message hmessage
  obtain ⟨partition, hmem⟩ := (hrepresents.topic message).mp hmessage
  obtain ⟨offset, hoffset, hvalue⟩ := List.getElem_of_mem hmem
  have hlogged := List.getElem?_eq_some_iff.mpr ⟨hoffset, hvalue⟩
  exact handled_of_completedAt (consistent_of_reaches hreaches) hrepresents
    (h.completedAt hreaches hlogged) hlogged

theorem converged_of_allHandled (hnode : CoherentNode node) (horders : OrdersAgree node settings)
    (hsystem : Pipeline.Reaches node system) (hrepresents : Represents cluster system)
    (hsame : SameSettings (cluster.tasks.map Prod.snd) settings) (hall : AllHandled system) :
    Converged node settings cluster := by
  intro setOrder topic htopic
  rw [← hrepresents.workers] at hsame
  rw [← hrepresents.db]
  exact tables_converged_of_handled hnode horders hsystem hsame setOrder hall
    fun message => (htopic message).trans (hrepresents.topic message).symm

/-- The group has gone through all that it had left, and nothing else has changed. -/
structure Recovered (node : Node) (cluster cluster' : Cluster) : Prop where
  log : cluster'.log = cluster.log
  producers : cluster'.producers = cluster.producers
  blocks : cluster'.db.table .block = cluster.db.table .block
  committed : ∀ partition, cluster'.committed partition = (cluster.log partition).length
  /-- All that the messages write is stored, apart from a message that was committed
  already for each interruption. -/
  stored : ∃ lost : List KafkaEvent, lost.length ≤ interruptions cluster ∧
    ∀ partition offset message, (cluster.log partition)[offset]? = some message →
      Stored node cluster' message ∨
        offset < cluster.committed partition ∧ ∃ event ∈ lost, place event = (partition, offset)

end Guarantees

/-! ## A chain with one transaction -/

section Deployment

open Relevance.Deployment Progress Integrity

theorem exists_place_of_mint {cluster : Cluster} (hmint : OnlyMint cluster) :
    ∃ partition offset : ℕ, (cluster.log partition)[offset]? = some "partial:0x01" := by
  obtain ⟨partition, hmem⟩ := (hmint "partial:0x01").mpr rfl
  obtain ⟨offset, hoffset⟩ := List.getElem?_of_mem hmem
  exact ⟨partition, offset, hoffset⟩

theorem handleable_of_onlyMint {cluster : Cluster} (hmint : OnlyMint cluster) {partition offset : ℕ}
    {message : String} (hmessage : (cluster.log partition)[offset]? = some message) :
    Handleable mintNode parser.settings setOrder message := by
  obtain rfl := (hmint message).mp ⟨partition, List.mem_of_getElem? hmessage⟩
  exact handleable_mint

theorem refines_pipeline_of_mint : ∃ cluster system,
    KafkaCluster.Reaches mintNode False cluster ∧ Pipeline.Reaches mintNode system ∧
      Represents cluster system ∧ "partial:0x01" ∈ system.topic := by
  obtain ⟨cluster, hreaches, hmint, _⟩ := @reaches_mintCluster False
  obtain ⟨system, hsystem, hrepresents, _⟩ := refines_pipeline hreaches
  exact ⟨cluster, system, hreaches, hsystem, hrepresents,
    (hrepresents.topic _).mpr ((hmint _).mpr rfl)⟩

theorem committed_stored_of_mint : ∃ cluster, KafkaCluster.Reaches mintNode False cluster ∧
    Stored mintNode cluster "partial:0x01" := by
  obtain ⟨cluster, hreaches, hmint, hcommitted, hwhole, _⟩ := @reaches_mintCluster False
  obtain ⟨lost, hlength, hstored⟩ := committed_stored_but_lost hreaches
  obtain rfl := lost_eq_nil hlength hwhole
  obtain ⟨partition, offset, hmessage⟩ := exists_place_of_mint hmint
  obtain ⟨hbefore, _⟩ := List.getElem?_eq_some_iff.mp hmessage
  have hoffset : offset < cluster.committed partition := (hcommitted partition).symm ▸ hbefore
  refine ⟨cluster, hreaches, (hstored partition offset _ hoffset hmessage).resolve_right ?_⟩
  rintro ⟨_, hevent, _⟩
  cases hevent

theorem completed_exactly_once_of_mint : ∃ cluster,
    KafkaCluster.Reaches mintNode True cluster ∧
    ((cluster.tasks.flatMap fun task => task.1.state.completed).map place).Nodup ∧
    ∃ partition offset, offset < cluster.committed partition ∧
      CompletedAt cluster partition offset := by
  obtain ⟨cluster, hreaches, hmint, hcommitted, hwhole, _⟩ := @reaches_mintCluster True
  obtain ⟨honce, lost, hlength, hlost⟩ := completed_exactly_once hreaches
  obtain rfl := lost_eq_nil hlength hwhole
  obtain ⟨partition, offset, hmessage⟩ := exists_place_of_mint hmint
  obtain ⟨hbefore, _⟩ := List.getElem?_eq_some_iff.mp hmessage
  have hoffset : offset < cluster.committed partition := (hcommitted partition).symm ▸ hbefore
  refine ⟨cluster, hreaches, honce, partition, offset, hoffset,
    (hlost partition offset hoffset).resolve_right ?_⟩
  rintro ⟨_, hevent, _⟩
  cases hevent

end Deployment

end BlockchainDataCollection.KafkaPipeline
