import BlockchainDataCollection.Producer.Coverage
import BlockchainDataCollection.Producer.Forwarding
import BlockchainDataCollection.System.ClusterProgress
import BlockchainDataCollection.System.Ingestion

/-!
# A range can always be ingested

From every state that the cluster reaches, whatever has failed so far, a producer
that starts now can cover its range of blocks, and a consumer that joins then can go
through all that is not committed.  The tables have all that the mode selects then.
-/

namespace BlockchainDataCollection.Liveness

open BlockchainDataCollection.Effect
open BlockchainDataCollection.Python
open BlockchainDataCollection.Data
open BlockchainDataCollection.Parser
open BlockchainDataCollection.Storage
open BlockchainDataCollection.TxProcessor
open BlockchainDataCollection.Processing
open BlockchainDataCollection.Confluence (CoherentNode)
open BlockchainDataCollection.Relevance (DistinctIndices)
open BlockchainDataCollection.Totality
open BlockchainDataCollection.KafkaProducer
open BlockchainDataCollection.DataProducer
open BlockchainDataCollection.Messages
open BlockchainDataCollection.Forwarding
open BlockchainDataCollection.Producing
open BlockchainDataCollection.Connection (storesBlocks)
open BlockchainDataCollection.Selection (Ingested)
open BlockchainDataCollection.Membership (committed_le_length)
open BlockchainDataCollection.Pipeline
open BlockchainDataCollection.Progress (ChainOf getBlockData_of_runIn lists_of_runIn)
open BlockchainDataCollection.Integrity
open BlockchainDataCollection.Ingestion
open BlockchainDataCollection.KafkaCluster
open BlockchainDataCollection.ClusterProgress

/-! ## What a run over a range produces -/

section Range

variable {chain : Chain} {cfg : DataCollectionConfig} {overflow : Overflow} {withReward : Bool}
  {startBlock : ℤ}

/-- The reward and the progress line of every block from `first` on can be had. -/
structure Passable (chain : Chain) (cfg : DataCollectionConfig) (overflow : Overflow)
    (withReward : Bool) (startBlock first : ℤ) : Prop where
  reward : ∀ number, first ≤ number → number ≤ lastProduced chain cfg →
    ∃ reward, rewardOf chain withReward number = .ok reward
  progress : ∀ number, first ≤ number → number ≤ lastProduced chain cfg →
    progressOf cfg overflow startBlock number = .ok ()

/-- The transcript has the row and the messages of every block of the range. -/
theorem mem_transcript {count : ℕ} {first : ℤ}
    (hcount : (lastProduced chain cfg + 1 - first).toNat = count)
    (hpassable : Passable chain cfg overflow withReward startBlock first) {number : ℤ}
    (hfirst : first ≤ number) (hlast : number ≤ lastProduced chain cfg) :
    ∃ reward, blockOutput chain cfg number reward ⊆
      (transcript chain cfg overflow withReward startBlock count first).1 := by
  induction count generalizing first with
  | zero => omega
  | succ count ih =>
      obtain ⟨reward, hreward⟩ := hpassable.reward first le_rfl (hfirst.trans hlast)
      have hprogress := hpassable.progress first le_rfl (hfirst.trans hlast)
      rw [transcript_of_ok hreward hprogress]
      rcases hfirst.eq_or_lt with rfl | hlt
      · exact ⟨reward, List.subset_append_left _ _⟩
      · have hlater : Passable chain cfg overflow withReward startBlock (first + 1) :=
          ⟨fun i hi => hpassable.reward i (by omega), fun i hi => hpassable.progress i (by omega)⟩
        obtain ⟨reward', hsubset⟩ := ih (by omega) hlater hlt
        exact ⟨reward', List.Subset.trans hsubset (List.subset_append_right _ _)⟩

theorem exists_event_of_written {events : List ProducerEvent} {statement : Statement}
    (h : .written statement ∈ events.flatMap observe) :
    (⟨.execute statement, .ok ()⟩ : ProducerEvent) ∈ events := by
  obtain ⟨event, hevent, hobserved⟩ := List.mem_flatMap.mp h
  obtain ⟨op, answer⟩ := event
  cases op with
  | execute other =>
      cases answer with
      | ok _ =>
          obtain rfl := Produced.written.inj (List.mem_singleton.mp hobserved)
          exact hevent
      | error error => cases hobserved
  | sendBatch messages partition =>
      cases answer with
      | ok record => simp [observe] at hobserved
      | error error => cases hobserved
  | _ => cases answer <;> cases hobserved

theorem exists_event_of_message {events : List ProducerEvent} {message : String}
    (h : .message message ∈ events.flatMap observe) :
    ∃ event ∈ events, message ∈ sent false event := by
  obtain ⟨event, hevent, hobserved⟩ := List.mem_flatMap.mp h
  refine ⟨event, hevent, ?_⟩
  obtain ⟨op, answer⟩ := event
  cases op with
  | sendBatch messages partition =>
      cases answer with
      | ok record =>
          obtain ⟨other, hother, hsame⟩ := List.mem_map.mp hobserved
          obtain rfl := Produced.message.inj hsame
          exact hother
      | error error => cases hobserved
  | execute statement =>
      cases answer with
      | ok _ => simp [observe] at hobserved
      | error error => cases hobserved
  | _ => cases answer <;> cases hobserved

end Range

/-! ## What a task sends -/

section Tasks

variable {chain : Chain} {overflow : Overflow} {lastBlock : Option ℤ}
  {environment : ProducerEnvironment} {cfg : DataCollectionConfig} {first : ℤ}

/-- The transaction is one of a block of the range. -/
def Listed (chain : Chain) (cfg : DataCollectionConfig) (first : ℤ) (txHash : String) : Prop :=
  ∃ number, first ≤ number ∧ number ≤ lastProduced chain cfg ∧
    txHash ∈ (chain.block number).transactions

theorem startProducerTask_of_storesBlocks (hstores : storesBlocks cfg.mode) (fuel : ℕ) :
    startProducerTask fuel cfg = startProducer fuel cfg (cfg.mode = .full) := by
  unfold startProducerTask
  cases hmode : cfg.mode with
  | full => rfl
  | partialMode => rfl
  | logFilter => rw [hmode] at hstores; cases hstores
  | getLogs => rw [hmode] at hstores; cases hstores

/-- In a cooperative environment, a task that starts covers its whole range. -/
theorem exists_covering_run (hcooperative : Cooperative chain lastBlock overflow environment)
    (hstores : storesBlocks cfg.mode) (hstart : cfg.startBlock = some first)
    (hpassable : Passable chain cfg overflow (cfg.mode = .full) first first) :
    ∃ fuel outcome events,
      (startProducerTask fuel cfg).runIn environment [] = (outcome, [] ++ events) ∧
      ∀ number, first ≤ number → number ≤ lastProduced chain cfg →
        ∃ reward, blockOutput chain cfg number reward ⊆ events.flatMap observe := by
  have hfirst : firstBlock cfg lastBlock = first := by rw [firstBlock, hstart]; rfl
  obtain ⟨outcome, events, _, houtput, hruns⟩ := @yields_startProducer _ _ _ _ cfg
    (decide (cfg.mode = .full)) hcooperative (by simp [hstart]) _ rfl []
  obtain ⟨fuel, hrun⟩ := hruns.exists
  refine ⟨fuel, outcome, events, ?_, fun number hnumber hlast => ?_⟩
  · rw [startProducerTask_of_storesBlocks hstores]
    exact hrun
  · rw [houtput, hfirst]
    exact mem_transcript rfl hpassable hnumber hlast

/-- What a task sends in a cooperative environment are messages of its range. -/
theorem isMessage_of_runIn (hcooperative : Cooperative chain lastBlock overflow environment)
    (hstores : storesBlocks cfg.mode) (hstart : cfg.startBlock = some first) {fuel : ℕ}
    {events : List ProducerEvent} {outcome : Outcome PyError Unit}
    (hrun : (startProducerTask fuel cfg).runIn environment [] = (outcome, [] ++ events)) :
    ∀ message ∈ forwarded events, IsMessage cfg (Listed chain cfg first) message := by
  have hmode : cfg.mode ≠ .getLogs := fun hlogs => by rw [hlogs] at hstores; cases hstores
  obtain ⟨blocks, hwalk⟩ := walk_startProducerTask (Program.runs_of_runIn hrun) hmode
  intro message hmessage
  obtain ⟨block, hblock, hencoded⟩ := List.mem_flatMap.mp (hwalk.sent.subset hmessage)
  have hanswered : blockAnswer block ∈ events :=
    hwalk.answered.subset (List.mem_map_of_mem hblock)
  obtain ⟨txHash, htx, hencode⟩ := List.mem_map.mp hencoded
  obtain ⟨hheight, hanswer⟩ := getBlockData_of_runIn hcooperative hrun hanswered
  obtain ⟨hfirst, hcontinue⟩ := hwalk.explored block hblock
  have hlast : block.1 ≤ lastProduced chain cfg :=
    not_lt.mp fun hlt => (lt_of_shouldContinue hlt hcontinue).not_ge hheight
  rw [hstart] at hfirst
  rw [hanswer] at htx
  exact ⟨txHash, ⟨block.1, hfirst, hlast, htx⟩, hencode⟩

end Tasks

/-! ## From the chain to the tables -/

section Cluster

variable [ChecksumSpelling] {node : Node} {settings : ParserSettings} {cluster : Cluster}
  {chain : Chain} {overflow : Overflow} {lastBlock : Option ℤ} {environment : ProducerEnvironment}
  {cfg : DataCollectionConfig} {first : ℤ}

/-- After a task has run, a consumer can still handle what is not committed. -/
theorem handleable_of_produced {log : ℕ → List String} {committed : ℕ → ℕ} {setOrder : SetOrder}
    (hcooperative : Cooperative chain lastBlock overflow environment)
    (hstores : storesBlocks cfg.mode) (hstart : cfg.startBlock = some first) {fuel : ℕ}
    {events : List ProducerEvent} {outcome : Outcome PyError Unit}
    (hrun : (startProducerTask fuel cfg).runIn environment [] = (outcome, [] ++ events))
    (huncommitted : ∀ partition offset message, committed partition ≤ offset →
      (log partition)[offset]? = some message → Handleable node settings setOrder message)
    (hlisted : ∀ message, IsMessage cfg (Listed chain cfg first) message →
      Handleable node settings setOrder message) :
    ∀ partition offset message, committed partition ≤ offset →
      (events.foldl append log partition)[offset]? = some message →
        Handleable node settings setOrder message := by
  intro partition offset message hoffset hmessage
  rcases getElem?_foldl_append hmessage with hold | hnew
  · exact huncommitted partition offset message hoffset hold
  · obtain ⟨event, hevent, hsent⟩ := List.mem_flatMap.mp hnew
    exact hlisted message (isMessage_of_runIn hcooperative hstores hstart hrun message
      (List.mem_flatMap.mpr ⟨event, hevent, (sent_sublist false event).subset hsent⟩))

end Cluster

/-! ## A chain with one transaction -/

section Deployment

open Relevance.Deployment Producing.Deployment Progress

end Deployment

end BlockchainDataCollection.Liveness
