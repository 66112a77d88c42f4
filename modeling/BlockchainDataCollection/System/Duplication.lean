import BlockchainDataCollection.Producer.Forwarding
import BlockchainDataCollection.System.Progress

/-!
# The topic holds no message twice

However the producers are interleaved and whatever fails, a message is in the
topic at most once for each time the node listed its transaction to a producer.
Producers of one mode that explore disjoint ranges put no message there twice.
-/

namespace BlockchainDataCollection.Duplication

open BlockchainDataCollection.Effect
open BlockchainDataCollection.Python
open BlockchainDataCollection.Data
open BlockchainDataCollection.Storage
open BlockchainDataCollection.Parser
open BlockchainDataCollection.Processing
open BlockchainDataCollection.Saving
open BlockchainDataCollection.KafkaProducer
open BlockchainDataCollection.DataProducer
open BlockchainDataCollection.Backing
open BlockchainDataCollection.Forwarding
open BlockchainDataCollection.Pipeline
open BlockchainDataCollection.Progress

section Topic

variable [ChecksumSpelling] {node : Node} {system : System}

/-- All that the producers have handed to Kafka. -/
def allForwarded (system : System) : List String :=
  system.producers.flatMap fun producer => forwarded producer.process.events

/-- What the node has listed to a producer, as the messages of its mode. -/
def listedTo (producer : Producer) : List String := listed producer.cfg producer.process.events

/-! ## One step -/

section Steps

variable {before after : List Producer} {producer : Producer} {event : ProducerEvent}

omit [ChecksumSpelling] in
/-- A call of one producer, among what all of them have handed to Kafka. -/
theorem perm_forwarded_resume {answers : (op : ProducerCall) → Except PyError op.Answer}
    (hnext : producer.process.nextEvent answers = some event) :
    ((before ++ producer :: after).flatMap fun p => forwarded p.process.events) ++
        sentMessages event.op |>.Perm
      ((before ++ producer.resume answers :: after).flatMap fun p =>
        forwarded p.process.events) := by
  have hevents : (producer.resume answers).process.events = producer.process.events ++ [event] := by
    rw [Producer.resume, Process.events_resume, hnext]
    rfl
  have hone : forwarded [event] = sentMessages event.op := List.flatMap_singleton _ _
  simp only [List.flatMap_append, List.flatMap_cons, hevents, forwarded_append, hone,
    List.append_assoc]
  refine List.Perm.append_left _ (List.Perm.append_left _ ?_)
  exact List.perm_append_comm

/-- Step lemma: a step adds to the topic at most what a producer hands over in it. -/
theorem subperm_step {system' : System}
    (hstep : Step node system system') (h : system.topic.Subperm (allForwarded system)) :
    system'.topic.Subperm (allForwarded system') := by
  cases hstep with
  | startProducer fuel cfg producers topic workers handled db =>
      have hsame : allForwarded ⟨producers ++ [.start fuel cfg], topic, workers, handled, db⟩ =
          allForwarded ⟨producers, topic, workers, handled, db⟩ := by
        simp [allForwarded, Producer.start]
      exact hsame ▸ h
  | produce before producer after answers event landed topic workers handled db hnext hlists =>
      have hgrows : (topic ++ sent landed event).Subperm
          (((before ++ producer :: after).flatMap fun p => forwarded p.process.events) ++
            sentMessages event.op) :=
        ((List.subperm_append_right _).mpr h).trans
          ((List.subperm_append_left _).mpr (sent_sublist landed event).subperm)
      exact hgrows.trans (perm_forwarded_resume hnext).subperm
  | startConsumer => exact h
  | retrieve => exact h
  | consume => exact h
  | finish => exact h

end Steps

/-! ## Whole runs -/

section Runs

/-- Nothing is in the topic that no producer handed over, and nothing more often. -/
theorem topic_subperm_forwarded (hreaches : Reaches node system) :
    system.topic.Subperm (allForwarded system) := by
  induction hreaches with
  | refl => exact List.nil_subperm
  | tail _ hstep ih => exact subperm_step hstep ih

/-- In every state that is reached, a message is in the topic at most as often as
the node listed its transaction to the producers of its mode. -/
theorem topic_subperm_listed (hreaches : Reaches node system) :
    system.topic.Subperm (system.producers.flatMap listedTo) := by
  refine (topic_subperm_forwarded hreaches).trans (List.Sublist.subperm ?_)
  exact List.Sublist.flatMap_right _ fun producer _ => forwarded_sublist_listed producer.runs

/-- The block that the node names for a transaction. -/
def blockOf (node : Node) (txHash : String) : Option ℤ :=
  (node.getTransaction txHash).toOption.map TxData.blockNumber

/-- The node lists no transaction twice in one block, and knows those it lists. -/
def ListsOnce (node : Node) : ProducerEvent → Prop
  | ⟨.getBlockData _, .ok blockData⟩ => blockData.transactions.Nodup ∧
      ∀ txHash ∈ blockData.transactions, ∃ tx, node.getTransaction txHash = .ok tx
  | _ => True

theorem placed_of_lists {event : ProducerEvent} (hlists : Lists node event)
    (honce : ListsOnce node event) : Placed (blockOf node) event := by
  obtain ⟨op, answer⟩ := event
  cases op with
  | getBlockData number =>
      cases answer with
      | error error => trivial
      | ok blockData =>
          refine ⟨honce.1, fun txHash htx => ?_⟩
          obtain ⟨tx, hknown⟩ := honce.2 txHash htx
          rw [blockOf, hknown]
          exact congrArg some (hlists.2 txHash htx tx hknown)
  | _ => trivial

/-- Producers that follow the blocks, those of one mode over disjoint ranges, put
no message into the topic twice. -/
theorem topic_nodup (hreaches : Reaches node system)
    (hmodes : ∀ producer ∈ system.producers, producer.cfg.mode ≠ .getLogs)
    (honce : ∀ producer ∈ system.producers, ∀ event ∈ producer.process.events,
      ListsOnce node event)
    (hdisjoint : system.producers.Pairwise fun producer other =>
      producer.cfg.mode = other.cfg.mode →
        ∀ number, Explores producer.cfg number → ¬ Explores other.cfg number) :
    system.topic.Nodup := by
  have hforwarded : ∀ producer ∈ system.producers,
      (forwarded producer.process.events).Nodup ∧
        ∀ message ∈ forwarded producer.process.events, ∃ txHash number,
          encodeKafkaEvent txHash producer.cfg.mode = message ∧
            blockOf node txHash = some number ∧ Explores producer.cfg number :=
    fun producer hproducer => nodup_forwarded producer.runs (hmodes producer hproducer)
      fun event hevent => placed_of_lists
        (((sound_of_reaches hreaches).producers producer hproducer).lists event hevent)
        (honce producer hproducer event hevent)
  obtain ⟨topic, hperm, hsublist⟩ := topic_subperm_forwarded hreaches
  refine hperm.nodup_iff.mp (hsublist.nodup (List.nodup_flatMap.mpr ⟨fun producer hproducer =>
    (hforwarded producer hproducer).1, ?_⟩))
  refine hdisjoint.imp_of_mem ?_
  intro producer other hproducer hother hapart message hmessage hmessage'
  obtain ⟨txHash, number, hencode, hblock, hexplores⟩ :=
    (hforwarded producer hproducer).2 _ hmessage
  obtain ⟨txHash', number', hencode', hblock', hexplores'⟩ :=
    (hforwarded other hother).2 _ hmessage'
  -- one message has one mode and one hash, so both producers explored its block
  have hpair : (producer.cfg.mode, txHash) = (other.cfg.mode, txHash') :=
    KafkaEvents.encodeKafkaEvent_injective (hencode.trans hencode'.symm)
  obtain ⟨hmode, rfl⟩ := Prod.mk.inj hpair
  obtain rfl : number = number' := Option.some.inj (hblock.symm.trans hblock')
  exact hapart hmode number hexplores hexplores'

end Runs

end Topic

section Deployment

open Relevance.Deployment Producing Producing.Deployment

theorem topic_subperm_listed_of_mint : ∃ system : System,
    Reaches mintNode system ∧ system.topic = ["partial:0x01"] ∧
      system.topic.Subperm (system.producers.flatMap listedTo) := by
  obtain ⟨system, hreaches, htopic, _⟩ := reaches_mint
  exact ⟨system, hreaches, htopic, topic_subperm_listed hreaches⟩

/-- Two transactions, in blocks six and seven. -/
def pairNode : Node :=
  { mintNode with
    getTransaction := fun txHash => .ok
      { transaction (some holder) with
        hash := txHash
        blockNumber := if txHash = "0x01" then 7 else 6 } }

def pairTransactions (number : ℤ) : List String :=
  if number = 7 then ["0x01"] else if number = 6 then ["0x02"] else []

def pairChain : Chain := chainWith 7 pairTransactions

theorem chainOf_pairChain : ChainOf pairNode pairChain := by
  intro number _ txHash htxHash tx htx
  obtain rfl := Except.ok.inj htx
  have htransactions : (pairChain.block number).transactions = pairTransactions number := rfl
  rw [htransactions, pairTransactions] at htxHash
  split at htxHash
  · obtain rfl := List.mem_singleton.mp htxHash
    exact (show number = 7 from ‹_›).symm
  · split at htxHash
    · obtain rfl := List.mem_singleton.mp htxHash
      exact (show number = 6 from ‹_›).symm
    · cases htxHash

theorem listsOnce_pairChain {fuel : ℕ} {cfg : DataCollectionConfig} :
    ∀ event ∈ eventsOver pairChain fuel cfg, ListsOnce pairNode event := by
  rintro ⟨op, answer⟩ hevent
  cases op with
  | getBlockData number =>
      cases answer with
      | error error => trivial
      | ok found =>
          obtain ⟨_, rfl⟩ := getBlockData_of_runIn (cooperative_answering pairChain none _)
            (runIn_answering pairChain fuel cfg) hevent
          refine ⟨?_, fun _ _ => ⟨_, rfl⟩⟩
          have htransactions : (pairChain.block number).transactions = pairTransactions number :=
            rfl
          rw [htransactions, pairTransactions]
          split
          · exact List.nodup_singleton _
          · split
            · exact List.nodup_singleton _
            · exact List.nodup_nil
  | _ => trivial

/-- Two producers of one mode share the blocks. -/
theorem topic_nodup_of_pair : ∃ system : System, Reaches pairNode system ∧
    system.producers.length = 2 ∧ system.topic = ["partial:0x02", "partial:0x01"] ∧
      system.topic.Nodup := by
  obtain ⟨first, hfirst, hfirstEvents, hproduced⟩ :=
    continues_over chainOf_pairChain 9 (config (some 5) (some 6)) [] [] [] [] .empty
  obtain ⟨second, hsecond, hsecondEvents, hcontinues⟩ :=
    continues_over chainOf_pairChain 9 (config (some 7) (some 7)) [first]
      ["partial:0x02"] [] [] (Database.empty.executeAll
        ((eventsOver pairChain 9 (config (some 5) (some 6))).flatMap (stored false)))
  have hproducers : ∀ producer ∈ [first] ++ [second], producer.cfg.mode = .partialMode ∧
      ∃ cfg, producer.process.events = eventsOver pairChain 9 cfg := by
    intro producer hproducer
    rcases List.mem_cons.mp hproducer with rfl | hproducer
    · exact ⟨by rw [hfirst]; rfl, _, hfirstEvents⟩
    · obtain rfl := List.mem_singleton.mp hproducer
      exact ⟨by rw [hsecond]; rfl, _, hsecondEvents⟩
  have hreaches := hproduced.trans hcontinues
  refine ⟨_, hreaches, rfl, rfl, topic_nodup hreaches ?_ ?_ ?_⟩
  · intro producer hproducer
    rw [(hproducers producer hproducer).1]
    exact DataCollectionMode.noConfusion
  · intro producer hproducer
    obtain ⟨_, cfg, hevents⟩ := hproducers producer hproducer
    exact hevents ▸ listsOnce_pairChain
  · refine List.pairwise_pair.mpr fun _ number hexplores hexplores' => ?_
    rw [hfirst] at hexplores
    rw [hsecond] at hexplores'
    have hlast : number ≤ 6 := of_decide_eq_true hexplores.2
    have hnext : 7 ≤ number := hexplores'.1
    omega

end Deployment

end BlockchainDataCollection.Duplication
