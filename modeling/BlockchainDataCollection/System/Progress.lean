import BlockchainDataCollection.Producer.Producing
import BlockchainDataCollection.System.Pipeline

/-!
# Progress of the pipeline

A task whose calls are all answered runs to its end while everything else waits.
A consumer that starts now can therefore work through the topic from its
beginning, whatever has failed or crashed before.
-/

namespace BlockchainDataCollection.Progress

open BlockchainDataCollection.Effect
open BlockchainDataCollection.Effect.Program (Truthful)
open BlockchainDataCollection.Python
open BlockchainDataCollection.Data
open BlockchainDataCollection.Parser
open BlockchainDataCollection.Storage
open BlockchainDataCollection.TxProcessor
open BlockchainDataCollection.Processing
open BlockchainDataCollection.Consuming
open BlockchainDataCollection.KafkaProducer
open BlockchainDataCollection.DataProducer
open BlockchainDataCollection.Producing
open BlockchainDataCollection.Pipeline

section Progress

variable [ChecksumSpelling] {node : Node}

def Continues (node : Node) (system system' : System) : Prop :=
  Relation.ReflTransGen (Step node) system system'

/-! ## Producers -/

section Producers

variable {before after : List Producer} {topic : List String} {workers : List Worker}
  {handled : List String} {db : Database}

omit [ChecksumSpelling] in
/-- A producer goes on for as long as its environment answers, in a system that lets it. -/
theorem reflTransGen_produce {State World : Type*} {step : State → State → Prop}
    {allowed : ProducerEvent → Prop} {place : Producer → World → State}
    {grow : World → ProducerEvent → World}
    (hstep : ∀ producer world answers event, producer.process.nextEvent answers = some event →
      allowed event →
        step (place producer world) (place (producer.resume answers) (grow world event)))
    {environment : ProducerEnvironment} {producer : Producer} {rest : ProducerProgram Unit}
    (hrest : producer.process.rest = rest) {outcome : Outcome PyError Unit}
    {events : List ProducerEvent}
    (hrun : rest.runIn environment producer.process.events =
      (outcome, producer.process.events ++ events))
    (hallowed : ∀ event ∈ events, allowed event) (world : World) :
    ∃ producer' : Producer, producer'.cfg = producer.cfg ∧
      producer'.process.events = producer.process.events ++ events ∧
      Relation.ReflTransGen step (place producer world)
        (place producer' (events.foldl grow world)) := by
  induction rest generalizing producer events world with
  | done value | raise error | suspended =>
      obtain rfl : events = [] := List.self_eq_append_right.mp (Prod.mk.inj hrun).2
      exact ⟨producer, rfl, (List.append_nil _).symm, .refl⟩
  | call op next ih =>
      have hnext : producer.process.nextEvent (environment producer.process.events) =
          some ⟨op, environment producer.process.events op⟩ := Process.nextEvent_of_rest hrest
      have hevents : (producer.resume (environment producer.process.events)).process.events =
          producer.process.events ++ [⟨op, environment producer.process.events op⟩] := by
        rw [Producer.resume, Process.events_resume, hnext, Option.toList_some]
      obtain ⟨later, hlater, _⟩ := Program.runs_runIn environment
        (next (environment producer.process.events op))
        (producer.process.events ++ [⟨op, environment producer.process.events op⟩])
      have hrun' : (next (environment producer.process.events op)).runIn environment
          (producer.process.events ++ [⟨op, environment producer.process.events op⟩]) =
            (outcome, producer.process.events ++ events) := hrun
      obtain rfl : events = ⟨op, environment producer.process.events op⟩ :: later := by
        rw [hrun', List.append_assoc, List.singleton_append] at hlater
        exact List.append_cancel_left hlater
      obtain ⟨hfirst, hothers⟩ := List.forall_mem_cons.mp hallowed
      obtain ⟨producer', hcfg, hdone, hcontinues⟩ := @ih _
        (producer.resume (environment producer.process.events)) (Process.rest_resume hrest) later
        (by rw [hevents, hrun', List.append_assoc, List.singleton_append]) hothers
        (grow world ⟨op, environment producer.process.events op⟩)
      refine ⟨producer', hcfg, ?_, .head (hstep producer world _ _ hnext hfirst) hcontinues⟩
      rw [hdone, hevents, List.append_assoc, List.singleton_append]

omit [ChecksumSpelling] in
/-- What the answered calls of a producer add to a log and to the tables. -/
theorem foldl_produce {Log : Type*} (append : Log → ProducerEvent → Log)
    (events : List ProducerEvent) (log : Log) (db : Database) :
    events.foldl (fun (world : Log × Database) event =>
        (append world.1 event, world.2.executeAll (stored false event))) (log, db) =
      (events.foldl append log, db.executeAll (events.flatMap (stored false))) := by
  induction events generalizing log db with
  | nil => rfl
  | cons event events ih =>
      rw [List.foldl_cons, ih, List.flatMap_cons, Database.executeAll_append, List.foldl_cons]

theorem continues_produce {environment : ProducerEnvironment} {producer : Producer}
    {rest : ProducerProgram Unit} (hrest : producer.process.rest = rest)
    {outcome : Outcome PyError Unit} {events : List ProducerEvent}
    (hrun : rest.runIn environment producer.process.events =
      (outcome, producer.process.events ++ events))
    (hlists : ∀ event ∈ events, Lists node event) :
    ∃ producer' : Producer, producer'.cfg = producer.cfg ∧
      producer'.process.events = producer.process.events ++ events ∧
      Continues node ⟨before ++ producer :: after, topic, workers, handled, db⟩
        ⟨before ++ producer' :: after, topic ++ events.flatMap (sent false), workers, handled,
          db.executeAll (events.flatMap (stored false))⟩ := by
  obtain ⟨producer', hcfg, hdone, hcontinues⟩ := @reflTransGen_produce _ _ (Step node) (Lists node)
    (fun producer world => ⟨before ++ producer :: after, world.1, workers, handled, world.2⟩)
    (fun world event => (world.1 ++ sent false event, world.2.executeAll (stored false event)))
    (fun producer world _ event hnext hlists => .produce before producer after _ event false world.1
      workers handled world.2 hnext hlists) _ _ _ hrest _ _ hrun hlists (topic, db)
  rw [foldl_produce (fun topic event => topic ++ sent false event),
    List.foldl_append_eq_append, ← List.flatMap_def] at hcontinues
  exact ⟨producer', hcfg, hdone, hcontinues⟩

end Producers

/-! ## Producers over a chain -/

section Chains

variable {chain : Chain} {overflow : Overflow} {lastBlock : Option ℤ}
  {environment : ProducerEnvironment}

/-- The transactions of a block of the chain name that block. -/
def ChainOf (node : Node) (chain : Chain) : Prop :=
  ∀ number ≤ chain.height, ∀ txHash ∈ (chain.block number).transactions, ∀ tx,
    node.getTransaction txHash = .ok tx → tx.blockNumber = number

omit [ChecksumSpelling] in
/-- What a cooperative environment answers with comes from the chain. -/
theorem getBlockData_of_runIn (hcooperative : Cooperative chain lastBlock overflow environment)
    {A : Type} {program : ProducerProgram A} {events : List ProducerEvent}
    {outcome : Outcome PyError A} (hrun : program.runIn environment [] = (outcome, [] ++ events))
    {number : ℤ} {blockData : BlockData}
    (hevent : (⟨.getBlockData number, .ok blockData⟩ : ProducerEvent) ∈ events) :
    number ≤ chain.height ∧ blockData = chain.block number := by
  obtain ⟨seen, hanswer⟩ := Program.answered_runIn hrun hevent
  have hblock := hcooperative.getBlockData seen number
  change (Except.ok blockData : Except PyError BlockData) = _ at hanswer
  rw [hblock] at hanswer
  split at hanswer
  · exact ⟨‹_›, Except.ok.inj hanswer⟩
  · cases hanswer

theorem lists_of_runIn (hcooperative : Cooperative chain lastBlock overflow environment)
    (hchain : ChainOf node chain) {A : Type} {program : ProducerProgram A}
    {events : List ProducerEvent} {outcome : Outcome PyError A}
    (hrun : program.runIn environment [] = (outcome, [] ++ events)) :
    ∀ event ∈ events, Lists node event := by
  rintro ⟨op, answer⟩ hevent
  cases op with
  | getBlockData number =>
      cases answer with
      | error error => trivial
      | ok blockData =>
          obtain ⟨hheight, rfl⟩ := getBlockData_of_runIn hcooperative hrun hevent
          exact ⟨chain.blockNumber_eq number, hchain number hheight⟩
  | _ => trivial

end Chains

/-! ## Consumers -/

section Consumers

variable {before after : List Worker} {producers : List Producer} {topic : List String}
  {handled : List String} {db : Database}

/-- A callback that returns for the node's answers can be brought to its end, in a
system that lets it. -/
theorem reflTransGen_handling {State : Type*} {step : State → State → Prop}
    {place : Handling → Database → State}
    (hstep : ∀ handling db event, handling.process.nextEvent node.answer = some event →
      Truthful node.answer event → step (place handling db)
        (place (handling.resume node.answer) (db.executeAll (saved true event))))
    {handling : Handling} {rest : ConsumerProgram DataConsumer}
    (hrest : handling.process.rest = rest) {state : DataConsumer}
    (houtcome : rest.outcome node.answer = .returned state) :
    ∃ handling' : Handling, handling'.event = handling.event ∧
      handling'.consumer = handling.consumer ∧ handling'.process.rest = .done state ∧
      Relation.ReflTransGen step (place handling db)
        (place handling' (db.executeAll (written node rest))) := by
  induction rest generalizing handling db with
  | done found =>
      obtain rfl := Outcome.returned.inj houtcome
      exact ⟨handling, rfl, rfl, hrest, .refl⟩
  | raise error => cases houtcome
  | suspended => cases houtcome
  | call op next ih =>
      have hnext : handling.process.nextEvent node.answer = some ⟨op, node.answer op⟩ :=
        Process.nextEvent_of_rest hrest
      have htruthful : Truthful node.answer
          (⟨op, node.answer op⟩ : Program.Event consumerSignature PyError) := fun _ => id
      have hsaved : saved true (⟨op, node.answer op⟩ : Program.Event consumerSignature PyError) =
          callStatements op := by
        rw [saved]
        cases node.answer op <;> rfl
      obtain ⟨handling', hevent, hconsumer, hdone, hcontinues⟩ :=
        @ih (node.answer op) (db.executeAll (callStatements op)) (handling.resume node.answer)
          (Process.rest_resume hrest) houtcome
      refine ⟨handling', hevent, hconsumer, hdone, ?_⟩
      have hwritten : written node (.call op next : ConsumerProgram DataConsumer) =
          callStatements op ++ written node (next (node.answer op)) := rfl
      rw [hwritten, Database.executeAll_append]
      refine .head ?_ hcontinues
      rw [← hsaved]
      exact hstep handling db _ hnext htruthful

theorem continues_handling {handling : Handling} {rest : ConsumerProgram DataConsumer}
    (hrest : handling.process.rest = rest) {state : DataConsumer}
    (houtcome : rest.outcome node.answer = .returned state) :
    ∃ handling' : Handling, handling'.event = handling.event ∧
      handling'.consumer = handling.consumer ∧ handling'.process.rest = .done state ∧
      Continues node ⟨producers, topic, before ++ .handling handling :: after, handled, db⟩
        ⟨producers, topic, before ++ .handling handling' :: after, handled,
          db.executeAll (written node rest)⟩ :=
  @reflTransGen_handling _ node db _ (Step node)
    (fun handling db => ⟨producers, topic, before ++ .handling handling :: after, handled, db⟩)
    (fun handling db event hnext htruthful => .consume before handling after _ event true producers
      topic handled db hnext htruthful) _ _ hrest _ houtcome

/-- A message whose callback returns can be handled. -/
theorem continues_handle {consumer : Consumer} {event : String} (hevent : event ∈ topic)
    {state : DataConsumer}
    (houtcome : (onKafkaEvent consumer.setOrder consumer.state event).outcome node.answer =
      .returned state) :
    ∃ consumer' : Consumer, consumer'.setOrder = consumer.setOrder ∧
      consumer'.settings = consumer.settings ∧ consumer'.state = state ∧
      Continues node ⟨producers, topic, before ++ .idle consumer :: after, handled, db⟩
        ⟨producers, topic, before ++ .idle consumer' :: after, event :: handled,
          db.executeAll (written node (onKafkaEvent consumer.setOrder consumer.state event))⟩ := by
  obtain ⟨handling, hhandled, hconsumer, hdone, hcontinues⟩ := @continues_handling _ node
    before after producers topic handled db (.start consumer event) _ rfl _ houtcome
  have horder : handling.consumer.setOrder = consumer.setOrder := by rw [hconsumer]; rfl
  have hsettings : (handling.finish state hdone).settings = consumer.settings :=
    (handling.kept hdone).1.trans (by rw [hconsumer]; rfl)
  refine ⟨handling.finish state hdone, horder, hsettings, rfl, ?_⟩
  refine .head (.retrieve before consumer after event producers topic handled db hevent) ?_
  refine hcontinues.tail ?_
  rw [← show handling.event = event from hhandled]
  exact .finish before handling after state hdone producers topic handled _

/-- Messages that one consumer handles on its own can be handled. -/
theorem continues_consume {consumer : Consumer} {events : List String}
    (hevents : events ⊆ topic) {state : DataConsumer}
    (houtcome : (consume consumer.setOrder consumer.state events).outcome node.answer =
      .returned state) :
    ∃ consumer' : Consumer, consumer'.settings = consumer.settings ∧
      Continues node ⟨producers, topic, before ++ .idle consumer :: after, handled, db⟩
        ⟨producers, topic, before ++ .idle consumer' :: after, events.reverse ++ handled,
          db.executeAll (written node (consume consumer.setOrder consumer.state events))⟩ := by
  induction events generalizing consumer handled db with
  | nil => exact ⟨consumer, rfl, .refl⟩
  | cons event events ih =>
      obtain ⟨middle, hmiddle, hrest⟩ := Program.outcome_bind_returned_iff.mp houtcome
      obtain ⟨hevent, hevents⟩ := List.cons_subset.mp hevents
      obtain ⟨next, horder, hnext, rfl, hfirst⟩ := @continues_handle _ node before after producers
        topic handled db consumer event hevent middle hmiddle
      rw [← horder] at hrest
      obtain ⟨last, hlast, hothers⟩ := ih hevents hrest
      have hwritten : written node (consume consumer.setOrder consumer.state (event :: events)) =
          written node (onKafkaEvent consumer.setOrder consumer.state event) ++
            written node (consume next.setOrder next.state events) := by
        rw [written, consume, Program.calls_bind_of_returned hmiddle, List.flatMap_append, horder]
        rfl
      refine ⟨last, hlast.trans hnext, ?_⟩
      rw [hwritten, Database.executeAll_append, List.reverse_cons, List.append_assoc,
        List.singleton_append]
      exact hfirst.trans hothers

/-- Where one consumer could work through the whole topic on its own, one that
starts now does so. -/
theorem exists_all_handled (system : System) {settings : ParserSettings} {setOrder : SetOrder}
    {state : DataConsumer}
    (houtcome : (consume setOrder (DataConsumer.init settings) system.topic).outcome node.answer =
      .returned state) :
    ∃ system' : System, Continues node system system' ∧
      system'.producers = system.producers ∧ system'.topic = system.topic ∧
      (∀ event ∈ system'.topic, event ∈ system'.handled) ∧
      (SameSettings system.workers settings → SameSettings system'.workers settings) ∧
      system'.db = system.db.executeAll
        (system.topic.flatMap (kafkaEventStatements node settings setOrder)) := by
  obtain ⟨producers, topic, workers, handled, db⟩ := system
  obtain ⟨consumer, hsettings, hcontinues⟩ := @continues_consume _ node workers [] producers topic
    handled db (.start settings setOrder) topic (List.Subset.refl _) state houtcome
  refine ⟨_, .head (.startConsumer settings setOrder producers topic workers handled db) hcontinues,
    rfl, rfl, fun event hevent => List.mem_append_left _ (List.mem_reverse.mpr hevent), ?_, ?_⟩
  · exact fun hsame =>
      List.forall_mem_append.mpr ⟨hsame, List.forall_mem_singleton.mpr hsettings⟩
  · exact congrArg db.executeAll
      (consume_of_returned (Consumer.start settings setOrder).consistent houtcome).written

end Consumers

end Progress

/-! ## A chain with one transaction -/

section Deployment

open Relevance.Deployment Producing.Deployment

/-- A token is minted, and a collectible changes hands. -/
def mintReceipt : TxReceipt where
  gasUsed := 21000
  logs := [transferLog token 0 zeroAddress holder "0x20" [],
    transferLog collectible 1 holder token "0x" ["0x05"]]
  contractAddress := none

def mintNode : Node :=
  { node with
    getTransaction := fun _ => .ok (transaction (some holder))
    getTransactionReceipt := fun _ => .ok mintReceipt }

theorem blockNumber_blockData (transactions : List String) (number : ℤ) :
    (blockData transactions number).blockNumber = number := rfl

/-- Some blocks have a transaction. -/
def chainWith (height : ℤ) (transactions : ℤ → List String) : Chain where
  height
  block number := blockData (transactions number) number
  traces _ := []
  blockNumber_eq number := blockNumber_blockData _ number

/-- What a producer does over a chain that answers at once. -/
def eventsOver (chain : Chain) (fuel : ℕ) (cfg : DataCollectionConfig) : List ProducerEvent :=
  ((startProducerTask fuel cfg).runIn (answering chain none fun _ _ => none) []).2

theorem runIn_answering (chain : Chain) (fuel : ℕ) (cfg : DataCollectionConfig) :
    (startProducerTask fuel cfg).runIn (answering chain none fun _ _ => none) [] =
      (((startProducerTask fuel cfg).runIn (answering chain none fun _ _ => none) []).1,
        [] ++ eventsOver chain fuel cfg) := rfl

theorem continues_over {node : Node} {chain : Chain} (hchain : ChainOf node chain) (fuel : ℕ)
    (cfg : DataCollectionConfig) (producers : List Producer) (topic : List String)
    (workers : List Worker) (handled : List String) (db : Database) :
    ∃ producer : Producer, producer.cfg = cfg ∧
      producer.process.events = eventsOver chain fuel cfg ∧
      Continues node ⟨producers, topic, workers, handled, db⟩
        ⟨producers ++ [producer], topic ++ (eventsOver chain fuel cfg).flatMap (sent false),
          workers, handled,
          db.executeAll ((eventsOver chain fuel cfg).flatMap (stored false))⟩ := by
  obtain ⟨producer, hcfg, hevents, hproduced⟩ := @continues_produce _ node producers [] topic
    workers handled db _ (.start fuel cfg) _ rfl _ _ (runIn_answering chain fuel cfg)
    (lists_of_runIn (cooperative_answering chain none fun _ _ => none) hchain
      (runIn_answering chain fuel cfg))
  exact ⟨producer, hcfg, hevents,
    .head (.startProducer fuel cfg producers topic workers handled db) hproduced⟩

/-- Only block seven has a transaction. -/
def mintChain : Chain := chainWith 7 fun number => if number = 7 then ["0x01"] else []

theorem eq_of_mem_mintChain {txHash : String} {number : ℤ}
    (h : txHash ∈ (mintChain.block number).transactions) : number = 7 ∧ txHash = "0x01" := by
  have htransactions : (mintChain.block number).transactions =
      if number = 7 then ["0x01"] else [] := rfl
  rw [htransactions] at h
  split at h
  · exact ⟨‹_›, List.mem_singleton.mp h⟩
  · cases h

theorem chainOf_mintChain : ChainOf mintNode mintChain := by
  intro number _ txHash htxHash tx htx
  obtain ⟨rfl, _⟩ := eq_of_mem_mintChain htxHash
  cases htx
  rfl

def mintConfig : DataCollectionConfig := config (some 5) (some 7)

def mintEvents : List ProducerEvent := eventsOver mintChain 9 mintConfig

/-- A producer goes through three blocks, and a consumer handles the transaction. -/
theorem reaches_mint : ∃ system : System, Reaches mintNode system ∧
    system.topic = ["partial:0x01"] ∧ (∀ event ∈ system.topic, event ∈ system.handled) ∧
    SameSettings system.workers parser.settings ∧
    (∃ producer, system.producers = [producer] ∧ producer.cfg = mintConfig ∧
      producer.process.events = mintEvents) ∧
    (system.db.table .transaction).rows.map TransactionRow.transactionHash = ["0x01"] := by
  obtain ⟨producer, hcfg, hevents, hproduced⟩ :=
    continues_over chainOf_mintChain 9 mintConfig [] [] [] [] .empty
  obtain ⟨state, hstate⟩ : ∃ state, (consume setOrder (DataConsumer.init parser.settings)
      ["partial:0x01"]).outcome mintNode.answer = .returned state := ⟨_, rfl⟩
  obtain ⟨system, hcontinues, hproducers, htopic, hhandled, hsame, hdb⟩ :=
    @exists_all_handled _ mintNode ⟨[producer], ["partial:0x01"], [], [],
      Database.empty.executeAll (mintEvents.flatMap (stored false))⟩ parser.settings setOrder state
        hstate
  have hrows : (((Database.empty.executeAll (mintEvents.flatMap (stored false))).executeAll
      (["partial:0x01"].flatMap (kafkaEventStatements mintNode parser.settings setOrder))).table
        .transaction).rows.map TransactionRow.transactionHash = ["0x01"] := by decide
  refine ⟨system, ?_, htopic, hhandled, hsame (fun _ h => by cases h),
    ⟨producer, hproducers, hcfg, hevents⟩, hdb ▸ hrows⟩
  exact hproduced.trans hcontinues

end Deployment

end BlockchainDataCollection.Progress
