import BlockchainDataCollection.Consumer.Totality
import BlockchainDataCollection.System.KafkaCluster
import BlockchainDataCollection.System.Progress

/-!
# Progress of the cluster

A producer whose calls are answered runs to its end, and its batches go to their
partitions.  A consumer that joins can be assigned all partitions; it goes from the
committed offsets through all that is left of them, and commits its positions.
-/

namespace BlockchainDataCollection.ClusterProgress

open BlockchainDataCollection.Effect
open BlockchainDataCollection.Python
open BlockchainDataCollection.Data
open BlockchainDataCollection.Parser
open BlockchainDataCollection.Storage
open BlockchainDataCollection.TxProcessor
open BlockchainDataCollection.Processing
open BlockchainDataCollection.Consuming
open BlockchainDataCollection.Saving (isChecksumAddress_of_mem_handledAddresses)
open BlockchainDataCollection.Totality
open BlockchainDataCollection.KafkaConsumer
open BlockchainDataCollection.KafkaProducer
open BlockchainDataCollection.DataProducer
open BlockchainDataCollection.Messages (AnswersValid sends_of_runs)
open BlockchainDataCollection.Producing
open BlockchainDataCollection.Membership
open BlockchainDataCollection.Pipeline
open BlockchainDataCollection.Progress (reflTransGen_produce foldl_produce reflTransGen_handling)
open BlockchainDataCollection.KafkaCluster

section Progress

variable [ChecksumSpelling] {node : Node} {clean : Prop}

/-- The cluster can go on from one state to the other. -/
def Continues (node : Node) (clean : Prop) (cluster cluster' : Cluster) : Prop :=
  Relation.ReflTransGen (KafkaCluster.Step node clean) cluster cluster'

/-! ## Producers -/

section Producers

/-- The partition that the batch of a call names. -/
def targetOf (event : ProducerEvent) : ℕ :=
  match event.op with
  | .sendBatch _ partition => partition.toNat
  | _ => 0

/-- The batch of an answered call goes to its partition. -/
def append (log : ℕ → List String) (event : ProducerEvent) : ℕ → List String :=
  Function.update log (targetOf event) (log (targetOf event) ++ sent false event)

omit [ChecksumSpelling] in
/-- The batches of several calls come after what the partitions had before. -/
theorem exists_appended (events : List ProducerEvent) (log : ℕ → List String) :
    ∃ added : ℕ → List String, events.foldl append log = (fun p => log p ++ added p) ∧
      ∀ message, (∃ partition, message ∈ added partition) ↔
        message ∈ events.flatMap (sent false) := by
  induction events generalizing log with
  | nil => exact ⟨fun _ => [], by simp, by simp⟩
  | cons event events ih =>
      obtain ⟨added, hlog, hadded⟩ := ih (append log event)
      refine ⟨fun p => (if p = targetOf event then sent false event else []) ++ added p, ?_, ?_⟩
      · rw [List.foldl_cons, hlog]
        funext p
        by_cases hp : p = targetOf event
        · subst hp
          simp [append]
        · simp [append, hp]
      · intro message
        rw [List.flatMap_cons, List.mem_append, ← hadded message]
        constructor
        · rintro ⟨p, hmessage⟩
          rcases List.mem_append.mp hmessage with hmessage | hmessage
          · split at hmessage
            · exact .inl hmessage
            · cases hmessage
          · exact .inr ⟨p, hmessage⟩
        · rintro (hmessage | ⟨p, hmessage⟩)
          · exact ⟨targetOf event, by simp [hmessage]⟩
          · exact ⟨p, List.mem_append_right _ hmessage⟩

omit [ChecksumSpelling] in
/-- A message was there before, or it is in one of the batches. -/
theorem getElem?_foldl_append {events : List ProducerEvent} {log : ℕ → List String}
    {partition offset : ℕ} {message : String}
    (h : (events.foldl append log partition)[offset]? = some message) :
    (log partition)[offset]? = some message ∨ message ∈ events.flatMap (sent false) := by
  obtain ⟨added, hlog, hadded⟩ := exists_appended events log
  rw [hlog, List.getElem?_append] at h
  split at h
  · exact .inl h
  · exact .inr ((hadded message).mp ⟨partition, List.mem_of_getElem? h⟩)

omit [ChecksumSpelling] in
/-- A message of a batch comes after what its partition had before. -/
theorem exists_place_of_sent {events : List ProducerEvent} (log : ℕ → List String)
    {message : String} (h : message ∈ events.flatMap (sent false)) :
    ∃ partition offset, (log partition).length ≤ offset ∧
      (events.foldl append log partition)[offset]? = some message := by
  obtain ⟨added, hlog, hadded⟩ := exists_appended events log
  obtain ⟨partition, hmem⟩ := (hadded message).mpr h
  obtain ⟨index, hindex⟩ := List.getElem?_of_mem hmem
  refine ⟨partition, (log partition).length + index, Nat.le_add_right _ _, ?_⟩
  rw [hlog, List.getElem?_append_right (Nat.le_add_right _ _), Nat.add_sub_cancel_left]
  exact hindex

/-- The partitions that a producer is answered with are natural numbers. -/
structure NamesPartitions (environment : ProducerEnvironment) : Prop where
  inTurn : ∀ history partition, environment history .getIPartition = .ok partition →
    partition ≠ -1 → 0 ≤ partition
  lowest : ∀ history partition, environment history .getLowestScorePartition = .ok partition →
    0 ≤ partition.getD 0

variable {environment : ProducerEnvironment} {fuel : ℕ} {cfg : DataCollectionConfig}
  {outcome : Outcome PyError Unit} {events : List ProducerEvent}

omit [ChecksumSpelling] in
theorem goesTo_of_runIn (hnames : NamesPartitions environment)
    (hrun : (startProducerTask fuel cfg).runIn environment [] = (outcome, [] ++ events)) :
    ∀ event ∈ events, GoesTo (targetOf event) event := by
  have hruns := Program.runs_of_runIn hrun
  have hvalid : ∀ event ∈ events, AnswersValid (fun _ => True) (0 ≤ ·) event := by
    rintro ⟨op, answer⟩ hevent
    obtain ⟨seen, hanswer⟩ := Program.answered_runIn hrun hevent
    cases answer with
    | error error => cases op <;> trivial
    | ok value =>
        cases op with
        | getIPartition => exact hnames.inTurn seen value hanswer.symm
        | getLowestScorePartition => exact hnames.lowest seen value hanswer.symm
        | getBlockData number => exact fun _ _ => trivial
        | getLogs params => exact fun _ _ => trivial
        | _ => trivial
  intro event hevent messages target hop
  have hnamed : 0 ≤ target := (sends_of_runs hruns hvalid hevent hop).2
  rw [targetOf, hop]
  exact (Int.toNat_of_nonneg hnamed).symm

variable {producers : List Producer} {log : ℕ → List String} {committed : ℕ → ℕ}
  {owner : ℕ → Option ℕ} {tasks : List (Member × Worker)} {db : Database}

/-- A producer that starts runs to its end. -/
theorem continues_produce
    (hrun : (startProducerTask fuel cfg).runIn environment [] = (outcome, [] ++ events))
    (hallowed : ∀ event ∈ events, Lists node event ∧ GoesTo (targetOf event) event) :
    ∃ producer : Producer, producer.cfg = cfg ∧ producer.process.events = events ∧
      Continues node clean ⟨producers, log, committed, owner, tasks, db⟩
        ⟨producers ++ [producer], events.foldl append log, committed, owner, tasks,
          db.executeAll (events.flatMap (stored false))⟩ := by
  obtain ⟨producer, hcfg, hevents, hcontinues⟩ := @reflTransGen_produce _ _
    (KafkaCluster.Step node clean) (fun event => Lists node event ∧ GoesTo (targetOf event) event)
    (fun producer world =>
      ⟨producers ++ producer :: [], world.1, committed, owner, tasks, world.2⟩)
    (fun world event => (append world.1 event, world.2.executeAll (stored false event)))
    (fun producer world answers event hnext hallowed => .produce producers producer [] answers event
      false (targetOf event) world.1 committed owner tasks world.2 hnext hallowed.1 hallowed.2)
    environment (.start fuel cfg) _ rfl _ _ hrun hallowed (log, db)
  rw [foldl_produce] at hcontinues
  exact ⟨producer, hcfg, hevents,
    .head (.startProducer fuel cfg producers log committed owner tasks db) hcontinues⟩

end Producers

/-! ## Consumers -/

section Consumers

variable {settings : ParserSettings} {setOrder : SetOrder} {member : Member} {consumer : Consumer}
  {log : ℕ → List String} {committed : ℕ → ℕ}

/-- A member that has all partitions waits for its next message. -/
structure Ready (settings : ParserSettings) (setOrder : SetOrder) (member : Member)
    (consumer : Consumer) : Prop where
  retrieving : member.state.listening = .retrieving
  opened : member.state.closed = false
  current : member.current = true
  assigned : ∀ partition, member.assigned partition = true
  settings : consumer.settings = settings
  setOrder : consumer.setOrder = setOrder

/-- Between the committed offsets and its positions, the member has completed all
messages. -/
structure Reads (log : ℕ → List String) (committed : ℕ → ℕ) (member : Member) : Prop where
  ahead : ∀ partition, committed partition ≤ member.state.position partition
  within : ∀ partition, member.state.position partition ≤ (log partition).length
  completed : ∀ partition offset message, committed partition ≤ offset →
    offset < member.state.position partition → (log partition)[offset]? = some message →
      ⟨partition, offset, message⟩ ∈ member.state.completed

/-- The member after it has retrieved a message and its callback has returned. -/
def complete (member : Member) (event : KafkaEvent) : Member :=
  ((member.act (.retrieve event)).act (.decrement event (.ok ()))).act (.callback event (.ok ()))

omit [ChecksumSpelling] in
theorem position_complete (event : KafkaEvent) : (complete member event).state.position =
    Function.update member.state.position event.partition (event.offset + 1) := rfl

omit [ChecksumSpelling] in
theorem completed_complete (event : KafkaEvent) :
    (complete member event).state.completed = event :: member.state.completed := rfl

omit [ChecksumSpelling] in
theorem position_le_complete {event : KafkaEvent}
    (hoffset : event.offset = member.state.position event.partition) (partition : ℕ) :
    member.state.position partition ≤ (complete member event).state.position partition := by
  rw [position_complete]
  by_cases hpartition : partition = event.partition
  · rw [hpartition, Function.update_self, hoffset]
    exact Nat.le_succ _
  · rw [Function.update_of_ne hpartition]

omit [ChecksumSpelling] in
theorem Reads.complete (h : Reads log committed member) {event : KafkaEvent}
    (hoffset : event.offset = member.state.position event.partition)
    (hevent : (log event.partition)[event.offset]? = some event.value) :
    Reads log committed (complete member event) := by
  obtain ⟨hbefore, _⟩ := List.getElem?_eq_some_iff.mp hevent
  refine ⟨fun partition => (h.ahead partition).trans (position_le_complete hoffset partition),
    fun partition => ?_, fun partition offset message hfrom hto hmessage => ?_⟩
  · rw [position_complete]
    by_cases hpartition : partition = event.partition
    · rw [hpartition, Function.update_self]
      exact hbefore
    · rw [Function.update_of_ne hpartition]
      exact h.within partition
  · rw [completed_complete]
    rw [position_complete] at hto
    by_cases hold : offset < member.state.position partition
    · exact List.mem_cons_of_mem _ (h.completed partition offset message hfrom hold hmessage)
    · -- the message is the one that was completed last
      have hpartition : partition = event.partition := by
        by_contra hother
        rw [Function.update_of_ne hother] at hto
        exact hold hto
      subst hpartition
      rw [Function.update_self] at hto
      have hlast : offset = event.offset := by omega
      subst hlast
      obtain rfl := Option.some.inj (hmessage.symm.trans hevent)
      exact List.mem_cons_self

theorem Ready.complete (h : Ready settings setOrder member consumer) {consumer' : Consumer}
    (hsettings : consumer'.settings = consumer.settings)
    (hsetOrder : consumer'.setOrder = consumer.setOrder) (event : KafkaEvent) :
    Ready settings setOrder (complete member event) consumer' where
  retrieving := rfl
  opened := h.opened
  current := h.current
  assigned := h.assigned
  settings := hsettings.trans h.settings
  setOrder := hsetOrder.trans h.setOrder

variable {producers : List Producer} {owner : ℕ → Option ℕ} {before : List (Member × Worker)}
  {db : Database}

/-- A message that can be handled is retrieved, and its callback returns. -/
theorem continues_message (hready : Ready settings setOrder member consumer) {event : KafkaEvent}
    (hoffset : event.offset = member.state.position event.partition)
    (hevent : (log event.partition)[event.offset]? = some event.value)
    (hhandleable : Handleable node settings setOrder event.value) :
    ∃ consumer' db', Ready settings setOrder (complete member event) consumer' ∧
      db'.table .block = db.table .block ∧ Continues node clean
        ⟨producers, log, committed, owner, before ++ [(member, .idle consumer)], db⟩
        ⟨producers, log, committed, owner,
          before ++ [(complete member event, .idle consumer')], db'⟩ := by
  rw [← hready.settings, ← hready.setOrder] at hhandleable
  obtain ⟨state, hstate⟩ := returned_of_handleable consumer.consistent hhandleable
  obtain ⟨handling, _, hconsumer, hdone, hcontinues⟩ := @reflTransGen_handling _ node db _
    (KafkaCluster.Step node clean)
    (fun handling db => ⟨producers, log, committed, owner,
      before ++ [((member.act (.retrieve event)).act (.decrement event (.ok ())),
        .handling handling)], db⟩)
    (fun handling db call hnext htruthful => .handle before _ handling [] _ call true producers log
      committed owner db hnext htruthful) (.start consumer event.value) _ rfl _ hstate
  refine ⟨handling.finish state hdone,
    db.executeAll (written node (onKafkaEvent consumer.setOrder consumer.state event.value)),
    hready.complete ?_ ?_ event, ?_, ?_⟩
  · exact (handling.kept hdone).1.trans (by rw [hconsumer]; rfl)
  · exact show handling.consumer.setOrder = consumer.setOrder by rw [hconsumer]; rfl
  · rw [(onKafkaEvent_of_returned consumer.consistent hstate).2.2.written,
      Database.table_executeAll, rowsOf_kafkaEventStatements_block]
    rfl
  refine .head (.act before member (.idle consumer) [] (.retrieve event) producers log committed
    committed owner db ⟨hready.retrieving, hready.opened, hoffset, hevent⟩ ?_ (.inl rfl) trivial) ?_
  · intro other hother
    cases hother
    exact ⟨hready.assigned _, fun _ => hready.current⟩
  refine .head (.call before _ consumer [] event producers log committed owner db rfl) ?_
  refine hcontinues.tail ?_
  exact .returns before _ handling [] state hdone event producers log committed owner _ rfl

/-- A member that has all partitions goes through all that is left of them, by
induction on the number of messages that are left. -/
theorem continues_drain {bound : ℕ} (hbound : ∀ partition, bound ≤ partition → log partition = [])
    (hready : Ready settings setOrder member consumer) (hreads : Reads log committed member)
    (hhandleable : ∀ partition offset message, committed partition ≤ offset →
      (log partition)[offset]? = some message → Handleable node settings setOrder message) :
    ∃ member' consumer' db', Ready settings setOrder member' consumer' ∧
      Reads log committed member' ∧
      (∀ partition, member'.state.position partition = (log partition).length) ∧
      db'.table .block = db.table .block ∧ Continues node clean
        ⟨producers, log, committed, owner, before ++ [(member, .idle consumer)], db⟩
        ⟨producers, log, committed, owner, before ++ [(member', .idle consumer')], db'⟩ := by
  induction hleft : ∑ partition ∈ Finset.range bound,
      ((log partition).length - member.state.position partition) using Nat.strong_induction_on
    generalizing member consumer db with
  | h left ih =>
      by_cases hdone : ∀ partition, member.state.position partition = (log partition).length
      · exact ⟨member, consumer, db, hready, hreads, hdone, rfl, .refl⟩
      obtain ⟨partition, hpartition⟩ := not_forall.mp hdone
      have hlt := lt_of_le_of_ne (hreads.within partition) hpartition
      obtain ⟨message, hmessage⟩ : ∃ message,
          (log partition)[member.state.position partition]? = some message :=
        ⟨_, List.getElem?_eq_getElem hlt⟩
      obtain ⟨event, rfl, hoffset, hevent⟩ : ∃ event : KafkaEvent, event.partition = partition ∧
          event.offset = member.state.position event.partition ∧
          (log event.partition)[event.offset]? = some event.value :=
        ⟨⟨partition, _, message⟩, rfl, rfl, hmessage⟩
      obtain ⟨next, db', hready', hblock, hfirst⟩ := @continues_message _ node clean settings
        setOrder member consumer log committed producers owner before db hready event hoffset hevent
        (hhandleable _ _ _ (hoffset ▸ hreads.ahead event.partition) hevent)
      have hfewer : ∑ partition ∈ Finset.range bound, ((log partition).length -
          (complete member event).state.position partition) < left := by
        rw [← hleft]
        refine Finset.sum_lt_sum (fun other _ => ?_) ⟨event.partition, ?_, ?_⟩
        · exact Nat.sub_le_sub_left (position_le_complete hoffset other) _
        · refine Finset.mem_range.mpr (not_le.mp fun hbeyond => ?_)
          rw [hbound _ hbeyond] at hlt
          exact absurd hlt (Nat.not_lt_zero _)
        · rw [position_complete, Function.update_self, hoffset]
          exact Nat.sub_succ_lt_self _ _ hlt
      obtain ⟨member', consumer', db'', hready'', hreads', hend, hblock', hothers⟩ :=
        ih _ hfewer hready' (hreads.complete hoffset hevent) rfl
      exact ⟨member', consumer', db'', hready'', hreads', hend, hblock'.trans hblock,
        hfirst.trans hothers⟩

/-- The consumers after the partitions were assigned anew and one has joined. -/
def joined (tasks : List (Member × Worker)) (member : Member) (worker : Worker) :
    List (Member × Worker) :=
  tasks.map (Prod.map Member.revoke id) ++ [(member, worker)]

section Joined

variable {tasks : List (Member × Worker)} {member : Member} {worker : Worker}

theorem mem_joined_self : (member, worker) ∈ joined tasks member worker :=
  List.mem_append_right _ List.mem_cons_self

theorem forall_mem_joined {holds : Member × Worker → Prop} :
    (∀ task ∈ joined tasks member worker, holds task) ↔
      (∀ task ∈ tasks, holds (task.1.revoke, task.2)) ∧ holds (member, worker) := by
  rw [joined, List.forall_mem_append, List.forall_mem_map, List.forall_mem_singleton]
  rfl

theorem countP_joined (hlistening : member.state.listening = .retrieving) :
    (joined tasks member worker).countP (fun task => interrupted task.1.state) =
      tasks.countP fun task => interrupted task.1.state := by
  have hwhole : interrupted member.state = false := by rw [interrupted, hlistening]
  rw [joined, List.countP_append, List.countP_map, List.countP_singleton, hwhole]
  rfl

theorem sameSettings_joined (hsame : SameSettings (tasks.map Prod.snd) settings)
    (hworker : worker.consumer.settings = settings) :
    SameSettings ((joined tasks member worker).map Prod.snd) settings := by
  rw [SameSettings, List.forall_mem_map] at hsame ⊢
  exact forall_mem_joined.mpr ⟨hsame, hworker⟩

end Joined

/-- A member that has just been assigned everything. -/
def assigned (committed : ℕ → ℕ) : Member :=
  Member.start.adopt committed fun _ => true

omit [ChecksumSpelling] in
theorem reads_assigned (hcommitted : ∀ partition, committed partition ≤ (log partition).length) :
    Reads log committed (assigned committed) where
  ahead _ := le_rfl
  within := hcommitted
  completed _ _ _ hfrom hto := absurd hfrom hto.not_ge

/-- A consumer joins, and the coordinator assigns everything to it. -/
theorem continues_assigned {tasks : List (Member × Worker)}
    (hsettled : clean → ∀ task ∈ tasks, task.1.reader.Settled committed) :
    ∃ owner', Ready settings setOrder (assigned committed) (.start settings setOrder) ∧
      Continues node clean ⟨producers, log, committed, owner, tasks, db⟩
        ⟨producers, log, committed, owner',
          joined tasks (assigned committed) (.idle (.start settings setOrder)), db⟩ := by
  obtain ⟨before, hbefore⟩ : ∃ before, before = tasks.map (Prod.map Member.revoke id) := ⟨_, rfl⟩
  have hassign := @KafkaCluster.Step.assign _ node clean producers log committed owner
    (fun _ => some before.length) (tasks ++ [(.start, .idle (.start settings setOrder))]) db
    fun hclean => List.forall_mem_append.mpr ⟨hsettled hclean,
      List.forall_mem_singleton.mpr fun hcurrent => by cases hcurrent⟩
  have hadopt := @KafkaCluster.Step.adopt _ node clean before .start
    (.idle (.start settings setOrder)) [] producers log committed (fun _ => some before.length) db
    rfl rfl
  simp only [decide_true] at hadopt
  rw [List.map_append, ← hbefore] at hassign
  rw [joined, ← hbefore]
  refine ⟨fun _ => some before.length, ⟨rfl, rfl, rfl, fun _ => rfl, rfl, rfl⟩, ?_⟩
  exact (Relation.ReflTransGen.head
    (.join settings setOrder producers log committed owner tasks db) (.single hassign)).tail hadopt

/-- A member that has gone through all partitions commits its positions. -/
theorem continues_commit (hready : Ready settings setOrder member consumer)
    (hcommitted : ∀ partition, committed partition ≤ (log partition).length)
    (hend : ∀ partition, member.state.position partition = (log partition).length) :
    Continues node clean
      ⟨producers, log, committed, owner, before ++ [(member, .idle consumer)], db⟩
      ⟨producers, log, fun partition => (log partition).length, owner,
        before ++ [(member.act .autoCommit, .idle consumer)], db⟩ := by
  have hcommits : member.reader.Commits committed fun partition => (log partition).length := by
    refine ⟨hready.current, fun partition _ => ⟨hcommitted partition, (hend partition).ge⟩, ?_⟩
    intro partition hother
    rw [show member.reader.assigned partition = true from hready.assigned partition] at hother
    cases hother
  exact .single (.act before member (.idle consumer) [] .autoCommit producers log committed _ owner
    db hready.opened (fun _ hevent => by cases hevent) (.inr ⟨trivial, hcommits⟩) trivial)

/-- A consumer joins, gets all partitions, goes through all that is left of them and
commits its positions. -/
theorem continues_join {tasks : List (Member × Worker)}
    (hbounded : ∃ bound, ∀ partition, bound ≤ partition → log partition = [])
    (hcommitted : ∀ partition, committed partition ≤ (log partition).length)
    (hsettled : clean → ∀ task ∈ tasks, task.1.reader.Settled committed)
    (hhandleable : ∀ partition offset message, committed partition ≤ offset →
      (log partition)[offset]? = some message → Handleable node settings setOrder message) :
    ∃ member consumer owner' db', consumer.settings = settings ∧
      member.state.listening = .retrieving ∧
      (∀ partition offset message, committed partition ≤ offset →
        (log partition)[offset]? = some message →
          ⟨partition, offset, message⟩ ∈ member.state.completed) ∧
      db'.table .block = db.table .block ∧
      Continues node clean ⟨producers, log, committed, owner, tasks, db⟩
        ⟨producers, log, fun partition => (log partition).length, owner',
          joined tasks member (.idle consumer), db'⟩ := by
  obtain ⟨bound, hbound⟩ := hbounded
  obtain ⟨owner', hassigned, hjoined⟩ := @continues_assigned _ node clean settings setOrder log
    committed producers owner db tasks hsettled
  obtain ⟨member, consumer, db', hready, hreads, hend, hblock, hdrained⟩ := continues_drain hbound
    hassigned (reads_assigned hcommitted) hhandleable
  refine ⟨member.act .autoCommit, consumer, owner', db', hready.settings, hready.retrieving, ?_,
    hblock, (hjoined.trans hdrained).trans (continues_commit hready hcommitted hend)⟩
  intro partition offset message hfrom hmessage
  obtain ⟨hbefore, _⟩ := List.getElem?_eq_some_iff.mp hmessage
  exact hreads.completed partition offset message hfrom (hbefore.trans_eq (hend partition).symm)
    hmessage

end Consumers

end Progress

/-! ## A chain with one transaction -/

section Deployment

open Relevance.Deployment Producing.Deployment Progress

variable {clean : Prop}

theorem namesPartitions_answering (chain : Chain) (lastBlock : Option ℤ) (overflow : Overflow) :
    NamesPartitions (answering chain lastBlock overflow) where
  inTurn _ partition hanswer hturn := absurd (Except.ok.inj hanswer).symm hturn
  lowest _ partition hanswer := by
    obtain rfl : none = partition := Except.ok.inj hanswer
    exact le_rfl

theorem handleable_mint : Handleable mintNode parser.settings setOrder "partial:0x01" := by
  refine ⟨.partialMode, "0x01", transaction (some holder), mintReceipt, by decide, rfl, rfl, ?_⟩
  exact ⟨fun _ haddress _ _ => ⟨_, if_pos (isChecksumAddress_of_mem_handledAddresses haddress)⟩,
    fun _ => ⟨[], rfl⟩⟩

/-- The only message is that of the transaction. -/
def OnlyMint (cluster : Cluster) : Prop :=
  ∀ message, (∃ partition, message ∈ cluster.log partition) ↔ message = "partial:0x01"

/-- A producer has sent the message, and nobody has read it. -/
theorem reaches_sentCluster : ∃ cluster, KafkaCluster.Reaches mintNode clean cluster ∧
    OnlyMint cluster ∧ cluster.tasks = [] := by
  have hrun := runIn_answering mintChain 9 mintConfig
  have hlists := lists_of_runIn (cooperative_answering mintChain none fun _ _ => none)
    chainOf_mintChain hrun
  have hgoes := goesTo_of_runIn (namesPartitions_answering mintChain none fun _ _ => none) hrun
  obtain ⟨producer, _, _, hcontinues⟩ := @continues_produce _ mintNode clean _ _ _ _ _ []
    (fun _ => []) (fun _ => 0) (fun _ => none) [] .empty hrun
    fun event hevent => ⟨hlists event hevent, hgoes event hevent⟩
  refine ⟨_, hcontinues, ?_, rfl⟩
  have hsent : mintEvents.flatMap (sent false) = ["partial:0x01"] := by decide
  obtain ⟨added, hlog, hadded⟩ := exists_appended mintEvents fun _ => []
  intro message
  have hmessage : (∃ partition, message ∈ mintEvents.foldl append (fun _ => []) partition) ↔
      message ∈ ["partial:0x01"] := by
    rw [hlog, ← hsent]
    exact hadded message
  exact hmessage.trans List.mem_singleton

/-- A consumer has joined, handled the message and committed its position. -/
theorem reaches_mintCluster : ∃ cluster, KafkaCluster.Reaches mintNode clean cluster ∧
    OnlyMint cluster ∧
    (∀ partition, cluster.committed partition = (cluster.log partition).length) ∧
    (∀ task ∈ cluster.tasks, interrupted task.1.state = false) ∧
    SameSettings (cluster.tasks.map Prod.snd) parser.settings := by
  obtain ⟨⟨producers, log, committed, owner, tasks, db⟩, hreaches, hmint, rfl⟩ :=
    @reaches_sentCluster clean
  have hconsistent := consistent_of_reaches hreaches
  obtain ⟨member, consumer, owner', db', hsettings, hlistening, _, _, hcontinues⟩ :=
    @continues_join _ mintNode clean parser.settings setOrder log committed producers owner db []
      hconsistent.bounded (committed_le_length hconsistent.group) (fun _ _ htask => by cases htask)
      fun partition offset message _ hmessage => by
        obtain rfl := (hmint message).mp ⟨partition, List.mem_of_getElem? hmessage⟩
        exact handleable_mint
  refine ⟨_, hreaches.trans hcontinues, hmint, fun _ => rfl, ?_, ?_⟩
  · refine List.forall_mem_singleton.mpr ?_
    rw [interrupted, hlistening]
  · exact List.forall_mem_singleton.mpr hsettings

end Deployment

end BlockchainDataCollection.ClusterProgress
