import BlockchainDataCollection.Consumer.Membership
import BlockchainDataCollection.System.Pipeline

/-!
# The pipeline on Kafka

The producers, the partitions of the topic with the offsets of the consumer
group, the two tasks of every consumer and its callback, and the database.  The
consumers run side by side, join at any time and may stop at any point, and the
partitions move between them.  Everything that happens here is a run of the
pipeline, in which a message may be retrieved any number of times.
-/

namespace BlockchainDataCollection.KafkaCluster

open BlockchainDataCollection.Effect
open BlockchainDataCollection.Effect.Program (Truthful)
open BlockchainDataCollection.Python
open BlockchainDataCollection.Data
open BlockchainDataCollection.Parser
open BlockchainDataCollection.Storage
open BlockchainDataCollection.Processing
open BlockchainDataCollection.Consuming
open BlockchainDataCollection.KafkaConsumer
open BlockchainDataCollection.KafkaProducer
open BlockchainDataCollection.DataProducer
open BlockchainDataCollection.Membership
open BlockchainDataCollection.Pipeline

/-! ## Actions apart from the callback -/

/-- An action of the two tasks that neither starts nor ends a callback. -/
def Bare : ConsumerAction → Prop
  | .decrement _ (.ok _) => False
  | .callback _ _ => False
  | _ => True

/-- A bare action does not start a callback. -/
theorem listening_of_bare {state : ConsumerState} {action : ConsumerAction} (hbare : Bare action)
    {event : KafkaEvent} (h : (effect state action).listening = .handling event) :
    state.listening = .handling event := by
  cases action with
  | decrement other answer =>
      cases answer with
      | ok _ => exact hbare.elim
      | error error => cases h
  | callback other answer => exact hbare.elim
  | retrieve other => cases h
  | retrieveFails error => cases h
  | stopIteration => cases h
  | _ => exact h

theorem completed_of_bare {state : ConsumerState} {action : ConsumerAction} (hbare : Bare action) :
    (effect state action).completed = state.completed := by
  cases action with
  | decrement other answer =>
      cases answer with
      | ok _ => exact hbare.elim
      | error error => rfl
  | callback other answer => exact hbare.elim
  | _ => rfl

theorem isPrefix_update (log : ℕ → List String) (partition : ℕ) (messages : List String)
    (other : ℕ) :
    (log other).IsPrefix (Function.update log partition (log partition ++ messages) other) := by
  by_cases h : other = partition
  · rw [h, Function.update_self]
    exact List.prefix_append _ _
  · rw [Function.update_of_ne h]

theorem exists_mem_update_iff {log : ℕ → List String} {partition : ℕ} {messages : List String}
    {message : String} :
    (∃ other, message ∈ Function.update log partition (log partition ++ messages) other) ↔
      (∃ other, message ∈ log other) ∨ message ∈ messages := by
  constructor
  · rintro ⟨other, hmem⟩
    by_cases h : other = partition
    · rw [h, Function.update_self, List.mem_append] at hmem
      exact hmem.imp_left fun hmem => ⟨partition, hmem⟩
    · rw [Function.update_of_ne h] at hmem
      exact .inl ⟨other, hmem⟩
  · rintro (⟨other, hmem⟩ | hmem)
    · exact ⟨other, (isPrefix_update log partition messages other).subset hmem⟩
    · exact ⟨partition, by simp [hmem]⟩

/-! ## The steps of the cluster -/

section Steps

variable [ChecksumSpelling]

structure Cluster where
  producers : List Producer
  /-- The messages of each partition. -/
  log : ℕ → List String
  /-- The committed offsets of the consumer group. -/
  committed : ℕ → ℕ
  /-- The member that a partition is assigned to, by its index. -/
  owner : ℕ → Option ℕ
  /-- The consumers with their callbacks. -/
  tasks : List (Member × Worker)
  db : Database

def Cluster.group (cluster : Cluster) : ConsumerGroup where
  committed := cluster.committed
  owner := cluster.owner
  members := cluster.tasks.map Prod.fst

/-- An empty topic without consumers. -/
def Cluster.start : Cluster where
  producers := []
  log _ := []
  committed _ := 0
  owner _ := none
  tasks := []
  db := .empty

/-- A batch goes to the partition it names. -/
def GoesTo (partition : ℕ) (event : ProducerEvent) : Prop :=
  ∀ messages target, event.op = .sendBatch messages target → target = partition

/-- A step of the cluster.  Failed calls may have had their effect.  A consumer stops
where it takes no more steps, and another one may join in its place. -/
inductive Step (node : Node) (clean : Prop) : Cluster → Cluster → Prop
  | startProducer (fuel cfg producers log committed owner tasks db) :
      Step node clean ⟨producers, log, committed, owner, tasks, db⟩
        ⟨producers ++ [.start fuel cfg], log, committed, owner, tasks, db⟩
  | produce (before producer after answers event landed partition log committed owner tasks db) :
      producer.process.nextEvent answers = some event → Lists node event →
      GoesTo partition event →
      Step node clean ⟨before ++ producer :: after, log, committed, owner, tasks, db⟩
        ⟨before ++ producer.resume answers :: after,
          Function.update log partition (log partition ++ sent landed event), committed, owner,
          tasks, db.executeAll (stored landed event)⟩
  | join (settings setOrder producers log committed owner tasks db) :
      Step node clean ⟨producers, log, committed, owner, tasks, db⟩
        ⟨producers, log, committed, owner, tasks ++ [(.start, .idle (.start settings setOrder))],
          db⟩
  | assign (producers log committed owner owner' tasks db) :
      (clean → ∀ task ∈ tasks, task.1.reader.Settled committed) →
      Step node clean ⟨producers, log, committed, owner, tasks, db⟩
        ⟨producers, log, committed, owner', tasks.map (Prod.map Member.revoke id), db⟩
  | adopt (before member worker after producers log committed owner db) :
      member.current = false → member.state.closed = false →
      Step node clean ⟨producers, log, committed, owner, before ++ (member, worker) :: after, db⟩
        ⟨producers, log, committed, owner, before ++ (member.adopt committed
          (fun partition => owner partition = some before.length), worker) :: after, db⟩
  | act (before member worker after action producers log committed committed' owner db) :
      Enabled log member.state action → member.Yields clean action →
      member.CommitsTo action committed committed' → Bare action →
      Step node clean ⟨producers, log, committed, owner, before ++ (member, worker) :: after, db⟩
        ⟨producers, log, committed', owner, before ++ (member.act action, worker) :: after, db⟩
  | call (before member consumer after event producers log committed owner db) :
      Enabled log member.state (.decrement event (.ok ())) →
      Step node clean
        ⟨producers, log, committed, owner, before ++ (member, .idle consumer) :: after, db⟩
        ⟨producers, log, committed, owner, before ++ (member.act (.decrement event (.ok ())),
          .handling (.start consumer event.value)) :: after, db⟩
  | handle (before member handling after answers event landed producers log committed owner db) :
      handling.process.nextEvent answers = some event → Truthful node.answer event →
      Step node clean
        ⟨producers, log, committed, owner, before ++ (member, .handling handling) :: after, db⟩
        ⟨producers, log, committed, owner,
          before ++ (member, .handling (handling.resume answers)) :: after,
          db.executeAll (saved landed event)⟩
  | returns (before member handling after value hdone event producers log committed owner db) :
      Enabled log member.state (.callback event (.ok ())) →
      Step node clean
        ⟨producers, log, committed, owner, before ++ (member, .handling handling) :: after, db⟩
        ⟨producers, log, committed, owner, before ++ (member.act (.callback event (.ok ())),
          .idle (handling.finish value hdone)) :: after, db⟩
  | raises (before member handling after error event producers log committed owner db) :
      handling.process.rest = .raise error →
      Enabled log member.state (.callback event (.error error)) →
      Step node clean
        ⟨producers, log, committed, owner, before ++ (member, .handling handling) :: after, db⟩
        ⟨producers, log, committed, owner, before ++ (member.act (.callback event (.error error)),
          .handling handling) :: after, db⟩

/-- The states of the cluster, whose handovers may have to be clean. -/
def Reaches (node : Node) (clean : Prop) (cluster : Cluster) : Prop :=
  Relation.ReflTransGen (Step node clean) .start cluster

/-! ## The group -/

/-- The consumers act as members of a group on what is in the topic by now, and a
callback has the message that its listening task waits for. -/
structure Consistent (clean : Prop) (cluster : Cluster) : Prop where
  group : Membership.Reaches cluster.log clean cluster.group
  handling : ∀ task ∈ cluster.tasks, ∀ event, task.1.state.listening = .handling event →
    ∃ handling, task.2 = .handling handling ∧ handling.event = event.value
  /-- Only finitely many partitions have messages. -/
  bounded : ∃ bound, ∀ partition, bound ≤ partition → cluster.log partition = []

theorem consistent_start (clean : Prop) : Consistent clean Cluster.start where
  group := .refl
  handling _ h := by cases h
  bounded := ⟨0, fun _ _ => rfl⟩

variable {node : Node} {clean : Prop} {cluster cluster' : Cluster}

/-- A step is one of the group, or leaves it as it is. -/
theorem group_step (hstep : Step node clean cluster cluster') :
    cluster'.log = cluster.log ∧
        Membership.Step cluster.log clean cluster.group cluster'.group ∨
      cluster'.group = cluster.group ∧
        ∀ partition, (cluster.log partition).IsPrefix (cluster'.log partition) := by
  cases hstep with
  | startProducer => exact .inr ⟨rfl, fun _ => List.prefix_rfl⟩
  | produce _ _ _ _ event landed partition log =>
      exact .inr ⟨rfl, isPrefix_update log partition (sent landed event)⟩
  | join settings setOrder producers log committed owner tasks =>
      refine .inl ⟨rfl, ?_⟩
      simp only [Cluster.group, List.map_append]
      exact .join committed owner (tasks.map Prod.fst)
  | assign producers log committed owner owner' tasks db hsettled =>
      have hrevoked : (tasks.map (Prod.map Member.revoke id)).map Prod.fst =
          (tasks.map Prod.fst).map Member.revoke := by
        rw [List.map_map, List.map_map]
        rfl
      refine .inl ⟨rfl, ?_⟩
      simp only [Cluster.group, hrevoked]
      exact .assign committed owner owner' _ fun hclean =>
        List.forall_mem_map.mpr (hsettled hclean)
  | adopt before member worker after producers log committed owner db hcurrent hclosed =>
      have hadopt := @Membership.Step.adopt log clean committed owner (before.map Prod.fst) member
        (after.map Prod.fst) hcurrent hclosed
      rw [List.length_map] at hadopt
      refine .inl ⟨rfl, ?_⟩
      simp only [Cluster.group, List.map_append, List.map_cons]
      exact hadopt
  | act before member worker after action producers log committed committed' owner db henabled
      hyields hcommits =>
      refine .inl ⟨rfl, ?_⟩
      simp only [Cluster.group, List.map_append, List.map_cons]
      exact .act committed committed' owner _ member _ action henabled hyields hcommits
  | call before member consumer after event producers log committed owner db henabled =>
      refine .inl ⟨rfl, ?_⟩
      simp only [Cluster.group, List.map_append, List.map_cons]
      exact .act committed committed owner _ member _ _ henabled
        (fun _ hevent => by cases hevent) (.inl rfl)
  | handle =>
      refine .inr ⟨?_, fun _ => List.prefix_rfl⟩
      simp only [Cluster.group, List.map_append, List.map_cons]
  | returns before member handling after value hdone event producers log committed owner db
      henabled =>
      refine .inl ⟨rfl, ?_⟩
      simp only [Cluster.group, List.map_append, List.map_cons]
      exact .act committed committed owner _ member _ _ henabled
        (fun _ hevent => by cases hevent) (.inl rfl)
  | raises before member handling after error event producers log committed owner db hraised
      henabled =>
      refine .inl ⟨rfl, ?_⟩
      simp only [Cluster.group, List.map_append, List.map_cons]
      exact .act committed committed owner _ member _ _ henabled
        (fun _ hevent => by cases hevent) (.inl rfl)

theorem group_of_step (hstep : Step node clean cluster cluster')
    (h : Membership.Reaches cluster.log clean cluster.group) :
    Membership.Reaches cluster'.log clean cluster'.group := by
  rcases group_step hstep with ⟨hlog, hgroup⟩ | ⟨hgroup, hgrows⟩
  · rw [hlog]
    exact h.tail hgroup
  · rw [hgroup]
    exact h.mono hgrows

theorem bounded_of_step (hstep : Step node clean cluster cluster')
    (h : ∃ bound, ∀ partition, bound ≤ partition → cluster.log partition = []) :
    ∃ bound, ∀ partition, bound ≤ partition → cluster'.log partition = [] := by
  rcases group_step hstep with ⟨hlog, _⟩ | _
  · rwa [hlog]
  · cases hstep with
    | produce _ _ _ _ event landed target log =>
        obtain ⟨bound, hbound⟩ := h
        refine ⟨max bound (target + 1), fun partition hpartition => ?_⟩
        have hother : partition ≠ target :=
          (Nat.lt_of_succ_le (le_of_max_le_right hpartition)).ne'
        exact (Function.update_of_ne hother _ _).trans
          (hbound partition (le_of_max_le_left hpartition))
    | _ => exact h

/-- The callbacks after one consumer has taken a step. -/
theorem handling_of_replaced {before after : List (Member × Worker)}
    {task task' : Member × Worker}
    (h : ∀ other ∈ before ++ task :: after, ∀ event, other.1.state.listening = .handling event →
      ∃ handling, other.2 = .handling handling ∧ handling.event = event.value)
    (htask : ∀ event, task'.1.state.listening = .handling event →
      ∃ handling, task'.2 = .handling handling ∧ handling.event = event.value) :
    ∀ other ∈ before ++ task' :: after, ∀ event, other.1.state.listening = .handling event →
      ∃ handling, other.2 = .handling handling ∧ handling.event = event.value := by
  intro other hother
  rcases ReaderGroup.mem_replaced hother with rfl | hother
  · exact htask
  · exact h other hother

/-- Step lemma: every step keeps the group and its callbacks together. -/
theorem consistent_step (hstep : Step node clean cluster cluster') (h : Consistent clean cluster) :
    Consistent clean cluster' := by
  refine ⟨group_of_step hstep h.group, ?_, bounded_of_step hstep h.bounded⟩
  cases hstep with
  | startProducer => exact h.handling
  | produce => exact h.handling
  | join settings setOrder producers log committed owner tasks =>
      refine List.forall_mem_append.mpr ⟨h.handling, List.forall_mem_singleton.mpr ?_⟩
      intro event hlistening
      cases hlistening
  | assign => exact List.forall_mem_map.mpr fun task htask => h.handling task htask
  | adopt before member worker after =>
      exact handling_of_replaced h.handling fun event hlistening =>
        h.handling (member, worker) (by simp) event hlistening
  | act before member worker after action producers log committed committed' owner db henabled
      hyields hcommits hbare =>
      exact handling_of_replaced h.handling fun event hlistening =>
        h.handling (member, worker) (by simp) event (listening_of_bare hbare hlistening)
  | call before member consumer after event =>
      refine handling_of_replaced h.handling fun other hlistening => ?_
      obtain rfl : event = other := ListeningTask.handling.inj hlistening
      exact ⟨_, rfl, rfl⟩
  | handle before member handling after =>
      refine handling_of_replaced h.handling fun event hlistening => ?_
      obtain ⟨_, hworker, hevent⟩ :=
        h.handling (member, .handling handling) (by simp) event hlistening
      obtain rfl := Worker.handling.inj hworker
      exact ⟨_, rfl, hevent⟩
  | returns => exact handling_of_replaced h.handling fun _ hlistening => by cases hlistening
  | raises => exact handling_of_replaced h.handling fun _ hlistening => by cases hlistening

theorem consistent_of_reaches (hreaches : Reaches node clean cluster) :
    Consistent clean cluster := by
  induction hreaches with
  | refl => exact consistent_start clean
  | tail _ hstep ih => exact consistent_step hstep ih

end Steps

/-! ## The pipeline -/

section Refinement

variable [ChecksumSpelling] {node : Node} {clean : Prop} {cluster cluster' : Cluster}
  {system : System}

/-- The consumers are the same, the messages of all partitions are those of the topic,
and what the consumers completed was handled. -/
structure Represents (cluster : Cluster) (system : System) : Prop where
  producers : system.producers = cluster.producers
  db : system.db = cluster.db
  topic : ∀ message, message ∈ system.topic ↔ ∃ partition, message ∈ cluster.log partition
  workers : system.workers = cluster.tasks.map Prod.snd
  completed : ∀ task ∈ cluster.tasks, ∀ event ∈ task.1.state.completed,
    event.value ∈ system.handled

/-- What the consumers completed, after one of them has taken a step. -/
theorem completed_of_replaced {before after : List (Member × Worker)}
    {task task' : Member × Worker} {handled : List String}
    (h : ∀ other ∈ before ++ task :: after, ∀ event ∈ other.1.state.completed,
      event.value ∈ handled)
    (htask : ∀ event ∈ task'.1.state.completed,
      event ∈ task.1.state.completed ∨ event.value ∈ handled) :
    ∀ other ∈ before ++ task' :: after, ∀ event ∈ other.1.state.completed,
      event.value ∈ handled := by
  intro other hother event hevent
  rcases ReaderGroup.mem_replaced hother with rfl | hother
  · exact (htask event hevent).elim (h task (by simp) event) id
  · exact h other hother event hevent

/-- The message that a listening task holds is in the topic. -/
theorem mem_log_of_current (h : Consistent clean cluster) {task : Member × Worker}
    (htask : task ∈ cluster.tasks) {event : KafkaEvent}
    (hcurrent : event ∈ task.1.state.listening.current) :
    event.value ∈ cluster.log event.partition := by
  have hmember := members_of_reaches h.group task.1 (List.mem_map_of_mem htask)
  exact List.mem_of_getElem? (hmember.inTopic event (hmember.mem_retrieved_of_current hcurrent))

theorem represents_start (node : Node) :
    ∃ system, Pipeline.Reaches node system ∧ Represents (Cluster.start) system := by
  refine ⟨.start, .refl, rfl, rfl, ?_, rfl, fun _ h => by cases h⟩
  simp [Cluster.start, System.start]

/-- Step lemma: the pipeline follows a step of the cluster with at most one of its own. -/
theorem represents_step (hconsistent : Consistent clean cluster)
    (hstep : KafkaCluster.Step node clean cluster cluster') (h : Represents cluster system) :
    ∃ system', Relation.ReflTransGen (Pipeline.Step node) system system' ∧
      Represents cluster' system' := by
  obtain ⟨producers, topic, workers, handled, db⟩ := system
  obtain ⟨hproducers, hdb, htopic, hworkers, hcompleted⟩ := h
  cases hstep with
  | startProducer fuel cfg producers' log committed owner tasks db' =>
      obtain ⟨rfl, rfl⟩ : producers = producers' ∧ db = db' := ⟨hproducers, hdb⟩
      exact ⟨_, .single (.startProducer fuel cfg producers topic workers handled db), rfl, rfl,
        htopic, hworkers, hcompleted⟩
  | produce before producer after answers event landed partition log committed owner tasks db'
      hnext hlists hgoes =>
      obtain ⟨rfl, rfl⟩ : producers = before ++ producer :: after ∧ db = db' := ⟨hproducers, hdb⟩
      refine ⟨_, .single (.produce before producer after answers event landed topic workers handled
        db hnext hlists), rfl, rfl, ?_, hworkers, hcompleted⟩
      intro message
      rw [List.mem_append, htopic message, exists_mem_update_iff]
  | join settings setOrder producers' log committed owner tasks db' =>
      refine ⟨_, .single (.startConsumer settings setOrder producers topic workers handled db),
        hproducers, hdb, htopic, ?_, ?_⟩
      · rw [List.map_append]
        exact congrArg (· ++ _) hworkers
      · refine List.forall_mem_append.mpr ⟨hcompleted, List.forall_mem_singleton.mpr ?_⟩
        intro event hevent
        cases hevent
  | assign producers' log committed owner owner' tasks db' =>
      refine ⟨_, .refl, hproducers, hdb, htopic, ?_, List.forall_mem_map.mpr hcompleted⟩
      rw [List.map_map]
      exact hworkers
  | adopt before member worker after producers' log committed owner db' =>
      refine ⟨_, .refl, hproducers, hdb, htopic, ?_,
        completed_of_replaced hcompleted fun _ hevent => .inl hevent⟩
      rw [List.map_append] at hworkers ⊢
      exact hworkers
  | act before member worker after action producers' log committed committed' owner db' henabled
      hyields hcommits hbare =>
      refine ⟨_, .refl, hproducers, hdb, htopic, ?_,
        completed_of_replaced hcompleted fun event hevent => .inl ?_⟩
      · rw [List.map_append] at hworkers ⊢
        exact hworkers
      · exact completed_of_bare hbare ▸ hevent
  | call before member consumer after event producers' log committed owner db' henabled =>
      simp only [List.map_append, List.map_cons] at hworkers
      obtain rfl := hworkers
      have hcurrent : event ∈ member.state.listening.current := by
        rw [show member.state.listening = .decrementing event from henabled]
        rfl
      have hmem : event.value ∈ topic := (htopic _).mpr
        ⟨_, mem_log_of_current hconsistent (List.mem_append_right _ List.mem_cons_self) hcurrent⟩
      refine ⟨_, .single (.retrieve _ consumer _ event.value producers topic handled db hmem),
        hproducers, hdb, htopic, ?_, completed_of_replaced hcompleted fun _ hevent => .inl hevent⟩
      rw [List.map_append]
      rfl
  | handle before member handling after answers event landed producers' log committed owner db'
      hnext htruthful =>
      simp only [List.map_append, List.map_cons] at hworkers
      obtain rfl := hworkers
      obtain rfl : db = db' := hdb
      refine ⟨_, .single (.consume _ handling _ answers event landed producers topic handled db
        hnext htruthful), hproducers, rfl, htopic, ?_,
        completed_of_replaced hcompleted fun _ hevent => .inl hevent⟩
      rw [List.map_append]
      rfl
  | returns before member handling after value hdone event producers' log committed owner db'
      henabled =>
      simp only [List.map_append, List.map_cons] at hworkers
      obtain rfl := hworkers
      obtain ⟨_, hworker, hevent⟩ := hconsistent.handling (member, .handling handling)
        (List.mem_append_right _ List.mem_cons_self) event henabled
      obtain rfl := Worker.handling.inj hworker
      refine ⟨_, .single (.finish _ handling _ value hdone producers topic handled db), hproducers,
        hdb, htopic, ?_, ?_⟩
      · rw [List.map_append]
        rfl
      · have hmore : ∀ task ∈ before ++ (member, Worker.handling handling) :: after,
            ∀ other ∈ task.1.state.completed, other.value ∈ handling.event :: handled :=
          fun task htask other hother => List.mem_cons_of_mem _ (hcompleted task htask other hother)
        refine completed_of_replaced hmore fun other hother => ?_
        rcases List.mem_cons.mp hother with rfl | hother
        · exact .inr (List.mem_cons.mpr (.inl hevent.symm))
        · exact .inl hother
  | raises before member handling after error event producers' log committed owner db' hraised
      henabled =>
      refine ⟨_, .refl, hproducers, hdb, htopic, ?_,
        completed_of_replaced hcompleted fun _ hevent => .inl hevent⟩
      rw [List.map_append] at hworkers ⊢
      exact hworkers

/-- Run lemma: the pipeline follows every run of the cluster. -/
theorem exists_followed (hconsistent : Consistent clean cluster)
    (hrepresents : Represents cluster system)
    (hrun : Relation.ReflTransGen (KafkaCluster.Step node clean) cluster cluster') :
    ∃ system', Relation.ReflTransGen (Pipeline.Step node) system system' ∧
      Represents cluster' system' := by
  have hstep : ∀ (cluster cluster' : Cluster) (system : System),
      KafkaCluster.Step node clean cluster cluster' →
      Consistent clean cluster ∧ Represents cluster system →
      ∃ system', Relation.ReflTransGen (Pipeline.Step node) system system' ∧
        Consistent clean cluster' ∧ Represents cluster' system' := by
    rintro cluster cluster' system hstep ⟨hconsistent, hrepresents⟩
    obtain ⟨system', hsteps, hrepresents'⟩ := represents_step hconsistent hstep hrepresents
    exact ⟨system', hsteps, consistent_step hstep hconsistent, hrepresents'⟩
  obtain ⟨system', hsteps, _, hrepresents'⟩ :=
    exists_related_of_reflTransGen hrun ⟨hconsistent, hrepresents⟩ hstep
  exact ⟨system', hsteps, hrepresents'⟩

theorem exists_represented (hreaches : KafkaCluster.Reaches node clean cluster) :
    ∃ system, Pipeline.Reaches node system ∧ Represents cluster system := by
  obtain ⟨first, hfirst, hrepresents⟩ := represents_start node
  obtain ⟨system, hsteps, hrepresents'⟩ :=
    exists_followed (consistent_start clean) hrepresents hreaches
  exact ⟨system, hfirst.trans hsteps, hrepresents'⟩

end Refinement

end BlockchainDataCollection.KafkaCluster
