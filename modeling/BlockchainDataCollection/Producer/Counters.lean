import BlockchainDataCollection.Producer.Sending
import BlockchainDataCollection.Producer.Sharing

/-!
# The counters and the topic

What producers have appended and not counted yet, and what consumers have taken
and not decremented yet, makes up the difference between the counters of Redis
and the messages that wait in the topic.
-/

namespace BlockchainDataCollection.Counters

open BlockchainDataCollection.Effect
open BlockchainDataCollection.Python
open BlockchainDataCollection.Storage
open BlockchainDataCollection.KafkaProducer
open BlockchainDataCollection.KafkaConsumer
open BlockchainDataCollection.Sending
open BlockchainDataCollection.Sharing

/-! ## Weights of messages -/

/-- The sum over some messages of the weights of their partitions. -/
def weightOf (weight : ℤ → ℤ) (events : List KafkaEvent) : ℤ :=
  (events.map fun event => weight event.partition).sum

@[simp]
theorem weightOf_nil (weight : ℤ → ℤ) : weightOf weight [] = 0 := rfl

@[simp]
theorem weightOf_cons (weight : ℤ → ℤ) (event : KafkaEvent) (events : List KafkaEvent) :
    weightOf weight (event :: events) = weight event.partition + weightOf weight events := by
  rw [weightOf, List.map_cons, List.sum_cons, weightOf]

@[simp]
theorem weightOf_append (weight : ℤ → ℤ) (events events' : List KafkaEvent) :
    weightOf weight (events ++ events') = weightOf weight events + weightOf weight events' := by
  rw [weightOf, List.map_append, List.sum_append, weightOf, weightOf]

theorem weightOf_perm (weight : ℤ → ℤ) {events events' : List KafkaEvent}
    (h : events.Perm events') : weightOf weight events = weightOf weight events' :=
  (h.map _).sum_eq

theorem weightOf_one (events : List KafkaEvent) : weightOf (fun _ => 1) events = events.length := by
  rw [weightOf, List.map_const', List.sum_replicate, nsmul_one]

/-- The weight that counts the messages of one partition. -/
def unit (partition : ℤ) : ℤ → ℤ :=
  fun other => if other = partition then 1 else 0

theorem weightOf_unit (partition : ℤ) (events : List KafkaEvent) :
    weightOf (unit partition) events =
      events.countP fun event => (event.partition : ℤ) = partition := by
  induction events with
  | nil => rfl
  | cons event events ih =>
      rw [weightOf_cons, ih, List.countP_cons, unit, Nat.cast_add, add_comm]
      by_cases h : (event.partition : ℤ) = partition <;> simp [h]

theorem weigh_unit (set : SortedSet ℤ) (partition : ℤ) :
    set.weigh (unit partition) = set.score partition :=
  set.weigh_single partition

/-- What is left of some messages without a part of them. -/
theorem weightOf_filter_notMem (weight : ℤ → ℤ) {part events : List KafkaEvent}
    (hpart : part.Nodup) (hevents : events.Nodup) (hsubset : part ⊆ events) :
    weightOf weight (events.filter (· ∉ part)) = weightOf weight events - weightOf weight part := by
  have hperm : events.Perm (part ++ events.filter (· ∉ part)) := by
    refine (List.perm_ext_iff_of_nodup hevents ?_).mpr fun event => ?_
    · refine hpart.append (hevents.filter _) fun event hevent hother => ?_
      exact of_decide_eq_true (List.mem_filter.mp hother).2 hevent
    · by_cases h : event ∈ part
      · simp [h, hsubset h]
      · simp [h]
  rw [weightOf_perm weight hperm, weightOf_append]
  ring

/-! ## The messages of a topic -/

theorem partition_of_mem_records {topic : List KafkaEvent} {partition : ℕ} {messages : List String}
    {event : KafkaEvent} (h : event ∈ records topic partition messages) :
    event.partition = partition := by
  obtain ⟨_, _, rfl⟩ := List.mem_map.mp h
  rfl

theorem length_records (topic : List KafkaEvent) (partition : ℕ) (messages : List String) :
    (records topic partition messages).length = messages.length := by
  rw [records, List.length_map, List.length_zipIdx]

theorem offsets_records (topic : List KafkaEvent) (partition : ℕ) (messages : List String) :
    (records topic partition messages).map KafkaEvent.offset =
      List.range' (topic.countP fun event => event.partition = partition) messages.length := by
  rw [records, List.map_map, ← List.zipIdx_map_snd]
  rfl

theorem weightOf_records (weight : ℤ → ℤ) (topic : List KafkaEvent) (partition : ℕ)
    (messages : List String) :
    weightOf weight (records topic partition messages) = weight partition * messages.length := by
  have hconst : (records topic partition messages).map (fun event => weight event.partition) =
      List.replicate messages.length (weight partition) := by
    rw [List.eq_replicate_iff, List.length_map, length_records]
    refine ⟨rfl, List.forall_mem_map.mpr fun event hevent => ?_⟩
    rw [partition_of_mem_records hevent]
  rw [weightOf, hconst, List.sum_replicate, nsmul_eq_mul, mul_comm]

/-- The message whose counter a consumer is about to decrement. -/
def decrementing : ListeningTask → Option KafkaEvent
  | .decrementing event => some event
  | _ => none

def pending (listeners : List ListeningTask) : List KafkaEvent :=
  listeners.filterMap decrementing

/-- Nothing is stored or taken twice, and only stored messages are taken. -/
structure Sound (cluster : Cluster) : Prop where
  offsets : ∀ event ∈ cluster.topic,
    event.offset < cluster.topic.countP fun other => other.partition = event.partition
  topic_nodup : cluster.topic.Nodup
  taken_nodup : cluster.taken.Nodup
  taken_subset : cluster.taken ⊆ cluster.topic
  pending_nodup : (pending cluster.listeners).Nodup
  pending_subset : pending cluster.listeners ⊆ cluster.taken

theorem pending_start (consumers : ℕ) : pending (Cluster.start consumers).listeners = [] :=
  List.filterMap_replicate_of_none rfl

theorem Sound.start (consumers : ℕ) : Sound (.start consumers) := by
  constructor
  · exact fun _ h => absurd h List.not_mem_nil
  · exact List.nodup_nil
  · exact List.nodup_nil
  · exact List.nil_subset _
  · rw [pending_start]
    exact List.nodup_nil
  · rw [pending_start]
    exact List.nil_subset _

/-- The appended messages get fresh offsets. -/
theorem Sound.append {cluster : Cluster} (h : Sound cluster) (partition : ℤ)
    (messages : List String) : Sound (cluster.append partition messages) := by
  have hall : ∀ event ∈ records cluster.topic partition.toNat messages,
      (decide (event.partition = partition.toNat)) = true :=
    fun event hevent => decide_eq_true (partition_of_mem_records hevent)
  have hmem : ∀ event ∈ records cluster.topic partition.toNat messages,
      (cluster.topic.countP fun other => other.partition = partition.toNat) ≤ event.offset ∧
        event.offset < (cluster.topic.countP fun other => other.partition = partition.toNat) +
          messages.length := by
    intro event hevent
    have hoffset := List.mem_map_of_mem (f := KafkaEvent.offset) hevent
    rw [offsets_records, List.mem_range'_1] at hoffset
    exact hoffset
  constructor
  · intro event hevent
    rw [Cluster.append, List.countP_append]
    rcases List.mem_append.mp hevent with hold | hnew
    · exact (h.offsets event hold).trans_le (Nat.le_add_right _ _)
    · rw [partition_of_mem_records hnew, List.countP_eq_length.mpr hall, length_records]
      exact (hmem event hnew).2
  · refine h.topic_nodup.append ?_ fun event hold hnew => ?_
    · apply List.Nodup.of_map KafkaEvent.offset
      rw [offsets_records]
      exact List.nodup_range'
    · have hlt := h.offsets event hold
      rw [partition_of_mem_records hnew] at hlt
      exact absurd hlt (not_lt.mpr (hmem event hnew).1)
  · exact h.taken_nodup
  · exact List.Subset.trans h.taken_subset (List.subset_append_left _ _)
  · exact h.pending_nodup
  · exact h.pending_subset

theorem Sound.serve {managerOf : ℕ → ℕ} {cluster : Cluster} (h : Sound cluster) (task : ℕ)
    (event : ProducerEvent) : Sound (Sharing.serve managerOf cluster task event) := by
  rw [Sharing.serve.eq_def]
  split
  · exact ⟨h.offsets, h.topic_nodup, h.taken_nodup, h.taken_subset, h.pending_nodup,
      h.pending_subset⟩
  · exact h.append _ _
  · exact h.append _ _
  · exact ⟨h.offsets, h.topic_nodup, h.taken_nodup, h.taken_subset, h.pending_nodup,
      h.pending_subset⟩
  · exact h

/-- One consumer changes its state. -/
theorem perm_pending_set {listeners : List ListeningTask} {listener : ℕ} {old : ListeningTask}
    (h : listeners[listener]? = some old) (new : ListeningTask) :
    ∃ others, (pending listeners).Perm ((decrementing old).toList ++ others) ∧
      (pending (listeners.set listener new)).Perm ((decrementing new).toList ++ others) := by
  obtain ⟨before, after, rfl, rfl⟩ := exists_append_of_getElem? h
  have hpending : ∀ task, (pending (before ++ task :: after)).Perm
      ((decrementing task).toList ++ (pending before ++ pending after)) := by
    intro task
    rw [pending, List.filterMap_append, ← List.singleton_append, List.filterMap_append,
      ← List.append_assoc, ← List.append_assoc]
    have hsingle : [task].filterMap decrementing = (decrementing task).toList := by
      cases htask : decrementing task <;> simp [htask]
    rw [hsingle]
    exact List.perm_append_comm.append_right _
  refine ⟨_, hpending old, ?_⟩
  rw [List.set_append_right _ _ le_rfl, Nat.sub_self, List.set_cons_zero]
  exact hpending new

theorem Sound.act {cluster : Cluster} (h : Sound cluster) {action : ConsumerStep}
    (hacts : Acts cluster action) : Sound (Sharing.act cluster action) := by
  cases action with
  | retrieve listener event =>
      obtain ⟨hlistener, htopic, htaken⟩ := hacts
      obtain ⟨others, hold, hnew⟩ := perm_pending_set hlistener (.decrementing event)
      have hothers : others ⊆ cluster.taken :=
        List.Subset.trans hold.symm.subset h.pending_subset
      have hevent : event ∉ others := fun hmem => htaken (hothers hmem)
      constructor
      · exact h.offsets
      · exact h.topic_nodup
      · exact List.nodup_cons.mpr ⟨htaken, h.taken_nodup⟩
      · exact List.cons_subset.mpr ⟨htopic, h.taken_subset⟩
      · exact hnew.nodup_iff.mpr (List.nodup_cons.mpr ⟨hevent, hold.nodup_iff.mp h.pending_nodup⟩)
      · exact List.Subset.trans hnew.subset (List.cons_subset_cons _ hothers)
  | decrement listener event =>
      obtain ⟨others, hold, hnew⟩ := perm_pending_set hacts (.handling event)
      constructor
      · exact h.offsets
      · exact h.topic_nodup
      · exact h.taken_nodup
      · exact h.taken_subset
      · exact hnew.nodup_iff.mpr (List.nodup_cons.mp (hold.nodup_iff.mp h.pending_nodup)).2
      · exact List.Subset.trans hnew.subset
          (List.Subset.trans (List.subset_cons_self _ _)
            (List.Subset.trans hold.symm.subset h.pending_subset))
  | callback listener event =>
      obtain ⟨others, hold, hnew⟩ := perm_pending_set hacts .retrieving
      have hperm := hnew.trans hold.symm
      constructor
      · exact h.offsets
      · exact h.topic_nodup
      · exact h.taken_nodup
      · exact h.taken_subset
      · exact hperm.nodup_iff.mpr h.pending_nodup
      · exact List.Subset.trans hperm.subset h.pending_subset

/-! ## Conservation -/

/-- The weight of what a task has appended and not counted. -/
def owed (weight : ℤ → ℤ) (phase : Phase) : ℤ :=
  match phase.stage with
  | .owing partition amount => weight partition * amount
  | _ => 0

/-- The counters and what is still to be counted make up the topic, without
what was decremented. -/
structure Conserved (cluster : Cluster) (phases : List Phase) : Prop where
  sound : Sound cluster
  balance : ∀ weight, cluster.redis.weigh weight + (phases.map (owed weight)).sum +
      weightOf weight cluster.taken =
    weightOf weight cluster.topic + weightOf weight (pending cluster.listeners)

theorem owed_afterSend (weight : ℤ → ℤ) (remaining amount : ℕ) (record : Option RecordMetadata) :
    owed weight ⟨remaining, .afterSend amount record⟩ =
      match record with
      | some record => weight record.partition * amount
      | none => 0 := by
  cases record <;> rfl

theorem weightOf_append_topic (weight : ℤ → ℤ) (cluster : Cluster) {partition : ℤ}
    (hpartition : 0 ≤ partition) (messages : List String) :
    weightOf weight (cluster.append partition messages).topic =
      weightOf weight cluster.topic + weight partition * messages.length := by
  rw [Cluster.append, weightOf_append, weightOf_records, Int.toNat_of_nonneg hpartition]

/-- An answered call moves weight between its task, the counters and the topic. -/
theorem balance_serve {gate : Gate} {managerOf : ℕ → ℕ} {cluster : Cluster} {task : ℕ}
    {phase phase' : Phase} {event : ProducerEvent} (hserves : Serves managerOf cluster task event)
    (hadvance : Advance gate phase event phase') (weight : ℤ → ℤ) :
    (serve managerOf cluster task event).redis.weigh weight + owed weight phase' +
        weightOf weight cluster.topic =
      cluster.redis.weigh weight + owed weight phase +
        weightOf weight (serve managerOf cluster task event).topic := by
  cases hadvance with
  | @error phase op _ => cases op <;> exact hserves.elim
  | @send _ _ message record =>
      cases record with
      | some record =>
          rw [owed_afterSend, serve, weightOf_append_topic weight cluster hserves]
          simp only [owed, Cluster.append, List.length_singleton]
          ring
      | none => exact hserves.elim
  | @sendBatch _ _ partition messages record =>
      cases record with
      | some record =>
          rw [owed_afterSend, serve, weightOf_append_topic weight cluster hserves]
          simp only [owed, Cluster.append]
          ring
      | none => rfl
  | @count _ partition amount =>
      simp only [serve, owed, SortedSet.weigh_incrBy]
      ring
  | _ => rfl

theorem serve_taken (managerOf : ℕ → ℕ) (cluster : Cluster) (task : ℕ) (event : ProducerEvent) :
    (serve managerOf cluster task event).taken = cluster.taken := by
  rw [serve.eq_def]
  split <;> rfl

theorem serve_listeners (managerOf : ℕ → ℕ) (cluster : Cluster) (task : ℕ)
    (event : ProducerEvent) :
    (serve managerOf cluster task event).listeners = cluster.listeners := by
  rw [serve.eq_def]
  split <;> rfl

theorem Conserved.start (consumers : ℕ) : Conserved (.start consumers) [] := by
  refine ⟨.start consumers, fun weight => ?_⟩
  rw [pending_start]
  simp [Cluster.start, SortedSet.empty, SortedSet.weigh]

/-- A task that starts owes nothing. -/
theorem Conserved.grow {cluster : Cluster} {phases : List Phase} (h : Conserved cluster phases) :
    Conserved cluster (phases ++ [.rest]) := by
  refine ⟨h.sound, fun weight => ?_⟩
  rw [List.map_append, List.sum_append, ← h.balance weight]
  simp [owed, Phase.rest]

theorem Conserved.call {gate : Gate} {managerOf : ℕ → ℕ} {cluster : Cluster}
    {before after : List Phase} {phase phase' : Phase} {task : ℕ} {event : ProducerEvent}
    (h : Conserved cluster (before ++ phase :: after))
    (hserves : Serves managerOf cluster task event)
    (hadvance : Advance gate phase event phase') :
    Conserved (serve managerOf cluster task event) (before ++ phase' :: after) := by
  refine ⟨h.sound.serve task event, fun weight => ?_⟩
  have hbalance := h.balance weight
  have hserve := balance_serve hserves hadvance weight
  rw [serve_taken, serve_listeners]
  simp only [List.map_append, List.map_cons, List.sum_append, List.sum_cons] at hbalance ⊢
  linarith

theorem Conserved.act {cluster : Cluster} {phases : List Phase} (h : Conserved cluster phases)
    {action : ConsumerStep} (hacts : Acts cluster action) :
    Conserved (Sharing.act cluster action) phases := by
  refine ⟨h.sound.act hacts, fun weight => ?_⟩
  have hbalance := h.balance weight
  cases action with
  | retrieve listener event =>
      obtain ⟨others, hold, hnew⟩ := perm_pending_set hacts.1 (.decrementing event)
      rw [weightOf_perm weight hold] at hbalance
      simp only [Sharing.act, weightOf_perm weight hnew, decrementing, Option.toList,
        weightOf_append, weightOf_cons, weightOf_nil] at hbalance ⊢
      linarith
  | decrement listener event =>
      obtain ⟨others, hold, hnew⟩ := perm_pending_set hacts (.handling event)
      rw [weightOf_perm weight hold] at hbalance
      simp only [Sharing.act, weightOf_perm weight hnew, decrementing, Option.toList,
        weightOf_append, weightOf_cons, weightOf_nil, SortedSet.weigh_incrBy] at hbalance ⊢
      linarith
  | callback listener event =>
      obtain ⟨others, hold, hnew⟩ := perm_pending_set hacts .retrieving
      rw [weightOf_perm weight hold] at hbalance
      simp only [Sharing.act, weightOf_perm weight hnew, decrementing, Option.toList,
        weightOf_append, weightOf_nil] at hbalance ⊢
      linarith

/-! ## Runs -/

/-- Only synchronous calls are expected in busy phases. -/
theorem synchronous_of_busy {phase : Phase} {op : ProducerCall} (hexpects : Expects phase op)
    (hbusy : Busy phase) : synchronous op = true := by
  obtain ⟨remaining, stage⟩ := phase
  cases stage with
  | read partition =>
      cases op with
      | setIPartition _ => rfl
      | _ => exact hexpects.elim
  | last partition =>
      cases op with
      | setIPartition _ => rfl
      | _ => exact hexpects.elim
  | _ => exact hbusy.elim

theorem not_busy_of_idle {phase : Phase} (h : phase.stage = .idle) : ¬ Busy phase := by
  rw [Busy, h]
  exact id

/-- What every step keeps holds in all states that are reached: the tasks are in
phases that the invariant relates to the cluster. -/
theorem tracked_of_reaches {gate : Gate} {managerOf : ℕ → ℕ} {Allowed : ProducerEvent → Prop}
    [∀ event, Decidable (Allowed event)] {fuel consumers : ℕ} {calls : List (List Send)}
    {state : Tasks producerSignature PyError Unit Cluster}
    {Invariant : Cluster → List Phase → Prop}
    (hgiven : ∀ event, Allowed event → Given gate event)
    (hadmits : ∀ sequence ∈ calls, ∀ call ∈ sequence, gate.Admits call)
    (hfirst : Invariant (.start consumers) [])
    (hstart : ∀ cluster phases, Invariant cluster phases → phases.length < calls.length →
      Invariant cluster (phases ++ [.rest]))
    (hcall : ∀ cluster before phase after event phase',
      Invariant cluster (before ++ phase :: after) →
      Serves managerOf cluster before.length event → Allowed event →
      Advance gate phase event phase' →
      Invariant (serve managerOf cluster before.length event) (before ++ phase' :: after))
    (hact : ∀ cluster phases action, Invariant cluster phases → Acts cluster action →
      Invariant (act cluster action) phases)
    (h : Machine.Reaches (surroundings managerOf Allowed).machine
      (.init (calls.map (sends fuel)) (.start consumers)) state) :
    ∃ tracks : List (ProducerProgram Unit × Phase),
      tracks.map Prod.fst = state.started ∧
      (∀ track ∈ tracks,
        track.1.Conforms (typestate gate) (fun _ phase => phase.stage = .idle) track.2) ∧
      Invariant state.shared (tracks.map Prod.snd) := by
  have hmaintains : (surroundings managerOf Allowed).Maintains (typestate gate)
      (fun (_ : Unit) phase => phase.stage = .idle) Busy calls.length (fun _ => .rest)
      Invariant := by
    constructor
    · exact fun hserves => hgiven _ hserves.2
    · exact synchronous_of_busy
    · exact not_busy_of_idle
    · exact not_busy_of_idle
    · exact hstart _ _
    · exact fun hinvariant _ _ hserves hadvance =>
        hcall _ _ _ _ _ _ hinvariant hserves.1 hserves.2 hadvance
    · exact hact _ _ _
  obtain ⟨tracks, htracked⟩ := hmaintains.tracked_of_reaches (List.length_map _)
    (conforms_tasks hadmits) hfirst h
  exact ⟨tracks, htracked.started, htracked.conforms, htracked.invariant⟩

/-- A gate that lets every call pass. -/
def anyGate (bound : ℕ) : Gate where
  partitions _ := True
  Room _ := True
  bound := bound
  single := True
  room_zero := trivial
  room_of_le _ _ := trivial

/-- The number of messages of all calls of some tasks. -/
def totalSize (calls : List (List Send)) : ℕ := (calls.flatten.map Send.size).sum

theorem size_le_totalSize {calls : List (List Send)} {sequence : List Send} {call : Send}
    (hsequence : sequence ∈ calls) (hcall : call ∈ sequence) : call.size ≤ totalSize calls :=
  List.single_le_sum (fun _ _ => Nat.zero_le _) _
    (List.mem_map_of_mem (List.mem_flatten_of_mem hsequence hcall))

/-- The weight of what a producer task has appended and not counted yet. -/
def uncounted (weight : ℤ → ℤ) (program : ProducerProgram Unit) : ℤ :=
  match program.nextCall with
  | some (.incrbyNTransactions partition amount) => weight partition * amount
  | _ => 0

theorem owed_eq_uncounted {gate : Gate} {program : ProducerProgram Unit} {phase : Phase}
    (h : program.Conforms (typestate gate) (fun _ phase => phase.stage = .idle) phase)
    (weight : ℤ → ℤ) : owed weight phase = uncounted weight program := by
  have hidle : phase.stage = .idle → owed weight phase = 0 := by
    intro hstage
    rw [owed, hstage]
  cases program with
  | done value => exact hidle h
  | raise error => exact hidle h
  | suspended => exact hidle h
  | call op next =>
      obtain ⟨remaining, stage⟩ := phase
      have hexpects := h.1
      cases op with
      | incrbyNTransactions partition amount =>
          cases stage with
          | owing _ _ =>
              obtain ⟨rfl, rfl⟩ := hexpects
              rfl
          | _ => exact hexpects.elim
      | _ =>
          cases stage with
          | owing _ _ => exact hexpects.elim
          | _ => rfl

/-- The messages whose counter was decremented. -/
def decremented (cluster : Cluster) : List KafkaEvent :=
  cluster.taken.filter (· ∉ pending cluster.listeners)

/-- The messages that no consumer has taken. -/
def untaken (cluster : Cluster) : List KafkaEvent :=
  cluster.topic.filter (· ∉ cluster.taken)

theorem Sound.weightOf_untaken {cluster : Cluster} (h : Sound cluster) (weight : ℤ → ℤ) :
    weightOf weight (untaken cluster) =
      weightOf weight cluster.topic - weightOf weight cluster.taken :=
  weightOf_filter_notMem weight h.taken_nodup h.topic_nodup h.taken_subset

/-- Nothing waits to be counted or to be decremented. -/
structure Settled (state : Tasks producerSignature PyError Unit Cluster) : Prop where
  sends : ∀ program ∈ state.started, ∀ partition amount,
    program.nextCall ≠ some (.incrbyNTransactions partition amount)
  decrements : ∀ event, .decrementing event ∉ state.shared.listeners

section Conservation

variable {managerOf : ℕ → ℕ} {fuel consumers : ℕ} {calls : List (List Send)}
  {state : Tasks producerSignature PyError Unit Cluster}

theorem balance_of_reaches
    (h : Machine.Reaches (surroundings managerOf fun _ => True).machine
      (.init (calls.map (sends fuel)) (.start consumers)) state) :
    Sound state.shared ∧ ∀ weight : ℤ → ℤ,
      state.shared.redis.weigh weight + (state.started.map (uncounted weight)).sum =
        weightOf weight state.shared.topic - weightOf weight (decremented state.shared) := by
  have hadmits : ∀ sequence ∈ calls, ∀ call ∈ sequence, (anyGate (totalSize calls)).Admits call :=
    fun sequence hsequence call hcall =>
      Gate.admits_of_size_le trivial (size_le_totalSize hsequence hcall)
  obtain ⟨tracks, hstarted, hconforms, hconserved⟩ :=
    tracked_of_reaches (fun _ _ => given_of_partitionsFor fun _ _ => trivial) hadmits
      (Conserved.start consumers)
      (fun cluster phases hconserved _ => hconserved.grow)
      (fun cluster before phase after event phase' hconserved hserves _ hadvance =>
        hconserved.call hserves hadvance)
      (fun cluster phases action hconserved hacts => hconserved.act hacts) h
  have hsound := hconserved.sound
  refine ⟨hsound, fun weight => ?_⟩
  have howed : (tracks.map Prod.snd).map (owed weight) = state.started.map (uncounted weight) := by
    rw [← hstarted, List.map_map, List.map_map]
    exact List.map_congr_left fun track htrack =>
      owed_eq_uncounted (hconforms track htrack) weight
  have hbalance := hconserved.balance weight
  have hdecremented := weightOf_filter_notMem weight hsound.pending_nodup hsound.taken_nodup
    hsound.pending_subset
  rw [howed] at hbalance
  rw [decremented]
  linarith

theorem Settled.uncounted_eq_zero (h : Settled state) (weight : ℤ → ℤ) :
    (state.started.map (uncounted weight)).sum = 0 := by
  apply List.sum_eq_zero
  refine List.forall_mem_map.mpr fun program hprogram => ?_
  rw [uncounted]
  split
  next partition amount hcall => exact absurd hcall (h.sends program hprogram partition amount)
  · rfl

theorem Settled.decremented_eq (h : Settled state) :
    decremented state.shared = state.shared.taken := by
  have hpending : pending state.shared.listeners = [] := by
    refine List.filterMap_eq_nil_iff.mpr fun task htask => ?_
    cases task with
    | decrementing event => exact absurd htask (h.decrements event)
    | _ => rfl
  rw [decremented, hpending]
  simp

/-- The counters differ from the topic by what is in flight. -/
theorem counters_conserved
    (h : Machine.Reaches (surroundings managerOf fun _ => True).machine
      (.init (calls.map (sends fuel)) (.start consumers)) state) :
    (∀ partition : ℤ,
      state.shared.redis.score partition +
          (state.started.map (uncounted (unit partition))).sum =
        (state.shared.topic.countP fun event => (event.partition : ℤ) = partition : ℕ) -
          ((decremented state.shared).countP fun event => (event.partition : ℤ) = partition : ℕ)) ∧
    (Settled state →
      state.shared.redis.total = (untaken state.shared).length ∧
        ∀ partition, 0 ≤ state.shared.redis.score partition) := by
  obtain ⟨hsound, hbalance⟩ := balance_of_reaches h
  refine ⟨fun partition => ?_, fun hsettled => ?_⟩
  · rw [← weightOf_unit, ← weightOf_unit, ← hbalance, weigh_unit]
  · have hweigh : ∀ weight, state.shared.redis.weigh weight =
        weightOf weight (untaken state.shared) := by
      intro weight
      have hweight := hbalance weight
      rw [hsettled.uncounted_eq_zero, hsettled.decremented_eq, add_zero] at hweight
      rw [hweight, hsound.weightOf_untaken]
    refine ⟨?_, fun partition => ?_⟩
    · rw [← SortedSet.weigh_one, hweigh, weightOf_one]
    · rw [← weigh_unit, hweigh, weightOf_unit]
      exact Int.natCast_nonneg _

end Conservation

section Deployment

/-- The answers of a topic that accepts all messages. -/
def answering (nPartitions : ℕ) (nTxs iPartition : ℤ) :
    (op : ProducerCall) → Except PyError op.Answer
  | .getBlock => .ok none
  | .execute _ => .ok ()
  | .getBlockData _ => .error .blockNotFound
  | .traceBlock _ => .ok []
  | .getLogs _ => .ok []
  | .getNTransactions => .ok nTxs
  | .getLowestScorePartition => .ok (some 0)
  | .incrbyNTransactions _ _ => .ok ()
  | .partitionsFor => .ok nPartitions
  | .append _ => .ok true
  | .sendBatch _ partition => .ok (some ⟨partition⟩)
  | .send _ => .ok (some ⟨0⟩)
  | .getIPartition => .ok iPartition
  | .setIPartition _ => .ok ()
  | .sleep _ => .ok ()
  | .estimateRemaining _ _ => .ok ()
  | .setProcessedBlock _ => .ok ()

/-- Some calls of a task, answered one after the other. -/
def answered (times task : ℕ) (answers : (op : ProducerCall) → Except PyError op.Answer) :
    List (TaskAction producerSignature PyError ConsumerStep) :=
  List.replicate times (.call task answers)

/-- One of two messages is taken and decremented before they are counted. -/
def earlyRun : List (TaskAction producerSignature PyError ConsumerStep) :=
  .start :: answered 8 0 (answering 1 0 0) ++
    [.other (.retrieve 0 ⟨0, 1, "full:0x02"⟩), .other (.decrement 0 ⟨0, 1, "full:0x02"⟩),
      .call 0 (answering 1 0 0)]

theorem counters_conserved_earlyRun : ∃ state,
    Machine.Reaches (surroundings (fun _ => 0) fun _ => True).machine
      (.init ([[.batch ["full:0x01", "full:0x02"]]].map (sends 1)) (.start 1)) state ∧
    Settled state ∧ state.shared.redis.total = (untaken state.shared).length ∧
    state.shared.taken ≠ [] := by
  have hreaches : Machine.Reaches (surroundings (fun _ => 0) fun _ => True).machine
      (.init ([[.batch ["full:0x01", "full:0x02"]]].map (sends 1)) (.start 1)) _ := ⟨earlyRun, rfl⟩
  have hsettled : ∀ state : Tasks producerSignature PyError Unit Cluster,
      state.started = [.done ()] → state.shared.listeners = [.handling ⟨0, 1, "full:0x02"⟩] →
        Settled state := by
    intro state hstarted hlisteners
    constructor
    · intro program hprogram partition amount hcall
      rw [hstarted] at hprogram
      obtain rfl := List.mem_singleton.mp hprogram
      cases hcall
    · intro event hevent
      rw [hlisteners] at hevent
      cases List.mem_singleton.mp hevent
  exact ⟨_, hreaches, hsettled _ rfl rfl,
    ((counters_conserved hreaches).2 (hsettled _ rfl rfl)).1, List.cons_ne_nil _ _⟩

end Deployment

end BlockchainDataCollection.Counters
