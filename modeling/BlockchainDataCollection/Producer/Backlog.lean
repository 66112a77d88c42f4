import BlockchainDataCollection.Producer.Counters

/-!
# The backlog

The capacity gate reads counters that lag behind the topic, and is passed once
for a whole list of messages.  What each task may still send or has to count
bounds how far the topic grows past the limit.
-/

namespace BlockchainDataCollection.Backlog

open BlockchainDataCollection.Effect
open BlockchainDataCollection.Python
open BlockchainDataCollection.Storage
open BlockchainDataCollection.KafkaProducer
open BlockchainDataCollection.Sending
open BlockchainDataCollection.Sharing
open BlockchainDataCollection.Counters

/-! ## What a task may add -/

/-- The messages that a task has appended and not counted. -/
def uncountedMessages (phase : Phase) : ℤ := owed (fun _ => 1) phase

def stored (cluster : Cluster) : ℤ := weightOf (fun _ => 1) cluster.topic

/-- Past the gate, a message that is sent or counted was allowed before. -/
theorem spends {gate : Gate} {managerOf : ℕ → ℕ} {cluster : Cluster} {task : ℕ}
    {phase phase' : Phase} {event : ProducerEvent} (hserves : Serves managerOf cluster task event)
    (hadvance : Advance gate phase event phase') :
    (∃ nTxs allowed, event = ⟨.getNTransactions, .ok nTxs⟩ ∧ phase.stage = .idle ∧
      phase' = ⟨allowed, .idle⟩ ∧ (allowed = 0 ∨ gate.Room nTxs ∧ allowed ≤ gate.bound)) ∨
    (stored (serve managerOf cluster task event) + phase'.remaining ≤
        stored cluster + phase.remaining ∧
      uncountedMessages phase' + phase'.remaining ≤ uncountedMessages phase + phase.remaining) := by
  cases hadvance with
  | @error phase op _ => cases op <;> exact hserves.elim
  | gate hallowed => exact .inl ⟨_, _, rfl, rfl, rfl, hallowed⟩
  | @send remaining remaining' message record _ hsent =>
      right
      cases record with
      | some record =>
          rw [stored, uncountedMessages, owed_afterSend, serve,
            weightOf_append_topic _ cluster hserves]
          simp only [stored, uncountedMessages, owed, List.length_singleton]
          omega
      | none => exact hserves.elim
  | @sendBatch remaining remaining' partition messages record hsent _ =>
      right
      cases record with
      | some record =>
          rw [stored, uncountedMessages, owed_afterSend, serve,
            weightOf_append_topic _ cluster hserves]
          simp only [stored, uncountedMessages, owed]
          omega
      | none =>
          simp only [serve, uncountedMessages, owed, Stage.afterSend]
          omega
  | @count remaining partition amount =>
      right
      simp only [serve, stored, uncountedMessages, owed]
      omega
  | _ => exact .inr ⟨le_rfl, le_rfl⟩

/-! ## The bound -/

section Bound

variable {nPartitions bound count : ℕ}

/-- The number of partitions that a call is told. -/
def partitionsAnswer : ProducerEvent → Option ℕ
  | ⟨.partitionsFor, .ok answer⟩ => some answer
  | _ => none

/-- A topic whose number of partitions stays the same. -/
def Constant (nPartitions : ℕ) (event : ProducerEvent) : Prop :=
  ∀ answer ∈ partitionsAnswer event, answer = nPartitions

instance (nPartitions : ℕ) (event : ProducerEvent) : Decidable (Constant nPartitions event) :=
  inferInstanceAs (Decidable (∀ answer ∈ partitionsAnswer event, _))

/-- The gate of the topic: the counters are at most the limit. -/
def limitGate (nPartitions bound : ℕ) : Gate where
  partitions answer := answer = nPartitions
  Room nTxs := nTxs ≤ maxMessagesPerPartition * nPartitions
  bound := bound
  single := True
  room_zero := by positivity
  room_of_le := by
    rintro nPart nTxs rfl h
    exact h

theorem given_limitGate {event : ProducerEvent} (h : Constant nPartitions event) :
    Given (limitGate nPartitions bound) event := by
  refine given_of_partitionsFor ?_
  rintro answer rfl
  exact h answer rfl

def allowance (phases : List Phase) : ℤ := (phases.map fun phase => (phase.remaining : ℤ)).sum

/-- The waiting messages, with those that may still be sent, exceed the limit by
at most one list for each task. -/
structure Bounded (nPartitions bound count : ℕ) (cluster : Cluster) (phases : List Phase) :
    Prop where
  conserved : Conserved cluster phases
  tasks : phases.length ≤ count
  each : ∀ phase ∈ phases, uncountedMessages phase + phase.remaining ≤ bound
  backlog : stored cluster - (cluster.taken.length : ℤ) + allowance phases ≤
    maxMessagesPerPartition * nPartitions + count * bound

theorem sum_le_length_mul {phases : List Phase} {measure : Phase → ℤ} {limit : ℤ}
    (h : ∀ phase ∈ phases, measure phase ≤ limit) :
    (phases.map measure).sum ≤ phases.length * limit := by
  have hsum := List.sum_le_card_nsmul (phases.map measure) limit (List.forall_mem_map.mpr h)
  rwa [List.length_map, nsmul_eq_mul] at hsum

theorem allowance_append (before after : List Phase) (phase : Phase) :
    allowance (before ++ phase :: after) = phase.remaining + allowance (before ++ after) := by
  simp only [allowance, List.map_append, List.map_cons, List.sum_append, List.sum_cons]
  ring

/-- What the counters lack is owed by some task. -/
theorem stored_le {cluster : Cluster} {phases : List Phase} (h : Conserved cluster phases) :
    stored cluster - cluster.taken.length ≤
      cluster.redis.total + (phases.map uncountedMessages).sum := by
  have hbalance := h.balance fun _ => 1
  rw [SortedSet.weigh_one, weightOf_one cluster.taken, weightOf_one (pending _)] at hbalance
  have hpending : (0 : ℤ) ≤ (pending cluster.listeners).length := Int.natCast_nonneg _
  have hsum : (phases.map uncountedMessages).sum = (phases.map (owed fun _ => 1)).sum := rfl
  rw [hsum, stored]
  linarith

/-- A task that passes the gate has a whole list to send; all others have at
most one list to send or to count. -/
theorem Bounded.pass {cluster : Cluster} {before after : List Phase} {phase : Phase} {allowed : ℕ}
    (h : Bounded nPartitions bound count cluster (before ++ phase :: after))
    (hphase : phase.stage = .idle)
    (hallowed : allowed = 0 ∨
      cluster.redis.total ≤ maxMessagesPerPartition * nPartitions ∧ allowed ≤ bound) :
    Bounded nPartitions bound count cluster (before ++ ⟨allowed, .idle⟩ :: after) := by
  have howed : ∀ weight, owed weight ⟨allowed, .idle⟩ = owed weight phase := by
    intro weight
    simp only [owed, hphase]
  have hzero : uncountedMessages phase = 0 := by
    rw [uncountedMessages, owed, hphase]
  obtain ⟨hbefore, hafter⟩ := List.forall_mem_append.mp h.each
  have hothers := List.forall_mem_append.mpr ⟨hbefore, (List.forall_mem_cons.mp hafter).2⟩
  constructor
  · refine ⟨h.conserved.sound, fun weight => ?_⟩
    have hbalance := h.conserved.balance weight
    simp only [List.map_append, List.map_cons, howed] at hbalance ⊢
    exact hbalance
  · have htasks := h.tasks
    rw [List.length_append, List.length_cons] at htasks ⊢
    exact htasks
  · refine List.forall_mem_append.mpr ⟨hbefore, List.forall_mem_cons.mpr ⟨?_, ?_⟩⟩
    · rcases hallowed with rfl | ⟨_, hallowed⟩ <;> simp only [uncountedMessages, owed] <;> omega
    · exact (List.forall_mem_cons.mp hafter).2
  · have hbacklog := h.backlog
    rw [allowance_append] at hbacklog ⊢
    rcases hallowed with rfl | ⟨hroom, hallowed⟩
    · have hnonneg : (0 : ℤ) ≤ phase.remaining := Int.natCast_nonneg _
      push_cast
      linarith
    · have htasks := h.tasks
      rw [List.length_append, List.length_cons] at htasks
      have hstored := stored_le h.conserved
      have hsum := sum_le_length_mul hothers
      have hlists : ((before ++ after).length : ℤ) * bound + bound ≤ count * bound := by
        rw [← add_one_mul, List.length_append]
        exact mul_le_mul_of_nonneg_right (by omega) (Int.natCast_nonneg _)
      have hallowance : ((before ++ after).map fun other => (other.remaining : ℤ)).sum =
          allowance (before ++ after) := rfl
      rw [List.sum_map_add, hallowance] at hsum
      simp only [List.map_append, List.map_cons, List.sum_append, List.sum_cons, hzero]
        at hstored hsum
      have hbound : (allowed : ℤ) ≤ bound := by exact_mod_cast hallowed
      change stored cluster - (cluster.taken.length : ℤ) + ((allowed : ℤ) + _) ≤ _
      linarith

theorem Bounded.grow {cluster : Cluster} {phases : List Phase}
    (h : Bounded nPartitions bound count cluster phases) (hstarted : phases.length < count) :
    Bounded nPartitions bound count cluster (phases ++ [.rest]) := by
  refine ⟨h.conserved.grow, ?_, ?_, ?_⟩
  · rw [List.length_append]
    exact hstarted
  · refine List.forall_mem_append.mpr ⟨h.each, List.forall_mem_singleton.mpr ?_⟩
    exact Int.natCast_nonneg _
  · have hbacklog := h.backlog
    rw [allowance_append, List.append_nil]
    simpa [Phase.rest] using hbacklog

theorem Bounded.call {managerOf : ℕ → ℕ} {cluster : Cluster} {before after : List Phase}
    {phase phase' : Phase} {task : ℕ} {event : ProducerEvent}
    (h : Bounded nPartitions bound count cluster (before ++ phase :: after))
    (hserves : Serves managerOf cluster task event)
    (hadvance : Advance (limitGate nPartitions bound) phase event phase') :
    Bounded nPartitions bound count (serve managerOf cluster task event)
      (before ++ phase' :: after) := by
  rcases spends hserves hadvance with
    ⟨nTxs, allowed, rfl, hphase, rfl, hallowed⟩ | ⟨hstored, hexcess⟩
  · obtain rfl : nTxs = cluster.redis.total := hserves
    exact h.pass hphase hallowed
  · obtain ⟨hbefore, hafter⟩ := List.forall_mem_append.mp h.each
    obtain ⟨hphase, hafter⟩ := List.forall_mem_cons.mp hafter
    constructor
    · exact h.conserved.call hserves hadvance
    · have htasks := h.tasks
      rw [List.length_append, List.length_cons] at htasks ⊢
      exact htasks
    · exact List.forall_mem_append.mpr
        ⟨hbefore, List.forall_mem_cons.mpr ⟨hexcess.trans hphase, hafter⟩⟩
    · have hbacklog := h.backlog
      rw [allowance_append] at hbacklog ⊢
      rw [serve_taken]
      linarith

theorem Bounded.act {cluster : Cluster} {phases : List Phase} {action : ConsumerStep}
    (h : Bounded nPartitions bound count cluster phases) (hacts : Acts cluster action) :
    Bounded nPartitions bound count (Sharing.act cluster action) phases := by
  refine ⟨h.conserved.act hacts, h.tasks, h.each, ?_⟩
  have hbacklog := h.backlog
  cases action with
  | retrieve listener event =>
      simp only [Sharing.act, stored, List.length_cons] at hbacklog ⊢
      push_cast
      linarith
  | decrement listener event => exact hbacklog
  | callback listener event => exact hbacklog

/-- The messages that wait in the topic exceed the limit by at most one list of
each task. -/
theorem backlog_le {managerOf : ℕ → ℕ} {fuel consumers : ℕ} {calls : List (List Send)}
    {state : Tasks producerSignature PyError Unit Cluster}
    (hbound : ∀ sequence ∈ calls, ∀ call ∈ sequence, call.size ≤ bound)
    (h : Machine.Reaches (surroundings managerOf (Constant nPartitions)).machine
      (.init (calls.map (sends fuel)) (.start consumers)) state) :
    (untaken state.shared).length ≤
      maxMessagesPerPartition * nPartitions + calls.length * bound := by
  have hadmits : ∀ sequence ∈ calls, ∀ call ∈ sequence,
      (limitGate nPartitions bound).Admits call := fun sequence hsequence call hcall =>
    Gate.admits_of_size_le trivial (hbound sequence hsequence call hcall)
  have hstart : Bounded nPartitions bound calls.length (.start consumers) [] := by
    refine ⟨.start consumers, Nat.zero_le _, fun _ h => absurd h List.not_mem_nil, ?_⟩
    simp only [stored, Cluster.start, weightOf_nil, allowance, List.length_nil, List.map_nil,
      List.sum_nil]
    positivity
  obtain ⟨tracks, -, -, hbounded⟩ :=
    tracked_of_reaches (fun event hconstant => given_limitGate hconstant) hadmits hstart
      (fun cluster phases hbounded hstarted => hbounded.grow hstarted)
      (fun cluster before phase after event phase' hbounded hserves _ hadvance =>
        hbounded.call hserves hadvance)
      (fun cluster phases action hbounded hacts => hbounded.act hacts) h
  have hbacklog := hbounded.backlog
  have hallowance : 0 ≤ allowance (tracks.map Prod.snd) :=
    List.sum_nonneg (List.forall_mem_map.mpr fun phase _ => Int.natCast_nonneg _)
  have huntaken := hbounded.conserved.sound.weightOf_untaken fun _ => 1
  rw [weightOf_one, weightOf_one state.shared.taken, ← stored] at huntaken
  zify
  linarith

end Bound

section Deployment

/-- Two tasks pass the gate before one of them sends. -/
def overtakingRun : List (TaskAction producerSignature PyError ConsumerStep) :=
  .start :: .start :: answered 4 0 (answering 2 0 0) ++ answered 4 1 (answering 2 0 1) ++
    answered 2 0 (answering 2 0 2) ++ answered 3 1 (answering 2 0 2)

theorem backlog_le_overtakingRun : ∃ state,
    Machine.Reaches (surroundings (fun _ => 0) (Constant 2)).machine
      (.init ([[.batch ["full:0x01"]], [.batch ["full:0x02"]]].map (sends 1)) (.start 1)) state ∧
    state.shared.topic.length = 2 ∧ (untaken state.shared).length ≤ 1000 * 2 + 2 * 1 := by
  have hbound : ∀ sequence ∈ [[Send.batch ["full:0x01"]], [Send.batch ["full:0x02"]]],
      ∀ call ∈ sequence, call.size ≤ 1 := by decide
  have hreaches : Machine.Reaches (surroundings (fun _ => 0) (Constant 2)).machine
      (.init ([[.batch ["full:0x01"]], [.batch ["full:0x02"]]].map (sends 1)) (.start 1)) _ :=
    ⟨overtakingRun, rfl⟩
  exact ⟨_, hreaches, rfl, backlog_le hbound hreaches⟩

end Deployment

end BlockchainDataCollection.Backlog
