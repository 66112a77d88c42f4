import BlockchainDataCollection.Producer.Backlog

/-!
# The load of the partitions

A single producer whose batches are acknowledged on the chosen partitions: the
first batches go around, each next one to a partition with the lowest score.
-/

namespace BlockchainDataCollection.Balance

open BlockchainDataCollection.Effect
open BlockchainDataCollection.Python
open BlockchainDataCollection.Storage
open BlockchainDataCollection.KafkaProducer
open BlockchainDataCollection.KafkaConsumer
open BlockchainDataCollection.Sending
open BlockchainDataCollection.Sharing
open BlockchainDataCollection.Counters
open BlockchainDataCollection.Backlog (Constant)

/-! ## The two phases of the choice -/

/-- The partitions before the next one have got a batch each. -/
structure Around (redis : SortedSet ℤ) (next : ℤ) : Prop where
  members : redis.members = Finset.Ico 0 next
  nonneg : ∀ partition, 0 ≤ redis.score partition
  le : ∀ partition, redis.score partition ≤ messagesPerBatch

/-- All partitions have got a batch. -/
structure Leveled (nPartitions : ℕ) (redis : SortedSet ℤ) : Prop where
  members : redis.members = Finset.Ico 0 (nPartitions : ℤ)
  level : redis.Level messagesPerBatch

theorem Around.leveled {nPartitions : ℕ} {redis : SortedSet ℤ} (h : Around redis nPartitions) :
    Leveled nPartitions redis := by
  refine ⟨h.members, fun partition _ other _ => ?_⟩
  have hle := h.le partition
  have hnonneg := h.nonneg other
  omega

theorem Around.incrBy {redis : SortedSet ℤ} {next : ℤ} {amount : ℕ} (h : Around redis next)
    (hnext : 0 ≤ next) (hamount : amount ≤ messagesPerBatch) :
    Around (redis.incrBy next amount) (next + 1) := by
  have hzero : redis.score next = 0 := by
    apply redis.score_eq_zero
    rw [h.members, Finset.mem_Ico]
    omega
  constructor
  · rw [SortedSet.members_incrBy, h.members]
    ext partition
    rw [Finset.mem_insert, Finset.mem_Ico, Finset.mem_Ico]
    omega
  · intro partition
    rw [SortedSet.score_incrBy]
    have hnonneg := h.nonneg partition
    split <;> omega
  · intro partition
    rw [SortedSet.score_incrBy]
    have hle := h.le partition
    split
    next heq =>
        subst heq
        omega
    · omega

theorem Leveled.incrBy {nPartitions : ℕ} {redis : SortedSet ℤ} {partition : ℤ} {amount : ℕ}
    (h : Leveled nPartitions redis) (hlowest : redis.IsLowest partition)
    (hamount : amount ≤ messagesPerBatch) :
    Leveled nPartitions (redis.incrBy partition amount) := by
  constructor
  · rw [SortedSet.members_incrBy, Finset.insert_eq_of_mem hlowest.1, h.members]
  · exact h.level.incrBy hlowest (Int.natCast_nonneg _) (by exact_mod_cast hamount)

/-! ## Where the producer is -/

section Fits

variable {nPartitions : ℕ} {cluster : Cluster}

/-- The chosen partition is the next one in turn, or one with the lowest score. -/
def Chosen (nPartitions : ℕ) (cluster : Cluster) (partition : ℤ) : Prop :=
  (0 ≤ partition ∧ partition < nPartitions ∧ Around cluster.redis partition ∧
    cluster.iPartition 0 = if partition + 1 = nPartitions then -1 else partition + 1) ∨
  (cluster.iPartition 0 = -1 ∧ Leveled nPartitions cluster.redis ∧
    cluster.redis.IsLowest partition)

/-- What the index of the next partition and the scores are at a stage. -/
def Fits (nPartitions : ℕ) (cluster : Cluster) : Stage → Prop
  | .idle =>
      (0 ≤ cluster.iPartition 0 ∧ cluster.iPartition 0 < nPartitions ∧
        Around cluster.redis (cluster.iPartition 0)) ∨
      (cluster.iPartition 0 = -1 ∧ Leveled nPartitions cluster.redis)
  | .read partition => 0 ≤ partition ∧ partition < nPartitions ∧ Around cluster.redis partition
  | .advanced partition => 0 ≤ partition ∧ partition < nPartitions ∧
      Around cluster.redis partition ∧ cluster.iPartition 0 = partition + 1
  | .last partition => 0 ≤ partition ∧ partition + 1 = nPartitions ∧
      Around cluster.redis partition
  | .asking => cluster.iPartition 0 = -1 ∧ Leveled nPartitions cluster.redis
  | .chosen partition => Chosen nPartitions cluster partition
  | .owing partition amount => amount ≤ messagesPerBatch ∧ Chosen nPartitions cluster partition

/-- Either the turn goes around, or the scores are level. -/
theorem Fits.scores {stage : Stage} (h : Fits nPartitions cluster stage) :
    (∃ next, Around cluster.redis next) ∨ Leveled nPartitions cluster.redis := by
  have hchosen : ∀ partition, Chosen nPartitions cluster partition →
      (∃ next, Around cluster.redis next) ∨ Leveled nPartitions cluster.redis := by
    rintro partition (⟨_, _, haround, _⟩ | ⟨_, hleveled, _⟩)
    · exact .inl ⟨_, haround⟩
    · exact .inr hleveled
  cases stage with
  | idle =>
      rcases h with ⟨_, _, haround⟩ | ⟨_, hleveled⟩
      · exact .inl ⟨_, haround⟩
      · exact .inr hleveled
  | read partition => exact .inl ⟨_, h.2.2⟩
  | advanced partition => exact .inl ⟨_, h.2.2.1⟩
  | last partition => exact .inl ⟨_, h.2.2⟩
  | asking => exact .inr h.2
  | chosen partition => exact hchosen partition h
  | owing partition amount => exact hchosen partition h.2

theorem Fits.score_le {stage : Stage} (h : Fits nPartitions cluster stage) {partition other : ℤ}
    (hpartition : partition ∈ Set.Ico 0 (nPartitions : ℤ))
    (hother : other ∈ Set.Ico 0 (nPartitions : ℤ)) :
    cluster.redis.score partition ≤ cluster.redis.score other + messagesPerBatch := by
  rcases h.scores with ⟨next, haround⟩ | hleveled
  · have hle := haround.le partition
    have hnonneg := haround.nonneg other
    omega
  · apply hleveled.level
    · rw [hleveled.members]
      exact Finset.mem_Ico.mpr hpartition
    · rw [hleveled.members]
      exact Finset.mem_Ico.mpr hother

/-- The partition a batch is sent to, and the record that comes back. -/
def batchAnswer : ProducerEvent → Option (ℤ × Option RecordMetadata)
  | ⟨.sendBatch _ partition, .ok record⟩ => some (partition, record)
  | _ => none

/-- A topic whose number of partitions stays the same, and that acknowledges
every batch on the partition it was sent to. -/
def Acknowledging (nPartitions : ℕ) (event : ProducerEvent) : Prop :=
  Constant nPartitions event ∧ ∀ answer ∈ batchAnswer event, answer.2 = some ⟨answer.1⟩

instance (nPartitions : ℕ) (event : ProducerEvent) : Decidable (Acknowledging nPartitions event) :=
  inferInstanceAs (Decidable (_ ∧ ∀ answer ∈ batchAnswer event, _))

/-- A gate for batches only. -/
def batchGate (nPartitions bound : ℕ) : Gate where
  partitions answer := answer = nPartitions
  Room _ := True
  bound := bound
  single := False
  room_zero := trivial
  room_of_le _ _ := trivial

theorem given_batchGate {bound : ℕ} {event : ProducerEvent} (h : Acknowledging nPartitions event) :
    Given (batchGate nPartitions bound) event := by
  refine given_of_partitionsFor ?_
  rintro answer rfl
  exact h.1 answer rfl

/-- Every answered call leads to a stage that fits again. -/
theorem Fits.advance {bound task : ℕ} {phase phase' : Phase} {event : ProducerEvent}
    (h : Fits nPartitions cluster phase.stage) (hpartitions : 0 < nPartitions)
    (hserves : Serves (fun _ => 0) cluster task event)
    (hacknowledging : Acknowledging nPartitions event)
    (hadvance : Advance (batchGate nPartitions bound) phase event phase') :
    Fits nPartitions (serve (fun _ => 0) cluster task event) phase'.stage := by
  cases hadvance with
  | @error _ op _ => cases op <;> exact hserves.elim
  | gate _ => exact h
  | partitionsFor => exact h
  | sleep => exact h
  | append => exact h
  | send hsingle _ => exact hsingle.elim
  | @read _ partition hpartition =>
      obtain rfl : partition = cluster.iPartition 0 := hserves
      rcases h with haround | ⟨hphase, _⟩
      · exact haround
      · exact absurd hphase hpartition
  | ask =>
      have hphase : -1 = cluster.iPartition 0 := hserves
      rcases h with ⟨hnonneg, _, _⟩ | hleveled
      · omega
      · exact hleveled
  | @advance _ partition =>
      obtain ⟨hnonneg, hlt, haround⟩ := h
      exact ⟨hnonneg, hlt, haround, iPartition_serve (fun _ => 0) cluster task _⟩
  | @more _ partition answer hmore =>
      obtain ⟨hnonneg, hlt, haround, hindex⟩ := h
      obtain rfl : answer = nPartitions := hacknowledging.1 answer rfl
      exact .inl ⟨hnonneg, hlt, haround, by rw [if_neg hmore]; exact hindex⟩
  | @last _ partition answer hlast =>
      obtain ⟨hnonneg, _, haround, _⟩ := h
      obtain rfl : answer = nPartitions := hacknowledging.1 answer rfl
      exact ⟨hnonneg, hlast, haround⟩
  | @reset _ partition =>
      obtain ⟨hnonneg, hlast, haround⟩ := h
      refine .inl ⟨hnonneg, by omega, haround, ?_⟩
      rw [if_pos hlast]
      exact iPartition_serve (fun _ => 0) cluster task _
  | @lowest _ lowest =>
      obtain ⟨hphase, hleveled⟩ := h
      cases lowest with
      | none =>
          -- all partitions are members by now
          have hmembers : cluster.redis.members = ∅ := hserves
          rw [hleveled.members, Finset.Ico_eq_empty_iff] at hmembers
          omega
      | some partition => exact .inr ⟨hphase, hleveled, hserves⟩
  | @sendBatch _ _ partition messages record _ hbatch =>
      obtain rfl : record = some ⟨partition⟩ := hacknowledging.2 (partition, record) rfl
      exact ⟨hbatch, h⟩
  | @count _ partition amount =>
      obtain ⟨hamount, ⟨hnonneg, hlt, haround, hindex⟩ | ⟨hphase, hleveled, hlowest⟩⟩ := h
      · have hnext := haround.incrBy hnonneg hamount
        by_cases hlast : partition + 1 = nPartitions
        · exact .inr ⟨hindex.trans (if_pos hlast), (hlast ▸ hnext).leveled⟩
        · have hfits : 0 ≤ partition + 1 ∧ partition + 1 < nPartitions ∧
              Around (cluster.redis.incrBy partition amount) (partition + 1) :=
            ⟨by omega, by omega, hnext⟩
          rw [← hindex.trans (if_neg hlast)] at hfits
          exact .inl hfits
      · exact .inr ⟨hphase, hleveled.incrBy hlowest hamount⟩

end Fits

/-! ## Runs -/

/-- At most one task runs, and it fits to the counters. -/
structure Single (nPartitions : ℕ) (cluster : Cluster) (phases : List Phase) : Prop where
  count : phases.length ≤ 1
  listeners : cluster.listeners = []
  idle : phases = [] → Fits nPartitions cluster .idle
  fits : ∀ phase ∈ phases, Fits nPartitions cluster phase.stage

theorem Single.start {nPartitions : ℕ} (h : 0 < nPartitions) :
    Single nPartitions (.start 0) [] := by
  have haround : Around (Cluster.start 0).redis 0 := by
    refine ⟨rfl, fun _ => le_rfl, fun _ => Int.natCast_nonneg _⟩
  refine ⟨Nat.zero_le _, rfl, fun _ => ?_, fun _ hphase => absurd hphase List.not_mem_nil⟩
  exact .inl ⟨le_rfl, Int.natCast_pos.mpr h, haround⟩

theorem Single.call {nPartitions bound task : ℕ} {cluster : Cluster} {before after : List Phase}
    {phase phase' : Phase} {event : ProducerEvent}
    (h : Single nPartitions cluster (before ++ phase :: after)) (hpartitions : 0 < nPartitions)
    (hserves : Serves (fun _ => 0) cluster task event)
    (hacknowledging : Acknowledging nPartitions event)
    (hadvance : Advance (batchGate nPartitions bound) phase event phase') :
    Single nPartitions (serve (fun _ => 0) cluster task event) (before ++ phase' :: after) := by
  have hcount := h.count
  rw [List.length_append, List.length_cons] at hcount
  obtain rfl : before = [] := List.length_eq_zero_iff.mp (by omega)
  obtain rfl : after = [] := List.length_eq_zero_iff.mp (by omega)
  refine ⟨le_rfl, ?_, fun hnil => absurd hnil (List.cons_ne_nil _ _), fun other hother => ?_⟩
  · rw [serve_listeners]
    exact h.listeners
  · obtain rfl := List.mem_singleton.mp hother
    exact (h.fits phase List.mem_cons_self).advance hpartitions hserves hacknowledging hadvance

theorem Single.grow {nPartitions : ℕ} {cluster : Cluster} {phases : List Phase}
    (h : Single nPartitions cluster phases) (hstarted : phases.length < 1) :
    Single nPartitions cluster (phases ++ [.rest]) := by
  obtain rfl : phases = [] := List.length_eq_zero_iff.mp (by omega)
  exact ⟨le_rfl, h.listeners, fun hnil => absurd hnil (List.cons_ne_nil _ _),
    List.forall_mem_singleton.mpr (h.idle rfl)⟩

/-- Without consumers nothing happens on their side. -/
theorem Single.act {nPartitions : ℕ} {cluster : Cluster} {phases : List Phase}
    (h : Single nPartitions cluster phases) {action : ConsumerStep}
    (hacts : Acts cluster action) : Single nPartitions (Sharing.act cluster action) phases := by
  have hnone : ∀ (listener : ℕ) (task : ListeningTask),
      cluster.listeners[listener]? ≠ some task := by
    intro listener task
    rw [h.listeners, List.getElem?_nil]
    exact (Option.some_ne_none task).symm
  cases action with
  | retrieve listener event => exact absurd hacts.1 (hnone _ _)
  | decrement listener event => exact absurd hacts (hnone _ _)
  | callback listener event => exact absurd hacts (hnone _ _)

/-- The scores of any two partitions differ by at most one batch. -/
theorem scores_balanced {nPartitions fuel : ℕ} {batches : List (List String)}
    {state : Tasks producerSignature PyError Unit Cluster}
    (h : Machine.Reaches (surroundings (fun _ => 0) (Acknowledging nPartitions)).machine
      (.init [sends fuel (batches.map .batch)] (.start 0)) state)
    {partition other : ℤ} (hpartition : partition ∈ Set.Ico 0 (nPartitions : ℤ))
    (hother : other ∈ Set.Ico 0 (nPartitions : ℤ)) :
    |state.shared.redis.score partition - state.shared.redis.score other| ≤ messagesPerBatch := by
  have hpartitions : 0 < nPartitions := by
    have hlt := hpartition.1.trans_lt hpartition.2
    exact_mod_cast hlt
  have hadmits : ∀ sequence ∈ [batches.map Send.batch], ∀ call ∈ sequence,
      (batchGate nPartitions (totalSize [batches.map .batch])).Admits call := by
    intro sequence hsequence call hcall
    have hsize := size_le_totalSize hsequence hcall
    obtain rfl := List.mem_singleton.mp hsequence
    obtain ⟨msgs, _, rfl⟩ := List.mem_map.mp hcall
    exact hsize
  obtain ⟨tracks, -, -, hsingle⟩ :=
    tracked_of_reaches (fun event hacknowledging => given_batchGate hacknowledging) hadmits
      (Single.start hpartitions)
      (fun cluster phases hsingle hstarted => hsingle.grow hstarted)
      (fun cluster before phase after event phase' hsingle hserves hacknowledging hadvance =>
        hsingle.call hpartitions hserves hacknowledging hadvance)
      (fun cluster phases action hsingle hacts => hsingle.act hacts) h
  have hfits : ∃ stage, Fits nPartitions state.shared stage := by
    cases hphases : tracks.map Prod.snd with
    | nil => exact ⟨_, hsingle.idle hphases⟩
    | cons phase phases =>
        exact ⟨_, hsingle.fits phase (hphases ▸ List.mem_cons_self)⟩
  obtain ⟨stage, hfits⟩ := hfits
  rw [abs_sub_le_iff, sub_le_iff_le_add', sub_le_iff_le_add']
  exact ⟨hfits.score_le hpartition hother, hfits.score_le hother hpartition⟩

section Deployment

/-- One batch for each of two partitions, and one more. -/
def threeBatches : List (List String) := [["full:0x01"], ["full:0x02"], ["full:0x03"]]

def levelingRun : List (TaskAction producerSignature PyError ConsumerStep) :=
  .start :: answered 7 0 (answering 2 0 0) ++ answered 9 0 (answering 2 1 1) ++
    answered 7 0 (answering 2 2 (-1))

theorem scores_balanced_threeBatches : ∃ state,
    Machine.Reaches (surroundings (fun _ => 0) (Acknowledging 2)).machine
      (.init [sends 1 (threeBatches.map .batch)] (.start 0)) state ∧
    state.shared.redis.score 0 = 2 ∧
      |state.shared.redis.score 0 - state.shared.redis.score 1| ≤ messagesPerBatch := by
  have hreaches : Machine.Reaches (surroundings (fun _ => 0) (Acknowledging 2)).machine
      (.init [sends 1 (threeBatches.map .batch)] (.start 0)) _ := ⟨levelingRun, rfl⟩
  exact ⟨_, hreaches, rfl, scores_balanced hreaches ⟨le_rfl, by decide⟩ ⟨by decide, by decide⟩⟩

end Deployment

end BlockchainDataCollection.Balance
