import BlockchainDataCollection.Producer.Balance

/-!
# Choosing partitions concurrently

Any number of `_choose_partition` calls on one manager, interleaved where they
await the number of partitions or the lowest score.  A partition is handed out
in turn by advancing the index; the turn ends with the call that gets the last
partition, but only after it has awaited the number of partitions.
-/

namespace BlockchainDataCollection.Partitions

open BlockchainDataCollection.Effect
open BlockchainDataCollection.Python
open BlockchainDataCollection.KafkaProducer
open BlockchainDataCollection.Sending
open BlockchainDataCollection.Balance (batchGate)

/-! ## The manager -/

structure Manager where
  iPartition : ℤ
  /-- The calls that advanced the index, with the partitions they got. -/
  handed : List (ℕ × ℤ)

def Manager.new : Manager := ⟨0, []⟩

/-- The number of partitions stays the same, and all members of the sorted set
are partitions; there are no other calls. -/
def mayAnswer (nPartitions : ℕ) (manager : Manager) : ProducerEvent → Bool
  | ⟨.partitionsFor, .ok answer⟩ => answer = nPartitions
  | ⟨.getLowestScorePartition, .ok none⟩ => true
  | ⟨.getLowestScorePartition, .ok (some partition)⟩ => 0 ≤ partition ∧ partition < nPartitions
  | ⟨.getIPartition, .ok partition⟩ => partition = manager.iPartition
  | ⟨.setIPartition _, .ok _⟩ => true
  | _ => false

/-- Advancing the index hands out the partition it stood at. -/
def serve (manager : Manager) (task : ℕ) : ProducerEvent → Manager
  | ⟨.setIPartition partition, .ok _⟩ =>
      { iPartition := partition
        handed := if partition = -1 then manager.handed
          else manager.handed ++ [(task, manager.iPartition)] }
  | _ => manager

def surroundings (nPartitions : ℕ) : Surroundings producerSignature PyError Manager Empty where
  Serves manager _ event := mayAnswer nPartitions manager event
  serve := serve
  synchronous := Sharing.synchronous
  Acts _ _ := False
  act manager _ := manager
  decidableServes _ _ _ := inferInstance
  decidableActs _ _ := instDecidableFalse

def readsIndex : ProducerEvent → Bool
  | ⟨.getIPartition, _⟩ => true
  | _ => false

/-- The index is not read after the last partition was handed out and before
the turn has ended. -/
def ReadsInTurn (nPartitions : ℕ) (manager : Manager) (event : ProducerEvent) : Prop :=
  readsIndex event → manager.iPartition ≠ nPartitions

instance (nPartitions : ℕ) (manager : Manager) (event : ProducerEvent) :
    Decidable (ReadsInTurn nPartitions manager event) :=
  inferInstanceAs (Decidable (_ → _))

/-! ## Taking turns -/

section Turns

variable {nPartitions : ℕ} {manager : Manager}

/-- What a call has got at a stage of its choice. -/
def Fits (nPartitions : ℕ) (manager : Manager) (task : ℕ) : Stage → Prop
  | .idle => task ∉ manager.handed.map Prod.fst
  | .read partition => task ∉ manager.handed.map Prod.fst ∧ partition = manager.iPartition ∧
      partition ≠ -1 ∧ partition ≠ nPartitions
  | .advanced partition => (task, partition) ∈ manager.handed
  | .last partition => (task, partition) ∈ manager.handed ∧ partition + 1 = nPartitions
  | .asking => task ∉ manager.handed.map Prod.fst ∧ manager.iPartition = -1
  | .chosen partition => 0 ≤ partition ∧ partition < nPartitions ∧
      ((task, partition) ∈ manager.handed ∧
          (partition + 1 = nPartitions → manager.iPartition = -1) ∨
        task ∉ manager.handed.map Prod.fst ∧ manager.iPartition = -1)
  | .owing _ _ => False

/-- The partitions before the index are handed out, one to each call; after the
turn they all are. -/
structure Turn (nPartitions : ℕ) (manager : Manager) : Prop where
  partitions : manager.handed.map Prod.snd = (List.range manager.handed.length).map Nat.cast
  calls : (manager.handed.map Prod.fst).Nodup
  index : manager.iPartition = -1 ∧ manager.handed.length = nPartitions ∨
    manager.iPartition = manager.handed.length ∧ manager.handed.length ≤ nPartitions

theorem Turn.mem_Ico (h : Turn nPartitions manager) {task : ℕ} {partition : ℤ}
    (hmem : (task, partition) ∈ manager.handed) : 0 ≤ partition ∧ partition < nPartitions := by
  have hsnd : partition ∈ manager.handed.map Prod.snd := List.mem_map_of_mem (f := Prod.snd) hmem
  rw [h.partitions] at hsnd
  obtain ⟨index, hindex, rfl⟩ := List.mem_map.mp hsnd
  rw [List.mem_range] at hindex
  have hle : manager.handed.length ≤ nPartitions := by
    rcases h.index with ⟨_, hlength⟩ | ⟨_, hle⟩ <;> omega
  omega

theorem Turn.next_ne (h : Turn nPartitions manager) (hindex : manager.iPartition ≠ -1) :
    manager.iPartition + 1 ≠ -1 := by
  rcases h.index with ⟨hphase, _⟩ | ⟨hlength, _⟩
  · exact absurd hphase hindex
  · omega

/-- A call that advances the index gets the next partition. -/
theorem Turn.advance (h : Turn nPartitions manager) {task : ℕ}
    (hfits : Fits nPartitions manager task (.read manager.iPartition)) :
    Turn nPartitions (serve manager task
      ⟨.setIPartition (manager.iPartition + 1), .ok ()⟩) := by
  obtain ⟨htask, _, hturn, hlast⟩ := hfits
  obtain ⟨hindex, hle⟩ : manager.iPartition = manager.handed.length ∧
      manager.handed.length ≤ nPartitions := by
    rcases h.index with ⟨hindex, _⟩ | hindex
    · exact absurd hindex hturn
    · exact hindex
  rw [serve, if_neg (h.next_ne hturn)]
  constructor
  · rw [List.map_append, h.partitions, List.length_append, List.length_singleton, List.range_succ,
      List.map_append, List.map_singleton, List.map_singleton, hindex]
  · rw [List.map_append, List.map_singleton]
    refine h.calls.append (List.nodup_singleton _) fun other hother hself => ?_
    obtain rfl := List.mem_singleton.mp hself
    exact htask hother
  · refine .inr ⟨?_, ?_⟩
    · rw [List.length_append, List.length_singleton, Nat.cast_succ, ← hindex]
    · rw [List.length_append, List.length_singleton]
      omega

/-- The call with the last partition ends the turn. -/
theorem Turn.reset (h : Turn nPartitions manager) {task other : ℕ} {partition : ℤ}
    (hfits : Fits nPartitions manager other (.last partition)) :
    Turn nPartitions (serve manager task ⟨.setIPartition (-1), .ok ()⟩) := by
  have hmem := List.mem_map_of_mem (f := Prod.snd) hfits.1
  rw [h.partitions] at hmem
  obtain ⟨index, hindex, hcast⟩ := List.mem_map.mp hmem
  rw [List.mem_range] at hindex
  have hlast := hfits.2
  have hle : manager.handed.length ≤ nPartitions := by
    rcases h.index with ⟨_, hlength⟩ | ⟨_, hle⟩ <;> omega
  refine ⟨h.partitions, h.calls, .inl ⟨rfl, ?_⟩⟩
  change manager.handed.length = nPartitions
  change (index : ℤ) = partition at hcast
  omega

/-- An answered call leads to a stage that fits again. -/
theorem Fits.advance {task bound : ℕ} {phase phase' : Phase} {event : ProducerEvent}
    (h : Fits nPartitions manager task phase.stage) (hturn : Turn nPartitions manager)
    (hpartitions : 0 < nPartitions) (hserves : mayAnswer nPartitions manager event)
    (hreads : ReadsInTurn nPartitions manager event)
    (hadvance : Advance (batchGate nPartitions bound) phase event phase') :
    Turn nPartitions (serve manager task event) ∧
      Fits nPartitions (serve manager task event) task phase'.stage := by
  cases hadvance with
  | @error _ op _ => cases op <;> cases hserves
  | gate _ => cases hserves
  | partitionsFor => exact ⟨hturn, h⟩
  | sleep => cases hserves
  | append => cases hserves
  | send hsingle _ => exact hsingle.elim
  | @read _ partition hpartition =>
      obtain rfl : partition = manager.iPartition := of_decide_eq_true hserves
      exact ⟨hturn, h, rfl, hpartition, hreads rfl⟩
  | ask => exact ⟨hturn, h, (of_decide_eq_true hserves).symm⟩
  | @advance _ partition =>
      obtain rfl : partition = manager.iPartition := h.2.1
      refine ⟨hturn.advance h, ?_⟩
      rw [serve, if_neg (hturn.next_ne h.2.2.1)]
      exact List.mem_append_right _ (List.mem_singleton_self _)
  | @more _ partition answer hmore =>
      obtain rfl : answer = nPartitions := of_decide_eq_true hserves
      obtain ⟨hnonneg, hlt⟩ := hturn.mem_Ico h
      exact ⟨hturn, hnonneg, hlt, .inl ⟨h, fun hlast => absurd hlast hmore⟩⟩
  | @last _ partition answer hlast =>
      obtain rfl : answer = nPartitions := of_decide_eq_true hserves
      exact ⟨hturn, h, hlast⟩
  | @reset _ partition =>
      obtain ⟨hnonneg, hlt⟩ := hturn.mem_Ico h.1
      exact ⟨hturn.reset h, hnonneg, hlt, .inl ⟨h.1, fun _ => rfl⟩⟩
  | @lowest _ lowest =>
      cases lowest with
      | none => exact ⟨hturn, le_rfl, Int.natCast_pos.mpr hpartitions, .inr h⟩
      | some partition =>
          obtain ⟨hnonneg, hlt⟩ := of_decide_eq_true hserves
          exact ⟨hturn, hnonneg, hlt, .inr h⟩
  | sendBatch _ _ => cases hserves
  | count => cases hserves

/-- It leaves the other calls where they are. -/
theorem Fits.others {task other bound : ℕ} {phase phase' : Phase} {event : ProducerEvent}
    {stage : Stage} (h : Fits nPartitions manager other stage) (hne : other ≠ task)
    (hread : ∀ partition, stage ≠ .read partition)
    (hphase : Fits nPartitions manager task phase.stage) (hturn : Turn nPartitions manager)
    (hadvance : Advance (batchGate nPartitions bound) phase event phase') :
    Fits nPartitions (serve manager task event) other stage := by
  cases hadvance with
  | @error _ op _ => cases op <;> exact h
  | @advance _ partition =>
      obtain ⟨_, rfl, hindex, _⟩ := hphase
      have hnotin : other ∉ manager.handed.map Prod.fst → other ∉
          (manager.handed ++ [(task, manager.iPartition)]).map Prod.fst := by
        simp [hne]
      rw [serve, if_neg (hturn.next_ne hindex)]
      cases stage with
      | idle => exact hnotin h
      | read partition => exact absurd rfl (hread partition)
      | advanced partition => exact List.mem_append_left _ h
      | last partition => exact ⟨List.mem_append_left _ h.1, h.2⟩
      | asking => exact absurd h.2 hindex
      | chosen partition =>
          obtain ⟨hnonneg, hlt, ⟨hmem, hlast⟩ | ⟨_, hphase⟩⟩ := h
          · exact ⟨hnonneg, hlt, .inl ⟨List.mem_append_left _ hmem,
              fun heq => absurd (hlast heq) hindex⟩⟩
          · exact absurd hphase hindex
      | owing partition amount => exact h
  | reset =>
      cases stage with
      | idle => exact h
      | read partition => exact absurd rfl (hread partition)
      | advanced partition => exact h
      | last partition => exact h
      | asking => exact ⟨h.1, rfl⟩
      | chosen partition =>
          obtain ⟨hnonneg, hlt, ⟨hmem, _⟩ | ⟨hnotin, _⟩⟩ := h
          · exact ⟨hnonneg, hlt, .inl ⟨hmem, fun _ => rfl⟩⟩
          · exact ⟨hnonneg, hlt, .inr ⟨hnotin, rfl⟩⟩
      | owing partition amount => exact h
  | _ => exact h

end Turns

/-! ## Runs -/

/-- Every call fits to the turn. -/
structure Orderly (nPartitions : ℕ) (manager : Manager) (phases : List Phase) : Prop where
  turn : Turn nPartitions manager
  entries : ∀ entry ∈ manager.handed, entry.1 < phases.length
  fits : ∀ (task : ℕ) (phase : Phase), phases[task]? = some phase →
    Fits nPartitions manager task phase.stage

section Runs

variable {nPartitions : ℕ}

theorem Orderly.new : Orderly nPartitions .new [] := by
  have hturn : Turn nPartitions .new := ⟨rfl, List.nodup_nil, .inr ⟨rfl, Nat.zero_le _⟩⟩
  refine ⟨hturn, fun _ h => absurd h List.not_mem_nil, ?_⟩
  intro task phase hphase
  cases hphase

theorem Orderly.grow {manager : Manager} {phases : List Phase}
    (h : Orderly nPartitions manager phases) : Orderly nPartitions manager (phases ++ [.rest]) := by
  refine ⟨h.turn, fun entry hentry => ?_, fun task phase hphase => ?_⟩
  · rw [List.length_append]
    exact (h.entries entry hentry).trans (Nat.lt_succ_self _)
  · rcases lt_or_ge task phases.length with hlt | hge
    · rw [List.getElem?_append_left hlt] at hphase
      exact h.fits task phase hphase
    · rw [List.getElem?_append_right hge] at hphase
      obtain rfl := List.mem_singleton.mp (List.mem_of_getElem? hphase)
      intro hmem
      obtain ⟨entry, hentry, rfl⟩ := List.mem_map.mp hmem
      exact absurd (h.entries entry hentry) (not_lt.mpr hge)

theorem mem_handed_serve {manager : Manager} {task : ℕ} {event : ProducerEvent} {entry : ℕ × ℤ}
    (h : entry ∈ (serve manager task event).handed) : entry ∈ manager.handed ∨ entry.1 = task := by
  rw [serve.eq_def] at h
  split at h
  · change entry ∈ if _ then _ else _ at h
    split at h
    · exact .inl h
    · rcases List.mem_append.mp h with h | h
      · exact .inl h
      · exact .inr (by rw [List.mem_singleton.mp h])
  · exact .inl h

theorem Orderly.call {bound : ℕ} {manager : Manager} {before after : List Phase}
    {phase phase' : Phase} {event : ProducerEvent}
    (h : Orderly nPartitions manager (before ++ phase :: after))
    (hothers : ∀ other ∈ before ++ after, ¬ Busy other) (hpartitions : 0 < nPartitions)
    (hserves : mayAnswer nPartitions manager event) (hreads : ReadsInTurn nPartitions manager event)
    (hadvance : Advance (batchGate nPartitions bound) phase event phase') :
    Orderly nPartitions (serve manager before.length event) (before ++ phase' :: after) := by
  have hphase : Fits nPartitions manager before.length phase.stage :=
    h.fits before.length phase (by simp)
  obtain ⟨hturn, hfits⟩ := hphase.advance h.turn hpartitions hserves hreads hadvance
  have hset : before ++ phase' :: after = (before ++ phase :: after).set before.length phase' := by
    simp
  refine ⟨hturn, fun entry hentry => ?_, fun task other hother => ?_⟩
  · rw [hset, List.length_set]
    rcases mem_handed_serve hentry with hold | hself
    · exact h.entries entry hold
    · rw [hself]
      simp
  · by_cases htask : task = before.length
    · subst htask
      obtain rfl : phase' = other := by simpa using hother
      exact hfits
    · have hold : (before ++ phase :: after)[task]? = some other := by
        rw [hset, List.getElem?_set_ne (Ne.symm htask)] at hother
        exact hother
      have hmem : other ∈ before ++ after := by
        have herase : (before ++ phase :: after).eraseIdx before.length = before ++ after := by
          rw [List.eraseIdx_append_of_length_le le_rfl, Nat.sub_self, List.eraseIdx_cons_zero]
        rw [← herase, List.mem_eraseIdx_iff_getElem?]
        exact ⟨task, htask, hold⟩
      refine (h.fits task other hold).others htask (fun partition hread => ?_) hphase h.turn
        hadvance
      apply hothers other hmem
      rw [Busy, hread]
      trivial

/-- The calls that have returned a partition. -/
def Returned (state : Tasks producerSignature PyError ℤ Manager) (task : ℕ) (partition : ℤ) :
    Prop :=
  state.started[task]? = some (.done partition)

/-- All returned partitions exist; each is handed out once in turn, and returned
by the call that got it; as many calls as there are partitions end the turn. -/
structure Valid (nPartitions : ℕ) (state : Tasks producerSignature PyError ℤ Manager) : Prop where
  partitions : ∀ task partition, Returned state task partition →
    0 ≤ partition ∧ partition < nPartitions
  handed : state.shared.handed.map Prod.snd <+: (List.range nPartitions).map Nat.cast
  all_handed : state.shared.iPartition = -1 →
    state.shared.handed.map Prod.snd = (List.range nPartitions).map Nat.cast
  returned : ∀ task partition, (task, partition) ∈ state.shared.handed →
    ∀ returned, Returned state task returned → returned = partition
  ended : ∀ returned : Finset ℕ, nPartitions ≤ returned.card →
    (∀ task ∈ returned, ∃ partition, Returned state task partition) →
      state.shared.iPartition = -1

/-- While the turn goes on, a call that has returned got a partition before the
last one. -/
theorem Orderly.card_lt {manager : Manager} {phases : List Phase}
    (h : Orderly nPartitions manager phases) (hindex : manager.iPartition ≠ -1)
    {calls : Finset ℕ} {returned : ℕ → ℤ} (hpartitions : 0 < nPartitions)
    (hcalls : ∀ task ∈ calls, Fits nPartitions manager task (.chosen (returned task))) :
    calls.card < nPartitions := by
  have hhanded : ∀ task ∈ calls, (task, returned task) ∈ manager.handed ∧
      returned task ∈ Finset.Ico 0 ((nPartitions : ℤ) - 1) := by
    intro task htask
    obtain ⟨hnonneg, hlt, ⟨hmem, hlast⟩ | ⟨_, hphase⟩⟩ := hcalls task htask
    · refine ⟨hmem, Finset.mem_Ico.mpr ⟨hnonneg, ?_⟩⟩
      have hne : returned task + 1 ≠ nPartitions := fun heq => hindex (hlast heq)
      omega
    · exact absurd hphase hindex
  have hnodup : (manager.handed.map Prod.snd).Nodup := by
    rw [h.turn.partitions]
    exact List.nodup_range.map Nat.cast_injective
  have hinjective : Set.InjOn returned calls := by
    intro task htask other hother heq
    have hpair := List.inj_on_of_nodup_map hnodup (hhanded task htask).1 (hhanded other hother).1
      heq
    exact congrArg Prod.fst hpair
  have hcard := Finset.card_le_card_of_injOn returned (fun task htask => (hhanded task htask).2)
    hinjective
  rw [Int.card_Ico] at hcard
  omega

section Reached

variable {calls : ℕ} {state : Tasks producerSignature PyError ℤ Manager}

theorem orderly_of_reaches (hpartitions : 0 < nPartitions)
    (h : Machine.Reaches
      ((surroundings nPartitions).restrict fun manager _ => ReadsInTurn nPartitions manager).machine
      (.init (List.replicate calls choosePartition) .new) state) :
    (∃ phases, Orderly nPartitions state.shared phases) ∧
      ∀ task partition, Returned state task partition →
        Fits nPartitions state.shared task (.chosen partition) := by
  have hmaintains : Surroundings.Maintains
      ((surroundings nPartitions).restrict fun manager _ => ReadsInTurn nPartitions manager)
      (typestate (batchGate nPartitions 0))
      (fun (partition : ℤ) phase => phase = ⟨0, .chosen partition⟩) Busy calls (fun _ => .rest)
      (Orderly nPartitions) := by
    constructor
    · rintro manager task event ⟨hserves, _⟩
      refine given_of_partitionsFor ?_
      rintro answer rfl
      have hanswer : answer = nPartitions := of_decide_eq_true hserves
      exact hanswer
    · exact Counters.synchronous_of_busy
    · exact Counters.not_busy_of_idle
    · rintro partition _ rfl
      exact id
    · exact fun horderly _ => horderly.grow
    · exact fun horderly hothers _ hserves hadvance =>
        horderly.call hothers hpartitions hserves.1 hserves.2 hadvance
    · exact fun _ hacts => hacts.elim
  obtain ⟨tracks, htracked⟩ := hmaintains.tracked_of_reaches List.length_replicate
    (fun task program hprogram => by
      rw [List.eq_of_mem_replicate (List.mem_of_getElem? hprogram)]
      exact conforms_choosePartition)
    .new h
  refine ⟨⟨_, htracked.invariant⟩, fun task partition hreturned => ?_⟩
  rw [Returned, ← htracked.started, List.getElem?_map, Option.map_eq_some_iff] at hreturned
  obtain ⟨⟨_, phase⟩, htrack, rfl⟩ := hreturned
  obtain rfl : phase = ⟨0, .chosen partition⟩ := htracked.conforms _ (List.mem_of_getElem? htrack)
  exact htracked.invariant.fits task ⟨0, .chosen partition⟩
    (by rw [List.getElem?_map, htrack, Option.map_some])

/-- As long as the index is read in turn, the choices are valid. -/
theorem partitions_valid (hpartitions : 0 < nPartitions)
    (h : Machine.Reaches
      ((surroundings nPartitions).restrict fun manager _ => ReadsInTurn nPartitions manager).machine
      (.init (List.replicate calls choosePartition) .new) state) :
    Valid nPartitions state := by
  obtain ⟨⟨phases, horderly⟩, hreturned⟩ := orderly_of_reaches hpartitions h
  have hturn := horderly.turn
  have hlength : state.shared.handed.length ≤ nPartitions := by
    rcases hturn.index with ⟨_, hlength⟩ | ⟨_, hle⟩ <;> omega
  refine ⟨fun task partition hdone => ?_, ?_, fun hphase => ?_,
    fun task partition hmem other hdone => ?_, fun returned hcard hdone => ?_⟩
  · obtain ⟨hnonneg, hlt, _⟩ := hreturned task partition hdone
    exact ⟨hnonneg, hlt⟩
  · have htake := List.take_prefix state.shared.handed.length (List.range nPartitions)
    rw [List.take_range, min_eq_left hlength] at htake
    rw [hturn.partitions]
    exact htake.map _
  · rcases hturn.index with ⟨_, hlength⟩ | ⟨hindex, _⟩
    · rw [hturn.partitions, hlength]
    · omega
  · have hfst := List.mem_map_of_mem (f := Prod.fst) hmem
    obtain ⟨_, _, ⟨hother, _⟩ | ⟨hnotin, _⟩⟩ := hreturned task other hdone
    · exact congrArg Prod.snd (List.inj_on_of_nodup_map hturn.calls hother hmem rfl)
    · exact absurd hfst hnotin
  · by_contra hindex
    choose! partition hpartition using hdone
    have hlt := horderly.card_lt hindex hpartitions
      (fun task htask => hreturned task (partition task) (hpartition task htask))
    omega

end Reached

end Runs

section Deployment

open Counters (answering)

/-- Two calls in turn, of which the second one ends it, and a third one. -/
def threeCallsRun : List (TaskAction producerSignature PyError Empty) :=
  [.start, .call 0 (answering 2 0 0), .call 0 (answering 2 0 0),
    .start, .call 1 (answering 2 0 1), .call 1 (answering 2 0 1),
    .call 0 (answering 2 0 2), .call 1 (answering 2 0 2), .call 1 (answering 2 0 2),
    .start, .call 2 (answering 2 0 (-1)), .call 2 (answering 2 0 (-1))]

theorem partitions_valid_threeCallsRun : ∃ state,
    Machine.Reaches ((surroundings 2).restrict fun manager _ => ReadsInTurn 2 manager).machine
      (.init (List.replicate 3 choosePartition) .new) state ∧
    Returned state 0 0 ∧ Returned state 1 1 ∧ Returned state 2 0 ∧ Valid 2 state := by
  have hreaches : Machine.Reaches
      ((surroundings 2).restrict fun manager _ => ReadsInTurn 2 manager).machine
      (.init (List.replicate 3 choosePartition) .new) _ := ⟨threeCallsRun, rfl⟩
  exact ⟨_, hreaches, rfl, rfl, rfl, partitions_valid (by decide) hreaches⟩

/-- Two calls for one partition: the second one reads the index while the first
one awaits the number of partitions. -/
def overlappingRun : List (TaskAction producerSignature PyError Empty) :=
  [.start, .call 0 (answering 1 0 0), .call 0 (answering 1 0 0), .start] ++
    List.replicate 3 (.call 1 (answering 1 0 1))

/-- The second call returns a partition that does not exist, and leaves an index
that is past the number of partitions. -/
theorem partition_invalid : ∃ state,
    Machine.Reaches (surroundings 1).machine (.init (List.replicate 2 choosePartition) .new) state ∧
      Returned state 1 1 ∧ state.shared.iPartition = 2 ∧ ¬ Valid 1 state := by
  refine ⟨_, ⟨overlappingRun, rfl⟩, rfl, rfl, fun hvalid => ?_⟩
  exact absurd (hvalid.partitions 1 1 rfl).2 (by decide)

end Deployment

end BlockchainDataCollection.Partitions
