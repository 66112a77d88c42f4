import BlockchainDataCollection.Producer.Connection
import BlockchainDataCollection.Producer.Delivery

/-!
# Blocks are recorded without gaps

The block loop moves its counter to a block when `send_batch` is done with it, and
whether anything was delivered does not matter.  The row of the block was inserted
before, so that the rows up to the counter have no gaps in any run.
-/

namespace BlockchainDataCollection.Recording

open BlockchainDataCollection.Effect
open BlockchainDataCollection.Effect.Program (Runs Establishes)
open BlockchainDataCollection.Python
open BlockchainDataCollection.Data
open BlockchainDataCollection.Storage
open BlockchainDataCollection.KafkaProducer
open BlockchainDataCollection.DataProducer
open BlockchainDataCollection.Sending
open BlockchainDataCollection.Connection
open BlockchainDataCollection.Delivery

/-- The insertion of the block that the node answered with has succeeded. -/
def Recorded (events : List ProducerEvent) (number : ℤ) : Prop :=
  ∃ blockData reward, (⟨.getBlockData number, .ok blockData⟩ : ProducerEvent) ∈ events ∧
    (⟨.execute (insertBlock (blockRow blockData reward)), .ok ()⟩ : ProducerEvent) ∈ events

theorem Recorded.mono {events events' : List ProducerEvent} {number : ℤ}
    (h : Recorded events number) (hsubset : events ⊆ events') : Recorded events' number := by
  obtain ⟨blockData, reward, hblock, hstored⟩ := h
  exact ⟨blockData, reward, hsubset hblock, hsubset hstored⟩

/-! ## Up to the assignment of the counter -/

section Records

variable {A : Type}

def Records (program : ProducerProgram A) (post : List ProducerEvent → A → Prop) : Prop :=
  Establishes (fun _ => True) Unprocessed (fun _ => True) program post

theorem records_perform (op : ProducerCall) (hop : ∀ number, op ≠ .setProcessedBlock number) :
    Records (perform op) fun events answer => events = [⟨op, .ok answer⟩] :=
  Program.establishes_perform (fun _ => hop) (fun _ _ => rfl) fun _ _ => trivial

def MarksBlock : ProducerCall → Prop
  | .setProcessedBlock _ => True
  | _ => False

theorem not_marksBlock_of_expects {phase : Phase} {op : ProducerCall} (h : Expects phase op) :
    ¬ MarksBlock op := by
  obtain ⟨remaining, stage⟩ := phase
  cases op with
  | setProcessedBlock number => cases stage <;> exact h.elim
  | _ => exact id

theorem records_sendBatch (fuel : ℕ) (msgs : List String) :
    Records (sendBatch fuel msgs) fun _ _ => True := by
  have hgiven : ∀ event, Given (Counters.anyGate msgs.length) event := fun _ =>
    given_of_partitionsFor fun _ _ => trivial
  have hsend : (sendBatch fuel msgs).Conforms (typestate (Counters.anyGate msgs.length))
      (fun _ phase => phase.stage = .idle) ⟨0, .idle⟩ := conforms_sendBatch fuel le_rfl
  have hlimiting : (sendBatch fuel msgs).Conforms (Program.limiting MarksBlock)
      (fun _ phase => phase = false) false :=
    hsend.limiting hgiven fun _ _ => not_marksBlock_of_expects
  intro events outcome hruns _
  refine ⟨fun event hevent number hop => ?_, fun _ _ => trivial, fun _ _ => trivial⟩
  have hunmarked := hlimiting.not_limited hruns event hevent
  rw [hop] at hunmarked
  exact hunmarked trivial

theorem records_rewardFor (withReward : Bool) (number : ℤ) :
    Records (rewardFor withReward number) fun _ _ => True := by
  cases withReward with
  | false => exact Program.establishes_done trivial
  | true =>
      apply (records_perform (.traceBlock number) (by simp)).bind
      intro _ data _
      cases blockReward data with
      | ok reward => exact Program.establishes_done trivial
      | error error => exact Program.establishes_raise trivial

/-- A block is recorded before its messages are sent. -/
theorem records_produceBlock (fuel : ℕ) (cfg : DataCollectionConfig) (withReward : Bool)
    (number : ℤ) :
    Records (produceBlock fuel cfg withReward number) fun events _ => Recorded events number := by
  apply (records_perform (.getBlockData number) (by simp)).bind
  rintro _ blockData rfl
  apply (records_rewardFor withReward number).bind
  intro _ reward _
  apply (records_perform (.execute (insertBlock (blockRow blockData reward))) (by simp)).bind
  rintro _ _ rfl
  split
  · exact Program.establishes_done ⟨blockData, reward, by simp, by simp⟩
  · apply (records_sendBatch fuel _).bind
    intro _ _ _
    exact Program.establishes_done ⟨blockData, reward, by simp, by simp⟩

/-- A run that gets its bounds starts at the configured block, or at 0. -/
theorem records_getExplorationBounds (cfg : DataCollectionConfig) :
    Records (getExplorationBounds cfg) fun _ bounds =>
      bounds = (cfg.startBlock.getD 0, cfg.endBlock) := by
  apply (records_perform .getBlock (by simp)).bind
  intro _ lastBlock _
  cases hstart : cfg.startBlock with
  | some startBlock => exact Program.establishes_done rfl
  | none =>
      cases lastBlock with
      | none => exact Program.establishes_done rfl
      | some number =>
          exact (records_perform (.getBlockData number) (by simp)).bind fun _ _ _ =>
            Program.establishes_raise trivial

end Records

/-! ## The block loop -/

section Loop

variable {cfg : DataCollectionConfig} {withReward : Bool} {startBlock : ℤ} {endBlock : Option ℤ}
  {fuel : ℕ} {events : List ProducerEvent} {outcome : Outcome PyError Unit}
  {given : ProducerEvent → Prop} {passed : List ProducerEvent → ℤ → Prop}

/-- Where all events are as given, the body of the loop does not move the counter,
and does not return, before its block is passed. -/
def BodyPasses (given : ProducerEvent → Prop) (passed : List ProducerEvent → ℤ → Prop)
    (cfg : DataCollectionConfig) (withReward : Bool) : Prop :=
  ∀ {fuel startBlock endBlock number events outcome},
    Runs (processBlock fuel cfg withReward startBlock endBlock number) events outcome →
    (∀ event ∈ events, given event) →
    (∀ i, Processed events i → i = number ∧ passed events number) ∧
      (outcome = .returned () → passed events number)

/-- Run lemma: the counter moves to no block before all blocks up to it are passed. -/
theorem passed_of_produceBlocks (hbody : BodyPasses given passed cfg withReward)
    (hmono : ∀ {events events' number}, passed events number → events ⊆ events' →
      passed events' number) {number : ℤ}
    (hruns : Runs (produceBlocks cfg withReward startBlock endBlock fuel number) events outcome)
    (hgiven : ∀ event ∈ events, given event) {i b : ℤ} (hprocessed : Processed events i)
    (hfirst : number ≤ b) (hle : b ≤ i) : passed events b := by
  induction fuel generalizing number events with
  | zero =>
      cases hruns
      cases hprocessed
  | succ fuel ih =>
      rw [produceBlocks] at hruns
      split at hruns
      · rcases Program.runs_bind_iff.mp hruns with ⟨hrun, rfl⟩ | ⟨error, hrun, rfl⟩ |
          ⟨_, first, second, rfl, hrun, hrest⟩
        · obtain ⟨rfl, hpassed⟩ := (hbody hrun hgiven).1 i hprocessed
          exact le_antisymm hle hfirst ▸ hpassed
        · obtain ⟨rfl, hpassed⟩ := (hbody hrun hgiven).1 i hprocessed
          exact le_antisymm hle hfirst ▸ hpassed
        · rw [List.forall_mem_append] at hgiven
          obtain ⟨hmarked, hreturned⟩ := hbody hrun hgiven.1
          rcases hfirst.eq_or_lt with rfl | hlt
          · exact hmono (hreturned rfl) (List.subset_append_left _ _)
          · rcases List.mem_append.mp hprocessed with hprocessed | hprocessed
            · exact absurd (hmarked i hprocessed).1 (by omega)
            · exact hmono (ih hrest hgiven.2 hprocessed hlt) (List.subset_append_right _ _)
      · cases hruns <;> cases hprocessed

/-- A run of a producer gets no bounds, or it runs the loop from its first block. -/
theorem cases_of_startProducer (hruns : Runs (startProducer fuel cfg withReward) events outcome) :
    (∃ outcome', Runs (getExplorationBounds cfg) events outcome') ∨
      ∃ bounding later outcome' outcome'', events = bounding ++ later ∧
        Runs (getExplorationBounds cfg) bounding outcome' ∧
        Runs (produceBlocks cfg withReward (cfg.startBlock.getD 0) cfg.endBlock fuel
          (cfg.startBlock.getD 0)) later outcome'' := by
  rcases Program.runs_bind_iff.mp hruns with ⟨hrun, _⟩ | ⟨error, hrun, _⟩ |
    ⟨bounds, bounding, later, hevents, hrun, hrest⟩
  · exact .inl ⟨_, hrun⟩
  · exact .inl ⟨_, hrun⟩
  · obtain rfl :=
      (records_getExplorationBounds cfg _ _ hrun fun _ _ => trivial).2.1 bounds rfl
    have hcaught : ∀ error rescued, onBlockNotFound error = some rescued →
        ∃ value, rescued = .done value := by
      intro error rescued hrescued
      cases error <;> cases hrescued
      exact ⟨(), rfl⟩
    obtain ⟨outcome', hloop⟩ := Program.exists_runs_of_rescue hcaught hrest
    exact .inr ⟨bounding, later, _, outcome', hevents, hrun, hloop⟩

/-- The same from the first block of a run on. -/
theorem passed_of_startProducer (hbody : BodyPasses given passed cfg withReward)
    (hmono : ∀ {events events' number}, passed events number → events ⊆ events' →
      passed events' number)
    (hruns : Runs (startProducer fuel cfg withReward) events outcome)
    (hgiven : ∀ event ∈ events, given event) {i b : ℤ} (hprocessed : Processed events i)
    (hfirst : cfg.startBlock.getD 0 ≤ b) (hle : b ≤ i) : passed events b := by
  have hunprocessed : ∀ {events' outcome'}, Runs (getExplorationBounds cfg) events' outcome' →
      ¬ Processed events' i := fun hrun hprocessed' =>
    (records_getExplorationBounds cfg _ _ hrun fun _ _ => trivial).1 _ hprocessed' i rfl
  rcases cases_of_startProducer hruns with ⟨_, hrun⟩ | ⟨bounding, later, _, _, rfl, hrun, hloop⟩
  · exact absurd hprocessed (hunprocessed hrun)
  · rw [List.forall_mem_append] at hgiven
    rcases List.mem_append.mp hprocessed with hprocessed | hprocessed
    · exact absurd hprocessed (hunprocessed hrun)
    · exact hmono (passed_of_produceBlocks hbody hmono hloop hgiven.2 hprocessed hfirst hle)
        (List.subset_append_right _ _)

/-- In the body of the loop, the block is recorded before the counter moves, and
before the body returns. -/
theorem bodyPasses_recorded : BodyPasses (fun _ => True) Recorded cfg withReward := by
  intro fuel startBlock endBlock number events outcome hruns _
  have hunprocessed : ∀ {events' outcome'},
      Runs (produceBlock fuel cfg withReward number) events' outcome' →
      ∀ i, ¬ Processed events' i := by
    intro events' outcome' hruns' i hprocessed
    exact (records_produceBlock fuel cfg withReward number _ _ hruns' fun _ _ => trivial).1 _
      hprocessed i rfl
  rcases Program.runs_bind_iff.mp hruns with ⟨hrun, rfl⟩ | ⟨error, hrun, rfl⟩ |
    ⟨_, first, second, rfl, hrun, hrest⟩
  · exact ⟨fun i hprocessed => absurd hprocessed (hunprocessed hrun i), by simp⟩
  · exact ⟨fun i hprocessed => absurd hprocessed (hunprocessed hrun i), by simp⟩
  · have hrecorded : Recorded (first ++ second) number :=
      ((records_produceBlock fuel cfg withReward number _ _ hrun fun _ _ => trivial).2.1 _ rfl).mono
        (List.subset_append_left _ _)
    refine ⟨fun i hprocessed => ⟨?_, hrecorded⟩, fun _ => hrecorded⟩
    have honly : ∀ event ∈ second, ProcessedOnly number event := by
      refine (Program.ensures_bind (Program.ensures_perform (fun _ other hop => ?_)
        fun _ => trivial) (fun _ _ => Program.ensures_bind
          (Program.ensures_perform (fun _ other hop => ?_) fun _ => trivial)
          fun _ _ => processedOnly_logProducerProgress startBlock number endBlock) _ _ hrest).1
      · cases hop
        rfl
      · cases hop
    rcases List.mem_append.mp hprocessed with hfirst | hsecond
    · exact absurd hfirst (hunprocessed hrun i)
    · exact honly _ hsecond i rfl

/-- In every run, whatever fails, all blocks from the first one up to the counter
are recorded. -/
theorem recorded_of_processed (hruns : Runs (startProducer fuel cfg withReward) events outcome)
    {i b : ℤ} (hprocessed : Processed events i) (hfirst : cfg.startBlock.getD 0 ≤ b)
    (hle : b ≤ i) : Recorded events b :=
  passed_of_startProducer bodyPasses_recorded Recorded.mono hruns (fun _ _ => trivial) hprocessed
    hfirst hle

/-- In a run that loses no message, they are delivered as well. -/
theorem blockDelivered_of_processed
    (hruns : Runs (startProducer fuel cfg withReward) events outcome)
    (hlossless : ∀ event ∈ events, isLossless event) {i b : ℤ} (hprocessed : Processed events i)
    (hfirst : cfg.startBlock.getD 0 ≤ b) (hle : b ≤ i) : BlockDelivered cfg events b :=
  passed_of_startProducer (fun hruns => delivered_of_processBlock hruns) BlockDelivered.mono hruns
    hlossless hprocessed hfirst hle

end Loop

end BlockchainDataCollection.Recording
