import BlockchainDataCollection.Producer.Connection
import BlockchainDataCollection.Producer.Messages

/-!
# Messages are backed by stored blocks

A producer that follows the blocks stores the row of a block before it sends the
block's transactions.  At every point of every run, each message it has handed to
Kafka names a transaction of a block whose row was stored by then, and it has
written nothing but rows of blocks that the node answered with.
-/

namespace BlockchainDataCollection.Backing

open BlockchainDataCollection.Effect
open BlockchainDataCollection.Effect.Program (Runs Establishes)
open BlockchainDataCollection.Python
open BlockchainDataCollection.Data
open BlockchainDataCollection.Storage
open BlockchainDataCollection.KafkaProducer
open BlockchainDataCollection.DataProducer
open BlockchainDataCollection.Messages
open BlockchainDataCollection.Connection

/-- What a call hands to Kafka for delivery. -/
def sentMessages : ProducerCall → List String
  | .sendBatch messages _ => messages
  | .send message => [message]
  | _ => []

/-- The message names a transaction of a block that the node answered with and
whose row was stored. -/
def Backed (cfg : DataCollectionConfig) (events : List ProducerEvent) (message : String) : Prop :=
  ∃ number blockData reward,
    (⟨.getBlockData number, .ok blockData⟩ : ProducerEvent) ∈ events ∧
    (⟨.execute (insertBlock (blockRow blockData reward)), .ok ()⟩ : ProducerEvent) ∈ events ∧
    ∃ txHash ∈ blockData.transactions, encodeKafkaEvent txHash cfg.mode = message

theorem Backed.mono {cfg : DataCollectionConfig} {events events' : List ProducerEvent}
    {message : String} (h : Backed cfg events message) (hsubset : events ⊆ events') :
    Backed cfg events' message := by
  obtain ⟨number, blockData, reward, hblock, hstored, htx⟩ := h
  exact ⟨number, blockData, reward, hsubset hblock, hsubset hstored, htx⟩

/-- What the event hands to Kafka is backed, and what it writes is the row of a
block that the node answered with. -/
structure Grounded (cfg : DataCollectionConfig) (events : List ProducerEvent)
    (event : ProducerEvent) : Prop where
  backed : ∀ message ∈ sentMessages event.op, Backed cfg events message
  stored : ∀ statement, event.op = .execute statement → ∃ number blockData reward,
    (⟨.getBlockData number, .ok blockData⟩ : ProducerEvent) ∈ events ∧
      statement = insertBlock (blockRow blockData reward)

theorem Grounded.mono {cfg : DataCollectionConfig} {events events' : List ProducerEvent}
    {event : ProducerEvent} (h : Grounded cfg events event) (hsubset : events ⊆ events') :
    Grounded cfg events' event where
  backed message hmessage := (h.backed message hmessage).mono hsubset
  stored statement hop := by
    obtain ⟨number, blockData, reward, hblock, rfl⟩ := h.stored statement hop
    exact ⟨number, blockData, reward, hsubset hblock, rfl⟩

/-! ## Rules -/

section Rules

variable {A B : Type} {cfg : DataCollectionConfig} {before : List ProducerEvent}

/-- After some events, everything the program does is grounded. -/
def ActsGrounded (cfg : DataCollectionConfig) (before : List ProducerEvent)
    (program : ProducerProgram A) : Prop :=
  ∀ events outcome, Runs program events outcome →
    ∀ event ∈ events, Grounded cfg (before ++ events) event

/-- A call that neither sends nor writes. -/
def IsPassive (op : ProducerCall) : Prop :=
  sentMessages op = [] ∧ ∀ statement, op ≠ .execute statement

def Passive (program : ProducerProgram A) (post : List ProducerEvent → A → Prop) : Prop :=
  Establishes (fun _ => True) (fun event => IsPassive event.op) (fun _ => True) program post

theorem passive_perform (op : ProducerCall) (hop : IsPassive op) :
    Passive (perform op) fun events answer => events = [⟨op, .ok answer⟩] :=
  Program.establishes_perform (fun _ => hop) (fun _ _ => rfl) fun _ _ => trivial

theorem Passive.actsGrounded {program : ProducerProgram A}
    {post : List ProducerEvent → A → Prop} (h : Passive program post) :
    ActsGrounded cfg before program := by
  intro events outcome hruns event hevent
  obtain ⟨hsent, hwritten⟩ := (h events outcome hruns fun _ _ => trivial).1 event hevent
  exact ⟨by simp [hsent], fun statement hop => absurd hop (hwritten statement)⟩

theorem actsGrounded_done (value : A) :
    ActsGrounded cfg before (.done value : ProducerProgram A) := by
  intro events outcome hruns
  cases hruns <;> simp

theorem actsGrounded_raise (error : PyError) :
    ActsGrounded cfg before (.raise error : ProducerProgram A) := by
  intro events outcome hruns
  cases hruns <;> simp

theorem ActsGrounded.bind {program : ProducerProgram A} {rest : A → ProducerProgram B}
    (hfirst : ActsGrounded cfg before program)
    (hrest : ∀ events value, Runs program events (.returned value) →
      ActsGrounded cfg (before ++ events) (rest value)) :
    ActsGrounded cfg before (program >>= rest) := by
  intro events outcome hruns event hevent
  rcases Program.runs_bind_iff.mp hruns with ⟨hrun, _⟩ | ⟨error, hrun, _⟩ |
    ⟨value, first, second, rfl, hrun, hrun'⟩
  · exact hfirst _ _ hrun event hevent
  · exact hfirst _ _ hrun event hevent
  · rcases List.mem_append.mp hevent with hevent | hevent
    · exact (hfirst _ _ hrun event hevent).mono (List.append_subset.mpr ⟨by simp, by simp⟩)
    · rw [← List.append_assoc]
      exact hrest first value hrun _ _ hrun' event hevent

/-- A passive first part, and what it is known to have done. -/
theorem Passive.bind {program : ProducerProgram A} {rest : A → ProducerProgram B}
    {post : List ProducerEvent → A → Prop} (hfirst : Passive program post)
    (hrest : ∀ events value, post events value → ActsGrounded cfg (before ++ events) (rest value)) :
    ActsGrounded cfg before (program >>= rest) :=
  hfirst.actsGrounded.bind fun events value hruns =>
    hrest events value ((hfirst events _ hruns fun _ _ => trivial).2.1 value rfl)

theorem ActsGrounded.rescue {program : ProducerProgram A}
    {handler : PyError → Option (ProducerProgram A)}
    (hhandler : ∀ error rescued, handler error = some rescued → ∃ value, rescued = .done value)
    (h : ActsGrounded cfg before program) : ActsGrounded cfg before (program.rescue handler) := by
  intro events outcome hruns
  obtain ⟨outcome', hruns'⟩ := Program.exists_runs_of_rescue hhandler hruns
  exact h events outcome' hruns'

end Rules

/-! ## The block loop -/

section Blocks

variable {cfg : DataCollectionConfig} {before : List ProducerEvent}

/-- Storing a block that the node answered with. -/
theorem actsGrounded_insertBlock {number : ℤ} {blockData : BlockData}
    (hblock : (⟨.getBlockData number, .ok blockData⟩ : ProducerEvent) ∈ before) (reward : ℤ) :
    ActsGrounded cfg before (perform (.execute (insertBlock (blockRow blockData reward)))) := by
  intro events outcome hruns event hevent
  have hop : event.op = .execute (insertBlock (blockRow blockData reward)) := by
    have honly : (perform (.execute (insertBlock (blockRow blockData reward)))).Ensures
        (fun event => event.op = .execute (insertBlock (blockRow blockData reward)))
        fun _ => True := Program.ensures_perform (fun _ => rfl) fun _ => trivial
    exact (honly events outcome hruns).1 event hevent
  constructor
  · rw [hop]
    exact fun message hmessage => absurd hmessage List.not_mem_nil
  · intro statement hstatement
    obtain rfl := ProducerCall.execute.inj (hop.symm.trans hstatement)
    exact ⟨number, blockData, reward, List.mem_append_left _ hblock, rfl⟩

/-- A batch of the block's messages, once its row is stored. -/
theorem actsGrounded_sendBatch {number reward : ℤ} {blockData : BlockData}
    (hblock : (⟨.getBlockData number, .ok blockData⟩ : ProducerEvent) ∈ before)
    (hstored : (⟨.execute (insertBlock (blockRow blockData reward)), .ok ()⟩ : ProducerEvent) ∈
      before) (fuel : ℕ) :
    ActsGrounded cfg before (sendBatch fuel (encodeMessages cfg blockData)) := by
  intro events outcome hruns event hevent
  have hvalid : ∀ answered ∈ events, AnswersValid (fun _ => True) (fun _ => True) answered := by
    rintro ⟨op, answer⟩ _
    cases answer with
    | error error => cases op <;> trivial
    | ok answer => cases op <;> simp [AnswersValid]
  have hsends : Sends (· ∈ encodeMessages cfg blockData) (fun _ => True) event.op :=
    (sendsOnly_sendBatch fuel (fun _ => id) events outcome hruns hvalid).1 event hevent
  constructor
  · intro message hmessage
    have hmem : message ∈ encodeMessages cfg blockData := by
      cases hop : event.op with
      | sendBatch messages partition =>
          rw [hop] at hsends hmessage
          exact hsends.1 message hmessage
      | send text =>
          rw [hop] at hsends hmessage
          exact List.mem_singleton.mp hmessage ▸ hsends
      | _ =>
          rw [hop] at hmessage
          cases hmessage
    obtain ⟨txHash, htx, hencode⟩ := List.mem_map.mp hmem
    exact ⟨number, blockData, reward, List.mem_append_left _ hblock,
      List.mem_append_left _ hstored, txHash, htx, hencode⟩
  · intro statement hop
    have hlimited := (limiting_sendBatch fuel (encodeMessages cfg blockData)).not_limited hruns
      event hevent
    rw [hop] at hlimited
    exact absurd trivial hlimited

theorem passive_rewardFor (withReward : Bool) (number : ℤ) :
    Passive (rewardFor withReward number) fun _ _ => True := by
  cases withReward with
  | false => exact Program.establishes_done trivial
  | true =>
      apply Establishes.bind (passive_perform (.traceBlock number) ⟨rfl, by simp⟩)
      intro _ data _
      cases blockReward data with
      | ok reward => exact Program.establishes_done trivial
      | error error => exact Program.establishes_raise trivial

theorem actsGrounded_produceBlock (fuel : ℕ) (withReward : Bool) (number : ℤ) :
    ActsGrounded cfg before (produceBlock fuel cfg withReward number) := by
  apply (passive_perform (.getBlockData number) ⟨rfl, by simp⟩).bind
  rintro _ blockData rfl
  apply (passive_rewardFor withReward number).bind
  intro tracing reward _
  have hblock : (⟨.getBlockData number, .ok blockData⟩ : ProducerEvent) ∈
      before ++ [⟨.getBlockData number, .ok blockData⟩] ++ tracing := by simp
  apply (actsGrounded_insertBlock hblock reward).bind
  intro storing _ hstoring
  have hstored : storing = [⟨.execute (insertBlock (blockRow blockData reward)), .ok ()⟩] := by
    cases hstoring with
    | @call _ _ answer _ _ hruns => cases answer <;> cases hruns; rfl
  split
  · exact actsGrounded_done ()
  · have hrow : (⟨.execute (insertBlock (blockRow blockData reward)), .ok ()⟩ : ProducerEvent) ∈
        before ++ [⟨.getBlockData number, .ok blockData⟩] ++ tracing ++ storing := by
      simp [hstored]
    exact (actsGrounded_sendBatch (List.mem_append_left _ hblock) hrow fuel).bind
      fun _ _ _ => actsGrounded_done ()

theorem passive_logProducerProgress (iBlock startBlock : ℤ) (endBlock : Option ℤ) :
    Passive (logProducerProgress iBlock startBlock endBlock) fun _ _ => True := by
  cases endBlock with
  | none => exact Program.establishes_raise trivial
  | some endBlock =>
      rw [logProducerProgress]
      split
      · exact Establishes.mono (passive_perform (.estimateRemaining _ _) ⟨rfl, by simp⟩)
          fun _ _ _ => trivial
      · exact Program.establishes_done trivial

theorem actsGrounded_processBlock (fuel : ℕ) (withReward : Bool) (startBlock : ℤ)
    (endBlock : Option ℤ) (iBlock : ℤ) :
    ActsGrounded cfg before (processBlock fuel cfg withReward startBlock endBlock iBlock) := by
  apply (actsGrounded_produceBlock fuel withReward iBlock).bind
  intro _ _ _
  apply (passive_perform (.setProcessedBlock iBlock) ⟨rfl, by simp⟩).bind
  intro _ _ _
  apply (passive_perform .getNTransactions ⟨rfl, by simp⟩).bind
  intro _ _ _
  exact (passive_logProducerProgress iBlock startBlock endBlock).actsGrounded

/-- The block loop, by induction on its fuel. -/
theorem actsGrounded_produceBlocks (withReward : Bool) (startBlock : ℤ) (endBlock : Option ℤ)
    (fuel : ℕ) (iBlock : ℤ) :
    ActsGrounded cfg before (produceBlocks cfg withReward startBlock endBlock fuel iBlock) := by
  induction fuel generalizing iBlock before with
  | zero =>
      intro events outcome hruns
      cases hruns
      simp
  | succ fuel ih =>
      rw [produceBlocks]
      split
      · exact (actsGrounded_processBlock fuel withReward startBlock endBlock iBlock).bind
          fun _ _ _ => ih (iBlock + 1)
      · exact actsGrounded_done ()

theorem passive_getExplorationBounds : Passive (getExplorationBounds cfg) fun _ _ => True := by
  apply Establishes.bind (passive_perform .getBlock ⟨rfl, by simp⟩)
  intro _ lastBlock _
  split
  · exact Program.establishes_done trivial
  · apply Establishes.bind (passive_perform (.getBlockData _) ⟨rfl, by simp⟩)
    exact fun _ _ _ => Program.establishes_raise trivial
  · exact Program.establishes_done trivial

theorem actsGrounded_startProducer (fuel : ℕ) (withReward : Bool) :
    ActsGrounded cfg before (startProducer fuel cfg withReward) := by
  apply passive_getExplorationBounds.bind
  rintro _ ⟨startBlock, endBlock⟩ _
  apply ActsGrounded.rescue
  · intro error rescued hcaught
    cases error <;> cases hcaught
    exact ⟨(), rfl⟩
  · exact actsGrounded_produceBlocks withReward startBlock endBlock fuel startBlock

/-- At every point of every run, what a task has done is grounded, unless it
fetches logs: then it only leaves the database alone. -/
theorem grounded_of_runs {fuel : ℕ} {events : List ProducerEvent}
    {outcome : Outcome PyError Unit} (hruns : Runs (startProducerTask fuel cfg) events outcome)
    {event : ProducerEvent} (hevent : event ∈ events) :
    (cfg.mode ≠ .getLogs → Grounded cfg events event) ∧
      (cfg.mode = .getLogs → ¬ UsesDatabase event.op) := by
  have hlimited := limiting_startProducerTask fuel cfg
  unfold startProducerTask at hruns hlimited
  split at hruns
  next hmode =>
      rw [hmode]
      exact ⟨fun _ =>
        @actsGrounded_startProducer cfg [] fuel true events outcome hruns event hevent, by simp⟩
  next hmode =>
      rw [hmode]
      exact ⟨fun _ =>
        @actsGrounded_startProducer cfg [] fuel false events outcome hruns event hevent, by simp⟩
  next hmode =>
      rw [hmode]
      exact ⟨fun _ => @actsGrounded_raise _ cfg [] _ events outcome hruns event hevent, by simp⟩
  next hmode =>
      rw [hmode] at hlimited ⊢
      exact ⟨by simp, fun _ => hlimited.not_limited hruns event hevent⟩

/-- A task writes rows of blocks only. -/
theorem exists_insertBlock_of_runs {fuel : ℕ} {events : List ProducerEvent}
    {outcome : Outcome PyError Unit} (hruns : Runs (startProducerTask fuel cfg) events outcome)
    {event : ProducerEvent} (hevent : event ∈ events) {statement : Statement}
    (hop : event.op = .execute statement) : ∃ number blockData reward,
      (⟨.getBlockData number, .ok blockData⟩ : ProducerEvent) ∈ events ∧
        statement = insertBlock (blockRow blockData reward) := by
  obtain ⟨hgrounded, hunused⟩ := grounded_of_runs hruns hevent
  by_cases hmode : cfg.mode = .getLogs
  · have hlimited := hunused hmode
    rw [hop] at hlimited
    exact absurd trivial hlimited
  · exact (hgrounded hmode).stored statement hop

end Blocks

end BlockchainDataCollection.Backing
