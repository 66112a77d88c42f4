import BlockchainDataCollection.Consumer.KafkaEvents
import BlockchainDataCollection.Producer.Backing
import BlockchainDataCollection.Producer.Chunking
import BlockchainDataCollection.Producer.Recording

/-!
# Messages are forwarded once and in order

Whatever fails, a producer task hands a message to Kafka at most once for each
time the node listed its transaction, and in the order of the node's lists.  A
task that follows the blocks asks for each block once.
-/

namespace BlockchainDataCollection.Forwarding

open BlockchainDataCollection.Effect
open BlockchainDataCollection.Effect.Program (Runs)
open BlockchainDataCollection.Python
open BlockchainDataCollection.Data
open BlockchainDataCollection.Storage
open BlockchainDataCollection.KafkaProducer
open BlockchainDataCollection.DataProducer
open BlockchainDataCollection.Backing
open BlockchainDataCollection.Recording

/-- The messages that the events hand to Kafka, in their order. -/
def forwarded (events : List ProducerEvent) : List String :=
  events.flatMap fun event => sentMessages event.op

/-- The messages for the transactions that the node lists in an answer. -/
def listedMessages (cfg : DataCollectionConfig) : ProducerEvent → List String
  | ⟨.getBlockData _, .ok blockData⟩ => encodeMessages cfg blockData
  | ⟨.getLogs _, .ok logs⟩ => logs.map fun txHash => encodeKafkaEvent txHash cfg.mode
  | _ => []

/-- All messages listed in the answers, in their order. -/
def listed (cfg : DataCollectionConfig) (events : List ProducerEvent) : List String :=
  events.flatMap (listedMessages cfg)

@[simp]
theorem forwarded_nil : forwarded [] = [] := rfl

@[simp]
theorem forwarded_append (first second : List ProducerEvent) :
    forwarded (first ++ second) = forwarded first ++ forwarded second :=
  List.flatMap_append

theorem forwarded_eq_nil_iff {events : List ProducerEvent} :
    forwarded events = [] ↔ ∀ event ∈ events, sentMessages event.op = [] :=
  List.flatMap_eq_nil_iff

/-! ## Rules -/

section Rules

variable {A B : Type} {msgs msgs' : List String}

/-- Every run hands a part of the messages to Kafka, in their order. -/
def ForwardsFrom (msgs : List String) (program : ProducerProgram A) (post : A → Prop) : Prop :=
  ∀ events outcome, Runs program events outcome →
    (forwarded events).Sublist msgs ∧ ∀ value, outcome = .returned value → post value

/-- A program that hands nothing to Kafka. -/
def Silent (program : ProducerProgram A) (post : A → Prop) : Prop := ForwardsFrom [] program post

theorem Silent.forwarded_eq_nil {program : ProducerProgram A} {post : A → Prop}
    (h : Silent program post) {events : List ProducerEvent} {outcome : Outcome PyError A}
    (hruns : Runs program events outcome) : forwarded events = [] :=
  List.sublist_nil.mp (h events outcome hruns).1

theorem forwardsFrom_done {value : A} {post : A → Prop} (hpost : post value) :
    ForwardsFrom msgs (.done value) post := by
  intro events outcome hruns
  cases hruns <;> simp [hpost]

theorem forwardsFrom_raise {error : PyError} {post : A → Prop} :
    ForwardsFrom msgs (.raise error) post := by
  intro events outcome hruns
  cases hruns <;> simp

theorem forwardsFrom_perform (op : ProducerCall) :
    ForwardsFrom (sentMessages op) (perform op) fun _ => True := by
  intro events outcome hruns
  refine ⟨?_, fun _ _ => trivial⟩
  cases hruns with
  | observed => simp
  | @call _ _ answer _ _ hruns => cases answer <;> cases hruns <;> simp [forwarded]

theorem ForwardsFrom.bind {program : ProducerProgram A} {post : A → Prop}
    {rest : A → ProducerProgram B} {post' : B → Prop} (hfirst : ForwardsFrom msgs program post)
    (hrest : ∀ value, post value → ForwardsFrom msgs' (rest value) post') :
    ForwardsFrom (msgs ++ msgs') (program >>= rest) post' := by
  intro events outcome hruns
  rcases Program.runs_bind_iff.mp hruns with ⟨hrun, rfl⟩ | ⟨error, hrun, rfl⟩ |
    ⟨value, first, second, rfl, hrun, hrun'⟩
  · exact ⟨(hfirst _ _ hrun).1.trans (List.sublist_append_left _ _), by simp⟩
  · exact ⟨(hfirst _ _ hrun).1.trans (List.sublist_append_left _ _), by simp⟩
  · obtain ⟨hsent, hvalue⟩ := hfirst _ _ hrun
    obtain ⟨hsent', hpost⟩ := hrest value (hvalue value rfl) _ _ hrun'
    exact ⟨forwarded_append _ _ ▸ hsent.append hsent', hpost⟩

/-- Nothing is handed to Kafka before the rest. -/
theorem Silent.bind {program : ProducerProgram A} {post : A → Prop} {rest : A → ProducerProgram B}
    {post' : B → Prop} (hfirst : Silent program post)
    (hrest : ∀ value, post value → ForwardsFrom msgs (rest value) post') :
    ForwardsFrom msgs (program >>= rest) post' :=
  ForwardsFrom.bind hfirst hrest

/-- Nothing is handed to Kafka after the first part. -/
theorem ForwardsFrom.bind_silent {program : ProducerProgram A} {post : A → Prop}
    {rest : A → ProducerProgram B} {post' : B → Prop} (hfirst : ForwardsFrom msgs program post)
    (hrest : ∀ value, post value → Silent (rest value) post') :
    ForwardsFrom msgs (program >>= rest) post' :=
  List.append_nil msgs ▸ hfirst.bind hrest

theorem ForwardsFrom.mono {program : ProducerProgram A} {post : A → Prop}
    (h : ForwardsFrom msgs program post) (hmsgs : msgs.Sublist msgs') :
    ForwardsFrom msgs' program post := by
  intro events outcome hruns
  obtain ⟨hsent, hvalue⟩ := h events outcome hruns
  exact ⟨hsent.trans hmsgs, hvalue⟩

theorem silent_perform (op : ProducerCall) (hop : sentMessages op = []) :
    Silent (perform op) fun _ => True := by
  rw [Silent, ← hop]
  exact forwardsFrom_perform op

theorem Passive.silent {program : ProducerProgram A} {post : List ProducerEvent → A → Prop}
    (h : Passive program post) : Silent program fun _ => True := by
  intro events outcome hruns
  refine ⟨?_, fun _ _ => trivial⟩
  have hnone : forwarded events = [] := forwarded_eq_nil_iff.mpr fun event hevent =>
    ((h events outcome hruns fun _ _ => trivial).1 event hevent).1
  exact hnone ▸ List.Sublist.refl _

theorem ForwardsFrom.rescue {program : ProducerProgram A}
    {handler : PyError → Option (ProducerProgram A)}
    (hhandler : ∀ error rescued, handler error = some rescued → ∃ value, rescued = .done value)
    (h : ForwardsFrom msgs program fun _ => True) :
    ForwardsFrom msgs (program.rescue handler) fun _ => True := by
  intro events outcome hruns
  obtain ⟨outcome', hruns'⟩ := Program.exists_runs_of_rescue hhandler hruns
  exact ⟨(h events outcome' hruns').1, fun _ _ => trivial⟩

/-- A call that is silent, after which the rest depends on the answer. -/
theorem cases_of_runs_perform {op : ProducerCall} {rest : op.Answer → ProducerProgram A}
    (hop : sentMessages op = []) {events : List ProducerEvent} {outcome : Outcome PyError A}
    (hruns : Runs (perform op >>= rest) events outcome) :
    forwarded events = [] ∨ ∃ answer later, events = ⟨op, .ok answer⟩ :: later ∧
      forwarded events = forwarded later ∧ Runs (rest answer) later outcome := by
  cases hruns with
  | observed => exact .inl rfl
  | @call _ _ answer later _ hruns =>
      cases answer with
      | error error =>
          cases hruns <;> exact .inl (forwarded_eq_nil_iff.mpr (by simpa using hop))
      | ok answer =>
          refine .inr ⟨answer, later, rfl, ?_, hruns⟩
          simp [forwarded, hop]

/-- All that a run hands to Kafka, it does before a silent rest. -/
theorem exists_run_of_bind_silent {program : ProducerProgram A} {rest : A → ProducerProgram B}
    {post : B → Prop} (hrest : ∀ value, Silent (rest value) post) {events : List ProducerEvent}
    {outcome : Outcome PyError B} (hruns : Runs (program >>= rest) events outcome) :
    ∃ first second outcome', events = first ++ second ∧ forwarded events = forwarded first ∧
      Runs program first outcome' := by
  rcases Program.runs_bind_iff.mp hruns with ⟨hrun, rfl⟩ | ⟨error, hrun, rfl⟩ |
    ⟨value, first, second, rfl, hrun, hrun'⟩
  · exact ⟨events, [], _, by simp, rfl, hrun⟩
  · exact ⟨events, [], _, by simp, rfl, hrun⟩
  · exact ⟨first, second, _, rfl, by simp [(hrest value).forwarded_eq_nil hrun'], hrun⟩

end Rules

/-! ## Batches -/

section Batches

theorem silent_appendMessages (msgs : List String) :
    Silent (appendMessages msgs) fun appended => appended.Sublist msgs := by
  induction msgs with
  | nil => exact forwardsFrom_done (List.Sublist.refl _)
  | cons msg msgs ih =>
      apply (silent_perform (.append msg) rfl).bind
      intro metadata _
      apply Silent.bind ih
      intro appended happended
      apply forwardsFrom_done
      split
      · exact happended.cons_cons msg
      · exact happended.cons msg

theorem passive_choosePartition : Passive choosePartition fun _ _ => True :=
  establishes_choosePartition (fun _ _ _ => trivial) (fun _ => ⟨rfl, by simp⟩)
    (fun _ _ => ⟨rfl, by simp⟩) (fun _ => ⟨rfl, by simp⟩) fun _ => ⟨rfl, by simp⟩

theorem passive_limitTopicCapacity (fuel stallCounter : ℕ) :
    Passive (limitTopicCapacity fuel stallCounter) fun _ _ => True :=
  establishes_limitTopicCapacity (fun _ _ _ => trivial) (fun _ => ⟨rfl, by simp⟩)
    (fun _ => ⟨rfl, by simp⟩) (fun _ => ⟨rfl, by simp⟩) fuel stallCounter

/-- A batch holds what Kafka's builder accepted of its chunk. -/
theorem forwardsFrom_sendChunk (chunk : List String) :
    ForwardsFrom chunk (sendChunk chunk) fun _ => True := by
  apply Silent.bind (silent_appendMessages chunk)
  intro appended happended
  apply Silent.bind (Passive.silent passive_choosePartition)
  intro partition _
  apply ((forwardsFrom_perform (.sendBatch appended partition)).mono happended).bind_silent
  intro record _
  cases record with
  | none => exact forwardsFrom_done trivial
  | some metadata =>
      exact (silent_perform (.incrbyNTransactions _ _) rfl).bind fun _ _ =>
        forwardsFrom_done trivial

theorem forwardsFrom_sendChunks (pieces : List (List String)) :
    ForwardsFrom pieces.flatten (sendChunks pieces) fun _ => True := by
  induction pieces with
  | nil => exact forwardsFrom_done trivial
  | cons chunk pieces ih =>
      rw [List.flatten_cons]
      apply (forwardsFrom_sendChunk chunk).bind
      intro record _
      exact ih.bind_silent fun _ _ => forwardsFrom_done trivial

/-- A batch that fails is not sent again. -/
theorem forwardsFrom_sendBatch (fuel : ℕ) (msgs : List String) :
    ForwardsFrom msgs (sendBatch fuel msgs) fun _ => True := by
  apply Silent.bind (Passive.silent (passive_limitTopicCapacity fuel 0))
  intro _ _
  split
  · exact forwardsFrom_done trivial
  · apply ForwardsFrom.rescue
    · intro error rescued hcaught
      cases error <;> cases hcaught
      exact ⟨none, rfl⟩
    · have hpieces := forwardsFrom_sendChunks (chunks messagesPerBatch msgs)
      rw [flatten_chunks Chunking.messagesPerBatch_pos] at hpieces
      exact hpieces.bind_silent fun _ _ => forwardsFrom_done trivial

end Batches

/-! ## The block loop -/

/-- The node's answer to the query for a block. -/
def blockAnswer (block : ℤ × BlockData) : ProducerEvent :=
  ⟨.getBlockData block.1, .ok block.2⟩

/-- Blocks that the node answered with, in the order of their numbers, and from
which all comes that was handed to Kafka. -/
structure Walk (cfg : DataCollectionConfig) (endBlock : Option ℤ) (first : ℤ)
    (events : List ProducerEvent) (blocks : List (ℤ × BlockData)) : Prop where
  increasing : blocks.Pairwise fun block later => block.1 < later.1
  explored : ∀ block ∈ blocks, first ≤ block.1 ∧ shouldContinue endBlock block.1 = true
  answered : (blocks.map blockAnswer).Sublist events
  sent : (forwarded events).Sublist (blocks.flatMap fun block => encodeMessages cfg block.2)

section Loop

variable {cfg : DataCollectionConfig} {withReward : Bool} {startBlock first : ℤ}
  {endBlock : Option ℤ} {fuel : ℕ} {events : List ProducerEvent} {outcome : Outcome PyError Unit}

theorem walk_nil (hsilent : forwarded events = []) : Walk cfg endBlock first events [] where
  increasing := List.Pairwise.nil
  explored := by simp
  answered := List.nil_sublist _
  sent := by simp [hsilent]

/-- Where a block was passed, the walk goes on with greater numbers. -/
theorem Walk.append {events' : List ProducerEvent} {blocks blocks' : List (ℤ × BlockData)}
    (hwalk : Walk cfg (some first) first events blocks)
    (hcontinue : shouldContinue endBlock first = true)
    (hwalk' : Walk cfg endBlock (first + 1) events' blocks') :
    Walk cfg endBlock first (events ++ events') (blocks ++ blocks') where
  increasing := by
    refine List.pairwise_append.mpr ⟨hwalk.increasing, hwalk'.increasing, ?_⟩
    intro block hblock later hlater
    have hle : block.1 ≤ first := by simpa [shouldContinue] using (hwalk.explored block hblock).2
    exact lt_of_le_of_lt hle (Int.add_one_le_iff.mp (hwalk'.explored later hlater).1)
  explored := by
    intro block hblock
    rcases List.mem_append.mp hblock with hblock | hblock
    · obtain ⟨hfirst, hlast⟩ := hwalk.explored block hblock
      have heq : block.1 = first := le_antisymm (by simpa [shouldContinue] using hlast) hfirst
      exact ⟨hfirst, heq ▸ hcontinue⟩
    · obtain ⟨hfirst, hlast⟩ := hwalk'.explored block hblock
      exact ⟨by omega, hlast⟩
  answered := List.map_append ▸ hwalk.answered.append hwalk'.answered
  sent := by
    rw [forwarded_append, List.flatMap_append]
    exact hwalk.sent.append hwalk'.sent

theorem walk_processBlock {number : ℤ}
    (hruns : Runs (processBlock fuel cfg withReward startBlock endBlock number) events outcome) :
    ∃ blocks, Walk cfg (some number) number events blocks := by
  have hprogress : ∀ _ : Unit, Silent (do
      perform (.setProcessedBlock number)
      let _ ← perform .getNTransactions
      logProducerProgress number startBlock endBlock) fun _ => True := fun _ =>
    (silent_perform (.setProcessedBlock number) rfl).bind fun _ _ =>
      (silent_perform .getNTransactions rfl).bind fun _ _ =>
        Passive.silent (passive_logProducerProgress number startBlock endBlock)
  obtain ⟨producing, later, _, rfl, hsent, hproduce⟩ := exists_run_of_bind_silent hprogress hruns
  rcases cases_of_runs_perform rfl hproduce with hsilent | ⟨blockData, rest, rfl, hsent', hrest⟩
  · exact ⟨[], walk_nil (hsent.trans hsilent)⟩
  · have hforwards : ForwardsFrom (encodeMessages cfg blockData) (do
        let reward ← rewardFor withReward number
        let _ ← perform (.execute (insertBlock (blockRow blockData reward)))
        if blockData.transactions = [] then
          return
        else do
          let _ ← sendBatch fuel (encodeMessages cfg blockData)
          return) fun _ => True := by
      apply Silent.bind (Passive.silent (passive_rewardFor withReward number))
      intro reward _
      apply (silent_perform (.execute _) rfl).bind
      intro _ _
      split
      · exact forwardsFrom_done trivial
      · exact (forwardsFrom_sendBatch fuel _).bind_silent fun _ _ => forwardsFrom_done trivial
    refine ⟨[(number, blockData)], List.pairwise_singleton _ _, by simp [shouldContinue], ?_, ?_⟩
    · exact List.singleton_sublist.mpr (List.mem_append_left _ List.mem_cons_self)
    · rw [hsent, hsent', List.flatMap_singleton]
      exact (hforwards _ _ hrest).1

/-- Run lemma: the loop asks for the blocks in order and forwards them in order. -/
theorem walk_produceBlocks
    (hruns : Runs (produceBlocks cfg withReward startBlock endBlock fuel first) events outcome) :
    ∃ blocks, Walk cfg endBlock first events blocks := by
  induction fuel generalizing first events with
  | zero =>
      cases hruns
      exact ⟨[], walk_nil rfl⟩
  | succ fuel ih =>
      rw [produceBlocks] at hruns
      split at hruns
      next hcontinue =>
          have hnone : ∀ {outcome'}, Runs (processBlock fuel cfg withReward startBlock endBlock
              first) events outcome' → ∃ blocks, Walk cfg endBlock first events blocks := by
            intro outcome' hrun
            obtain ⟨blocks, hwalk⟩ := walk_processBlock hrun
            exact ⟨blocks ++ [], List.append_nil events ▸ hwalk.append hcontinue (walk_nil rfl)⟩
          rcases Program.runs_bind_iff.mp hruns with ⟨hrun, rfl⟩ | ⟨error, hrun, rfl⟩ |
            ⟨_, passing, later, rfl, hrun, hrest⟩
          · exact hnone hrun
          · exact hnone hrun
          · obtain ⟨blocks, hwalk⟩ := walk_processBlock hrun
            obtain ⟨blocks', hwalk'⟩ := ih hrest
            exact ⟨blocks ++ blocks', hwalk.append hcontinue hwalk'⟩
      · cases hruns <;> exact ⟨[], walk_nil rfl⟩

/-- A task that follows the blocks explores its configured range. -/
theorem walk_startProducer (hruns : Runs (startProducer fuel cfg withReward) events outcome) :
    ∃ blocks, Walk cfg cfg.endBlock (cfg.startBlock.getD 0) events blocks := by
  have hbounds : Passive (getExplorationBounds cfg) fun _ _ => True := passive_getExplorationBounds
  have hsilent : ∀ {events' outcome'}, Runs (getExplorationBounds cfg) events' outcome' →
      forwarded events' = [] := fun hrun => (Passive.silent hbounds).forwarded_eq_nil hrun
  rcases cases_of_startProducer hruns with ⟨_, hrun⟩ | ⟨bounding, later, _, _, rfl, hrun, hloop⟩
  · exact ⟨[], walk_nil (hsilent hrun)⟩
  · obtain ⟨blocks, hwalk⟩ := walk_produceBlocks hloop
    refine ⟨blocks, hwalk.increasing, hwalk.explored, ?_, ?_⟩
    · exact hwalk.answered.trans (List.sublist_append_right _ _)
    · rw [forwarded_append, hsilent hrun]
      exact hwalk.sent

end Loop

/-! ## Producer tasks -/

section Tasks

variable {cfg : DataCollectionConfig} {endBlock : Option ℤ} {first : ℤ} {fuel : ℕ}
  {events : List ProducerEvent} {outcome : Outcome PyError Unit} {blocks : List (ℤ × BlockData)}

theorem Walk.sublist_listed (hwalk : Walk cfg endBlock first events blocks) :
    (forwarded events).Sublist (listed cfg events) := by
  have hanswers : (blocks.flatMap fun block => encodeMessages cfg block.2) =
      (blocks.map blockAnswer).flatMap (listedMessages cfg) := by
    rw [List.flatMap_map]
    rfl
  exact (hanswers ▸ hwalk.sent).trans (hwalk.answered.flatMap _)

theorem sublist_listed_of_getLogs
    (hruns : Runs (startGetLogsProducer fuel cfg) events outcome) :
    (forwarded events).Sublist (listed cfg events) := by
  rcases cases_of_runs_perform rfl hruns with hsilent | ⟨logs, later, rfl, hsent, hrest⟩
  · rw [hsilent]
    exact List.nil_sublist _
  · have hforwards : ForwardsFrom (logs.map fun txHash => encodeKafkaEvent txHash cfg.mode) (do
        if logs = [] then
          return
        else do
          let _ ← sendBatch fuel (logs.map fun txHash => encodeKafkaEvent txHash cfg.mode)
          return) fun _ => True := by
      split
      · exact forwardsFrom_done trivial
      · exact (forwardsFrom_sendBatch fuel _).bind_silent fun _ _ => forwardsFrom_done trivial
    rw [hsent, listed, List.flatMap_cons]
    exact ((hforwards _ _ hrest).1).trans (List.sublist_append_left _ _)

/-- A task in a mode that follows the blocks walks over its configured range. -/
theorem walk_startProducerTask (hruns : Runs (startProducerTask fuel cfg) events outcome)
    (hmode : cfg.mode ≠ .getLogs) :
    ∃ blocks, Walk cfg cfg.endBlock (cfg.startBlock.getD 0) events blocks := by
  unfold startProducerTask at hruns
  split at hruns
  · exact walk_startProducer hruns
  · exact walk_startProducer hruns
  · cases hruns <;> exact ⟨[], walk_nil rfl⟩
  next hlogs => exact absurd hlogs hmode

/-- Every task forwards a part of what the node lists, in the node's order. -/
theorem forwarded_sublist_listed (hruns : Runs (startProducerTask fuel cfg) events outcome) :
    (forwarded events).Sublist (listed cfg events) := by
  by_cases hmode : cfg.mode = .getLogs
  · simp only [startProducerTask, hmode] at hruns
    exact sublist_listed_of_getLogs hruns
  · obtain ⟨blocks, hwalk⟩ := walk_startProducerTask hruns hmode
    exact hwalk.sublist_listed

/-- The block numbers that the configuration covers. -/
def Explores (cfg : DataCollectionConfig) (number : ℤ) : Prop :=
  cfg.startBlock.getD 0 ≤ number ∧ shouldContinue cfg.endBlock number = true

/-- The node lists no transaction twice, and each in its own block. -/
def Placed (blockOf : String → Option ℤ) : ProducerEvent → Prop
  | ⟨.getBlockData number, .ok blockData⟩ =>
      blockData.transactions.Nodup ∧ ∀ txHash ∈ blockData.transactions, blockOf txHash = some number
  | _ => True

theorem encodeKafkaEvent_left_injective (mode : DataCollectionMode) :
    Function.Injective fun txHash => encodeKafkaEvent txHash mode := by
  intro txHash txHash' heq
  have hpair : (mode, txHash) = (mode, txHash') := KafkaEvents.encodeKafkaEvent_injective heq
  exact congrArg Prod.snd hpair

/-- A task that follows the blocks forwards no message twice. -/
theorem nodup_forwarded {blockOf : String → Option ℤ}
    (hruns : Runs (startProducerTask fuel cfg) events outcome) (hmode : cfg.mode ≠ .getLogs)
    (hplaced : ∀ event ∈ events, Placed blockOf event) :
    (forwarded events).Nodup ∧ ∀ message ∈ forwarded events, ∃ txHash number,
      encodeKafkaEvent txHash cfg.mode = message ∧ blockOf txHash = some number ∧
        Explores cfg number := by
  obtain ⟨blocks, hwalk⟩ := walk_startProducerTask hruns hmode
  have hblock : ∀ block ∈ blocks, block.2.transactions.Nodup ∧
      ∀ txHash ∈ block.2.transactions, blockOf txHash = some block.1 := by
    intro block hmem
    have hevent : blockAnswer block ∈ events :=
      hwalk.answered.subset (List.mem_map_of_mem hmem)
    exact hplaced _ hevent
  constructor
  · apply hwalk.sent.nodup
    refine List.nodup_flatMap.mpr ⟨fun block hmem => ?_, ?_⟩
    · exact (hblock block hmem).1.map (encodeKafkaEvent_left_injective cfg.mode)
    · refine hwalk.increasing.imp_of_mem ?_
      intro block later hmem hmem' hlt message hmessage hmessage'
      obtain ⟨txHash, htx, hencode⟩ := List.mem_map.mp hmessage
      obtain ⟨txHash', htx', hencode'⟩ := List.mem_map.mp hmessage'
      obtain rfl : txHash = txHash' :=
        encodeKafkaEvent_left_injective cfg.mode (hencode.trans hencode'.symm)
      have hsame : some block.1 = some later.1 :=
        ((hblock block hmem).2 txHash htx).symm.trans ((hblock later hmem').2 txHash htx')
      exact absurd (Option.some.inj hsame) hlt.ne
  · intro message hmessage
    obtain ⟨block, hmem, hmessage⟩ := List.mem_flatMap.mp (hwalk.sent.subset hmessage)
    obtain ⟨txHash, htx, hencode⟩ := List.mem_map.mp hmessage
    exact ⟨txHash, block.1, hencode, (hblock block hmem).2 txHash htx, hwalk.explored block hmem⟩

end Tasks

end BlockchainDataCollection.Forwarding
