import BlockchainDataCollection.Effect.Environment
import BlockchainDataCollection.Producer.DataProducer

/-!
# What a producer produces

A chain of some height, a node, a database, a Redis and a Kafka that answer:
what a producer run then yields is a function of the chain and the
configuration, given by `transcript`.
-/

namespace BlockchainDataCollection.Producing

open BlockchainDataCollection.Effect
open BlockchainDataCollection.Effect.Program (Yields Returned Extends)
open BlockchainDataCollection.Python
open BlockchainDataCollection.Data
open BlockchainDataCollection.Storage
open BlockchainDataCollection.KafkaProducer
open BlockchainDataCollection.DataProducer

/-! ## The surroundings of a run -/

structure Chain where
  height : ℤ
  block : ℤ → BlockData
  traces : ℤ → List BlockTrace
  blockNumber_eq : ∀ number, (block number).blockNumber = number

/-- The text of the overflow error of a time estimate, if it does not fit. -/
abbrev Overflow := ℤ → ℤ → Option String

abbrev ProducerEnvironment := Environment producerSignature PyError

/-- Every call answers, blocks above the height and time estimates that do not
fit apart.  `lastBlock` is the latest stored block, and the topic is drained, so
that every capacity check ends. -/
structure Cooperative (chain : Chain) (lastBlock : Option ℤ) (overflow : Overflow)
    (environment : ProducerEnvironment) : Prop where
  getBlock : ∀ history, environment history .getBlock = .ok lastBlock
  getBlockData : ∀ history number, environment history (.getBlockData number) =
    if number ≤ chain.height then .ok (chain.block number) else .error .blockNotFound
  traceBlock : ∀ history number,
    environment history (.traceBlock number) = .ok (chain.traces number)
  append : ∀ history message, environment history (.append message) = .ok true
  estimateRemaining : ∀ history completed left,
    environment history (.estimateRemaining completed left) =
      match overflow completed left with
      | none => .ok ()
      | some message => .error (.overflowError message)
  answers : ∀ history op, (∀ number, op ≠ .getBlockData number) →
    (∀ completed left, op ≠ .estimateRemaining completed left) →
    ∃ answer, environment history op = .ok answer
  drained : ∀ history, ∃ fuel,
    ((limitTopicCapacity fuel 0).runIn environment history).1 = .returned ()

/-! ## Observations -/

inductive Produced where
  | written (statement : Statement)
  | message (text : String)

/-- A batch is produced when it is delivered. -/
def observe : ProducerEvent → List Produced
  | ⟨.execute statement, .ok _⟩ => [.written statement]
  | ⟨.sendBatch messages _, .ok _⟩ => messages.map .message
  | _ => []

section Specification

variable (chain : Chain) (cfg : DataCollectionConfig) (overflow : Overflow) (withReward : Bool)

def rewardOf (number : ℤ) : Except PyError ℤ :=
  if withReward then blockReward (chain.traces number) else .ok 0

/-- The outcome of the progress line of a block. -/
def progressOf (startBlock number : ℤ) : Except PyError Unit :=
  match cfg.endBlock with
  | none => .error (.typeError "unsupported operand type(s) for -: 'NoneType' and 'int'")
  | some endBlock =>
      if progressDue (number - startBlock) (endBlock - startBlock) then
        match overflow (number - startBlock)
          ((endBlock - startBlock) - (number - startBlock)) with
        | none => .ok ()
        | some message => .error (.overflowError message)
      else .ok ()

/-- The row of a block, and then its messages. -/
def blockOutput (number reward : ℤ) : List Produced :=
  .written (insertBlock (blockRow (chain.block number) reward)) ::
    (encodeMessages cfg (chain.block number)).map .message

/-- What the next `count` blocks produce, up to the first error; after them the
loop either ends or asks for a block that does not exist. -/
def transcript (startBlock : ℤ) : ℕ → ℤ → List Produced × Except PyError Unit
  | 0, number => ([], if shouldContinue cfg.endBlock number then .error .blockNotFound else .ok ())
  | count + 1, number =>
      match rewardOf chain withReward number with
      | .error error => ([], .error error)
      | .ok reward =>
          match progressOf cfg overflow startBlock number with
          | .error error => (blockOutput chain cfg number reward, .error error)
          | .ok () =>
              (blockOutput chain cfg number reward ++
                  (transcript startBlock count (number + 1)).1,
                (transcript startBlock count (number + 1)).2)

/-- The last block of a run: the configured one, or the latest block. -/
def lastProduced : ℤ :=
  match cfg.endBlock with
  | some endBlock => min endBlock chain.height
  | none => chain.height

variable {chain cfg overflow withReward} {startBlock number reward : ℤ} {error : PyError}

theorem transcript_of_reward_error (hreward : rewardOf chain withReward number = .error error)
    (count : ℕ) :
    transcript chain cfg overflow withReward startBlock (count + 1) number =
      ([], .error error) := by
  rw [transcript, hreward]

theorem transcript_of_progress_error (hreward : rewardOf chain withReward number = .ok reward)
    (hprogress : progressOf cfg overflow startBlock number = .error error) (count : ℕ) :
    transcript chain cfg overflow withReward startBlock (count + 1) number =
      (blockOutput chain cfg number reward, .error error) := by
  rw [transcript, hreward, hprogress]

theorem transcript_of_ok (hreward : rewardOf chain withReward number = .ok reward)
    (hprogress : progressOf cfg overflow startBlock number = .ok ()) (count : ℕ) :
    transcript chain cfg overflow withReward startBlock (count + 1) number =
      (blockOutput chain cfg number reward ++
          (transcript chain cfg overflow withReward startBlock count (number + 1)).1,
        (transcript chain cfg overflow withReward startBlock count (number + 1)).2) := by
  rw [transcript, hreward, hprogress]

end Specification

/-- The `except` clause of the loop. -/
def afterBlockNotFound : Except PyError Unit → Except PyError Unit
  | .error .blockNotFound => .ok ()
  | result => result

theorem afterBlockNotFound_eq_ok_iff {result : Except PyError Unit} :
    afterBlockNotFound result = .ok () ↔ result = .ok () ∨ result = .error .blockNotFound := by
  cases result with
  | ok _ => simp [afterBlockNotFound]
  | error error => cases error <;> simp [afterBlockNotFound]

/-- The outcome of a program with this result. -/
def outcomeOf {A : Type} : Except PyError A → Outcome PyError A
  | .ok value => .returned value
  | .error error => .raised error

theorem outcomeOf_eq_returned_iff {A : Type} {result : Except PyError A} {value : A} :
    outcomeOf result = .returned value ↔ result = .ok value := by
  cases result <;> simp [outcomeOf]

/-! ## Calls that answer -/

section Cooperative

variable {chain : Chain} {lastBlock : Option ℤ} {overflow : Overflow}
  {environment : ProducerEnvironment} {cfg : DataCollectionConfig} {withReward : Bool}

/-- A call that always answers and that one does not observe. -/
theorem Cooperative.yields_silent (h : Cooperative chain lastBlock overflow environment)
    (op : ProducerCall) (hblock : ∀ number, op ≠ .getBlockData number)
    (hestimate : ∀ completed left, op ≠ .estimateRemaining completed left)
    (hsilent : ∀ answer, observe ⟨op, answer⟩ = []) :
    Yields environment observe (fun _ => perform op) (Returned fun _ => True) [] := by
  apply Program.yields_perform
  intro history
  obtain ⟨answer, hanswer⟩ := h.answers history op hblock hestimate
  exact ⟨answer, hanswer, hsilent _, trivial⟩

/-! ## The capacity check -/

theorem extends_limitTopicCapacity (fuel stallCounter : ℕ) :
    Extends (limitTopicCapacity fuel stallCounter)
      (limitTopicCapacity (fuel + 1) stallCounter) := by
  induction fuel generalizing stallCounter with
  | zero => exact .suspended _
  | succ fuel ih =>
      rw [limitTopicCapacity, limitTopicCapacity]
      apply (Extends.refl _).bind
      intro nTxs
      split
      · apply (Extends.refl _).bind
        intro nPart
        split
        · exact (Extends.refl _).bind fun _ => ih _
        · exact .refl _
      · split
        · exact .refl _
        · exact ih _

theorem yields_limitTopicCapacity (h : Cooperative chain lastBlock overflow environment) :
    Yields environment observe (fun fuel => limitTopicCapacity fuel 0) (Returned fun _ => True)
      [] := by
  apply Program.yields_of_extends fun fuel => extends_limitTopicCapacity fuel 0
  intro history
  obtain ⟨fuel, hreturned⟩ := h.drained history
  obtain ⟨events, hevents, hruns⟩ :=
    Program.runs_runIn environment (limitTopicCapacity fuel 0) history
  have hsilent : ∀ event ∈ events, observe event = [] :=
    (ensures_limitTopicCapacity (fun _ => rfl) (fun _ => rfl) (fun _ => rfl) fuel 0 _ _ hruns).1
  exact ⟨fuel, .returned (), events, ⟨(), rfl, trivial⟩, List.flatMap_eq_nil_iff.mpr hsilent,
    by simp, Prod.ext hreturned hevents⟩

/-! ## Batches -/

theorem yields_appendMessages (h : Cooperative chain lastBlock overflow environment)
    (msgs : List String) :
    Yields environment observe (fun _ => appendMessages msgs) (Returned (msgs = ·)) [] := by
  induction msgs with
  | nil => exact Program.yields_done rfl
  | cons msg msgs ih =>
      have happend : Yields environment observe (fun _ => perform (.append msg))
          (Returned (true = ·)) [] :=
        Program.yields_perform fun history => ⟨true, h.append history msg, rfl, rfl⟩
      apply happend.bind_silent
      rintro _ rfl
      apply ih.bind_silent
      rintro _ rfl
      exact Program.yields_done rfl

theorem yields_choosePartition (h : Cooperative chain lastBlock overflow environment) :
    Yields environment observe (fun _ => choosePartition) (Returned fun _ => True) [] := by
  apply (h.yields_silent .getIPartition (by simp) (by simp) fun _ => rfl).bind_silent
  intro partition _
  split
  · apply (h.yields_silent (.setIPartition _) (by simp) (by simp) fun _ => rfl).bind_silent
    intro _ _
    apply (h.yields_silent .partitionsFor (by simp) (by simp) fun _ => rfl).bind_silent
    intro nPartitions _
    split
    · apply (h.yields_silent (.setIPartition _) (by simp) (by simp) fun _ => rfl).bind_silent
      intro _ _
      exact Program.yields_done trivial
    · exact Program.yields_done trivial
  · apply (h.yields_silent .getLowestScorePartition (by simp) (by simp) fun _ => rfl).bind_silent
    intro lowest _
    exact Program.yields_done trivial

theorem yields_sendChunk (h : Cooperative chain lastBlock overflow environment)
    (chunk : List String) :
    Yields environment observe (fun _ => sendChunk chunk) (Returned fun _ => True)
      (chunk.map .message) := by
  apply (yields_appendMessages h chunk).bind_silent
  rintro _ rfl
  apply (yields_choosePartition h).bind_silent
  intro partition _
  have hsend : Yields environment observe (fun _ => perform (.sendBatch chunk partition))
      (Returned fun _ => True) (chunk.map .message) := by
    apply Program.yields_perform
    intro history
    obtain ⟨record, hrecord⟩ := h.answers history (.sendBatch chunk partition) (by simp) (by simp)
    exact ⟨record, hrecord, rfl, trivial⟩
  apply hsend.bind_rest_silent
  intro record _
  cases record with
  | none => exact Program.yields_done trivial
  | some metadata =>
      apply (h.yields_silent (.incrbyNTransactions _ _) (by simp) (by simp)
        fun _ => rfl).bind_silent
      intro _ _
      exact Program.yields_done trivial

theorem yields_sendChunks (h : Cooperative chain lastBlock overflow environment)
    (pieces : List (List String)) :
    Yields environment observe (fun _ => sendChunks pieces) (Returned fun _ => True)
      (pieces.flatten.map .message) := by
  induction pieces with
  | nil => exact Program.yields_done trivial
  | cons chunk rest ih =>
      rw [List.flatten_cons, List.map_append]
      apply (yields_sendChunk h chunk).bind
      intro record _
      apply ih.bind_rest_silent
      intro records _
      exact Program.yields_done trivial

theorem yields_sendBatch (h : Cooperative chain lastBlock overflow environment)
    (msgs : List String) :
    Yields environment observe (fun fuel => sendBatch fuel msgs) (Returned fun _ => True)
      (msgs.map .message) := by
  apply (yields_limitTopicCapacity h).bind_silent
  intro _ _
  by_cases hmsgs : msgs = []
  · subst hmsgs
    exact Program.yields_done trivial
  · simp only [if_neg hmsgs]
    apply Program.Yields.rescue_returned
    have hchunks := yields_sendChunks h (chunks messagesPerBatch msgs)
    rw [flatten_chunks (by decide)] at hchunks
    apply hchunks.bind_rest_silent
    intro records _
    exact Program.yields_done trivial

/-! ## Blocks -/

theorem yields_ofExcept {A : Type} (result : Except PyError A) :
    Yields environment observe (fun _ => (Program.ofExcept result : ProducerProgram A))
      (· = outcomeOf result) [] := by
  cases result with
  | ok value => exact (Program.yields_done rfl).mono fun _ ⟨_, h, hvalue⟩ => hvalue ▸ h
  | error error => exact Program.yields_raise error

theorem yields_rewardOf (h : Cooperative chain lastBlock overflow environment) (number : ℤ) :
    Yields environment observe (fun _ => rewardFor withReward number)
      (· = outcomeOf (rewardOf chain withReward number)) [] := by
  cases withReward with
  | false => exact yields_ofExcept (.ok 0)
  | true =>
      have htrace : Yields environment observe (fun _ => perform (.traceBlock number))
          (Returned (chain.traces number = ·)) [] :=
        Program.yields_perform fun history => ⟨_, h.traceBlock history number, rfl, rfl⟩
      apply htrace.bind_silent
      rintro _ rfl
      exact yields_ofExcept _

theorem yields_getBlockData (h : Cooperative chain lastBlock overflow environment) {number : ℤ}
    (hnumber : number ≤ chain.height) :
    Yields environment observe (fun _ => perform (.getBlockData number))
      (Returned (chain.block number = ·)) [] := by
  apply Program.yields_perform
  intro history
  exact ⟨_, (h.getBlockData history number).trans (if_pos hnumber), rfl, rfl⟩

theorem yields_getBlockData_notFound (h : Cooperative chain lastBlock overflow environment)
    {number : ℤ} (hnumber : chain.height < number) :
    Yields environment observe (fun _ => perform (.getBlockData number))
      (· = .raised .blockNotFound) [] :=
  Program.yields_perform_error
    (fun history => (h.getBlockData history number).trans (if_neg hnumber.not_ge)) rfl

theorem yields_produceBlock (h : Cooperative chain lastBlock overflow environment)
    {number reward : ℤ} (hnumber : number ≤ chain.height)
    (hreward : rewardOf chain withReward number = .ok reward) :
    Yields environment observe (fun fuel => produceBlock fuel cfg withReward number)
      (Returned fun _ => True) (blockOutput chain cfg number reward) := by
  apply (yields_getBlockData h hnumber).bind_silent
  rintro _ rfl
  have hvalue : Yields environment observe (fun _ => rewardFor withReward number)
      (Returned (reward = ·)) [] := by
    apply (yields_rewardOf h number).mono
    rintro _ rfl
    exact ⟨reward, by rw [hreward]; rfl, rfl⟩
  apply hvalue.bind_silent
  rintro _ rfl
  have hinsert : Yields environment observe
      (fun _ => perform (.execute (insertBlock (blockRow (chain.block number) reward))))
      (Returned fun _ => True)
      [.written (insertBlock (blockRow (chain.block number) reward))] := by
    apply Program.yields_perform
    intro history
    obtain ⟨answer, hanswer⟩ := h.answers history (.execute _) (by simp) (by simp)
    exact ⟨answer, hanswer, rfl, trivial⟩
  apply hinsert.bind
  intro _ _
  by_cases hempty : (chain.block number).transactions = []
  · simp only [encodeMessages, hempty, List.map_nil]
    exact Program.yields_done trivial
  · simp only [if_neg hempty]
    apply (yields_sendBatch h _).bind_rest_silent
    intro records _
    exact Program.yields_done trivial

theorem yields_produceBlock_error (h : Cooperative chain lastBlock overflow environment)
    {number : ℤ} {error : PyError} (hnumber : number ≤ chain.height)
    (hreward : rewardOf chain withReward number = .error error) :
    Yields environment observe (fun fuel => produceBlock fuel cfg withReward number)
      (· = .raised error) [] := by
  apply (yields_getBlockData h hnumber).bind_silent
  rintro _ rfl
  have hraised : Yields environment observe (fun _ => rewardFor withReward number)
      (· = outcomeOf (rewardOf chain withReward number)) [] := yields_rewardOf h number
  rw [hreward] at hraised
  exact hraised.bind_raised

theorem yields_logProducerProgress (h : Cooperative chain lastBlock overflow environment)
    (startBlock number : ℤ) :
    Yields environment observe (fun _ => logProducerProgress number startBlock cfg.endBlock)
      (· = outcomeOf (progressOf cfg overflow startBlock number)) [] := by
  rw [progressOf]
  cases cfg.endBlock with
  | none => exact Program.yields_raise _
  | some endBlock =>
      simp only [logProducerProgress]
      split
      · cases hfits : overflow (number - startBlock)
            ((endBlock - startBlock) - (number - startBlock)) with
        | none =>
            have hanswer : Yields environment observe (fun _ => perform
                (.estimateRemaining (number - startBlock)
                  ((endBlock - startBlock) - (number - startBlock))))
                (Returned (() = ·)) [] := by
              apply Program.yields_perform
              intro history
              exact ⟨(), by rw [h.estimateRemaining, hfits], rfl, rfl⟩
            exact hanswer.mono fun _ ⟨_, hreturned, _⟩ => hreturned
        | some message =>
            apply Program.yields_perform_error _ rfl
            intro history
            rw [h.estimateRemaining, hfits]
      · exact yields_ofExcept (.ok ())

/-! ## The loop -/

theorem lt_of_shouldContinue {number : ℤ} (hlast : lastProduced chain cfg < number)
    (hcontinue : shouldContinue cfg.endBlock number) : chain.height < number := by
  rw [lastProduced] at hlast
  cases hend : cfg.endBlock with
  | none => simpa only [hend] using hlast
  | some endBlock =>
      rw [hend, shouldContinue, decide_eq_true_eq] at hcontinue
      simp only [hend] at hlast
      omega

theorem shouldContinue_of_le {number : ℤ} (hlast : number ≤ lastProduced chain cfg) :
    shouldContinue cfg.endBlock number ∧ number ≤ chain.height := by
  rw [lastProduced] at hlast
  cases hend : cfg.endBlock with
  | none => exact ⟨rfl, by simpa only [hend] using hlast⟩
  | some endBlock =>
      simp only [hend] at hlast
      exact ⟨decide_eq_true (by omega), by omega⟩

/-- The steps after a block are seen only in the outcome of its progress line. -/
theorem yields_processBlock (h : Cooperative chain lastBlock overflow environment)
    {startBlock number reward : ℤ} (hnumber : number ≤ chain.height)
    (hreward : rewardOf chain withReward number = .ok reward) :
    Yields environment observe
      (fun fuel => processBlock fuel cfg withReward startBlock cfg.endBlock number)
      (· = outcomeOf (progressOf cfg overflow startBlock number))
      (blockOutput chain cfg number reward) := by
  apply (yields_produceBlock h hnumber hreward).bind_rest_silent
  intro _ _
  apply (h.yields_silent (.setProcessedBlock number) (by simp) (by simp) fun _ => rfl).bind_silent
  intro _ _
  apply (h.yields_silent .getNTransactions (by simp) (by simp) fun _ => rfl).bind_silent
  intro nTransactions _
  exact yields_logProducerProgress h startBlock number

/-- The loop yields the transcript of the blocks that are left. -/
theorem yields_produceBlocks (h : Cooperative chain lastBlock overflow environment)
    (startBlock : ℤ) {count : ℕ} {number : ℤ}
    (hcount : (lastProduced chain cfg + 1 - number).toNat = count) :
    Yields environment observe
      (fun fuel => produceBlocks cfg withReward startBlock cfg.endBlock fuel number)
      (· = outcomeOf (transcript chain cfg overflow withReward startBlock count number).2)
      (transcript chain cfg overflow withReward startBlock count number).1 := by
  induction count generalizing number with
  | zero =>
      have hlast : lastProduced chain cfg < number := by omega
      apply Program.Yields.of_succ
      by_cases hcontinue : shouldContinue cfg.endBlock number
      · simp only [produceBlocks, transcript, if_pos hcontinue]
        have hmissing := yields_getBlockData_notFound h (lt_of_shouldContinue hlast hcontinue)
        exact hmissing.bind_raised.bind_raised.bind_raised
      · simp only [produceBlocks, transcript, if_neg hcontinue]
        exact yields_ofExcept (.ok ())
  | succ count ih =>
      have hlast : number ≤ lastProduced chain cfg := by omega
      have hrest : (lastProduced chain cfg + 1 - (number + 1)).toNat = count := by omega
      obtain ⟨hcontinue, hheight⟩ := shouldContinue_of_le hlast
      apply Program.Yields.of_succ
      simp only [produceBlocks, if_pos hcontinue]
      cases hreward : rewardOf chain withReward number with
      | error error =>
          rw [transcript_of_reward_error hreward]
          exact (yields_produceBlock_error h hheight hreward).bind_raised.bind_raised
      | ok reward =>
          have hblock : Yields environment observe
              (fun fuel => processBlock fuel cfg withReward startBlock cfg.endBlock number)
              (· = outcomeOf (progressOf cfg overflow startBlock number))
              (blockOutput chain cfg number reward) := yields_processBlock h hheight hreward
          cases hlogged : progressOf cfg overflow startBlock number with
          | error error =>
              rw [hlogged] at hblock
              rw [transcript_of_progress_error hreward hlogged]
              exact hblock.bind_raised
          | ok _ =>
              rw [hlogged] at hblock
              rw [transcript_of_ok hreward hlogged]
              have hreturned : Yields environment observe
                  (fun fuel => processBlock fuel cfg withReward startBlock cfg.endBlock number)
                  (Returned fun _ => True) (blockOutput chain cfg number reward) :=
                hblock.mono fun _ hout => ⟨_, hout, trivial⟩
              exact hreturned.bind fun _ _ => ih hrest

theorem yields_rescue {program : ℕ → ProducerProgram Unit} {result : Except PyError Unit}
    {output : List Produced}
    (h : Yields environment observe program (· = outcomeOf result) output) :
    Yields environment observe (fun fuel => (program fuel).rescue onBlockNotFound)
      (· = outcomeOf (afterBlockNotFound result)) output := by
  cases result with
  | ok value =>
      have hreturned : Yields environment observe program (Returned (() = ·)) output :=
        h.mono fun _ hout => ⟨(), hout, rfl⟩
      exact hreturned.rescue_returned.mono fun _ ⟨_, hout, _⟩ => hout
  | error error =>
      rw [← List.append_nil output]
      apply h.rescue_raised
      by_cases herror : error = .blockNotFound
      · subst herror
        exact yields_ofExcept (.ok ())
      · have hpassed : onBlockNotFound error = none ∧
            afterBlockNotFound (.error error) = .error error := by
          cases error <;> first | exact absurd rfl herror | exact ⟨rfl, rfl⟩
        rw [hpassed.1, hpassed.2]
        exact Program.yields_raise error

/-- The first block, where the run finds one. -/
def firstBlock (cfg : DataCollectionConfig) (lastBlock : Option ℤ) : ℤ :=
  cfg.startBlock.getD (lastBlock.getD 0)

theorem yields_startProducer (h : Cooperative chain lastBlock overflow environment)
    (hstart : cfg.startBlock = none → lastBlock = none) {count : ℕ}
    (hcount : (lastProduced chain cfg + 1 - firstBlock cfg lastBlock).toNat = count) :
    Yields environment observe (fun fuel => startProducer fuel cfg withReward)
      (· = outcomeOf (afterBlockNotFound (transcript chain cfg overflow withReward
        (firstBlock cfg lastBlock) count (firstBlock cfg lastBlock)).2))
      (transcript chain cfg overflow withReward (firstBlock cfg lastBlock) count
        (firstBlock cfg lastBlock)).1 := by
  have hbounds : Yields environment observe (fun _ => getExplorationBounds cfg)
      (Returned ((firstBlock cfg lastBlock, cfg.endBlock) = ·)) [] := by
    have hlatest : Yields environment observe (fun _ => perform .getBlock)
        (Returned (lastBlock = ·)) [] :=
      Program.yields_perform fun history => ⟨_, h.getBlock history, rfl, rfl⟩
    apply hlatest.bind_silent
    rintro _ rfl
    cases hcfg : cfg.startBlock with
    | some startBlock => exact Program.yields_done (by simp [firstBlock, hcfg])
    | none =>
        cases hstart hcfg
        exact Program.yields_done (by simp [firstBlock, hcfg])
  apply hbounds.bind_silent
  rintro _ rfl
  exact yields_rescue (yields_produceBlocks h (firstBlock cfg lastBlock) hcount)

/-- Without a configured start block, a stored block makes the run raise. -/
theorem yields_startProducer_resumed (h : Cooperative chain lastBlock overflow environment)
    (hstart : cfg.startBlock = none) {number : ℤ} (hlast : lastBlock = some number) :
    ∃ error, Yields environment observe (fun fuel => startProducer fuel cfg withReward)
      (· = .raised error) [] := by
  have hlatest : Yields environment observe (fun _ => perform .getBlock)
      (Returned (some number = ·)) [] :=
    Program.yields_perform fun history => ⟨_, hlast ▸ h.getBlock history, rfl, rfl⟩
  have hbounds : ∃ error, Yields environment observe (fun _ => getExplorationBounds cfg)
      (· = .raised error) [] := by
    by_cases hheight : number ≤ chain.height
    · refine ⟨.attributeError "'DatabaseManager' object has no attribute 'get_block_transactions'",
        hlatest.bind_silent ?_⟩
      rintro _ rfl
      simp only [hstart]
      exact (yields_getBlockData h hheight).bind_silent fun _ _ => Program.yields_raise _
    · refine ⟨.blockNotFound, hlatest.bind_silent ?_⟩
      rintro _ rfl
      simp only [hstart]
      exact (yields_getBlockData_notFound h (not_le.mp hheight)).bind_raised
  obtain ⟨error, herror⟩ := hbounds
  exact ⟨error, herror.bind_raised⟩

end Cooperative

/-! ## Surroundings that answer at once -/

namespace Deployment

/-- Nothing is stored for longer than a moment, so the topic is always empty. -/
def answering (chain : Chain) (lastBlock : Option ℤ) (overflow : Overflow) :
    ProducerEnvironment := fun _ op =>
  match op with
  | .getBlock => .ok lastBlock
  | .execute _ => .ok ()
  | .getBlockData number =>
      if number ≤ chain.height then .ok (chain.block number) else .error .blockNotFound
  | .traceBlock number => .ok (chain.traces number)
  | .getLogs _ => .ok ([] : List String)
  | .getNTransactions => .ok (0 : ℤ)
  | .getLowestScorePartition => .ok (none : Option ℤ)
  | .incrbyNTransactions _ _ => .ok ()
  | .partitionsFor => .ok (1 : ℕ)
  | .append _ => .ok true
  | .sendBatch _ partition => .ok (some (RecordMetadata.mk partition))
  | .send _ => .ok (some (RecordMetadata.mk 0))
  | .getIPartition => .ok (-1 : ℤ)
  | .setIPartition _ => .ok ()
  | .sleep _ => .ok ()
  | .estimateRemaining completed left =>
      match overflow completed left with
      | none => .ok ()
      | some message => .error (.overflowError message)
  | .setProcessedBlock _ => .ok ()

theorem cooperative_answering (chain : Chain) (lastBlock : Option ℤ) (overflow : Overflow) :
    Cooperative chain lastBlock overflow (answering chain lastBlock overflow) where
  getBlock _ := rfl
  getBlockData _ _ := rfl
  traceBlock _ _ := rfl
  append _ _ := rfl
  estimateRemaining _ _ _ := rfl
  answers _ op hblock hestimate := by
    cases op with
    | getBlockData number => exact absurd rfl (hblock number)
    | estimateRemaining completed left => exact absurd rfl (hestimate completed left)
    | _ => exact ⟨_, rfl⟩
  drained _ := ⟨1, rfl⟩

def blockData (transactions : List String) (number : ℤ) : BlockData where
  blockNumber := number
  blockHash := "0xb0"
  nonce := "0x00"
  difficulty := 0
  gasLimit := 30000000
  gasUsed := 21000
  timestamp := 1681338479
  transactions
  miner := "0x00"
  parentHash := "0xb1"
  uncles := []

/-- Two blocks of one transaction each. -/
def chain (traces : List BlockTrace) : Chain where
  height := 1
  block := blockData ["0x01"]
  traces _ := traces
  blockNumber_eq _ := rfl

def config (startBlock endBlock : Option ℤ) : DataCollectionConfig where
  mode := .partialMode
  startBlock
  endBlock
  contracts := some []

end Deployment

end BlockchainDataCollection.Producing
